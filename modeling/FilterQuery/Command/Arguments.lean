/-!
# Arguments of a command

The arguments of a command are options and positional values, in any order. An option has a long name
and may have a one-letter name; it is a flag, or it takes a value, which follows as an argument of
its own or is attached. One-letter flags can share an argument, which an option with a value may end.
An argument that starts with a hyphen is never a value, unless it is a lone hyphen or follows `--`,
which ends the options.
-/

namespace FilterQuery.Command

/-- How often an option may be given, and whether it takes a value. -/
inductive Arity where
  | flag
  | single
  | repeated
deriving DecidableEq

/-- An option that a command knows. -/
structure OptionSpec where
  long : String
  short : Option Char
  arity : Arity
deriving DecidableEq

/-- The arguments of a command, sorted out. -/
structure Arguments where
  /-- The long names of the flags that are set. -/
  flags : List String
  /-- The options with a value: their long names and values, in the order given. -/
  values : List (String × String)
  positionals : List String
deriving DecidableEq

namespace Arguments

/-- No arguments. -/
def empty : Arguments := ⟨[], [], []⟩

/-- Whether a flag is set. -/
def hasFlag (a : Arguments) (long : String) : Bool := a.flags.contains long

/-- All values of an option. -/
def valuesOf (a : Arguments) (long : String) : List String :=
  (a.values.filter (·.1 == long)).map (·.2)

/-- The value of an option that may be given once. -/
def valueOf? (a : Arguments) (long : String) : Option String := (a.valuesOf long).head?

/-- Sets a flag, which may be set once. -/
def setFlag? (a : Arguments) (spec : OptionSpec) : Option Arguments :=
  if a.hasFlag spec.long then none else some { a with flags := a.flags ++ [spec.long] }

/-- Adds a value of an option; an option that is not repeatable may have one. -/
def addValue? (a : Arguments) (spec : OptionSpec) (value : String) : Option Arguments :=
  if spec.arity = .single ∧ (a.valueOf? spec.long).isSome then none
  else some { a with values := a.values ++ [(spec.long, value)] }

/-- Whether an argument can only be an option: it starts with a hyphen and has more after it. -/
def isOption (arg : List Char) : Bool :=
  match arg with
  | '-' :: _ :: _ => true
  | _ => false

/-- Takes in an argument with a long name, given without its hyphens. Gives the option whose value
has to follow, if one has to. -/
def readLong? (specs : List OptionSpec) (a : Arguments) (arg : List Char) :
    Option (Arguments × Option OptionSpec) := do
  let name := String.ofList (arg.takeWhile (· != '='))
  let attached := match arg.dropWhile (· != '=') with
    | [] => none
    | _ :: value => some (String.ofList value)
  let spec ← specs.find? (·.long == name)
  match spec.arity, attached with
  | .flag, none => return (← a.setFlag? spec, none)
  | .flag, some _ => none
  | _, some value => return (← a.addValue? spec value, none)
  | _, none => return (a, some spec)

/-- Takes in an argument with one-letter names, given without its hyphen: flags, and at its end
possibly an option with the rest of the argument as its value. -/
def readShort? (specs : List OptionSpec) (a : Arguments) :
    List Char → Option (Arguments × Option OptionSpec)
  | [] => some (a, none)
  | c :: rest =>
    match specs.find? (·.short == some c) with
    | none => none
    | some spec =>
      match spec.arity, rest with
      | .flag, rest =>
        match a.setFlag? spec with
        | none => none
        | some a => readShort? specs a rest
      | _, [] => some (a, some spec)
      | _, '=' :: value => (a.addValue? spec (String.ofList value)).map (·, none)
      | _, value => (a.addValue? spec (String.ofList value)).map (·, none)

/-- Sorts out the arguments that are left; `pending` is an option whose value has to come next. -/
def readFrom? (specs : List OptionSpec) (a : Arguments) (pending : Option OptionSpec) :
    List String → Option Arguments
  | [] => if pending.isSome then none else some a
  | arg :: rest =>
    match pending, arg.toList with
    | some spec, cs =>
      if isOption cs then none
      else match a.addValue? spec arg with
        | none => none
        | some a => readFrom? specs a none rest
    | none, ['-', '-'] => some { a with positionals := a.positionals ++ rest }
    | none, '-' :: '-' :: long =>
      match readLong? specs a long with
      | none => none
      | some (a, pending) => readFrom? specs a pending rest
    | none, '-' :: c :: more =>
      match readShort? specs a (c :: more) with
      | none => none
      | some (a, pending) => readFrom? specs a pending rest
    | none, _ => readFrom? specs { a with positionals := a.positionals ++ [arg] } none rest

/-- Sorts out the arguments of a command that knows the given options. -/
def read? (specs : List OptionSpec) (args : List String) : Option Arguments :=
  readFrom? specs .empty none args

/-- The one positional value, if there is exactly one. -/
def onlyPositional? (a : Arguments) : Option String :=
  match a.positionals with
  | [value] => some value
  | _ => none

end Arguments

end FilterQuery.Command
