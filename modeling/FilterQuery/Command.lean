import FilterQuery.Command.Arguments
import FilterQuery.Task

/-!
# Commands

The commands of the program, how they are written as arguments, and what running one gives: an exit
code and the texts for the two output channels. Arguments that are no command give the exit code 2,
a task that fails gives its error and the exit code 1.
-/

namespace FilterQuery

/-- What the program can be asked to do. -/
inductive Command where
  /-- Checks that a query is well formed. -/
  | check (query : String) (limits : Limits)
  /-- Prints the tree of a query. -/
  | printTree (query : String) (indent : Bool) (limits : Limits)
  /-- Filters documents, which are read from the standard input if none are given. -/
  | filter (query : String) (input : Option String) (indent : Bool) (options : Predicate.Options)
  /-- Prints the statement of a query. -/
  | statement (query : String) (options : Sql.Options)
  /-- Prints the overview of the manual. -/
  | overview
  /-- Prints the manual on a topic. -/
  | manual (topic : String)
  /-- Prints the name and version of the program. -/
  | version

namespace Command

/-! ## Arguments -/

/-- The greatest number that an option takes is below this. -/
def numberBound : Nat := Nat.pow 2 64

/-- Reads the value of an option as a number: figures, after a plus sign if there is one. -/
def readNumber? (text : String) : Option Nat :=
  let figures := match text.toList with
    | '+' :: rest => rest
    | cs => cs
  if figures.isEmpty || !figures.all Char.isDigit then none
  else
    let n := Literal.readFigures figures
    if n < numberBound then some n else none

/-- The limits with the depth that the arguments ask for. -/
def limitsOf? (a : Arguments) : Option Limits :=
  match a.valueOf? "max-depth" with
  | none => some {}
  | some text => (readNumber? text).map fun depth => { depth }

/-- The permitted selectors: those given, or all if none is. -/
def allowedOf (a : Arguments) : Option (List String) :=
  match a.valuesOf "allow" with
  | [] => none
  | paths => some paths

/-- The option that bounds the depth of groups. -/
def depthSpec : OptionSpec := ⟨"max-depth", none, .single⟩

/-- The option that asks for one field to a line. -/
def prettySpec : OptionSpec := ⟨"pretty", some 'p', .flag⟩

/-- The option that gives the documents. -/
def inputSpec : OptionSpec := ⟨"input", some 'i', .single⟩

/-- The option that compares texts up to case. -/
def ignoreCaseSpec : OptionSpec := ⟨"ignore-case", none, .flag⟩

/-- The option that permits a selector. -/
def allowSpec : OptionSpec := ⟨"allow", none, .repeated⟩

/-- The option that names the table. -/
def tableSpec : OptionSpec := ⟨"table", some 't', .single⟩

/-- The option that names a column to select. -/
def selectSpec : OptionSpec := ⟨"select", some 's', .repeated⟩

/-- Reads the arguments of the check command. -/
def readCheck? (args : List String) : Option Command := do
  let a ← Arguments.read? [depthSpec] args
  return .check (← a.onlyPositional?) (← limitsOf? a)

/-- Reads the arguments of the parse command. -/
def readPrintTree? (args : List String) : Option Command := do
  let a ← Arguments.read? [prettySpec, depthSpec] args
  return .printTree (← a.onlyPositional?) (a.hasFlag "pretty") (← limitsOf? a)

/-- Reads the arguments of the filter command. -/
def readFilter? (args : List String) : Option Command := do
  let a ← Arguments.read? [inputSpec, prettySpec, ignoreCaseSpec, allowSpec] args
  return .filter (← a.onlyPositional?) (a.valueOf? "input") (a.hasFlag "pretty")
    { ignoreCase := a.hasFlag "ignore-case", allowed := allowedOf a }

/-- Reads the arguments of the sql command. -/
def readStatement? (args : List String) : Option Command := do
  let a ← Arguments.read? [tableSpec, selectSpec, allowSpec, ignoreCaseSpec] args
  let options : Sql.Options :=
    { table := ← a.valueOf? "table", columns := a.valuesOf "select", allowed := allowedOf a,
      ignoreCase := a.hasFlag "ignore-case" }
  return .statement (← a.onlyPositional?) options

/-- Reads the arguments of the docs command. -/
def readOverview? (args : List String) : Option Command := do
  let a ← Arguments.read? [] args
  if a.positionals.isEmpty then some .overview else none

/-- Reads the arguments of the doc command. -/
def readManual? (args : List String) : Option Command := do
  let a ← Arguments.read? [] args
  return .manual (← a.onlyPositional?)

/-- Whether an argument asks for the version. -/
def asksVersion (arg : String) : Bool :=
  arg == "--version" || arg.toList.take 2 == ['-', 'V']

/-- The command that a list of arguments is, if it is one. -/
def ofArguments? : List String → Option Command
  | [] => none
  | first :: rest =>
    if asksVersion first then some .version
    else match first with
      | "check" => readCheck? rest
      | "parse" => readPrintTree? rest
      | "filter" => readFilter? rest
      | "sql" => readStatement? rest
      | "docs" => readOverview? rest
      | "doc" => readManual? rest
      | _ => none

/-! ## Running -/

/-- What a run of the program leaves behind. -/
structure Outcome where
  exitCode : Nat
  output : String
  errors : String
deriving DecidableEq

/-- The name and version of the program. -/
def versionText : String := "fiql 0.1.0"

/-- The text of the standard input, given its bytes. -/
def readInput (bytes : ByteArray) : Except Task.Error String :=
  match String.fromUTF8? bytes with
  | some text => .ok text
  | none => .error .badEncoding

/-- The lines that show a statement: its text and, if it has any, its values. -/
def showStatement (s : Sql.Statement) : String :=
  s.text ++ "\n" ++
    if s.params.isEmpty then ""
    else (Json.array (Literal.toJsonItems s.params)).compact ++ "\n"

/-- The documents for a filter: those given with the command, or else the standard input, whose bytes
are `none` if there is no one to send any. -/
def filterInput (given : Option String) (input : Option ByteArray) :
    Except Task.Error (Option String) :=
  match given, input with
  | some text, _ => .ok (some text)
  | none, some bytes => (readInput bytes).map some
  | none, none => .ok none

/-- What a command writes to the standard output, given the bytes of the standard input. -/
def output (input : Option ByteArray) : Command → Except Task.Error String
  | .check query limits => do
    Task.check query limits
    return "Syntax is valid\n"
  | .printTree query indent limits => do return (← Task.printTree query indent limits) ++ "\n"
  | .filter query given indent options => do
    let kept ← Task.filter query (← filterInput given input) options
    return (if indent then kept.indented else kept.compact) ++ "\n"
  | .statement query options => do return showStatement (← Task.statement query options)
  | .overview => .ok Manual.overview
  | .manual topic => Task.manual topic
  | .version => .ok (versionText ++ "\n")

/-- Runs a command. -/
def run (c : Command) (input : Option ByteArray) : Outcome :=
  match c.output input with
  | .ok text => ⟨0, text, ""⟩
  | .error e => ⟨1, "", e.message ++ "\n"⟩

/-- Whether a command reads the standard input. -/
def needsInput : Command → Bool
  | .filter _ none _ _ => true
  | _ => false

/-- How the program is called. -/
def usage : String := "Usage: fiql <check|parse|filter|sql|docs|doc> [OPTIONS] [ARGUMENT]\n"

/-- Runs the program with a list of arguments. -/
def runArguments (args : List String) (input : Option ByteArray) : Outcome :=
  match ofArguments? args with
  | some c => c.run input
  | none => ⟨2, "", usage⟩

end Command

end FilterQuery
