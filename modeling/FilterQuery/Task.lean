import FilterQuery.Json.Reader
import FilterQuery.Json.Writer
import FilterQuery.Manual
import FilterQuery.Predicate.Backend
import FilterQuery.Query.Encoding
import FilterQuery.Query.Parser
import FilterQuery.Sql.Backend

/-!
# Tasks

What the program can be asked to do with a query, as functions from texts to texts, and the errors
that a task can end with. If several things are wrong, the syntax of the query is reported before
the backend's objection, and that before a fault of the input.
-/

namespace FilterQuery.Task

/-- Why a task has no result. -/
inductive Error where
  /-- The query is not well formed. -/
  | badQuery (e : SyntaxError)
  /-- The query has no predicate. -/
  | badPredicate (e : Predicate.Error)
  /-- The query has no statement. -/
  | badStatement (e : Sql.Error)
  /-- The input is not a JSON text. -/
  | badJson
  /-- The input is not text. -/
  | badEncoding
  /-- There is no input. -/
  | noInput
  /-- The manual has no such topic. -/
  | unknownTopic (name : String)
deriving DecidableEq

/-- The text that reports the error. -/
def Error.message : Error → String
  | badQuery e => "Syntax error: " ++ e.message
  | badPredicate e => "Filter error: " ++ e.message
  | badStatement e => "SQL error: " ++ e.message
  | badJson => "Invalid JSON: the input is not a JSON text"
  | badEncoding => "IO error: stream did not contain valid UTF-8"
  | noInput => "No input provided. Use --input or pipe JSON to stdin."
  | unknownTopic name =>
    s!"Unknown category: '{name}'\nRun 'fiql docs' to see available categories."

/-- Reads the query of a task. -/
def readQuery (query : String) (limits : Limits) : Except Error Query :=
  match Query.parse query limits with
  | .ok q => .ok q
  | .error e => .error (.badQuery e)

/-- Checks that a query is well formed. -/
def check (query : String) (limits : Limits) : Except Error Unit := do
  let _ ← readQuery query limits

/-- The tree of a query as a JSON text, with one field to a line if `indent` is set. -/
def printTree (query : String) (indent : Bool) (limits : Limits) : Except Error String := do
  let q ← readQuery query limits
  return if indent then q.toJson.indented else q.toJson.compact

/-- The documents that an input holds: the items of an array, or the one value. -/
def documents : Json → List Json
  | .array items => items
  | single => [single]

/-- The documents of the input that satisfy a query, as a JSON array. -/
def filter (query : String) (input : Option String) (options : Predicate.Options) :
    Except Error Json := do
  let q ← readQuery query {}
  match Predicate.ofQuery q options, input with
  | .error e, _ => .error (.badPredicate e)
  | .ok _, none => .error .noInput
  | .ok p, some text =>
    match Json.read? text with
    | none => .error .badJson
    | some j => .ok (.array (p.filter (documents j)))

/-- The statement of a query. -/
def statement (query : String) (options : Sql.Options) : Except Error Sql.Statement := do
  let q ← readQuery query {}
  match Sql.ofQuery q options with
  | .ok s => .ok s
  | .error e => .error (.badStatement e)

/-- The text of the manual on a topic. -/
def manual (topic : String) : Except Error String :=
  match Manual.Topic.ofName? topic with
  | some t => .ok t.text
  | none => .error (.unknownTopic topic)

end FilterQuery.Task
