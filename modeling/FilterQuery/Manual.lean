import FilterQuery.Text.LowerCase

/-!
# The manual

The texts that the program shows about itself: an overview, and one text for each topic. A topic is
named in any case, some under several names.
-/

namespace FilterQuery.Manual

/-- The topics that have a text of their own. -/
inductive Topic where
  | grammar
  | operators
  | values
  | backends
deriving DecidableEq

/-- The topic with the given name. -/
def Topic.ofName? (name : String) : Option Topic :=
  let key := (Text.lowerCase name).map fun c => if c = '-' then '_' else c
  if key = "syntax" ∨ key = "grammar" then some .grammar
  else if key = "operators" ∨ key = "ops" then some .operators
  else if key = "values" ∨ key = "value" ∨ key = "literals" then some .values
  else if key = "builders" ∨ key = "builder" ∨ key = "sql" ∨ key = "filter" then some .backends
  else none

/-- The list of topics, with a short reference. -/
def overview : String :=
"FIQL DOCUMENTATION

FIQL is a compact filter language: constraints on fields joined with ';' (and)
and ',' (or), grouped with parentheses.

DOCUMENTATION CATEGORIES

  syntax            Constraints, combinators, grouping and selectors
  operators         ==, !=, =gt=, =ge=, =lt=, =le=, =isnull= and custom operators
  values            Booleans, numbers, strings, quoting and value lists
  builders          How 'fiql filter' and 'fiql sql' interpret a query

QUICK REFERENCE

  name==John            Equality
  age=ge=25             Comparison
  a;b                   a AND b
  a,b                   a OR b
  (a,b);c               Grouping
  email                 email is present

Run 'fiql doc <category>' for detailed documentation.
"

/-- How constraints are written and joined. -/
def grammarText : String :=
"SYNTAX

GRAMMAR

  query      := or_expr
  or_expr    := and_expr (',' and_expr)*
  and_expr   := term (';' term)*
  term       := '(' or_expr ')' | constraint
  constraint := selector [ operator value ]

PRECEDENCE

  ';' (and) binds tighter than ',' (or).

    a,b;c       a OR (b AND c)
    (a,b);c     (a OR b) AND c

  Chains nest to the right: a;b;c is a AND (b AND c).

SELECTORS

  A selector is a field name, optionally qualified by one association:

    age
    groups.name

  More than one dot is rejected.

WHITESPACE

  Whitespace outside quotes is ignored: 'a == 1 ; b' equals 'a==1;b'.
"

/-- What the operators mean. -/
def operatorsText : String :=
"OPERATORS

EQUALITY

  ==        equal               name==John
  !=        not equal           status!=archived

  Both accept a value list:      id==(1,2,3)

COMPARISON

  =gt=      greater than        age=gt=17
  =ge=      greater or equal    age=ge=18
  =lt=      less than           price=lt=9.99
  =le=      less or equal       price=le=10
  =isnull=  null check          deleted_at=isnull=true

  Any other =name= operator is parsed and handed to the builder, which
  decides whether it understands it. Comparison operators never take a
  value list.

PRESENCE

  A selector on its own checks that the field is present and not null:

    email
"

/-- How values are written and typed. -/
def valuesText : String :=
"VALUES

TYPING

  Unquoted values are typed by trial:

    true, false           boolean
    18, -3, +7            integer
    18.5, -0.25           float
    anything else         string

  Quoted values are always strings:  code=='42'

QUOTING

  Strings are quoted with single quotes. Escape a quote inside a string
  with a backslash:

    name=='O\\'Brien'
    title=='Hello, world'

LISTS

  After == or != a parenthesized, comma-separated list may be given. Each
  element is typed on its own:

    id==(1,2,'three')
"

/-- How documents are filtered and statements made. -/
def backendsText : String :=
"BUILDERS

fiql filter
  Tests JSON documents in memory. '*' in a string value is a wildcard,
  value lists test membership, numbers compare exactly.

  Quoting does not escape '*': name=='a*b' is the same wildcard as
  name==a*b, so there is no way to match a literal '*'.

    echo '[\x7b\"name\":\"Jane Doe\"\x7d,\x7b\"name\":\"Bob\"\x7d]' | fiql filter 'name==*Doe'

fiql sql
  Renders a parameterized SELECT statement.

    fiql sql 'age=ge=18;name==J*' --table users
    => SELECT * FROM \"users\" WHERE (\"age\" >= $1 AND \"name\" LIKE $2)

  --allow restricts the selectors a query may use. --ignore-case lowers
  both sides of string comparisons and uses ILIKE for wildcards.
"

/-- The text of a topic. -/
def Topic.text : Topic → String
  | grammar => grammarText
  | operators => operatorsText
  | values => valuesText
  | backends => backendsText

end FilterQuery.Manual
