import AgentBenchX.Schemas

/-!
# TOML values

What `tomllib.loads` returns, as the values Python has for it, and which
of them a JSON column can hold: `json.dumps` has no text for dates and
times and for integers of more than 4300 digits, gives up on values nested
too deeply, and PostgreSQL refuses the names it writes for infinities and
NaN.
-/

namespace AgentBenchX

/-- A TOML value. A moment is a date, a time or both, with the name Python's
messages have for its type, such as `datetime.date`. -/
inductive Toml where
  | string (s : String)
  | integer (n : ℤ)
  | float (x : PyFloat)
  | boolean (b : Bool)
  | moment (type : String) (text : String)
  | array (items : List Toml)
  | table (members : List (String × Toml))

namespace Toml

/-- The type as Python's messages name it. -/
def typeName : Toml → String
  | .string _ => "str"
  | .integer _ => "int"
  | .float _ => "float"
  | .boolean _ => "bool"
  | .moment type _ => type
  | .array _ => "list"
  | .table _ => "dict"

def text? : Toml → Option String
  | .string s => some s
  | _ => none

/-- The items of a list of strings. -/
def texts? : Toml → Option (List String)
  | .array items => items.mapM text?
  | _ => none

mutual

/-- The value fits a JSON column, with at most `depth` containers inside of
each other. -/
def storable (depth : ℕ) : Toml → Bool
  | .string _ => true
  | .integer n => decide (n.natAbs < 10 ^ 4300)
  | .float x => x.isFinite
  | .boolean _ => true
  | .moment _ _ => false
  | .array items =>
      match depth with
      | 0 => false
      | depth + 1 => storableItems depth items
  | .table members =>
      match depth with
      | 0 => false
      | depth + 1 => storableMembers depth members

def storableItems (depth : ℕ) : List Toml → Bool
  | [] => true
  | v :: vs => storable depth v && storableItems depth vs

def storableMembers (depth : ℕ) : List (String × Toml) → Bool
  | [] => true
  | (_, v) :: ms => storable depth v && storableMembers depth ms

end

end Toml

/-! ## Numbers -/

namespace PyFloat

/-- `int(x)` of a finite float. -/
def truncate (q : ℚ) : ℤ := q.num.tdiv q.den

end PyFloat

end AgentBenchX
