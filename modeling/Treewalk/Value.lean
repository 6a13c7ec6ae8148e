import Treewalk.Number.Shortest

/-!
# Values

A value is a number, a boolean or a string. `text` is what printing and concatenation show of it.
-/

set_option autoImplicit false
set_option relaxedAutoImplicit false

namespace Treewalk

inductive Kind where
  | number
  | boolean
  | string
  deriving DecidableEq

def Kind.name : Kind → String
  | .number => "number"
  | .boolean => "boolean"
  | .string => "string"

inductive Value where
  | number (x : Number)
  | boolean (b : Bool)
  | string (s : String)
  deriving DecidableEq

namespace Value

def kind : Value → Kind
  | .number _ => .number
  | .boolean _ => .boolean
  | .string _ => .string

/-- What `and` and `or` decide by. NaN differs from zero and so counts as true. -/
def isTruthy : Value → Bool
  | .number x => x.toFloat != 0
  | .boolean b => b
  | .string s => s != ""

def text : Value → String
  | .number x => Number.text x
  | .boolean true => "true"
  | .boolean false => "false"
  | .string s => s

end Value

end Treewalk
