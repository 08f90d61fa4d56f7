import SplatLang.Bindings
import SplatLang.Program
import SplatLang.Text.Decimal

/-!
# Values

Integers have 32 bits and wrap around. Text of a value is what a print statement writes, so a
string has no quotes there.
-/

namespace SplatLang

inductive Value
  | integer (n : Int32)
  | boolean (b : Bool)
  | string (s : String)
  deriving DecidableEq, Repr, Inhabited

namespace Value

def ty : Value → Ty
  | integer _ => .integer
  | boolean _ => .boolean
  | string _ => .string

def text : Value → String
  | integer n => toString n.toInt
  | boolean b => if b then "true" else "false"
  | string s => s

/-- The value that a variable of a type starts with. Only three types have one. -/
def zero? (t : Ty) : Option Value :=
  if t = .integer then some (integer 0)
  else if t = .boolean then some (boolean false)
  else if t = .string then some (string "")
  else none

def unquote? : List Char → Option (List Char)
  | '"' :: rest => if rest.getLast? = some '"' then some rest.dropLast else none
  | _ => none

def ofLiteral? (raw : String) : Option Value :=
  if raw = "true" then some (boolean true)
  else if raw = "false" then some (boolean false)
  else
    match unquote? raw.toList with
    | some cs => some (string (String.ofList cs))
    | none => (Text.int32? raw).map integer

end Value

/-- The values of the variables that one body sees. There is nothing outside it: a function body
does not see the variables of the program. -/
abbrev Env := Bindings Value

end SplatLang
