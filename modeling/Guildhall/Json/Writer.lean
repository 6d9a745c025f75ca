import Guildhall.Text.Quoted
import Guildhall.Value

/-!
# Writing JSON
-/

namespace Guildhall.Json

def stringChar (c : Char) : List Char :=
  if c = '"' || c = '\\' then ['\\', c]
  else if c.toNat < 0x20 || c.toNat = 0x7F then '\\' :: 'u' :: Text.hexDigits 4 c.toNat
  else [c]

def stringText (s : String) : String :=
  "\"" ++ String.ofList (s.toList.flatMap stringChar) ++ "\""

def scalarText : Scalar → String
  | .null => "null"
  | .bool b => if b then "true" else "false"
  | .int i => toString i
  | .float .notANumber => "NaN"
  | .float (.infinite negative) => if negative then "-Infinity" else "Infinity"
  | .float x => x.text
  | .str s => stringText s
  | .stamp t => stringText t.text

mutual

def render : Value → String
  | .atom s => scalarText s
  | .list items => "[" ++ ",".intercalate (renderItems items) ++ "]"
  | .map entries => "\x7b" ++ ",".intercalate (renderEntries entries) ++ "\x7d"

def renderItems : List Value → List String
  | [] => []
  | item :: rest => render item :: renderItems rest

def renderEntries : List (Scalar × Value) → List String
  | [] => []
  | (key, v) :: rest => (stringText key.text ++ ":" ++ render v) :: renderEntries rest

end

end Guildhall.Json
