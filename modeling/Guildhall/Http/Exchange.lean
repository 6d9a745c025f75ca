import Guildhall.Http.Api
import Guildhall.Json.Writer

/-!
# Requests and responses as data

A request names its target and may have a method, headers and a body: as data, as a text, or as
bytes in hexadecimal digits.
-/

namespace Guildhall.Http

/-- The value of a hexadecimal digit; other characters count like one past the last. -/
def hexValue (c : Char) : Nat := "0123456789abcdef".toList.idxOf c.toLower

/-- The bytes that pairs of hexadecimal digits write. -/
def bytesOfHex : List Char → List Nat
  | high :: low :: rest => (16 * hexValue high + hexValue low) :: bytesOfHex rest
  | _ => []

def bodyOfValue (description : Value) : List Nat :=
  match description.field? "json" with
  | some data => Text.toUtf8 (Json.render data)
  | none =>
    match description.field? "body_hex" with
    | some digits => bytesOfHex digits.text.toList
    | none => Text.toUtf8 (description.textOr "body" "")

def headersOfValue : Value → List (String × String)
  | .map entries => entries.map fun (name, value) => (name.text, value.text)
  | _ => []

def Request.ofValue (description : Value) : Request :=
  .ofTarget (description.textOr "method" "GET") (description.get "path").text
    (headersOfValue (description.get "headers")) (bodyOfValue description)

def Response.toValue : Response → Value
  | .data status body => .record [("status", .count status), ("json", body)]
  | .refusal status text allowed =>
    .record [("status", .count status), ("text", .str text),
      ("allow", (allowed.map Value.texts).getD .null)]

end Guildhall.Http
