import Guildhall.Failure
import Guildhall.Permission.Node
import Guildhall.Text.Ranges

/-!
# Mentions

How commands read their arguments: members and roles by mention or by id, and lists of
permission identifiers.
-/

namespace Guildhall.Feature

def isIdChar (c : Char) : Bool :=
  Text.inRanges Text.wordRanges c.toNat

/-- The id in front of the closing bracket that ends a mention, perhaps with a line end after
it. -/
def mentionedId? (body : List Char) : Option (List Char) :=
  let id := body.takeWhile isIdChar
  if id.isEmpty then none
  else
    match body.dropWhile isIdChar with
    | ['>'] => some id
    | ['>', '\n'] => some id
    | _ => none

def memberId (token : String) : String :=
  let id? := match token.toList with
    | '<' :: '@' :: '!' :: body => mentionedId? body
    | '<' :: '@' :: body => mentionedId? body
    | _ => none
  (id?.map String.ofList).getD token

def roleId (token : String) : String :=
  let id? := match token.toList with
    | '<' :: '@' :: '&' :: body => mentionedId? body
    | _ => none
  (id?.map String.ofList).getD token

/-- The canonical identifiers that the arguments of a command name, at least one. -/
def readIdentifiers (tokens : List String) : Except DispatchError (List String) :=
  if tokens.isEmpty then .error (.invalidArguments "Expected at least one permission node" "")
  else
    match Permission.parseAll tokens with
    | .ok nodes => .ok (nodes.map (·.value))
    | .error fault => .error (.invalidArguments fault.message "")

end Guildhall.Feature
