import Guildhall.Failure
import Guildhall.Value

/-!
# Details of failures

What an error tells besides its text, by name.
-/

namespace Guildhall

def DispatchError.details : DispatchError → List (String × Value)
  | .general _ => []
  | .unknownCommand name => [("name", .str name)]
  | .invalidArguments _ usage => [("usage", .str usage)]
  | .permissionDenied identifier => [("identifier", .str identifier)]
  | .lookupFailed guild user _ _ => [("guild", .textOrNull guild), ("user", .str user)]
  | .execution command _ => [("command", .str command)]
  | .guildOnly command => [("command", .str command)]

def RegistrationError.details : RegistrationError → List (String × Value)
  | .duplicateCommand name parent => [("name", .str name), ("parent", .str parent)]
  | .unknownParent path segment => [("path", .str path), ("segment", .str segment)]
  | .locked => []
  | .duplicateTask name => [("name", .str name)]
  | .invalid _ => []
  | .failed _ => []

end Guildhall
