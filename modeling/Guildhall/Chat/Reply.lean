import Guildhall.Failure
import Guildhall.Value

/-!
# Replies

The text a user sees for the outcome of a command. What an executor has failed with does not show in
it; why permissions could not be looked up does.
-/

namespace Guildhall.Chat

/-- The reply to an error; `sigil` is what commands begin with. -/
def errorReply (sigil : String) : DispatchError → String
  | .unknownCommand name =>
    let shown := if name.isEmpty then "" else s!" `{name}`"
    s!"Unknown command{shown}. Use `{sigil}help` to list commands."
  | .invalidArguments message usage =>
    if usage.isEmpty then message else s!"{message}\nUsage: `{sigil}{usage}`"
  | .permissionDenied identifier => s!"You are missing the `{identifier}` permission."
  | .execution command _ => s!"Something went wrong while running `{command}`."
  | error => error.message

def resultReply : Value → String
  | .atom .null => ""
  | result => result.text

end Guildhall.Chat
