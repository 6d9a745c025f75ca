import Guildhall.Text.Blank

/-!
# Command paths

Where a command stands in the tree: the names from a root command down.
-/

namespace Guildhall.Command

/-- Whether a character separates the names of a written path, so that no name holds it. -/
def isPathSeparator (c : Char) : Bool :=
  c = '.' || c = '/' || Text.isBlank c

def pathOfText (text : String) : List String :=
  Text.fields isPathSeparator text

def pathOfNames (names : List String) : List String :=
  names.filter (!·.isEmpty)

end Guildhall.Command
