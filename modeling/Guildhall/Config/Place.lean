import Guildhall.Assoc
import Guildhall.Text.Blank

/-!
# Places

Paths of files, and what a program finds around it: environment variables and files. A file can be
written wherever its path leads, and holds characters only. Directories that are closed to the
program, full disks and halves of surrogate pairs are left out.
-/

namespace Guildhall.Config

/-- The names in a path; empty ones and those for the same directory say nothing. -/
def pathNames (path : String) : List String :=
  (Text.split '/' path).filter fun name => !name.isEmpty && name != "."

/-- What a path begins with: nothing when it is relative. -/
def pathRoot (path : String) : String :=
  match path.toList.takeWhile (· = '/') with
  | [] => ""
  | ['/', '/'] => "//"
  | _ => "/"

/-- A path seen from a directory, without names that say nothing. -/
def below (directory path : String) : String :=
  let start := if (pathRoot path).isEmpty then directory else ""
  let root := if (pathRoot path).isEmpty then pathRoot directory else pathRoot path
  match root ++ "/".intercalate (pathNames start ++ pathNames path) with
  | "" => "."
  | full => full

def normalPath (path : String) : String := below "" path

/-- What a program finds around it: environment variables, the home and the working directory,
and the texts of files by their full path. -/
structure Surroundings where
  environment : List (String × String)
  home : String
  directory : String
  files : List (String × String)

namespace Surroundings

def named? (s : Surroundings) (name : String) : Option String := s.environment.lookup name

def file? (s : Surroundings) (path : String) : Option String :=
  s.files.lookup (below s.directory path)

/-- The surroundings after a file has been written, which always succeeds. -/
def write (s : Surroundings) (path text : String) : Surroundings :=
  { s with files := Assoc.put (below s.directory path) text s.files }

def setVariable (s : Surroundings) (name : String) (value : Option String) : Surroundings :=
  { s with environment := match value with
      | some v => Assoc.put name v s.environment
      | none => Assoc.remove name s.environment }

end Surroundings

end Guildhall.Config
