import Guildhall.Number.Double

/-!
# Access log

One line per request. Health checks and rejected requests are logged at the lower level.
-/

namespace Guildhall.Http

def quietPaths : List String := ["/health"]

structure Access where
  remote : Option String
  method : String
  path : String
  status : Int
  seconds : Double

/-- The level and the text of the log line for a request. -/
def Access.line (a : Access) : String × String :=
  let level := if quietPaths.contains a.path || a.status == 401 then "DEBUG" else "INFO"
  let remote := a.remote.getD "None"
  (level, s!"{remote} {a.method} {a.path} {a.status} {a.seconds.fixed 3}s")

end Guildhall.Http
