/-!
# Uptime

How long the bot has been running, for people.
-/

namespace Guildhall.Feature

/-- A number of seconds as hours, minutes and seconds. -/
def uptimeText (seconds : Int) : String :=
  if 3600 ≤ seconds then
    s!"{seconds / 3600} hrs, {seconds % 3600 / 60} min, {seconds % 60} sec"
  else if 60 ≤ seconds then s!"{seconds / 60} min, {seconds % 60} sec"
  else s!"{seconds} sec"

end Guildhall.Feature
