import Guildhall.Config.Settings
import Guildhall.Service.Service

/-!
# Setting up

A service as the settings describe it, with the permissions in a file.
-/

namespace Guildhall

open Config (Settings Surroundings)
open Permission (Disk FileStore)

/-- Whether there is a directory at a path: one that is in use, or one that holds a file. -/
def Config.Surroundings.isDirectory (w : Surroundings) (path : String) : Bool :=
  let path := Config.below w.directory path
  [w.home, w.directory, Config.below w.directory w.dataDirectory].contains path ||
    w.files.any fun (file, _) => (path ++ "/").toList.isPrefixOf file.toList

/-- Whether a file stands where a path has a directory, so that nothing can be put there. -/
def Config.Surroundings.isBelowFile (w : Surroundings) (path : String) : Bool :=
  let path := Config.below w.directory path
  w.files.any fun (file, _) => (file ++ "/").toList.isPrefixOf path.toList

def Config.Surroundings.disk (w : Surroundings) (path : String) : Disk :=
  match w.file? path with
  | some text => Disk.empty.put (.file text)
  | none =>
    if w.isDirectory path then Disk.empty.put .directory
    else if w.isBelowFile path then .closed .unknown
    else .atPath path

namespace Service

def Options.ofSettings (s : Settings) : Options :=
  ⟨s.sigil, s.superusers, s.ignoreBots, s.workers, s.grace, s.zone, s.version, s.built⟩

def ofSettings (s : Settings) (w : Surroundings) (now : Time.Moment) : Except Failure Service := do
  let path := s.permissionsPath w
  let disk := w.disk path
  let store ← FileStore.openAt path disk
  Service.new (.ofSettings s) ⟨.file store, disk⟩ now

def saved (s : Service) (path : String) (w : Surroundings) : Surroundings :=
  match s.body.archive.disk.content with
  | .file text => w.write path text
  | _ => w

end Service

end Guildhall
