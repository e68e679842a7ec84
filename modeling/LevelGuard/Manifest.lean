import LevelGuard.Baseline
import LevelGuard.Files.Tree
import LevelGuard.Markup.Event
import LevelGuard.Text.Basic

/-!
# Manifests

Of a manifest the package, the range of levels, the permissions it asks for and the
dangerous ones among those it declares are read. Attributes are known by their
local names and taken as written. A later element replaces the package and the
levels of an earlier one; permissions add up.
-/
namespace LevelGuard.Manifest

structure Facts where
  package : Option String := none
  min : Option Level := none
  target : Option Level := none
  permissions : NameSet := .empty
  dangerous : NameSet := .empty

namespace Facts

/-- The level of an attribute; anything but a number counts for nothing. -/
def levelOf? (tag : Markup.Tag) (name : String) : Option Level :=
  (tag.localRaw? name).bind fun raw => Level.ofText? (Text.trimmed raw)

def isDangerous (tag : Markup.Tag) : Bool :=
  (tag.localRaw? "protectionLevel").any fun raw => (Text.splitAll '|' raw).contains "dangerous"

def addTag (F : Facts) (tag : Markup.Tag) : Facts :=
  match tag.name with
  | "manifest" => { F with package := tag.localRaw? "package" }
  | "uses-sdk" =>
    { F with min := levelOf? tag "minSdkVersion", target := levelOf? tag "targetSdkVersion" }
  | "uses-permission" | "uses-permission-sdk-23" | "uses-permission-sdk-m" =>
    { F with permissions := F.permissions.insertAll (tag.localRaw? "name").toList }
  | "permission" =>
    if isDangerous tag then
      { F with dangerous := F.dangerous.insertAll (tag.localRaw? "name").toList }
    else F
  | _ => F

def addEvent (F : Facts) : Markup.Event → Facts
  | .start tag | .empty tag => F.addTag tag
  | .close _ | .text _ | .other => F

def read? (text : String) : Option Facts :=
  let r := Markup.read text.toList
  if r.faulty then none else some ((r.events.map (·.event)).foldl addEvent {})

/-- The baseline a manifest declares. Without a minimum it is level 1, and without a
target the minimum. -/
def baseline (F : Facts) : Baseline :=
  let min := F.min.getD 1
  { Baseline.ofRange min (F.target.getD min) with
    permissions := F.permissions
    revocable := F.dangerous }

end Facts
end LevelGuard.Manifest

namespace LevelGuard

inductive ManifestFault where
  | unreadable (path : Path) (reason : FileFault)
  | malformed (path : Path)
  deriving Repr

def ManifestFault.message : ManifestFault → String
  | unreadable path reason => "Failed to read manifest " ++ path.text ++ ": " ++ reason.message
  | malformed path => "Failed to parse manifest " ++ path.text

def Baseline.ofManifest (t : FileTree) (path : Path) : Except ManifestFault Baseline :=
  match t.read path with
  | .error reason => .error (.unreadable path reason)
  | .ok text =>
    match Manifest.Facts.read? text with
    | none => .error (.malformed path)
    | some F => .ok F.baseline

end LevelGuard
