import LevelGuard.Diagnostic
import LevelGuard.Files.Tree
import LevelGuard.Format.Style

/-!
# Configuration

A configuration says what to check against what, and how to report it. It is read
from a file whose extension tells its style; without a known extension two styles
are tried. Paths of databases and of the manifest are relative to the file they
are written in, all others to the working directory.
-/
namespace LevelGuard

structure ReportSettings where
  format : String := "terminal"
  output : Option Path := none
  groupBy : String := "file"
  deriving Repr

structure Config where
  targets : List String := []
  exclude : List String := ["**/build/**", "**/generated/**", "**/.gradle/**"]
  apiDatabase : Option Path := none
  permissionDatabase : Option Path := none
  manifest : Option Path := none
  minLevel : Option Level := none
  targetLevel : Option Level := none
  compileLevel : Option Level := none
  disabled : List Category := []
  report : ReportSettings := {}
  deriving Repr

inductive ConfigFault where
  | unreadable (path : Path)
  | malformed (style : Option Format.Style)
  deriving Repr

def ConfigFault.message : ConfigFault → String
  | unreadable path => "Failed to read config file: " ++ path.text
  | malformed (some .yaml) => "Failed to parse YAML config"
  | malformed (some .toml) => "Failed to parse TOML config"
  | malformed _ => "Failed to parse config file"

namespace Config

open Format

/-- The categories that can be turned off, with the names of their settings. -/
def checks : List (String × Category) :=
  [("new_api", .newApi), ("inlined_api", .inlinedApi), ("missing_permission", .missingPermission),
    ("revocable_permission", .revocablePermission), ("override", .override),
    ("unused_attribute", .unusedAttribute)]

def disabledOf? (style : Style) (v : Value) : Option (List Category) := do
  let fields ← Fields.of? style.byPosition (checks.map (·.1)) v
  let enabled ← checks.mapM fun (name, category) => do
    return (category, ← fields.get? name Value.flag? true)
  return (enabled.filter fun (_, isOn) => !isOn).map (·.1)

def path? (v : Value) : Option Path := v.text?.map Path.mk

def reportOf? (style : Style) (v : Value) : Option ReportSettings := do
  let fields ← Fields.of? style.byPosition ["format", "output", "group_by"] v
  return {
    format := ← fields.get? "format" Value.text? "terminal"
    output := ← fields.get? "output" (Value.optional? path?) none
    groupBy := ← fields.get? "group_by" Value.text? "file" }

def fieldNames : List String :=
  ["targets", "exclude", "api_database", "permission_database", "manifest", "min_sdk",
    "target_sdk", "compile_sdk", "checks", "report"]

def ofValue? (style : Style) (v : Value) : Option Config := do
  let fields ← Fields.of? style.byPosition fieldNames v
  let default : Config := {}
  return {
    targets := ← fields.get? "targets" (Value.list? Value.text?) []
    exclude := ← fields.get? "exclude" (Value.list? Value.text?) default.exclude
    apiDatabase := ← fields.get? "api_database" (Value.optional? path?) none
    permissionDatabase := ← fields.get? "permission_database" (Value.optional? path?) none
    manifest := ← fields.get? "manifest" (Value.optional? path?) none
    minLevel := ← fields.get? "min_sdk" (Value.optional? Value.level?) none
    targetLevel := ← fields.get? "target_sdk" (Value.optional? Value.level?) none
    compileLevel := ← fields.get? "compile_sdk" (Value.optional? Value.level?) none
    disabled := ← fields.get? "checks" (disabledOf? style) []
    report := ← fields.get? "report" (reportOf? style) {} }

def ofText? (style : Style) (text : String) : Option Config :=
  (style.read? text).bind (ofValue? style)

def stylesOf (path : Path) : List Style :=
  match path.extension? with
  | some "yml" | some "yaml" => [.yaml]
  | some "toml" => [.toml]
  | _ => [.yaml, .toml]

/-- The configuration with its databases and manifest seen from a folder. -/
def relativeTo (folder : Path) (c : Config) : Config :=
  { c with
    apiDatabase := c.apiDatabase.map folder.join
    permissionDatabase := c.permissionDatabase.map folder.join
    manifest := c.manifest.map folder.join }

def ofFile (t : FileTree) (path : Path) : Except ConfigFault Config := do
  let text ← (t.read path).mapError fun _ => .unreadable path
  let styles := stylesOf path
  match styles.findSome? (ofText? · text) with
  | some c => return c.relativeTo (path.parent?.getD ⟨"."⟩)
  | none =>
    throw (.malformed (match styles with
      | [style] => some style
      | _ => none))

/-- The names a configuration may have in the root of a project, best first. -/
def defaultNames : List String :=
  [".apicheck.yml", ".apicheck.yaml", ".apicheck.toml", "apicheck.toml"]

def ofProject (t : FileTree) (root : Path) : Except ConfigFault Config :=
  match (defaultNames.map fun n => root.join ⟨n⟩).find? t.exists_ with
  | some path => ofFile t path
  | none => .ok {}

end Config
end LevelGuard
