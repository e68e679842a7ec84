import LevelGuard.Files.Path
import LevelGuard.Files.Tree
import LevelGuard.Format.Style
import LevelGuard.Platform.Catalog
import LevelGuard.Platform.Database
import LevelGuard.Platform.PermissionTable

/-!
# Finding and loading the catalog

The database is the file that is asked for, or the copy of an installed kit: the
one of its tools, or else that of its newest platform. A permission table is
added if one is given: a record with the entries and the revocable permissions, where an entry
is a record of the symbol and one of the ways to give its permissions.
-/
namespace LevelGuard.Platform

open Format

namespace PermissionEntry

def fieldNames : List String :=
  ["symbol", "kind", "value", "any_of", "all_of", "expression", "conditional", "apis"]

def ofValue? (style : Style) (v : Value) : Option PermissionEntry := do
  let fields ← Fields.of? style.byPosition fieldNames v
  return {
    symbol := ← fields.get? "symbol" Value.text? ""
    kind := ← fields.get? "kind" (Value.optional? (Value.choice? style.saysNothing SymbolKind.ofName?)) none
    value := ← fields.get? "value" (Value.optional? Value.text?) none
    anyOf := ← fields.get? "any_of" (Value.list? Value.text?) []
    allOf := ← fields.get? "all_of" (Value.list? Value.text?) []
    expression := ← fields.get? "expression" (Value.optional? Value.text?) none
    conditional := ← fields.get? "conditional" Value.flag? false
    apis := ← fields.get? "apis" (Value.optional? Value.text?) none }

end PermissionEntry

namespace PermissionTable

def ofValue? (style : Style) (v : Value) : Option PermissionTable := do
  let fields ← Fields.of? style.byPosition ["permissions", "revocable"] v
  return {
    permissions := ← fields.get? "permissions" (Value.list? (PermissionEntry.ofValue? style)) []
    revocable := ← fields.get? "revocable" (Value.list? Value.text?) [] }

def styleOf (path : Path) : Style :=
  match path.extension? with
  | some "yml" | some "yaml" => .yaml
  | some "json" => .json
  | _ => .toml

def ofText (path : Path) (text : String) : Except LoadError PermissionTable :=
  match ((styleOf path).read? text).bind (ofValue? (styleOf path)) with
  | some t => .ok t
  | none => .error (.malformed path.text)

end PermissionTable

def databaseName : String := "api-versions.xml"

/-- The level of the platform a path is in, by the nearest folder named for one. -/
def platformLevel? (p : Path) : Option Level :=
  p.ancestors.findSome? fun a =>
    (a.fileName?.bind (Text.afterStart? "android-")).bind Level.ofText?

def databasesBelow (t : FileTree) (folder : Path) : List Path :=
  match t.find folder with
  | .ok (base, _) =>
    let below := t.entries.filterMap fun (names, _) =>
      if base.isPrefixOf names then some (names.drop base.length) else none
    let near := below.flatMap fun names => [1, 2, 3].map fun n => names.take n
    (near.filter fun names => names.getLast? = some databaseName).eraseDups.map fun names =>
      folder.join ⟨Text.joinWith "/" names⟩
  | .error _ => []

/-- The path with the greatest level, the last one if there are several. -/
def newest? : List (Level × Path) → Option (Level × Path)
  | [] => none
  | p :: ps =>
    match newest? ps with
    | none => some p
    | some q => if q.1 < p.1 then some p else some q

def newestDatabase? (t : FileTree) (platforms : Path) : Option Path :=
  (newest? ((databasesBelow t platforms).filterMap fun p =>
    (platformLevel? p).map fun v => (v, p))).map (·.2)

def findDatabase? (t : FileTree) (explicit : Option Path) (kits : List Path) : Option Path :=
  match explicit with
  | some p => if t.isFile p then some p else none
  | none => do
    let kit ← kits.find? t.isFolder
    let own := kit.join ⟨"platform-tools/api/" ++ databaseName⟩
    if t.isFile own then some own else newestDatabase? t (kit.join ⟨"platforms"⟩)

def readFile (t : FileTree) (p : Path) : Except LoadError String :=
  (t.read p).mapError fun f => .unreadable p.text f.message

def PermissionTable.ofFile (t : FileTree) (p : Path) : Except LoadError PermissionTable := do
  PermissionTable.ofText p (← readFile t p)

def Catalog.load (t : FileTree) (database table : Option Path) (kits : List Path) :
    Except LoadError Catalog := do
  match findDatabase? t database kits with
  | none => throw .databaseNotFound
  | some p =>
    let K := Catalog.ofClasses (← Database.read (← readFile t p))
    match table with
    | none => return K
    | some table => K.addTable (← PermissionTable.ofFile t table)

end LevelGuard.Platform
