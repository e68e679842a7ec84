import LevelGuard.Baseline
import LevelGuard.Diagnostic
import LevelGuard.Platform.Catalog
import LevelGuard.Platform.Symbol
import LevelGuard.Resource.Document

/-!
# Checking resources

The elements of a resource file are compared with the least level of the devices
that read them: the minimum of the module, raised by the folder of the file and by
the target an element or an element around it declares. What is checked depends on
the type of the folder; references to resources of the platform are checked in
every file.

An attribute that older devices do not know is ignored by them, which is a lesser
finding than a class or a resource that they do not have.
-/
namespace LevelGuard.Check

open Resource

structure ResourceSetting where
  path : Path
  catalog : Platform.Catalog
  baseline : Baseline

namespace ResourceSetting

def folder? (C : ResourceSetting) : Option Folder :=
  if Folder.isResourcePath C.path then Folder.ofPath? C.path else none

/-- The level that the folder limits its files to. -/
def folderLevel (C : ResourceSetting) : Level := (C.folder?.bind (·.version)).getD 0

def finding (C : ResourceSetting) (span : Span) (category : Category) (message : String) :
    Diagnostic :=
  .of C.path span category message

def levelOf? (C : ResourceSetting) (s : Symbol) : Option Level :=
  (C.catalog.demands s none).findSome? fun
    | .version v => some v
    | .permission _ => none

def attributeLevel? (C : ResourceSetting) (name : String) : Option Level :=
  C.levelOf? (.field "android.R.attr" name)

def minClause (C : ResourceSetting) : String :=
  "(current min is " ++ toString C.baseline.min ++ ")"

def requiresClause (C : ResourceSetting) (level : Level) : String :=
  " requires API level " ++ toString level ++ " " ++ C.minClause

/-! ### Layouts and drawables -/

/-- The packages in which a view without a package is looked for. -/
def viewPackages : List String := ["android.widget.", "android.view.", "android.webkit."]

def nonViewTags : List String :=
  ["merge", "include", "requestFocus", "fragment", "tag", "data", "layout"]

def tagLevel : Level := 21

def viewClass? (e : Element) : Option String :=
  if e.tag = "view" then (e.attribute? "class").map (·.value) else some e.tag

def viewCandidates (name : String) : List String :=
  if name.toList.contains '.' then [name] else viewPackages.map (· ++ name)

def viewLevel? (C : ResourceSetting) (name : String) : Option (String × Level) :=
  (viewCandidates name).findSome? fun c =>
    if (C.catalog.class? c).isSome then (C.levelOf? (.type c)).map fun level => (c, level)
    else none

def checkView (C : ResourceSetting) (floor : Level) (e : Element) : List Diagnostic :=
  match viewClass? e with
  | none => []
  | some name =>
    if nonViewTags.contains name then
      if name = "tag" && floor < tagLevel then
        [C.finding e.span .unusedAttribute
          ("<tag> is only used in API level " ++ toString tagLevel ++ " and higher " ++ C.minClause)]
      else []
    else
      match C.viewLevel? name with
      | some (c, level) =>
        if level ≤ floor then []
        else
          [C.finding e.span .newApi
            ("View" ++ C.requiresClause level ++ ": <" ++ Text.lastSegment '.' c ++ ">")]
      | none => []

def drawableLevel? (tag : String) : Option Level :=
  if ["ripple", "vector", "animated-selector", "animated-vector"].contains tag then some 21
  else none

def checkDrawable (C : ResourceSetting) (floor : Level) (e : Element) : List Diagnostic :=
  match if e.isRoot then drawableLevel? e.tag else none with
  | some level =>
    if floor < level then
      [C.finding e.span .newApi ("<" ++ e.tag ++ ">" ++ C.requiresClause level)]
    else []
  | none => []

/-- Attributes that make some devices below a level crash. -/
def relativePaddings : List String := ["paddingStart", "paddingEnd"]

def relativePaddingLevel : Level := 17

/-- Whether devices that crash on relative paddings read an element. -/
def readByCrashing (C : ResourceSetting) (floor : Level) : Bool :=
  C.folderLevel < relativePaddingLevel && floor < relativePaddingLevel

/-- The folder need not be asked for a floor that is not below its level. -/
theorem readByCrashing_eq {C : ResourceSetting} {floor : Level} (h : C.folderLevel ≤ floor) :
    C.readByCrashing floor = decide (floor < relativePaddingLevel) := by
  rw [readByCrashing, Bool.and_eq_right_iff_imp]
  simpa using Nat.lt_of_le_of_lt h

def checkAttributeName (C : ResourceSetting) (floor : Level) (a : Attribute) : List Diagnostic :=
  match a.platformName? with
  | none => []
  | some name =>
    if relativePaddings.contains name then
      if C.readByCrashing floor then
        [C.finding a.span .newApi
          ("Attribute " ++ name
            ++ " referenced here can result in a crash on some specific devices older than API "
            ++ toString relativePaddingLevel ++ " " ++ C.minClause)]
      else []
    else
      match C.attributeLevel? name with
      | some level =>
        if floor < level then
          [C.finding a.span .unusedAttribute
            ("Attribute " ++ name ++ " is only used in API level " ++ toString level
              ++ " and higher " ++ C.minClause)]
        else []
      | none => []

/-! ### References and styles -/

def resourceField (name : String) : String := Text.replaceAll (· = '.') '_' name

/-- The type and the name of the platform resource that a value refers to. -/
def reference? (value : String) : Option (String × String) :=
  match Text.afterStart? "@android:" value with
  | some rest => Text.splitFirst? '/' rest
  | none =>
    (Text.afterStart? "?android:" value).map fun rest =>
      (Text.splitFirst? '/' rest).getD ("attr", rest)

/-- The name of the platform resource that a value refers to, and its level. -/
def referenceLevel? (C : ResourceSetting) (value : String) : Option (String × Level) := do
  let (type, name) ← reference? value
  let level ← C.levelOf? (.field ("android.R." ++ type) (resourceField name))
  return (name, level)

/-- The value of an attribute. One that is itself read only from a level on needs
nothing older. -/
def checkReference (C : ResourceSetting) (floor : Level) (a : Attribute) : List Diagnostic :=
  let value := Text.trimmed a.value
  match C.referenceLevel? value with
  | none => []
  | some (name, level) =>
    if level ≤ floor then []
    else
      let plain := [C.finding a.span .newApi (value ++ C.requiresClause level)]
      match a.platformName? with
      | none => plain
      | some own =>
        match C.attributeLevel? own with
        | none => plain
        | some readFrom =>
          if level ≤ readFrom then []
          else if C.baseline.min < readFrom then
            [C.finding a.span .newApi
              (name ++ C.requiresClause level ++ ", but note that attribute " ++ own
                ++ " is only used in API level " ++ toString readFrom ++ " and higher")]
          else plain

def checkPlatformName (C : ResourceSetting) (floor : Level) (a : Attribute)
    (level? : String → Option Level) : List Diagnostic :=
  match Text.afterStart? "android:" (Text.trimmed a.value) with
  | none => []
  | some name =>
    match level? name with
    | some level =>
      if floor < level then [C.finding a.span .newApi ("android:" ++ name ++ C.requiresClause level)]
      else []
    | none => []

def checkItemText (C : ResourceSetting) (floor : Level) (text : String) (span : Span) :
    List Diagnostic :=
  match C.referenceLevel? text with
  | some (_, level) =>
    if floor < level then [C.finding span .newApi (text ++ C.requiresClause level)] else []
  | none => []

def checkValues (C : ResourceSetting) (floor : Level) (e : Element) : List Diagnostic :=
  match e.tag with
  | "style" =>
    match e.attribute? "parent" with
    | some a =>
      C.checkPlatformName floor a fun s => C.levelOf? (.field "android.R.style" (resourceField s))
    | none => []
  | "item" =>
    ((e.attribute? "name").map fun a => C.checkPlatformName floor a C.attributeLevel?).getD []
      ++ (e.text.map fun (text, span) => C.checkItemText floor text span).getD []
  | _ => []

/-! ### Documents -/

def targetLevel? (e : Element) : Option Level :=
  (e.attribute? "tools:targetApi").bind fun a =>
    let value := Text.trimmed a.value
    (Level.ofText? value).or (Platform.codenameLevel? value)

def floorOf (C : ResourceSetting) (floors : List Level) (e : Element) : Level :=
  let inherited := e.parent.elim C.baseline.min fun p => floors.getD p C.baseline.min
  (targetLevel? e).elim inherited (max inherited)

def floors (C : ResourceSetting) (elements : List Element) : List Level :=
  elements.foldl (fun fs e => fs ++ [C.floorOf fs e]) []

def checkElement (C : ResourceSetting) (floor : Level) (e : Element) : List Diagnostic :=
  let names := e.attributes.flatMap (C.checkAttributeName floor)
  let own :=
    match C.folder?.map (·.type) with
    | none => []
    | some "layout" => C.checkView floor e ++ names
    | some "drawable" => C.checkDrawable floor e ++ names
    | some "values" => C.checkValues floor e
    | some _ => names
  own ++ e.attributes.flatMap (C.checkReference floor)

def check (C : ResourceSetting) (d : Document) : List Diagnostic :=
  (d.elements.zip (C.floors d.elements)).flatMap fun (e, floor) =>
    C.checkElement (max floor C.folderLevel) e

end ResourceSetting

def checkDocument (K : Platform.Catalog) (B : Baseline) (path : Path) (d : Document) :
    List Diagnostic :=
  Diagnostic.report (ResourceSetting.check ⟨path, K, B⟩ d)

end LevelGuard.Check
