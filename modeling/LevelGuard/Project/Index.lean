import LevelGuard.Hierarchy
import LevelGuard.Java.Annotations
import LevelGuard.Java.Nested
import LevelGuard.Platform.Catalog

/-!
# The types of a project

The index knows the hierarchy of all types, those of the platform included, and
for each type declared in source its members and what they demand of callers. A
member of a class that requires a level requires at least that level.

Types are registered in the order of the source. A second declaration under the
same qualified name takes the place of the first.
-/
namespace LevelGuard.Project

open Java

structure SourceMethod where
  name : String
  params : Nat
  isVarargs : Bool
  isStatic : Bool
  returns : Option String := none
  level : Option Level := none
  permission : Option Permission.Requirement := none
  deriving Inhabited

def SourceMethod.accepts (m : SourceMethod) (arity : Nat) : Bool :=
  if m.isVarargs then m.params ≤ arity + 1 else arity = m.params

structure SourceField where
  type : Option String := none
  isStatic : Bool
  level : Option Level := none
  deriving Inhabited

structure SourceType where
  qualified : String
  /-- The simple name, empty for an anonymous class. -/
  simple : String
  package : Option String
  kind : TypeKind
  /-- Overloads by name in the order of declaration. -/
  methods : Table String (List SourceMethod) := .empty
  fields : Table String SourceField := .empty
  memberTypes : Table String String := .empty
  level : Option Level := none
  deriving Inhabited

namespace SourceType

/-- The first overload that accepts the number of arguments, or the first of all
if the number is not known. -/
def findMethod? (t : SourceType) (name : String) (arity : Option Nat) : Option SourceMethod :=
  (t.methods.get? name).bind fun overloads =>
    match arity with
    | some n => overloads.find? (·.accepts n)
    | none => overloads.head?

end SourceType

def methodKey (m : MethodDecl) : String := if m.isConstructor then constructorName else m.name

namespace SourceMethod

def ofDecl (classLevel : Option Level) (m : MethodDecl) : SourceMethod where
  name := m.name
  params := m.params.length
  isVarargs := m.isVarargs
  isStatic := m.isStatic
  level := laterOf (requiredLevel? m.annotations) classLevel
  permission := requiredPermission? m.annotations

end SourceMethod

def overloadsOf (classLevel : Option Level) (methods : List MethodDecl) :
    Table String (List SourceMethod) :=
  methods.foldl (fun t m =>
    t.insert (methodKey m) ((t.get? (methodKey m)).getD [] ++ [.ofDecl classLevel m])) .empty

def fieldsOf (classLevel : Option Level) (members : List Member) : Table String SourceField :=
  .ofList <| members.filterMap fun
    | .field f => some (f.name, ⟨none, f.isStatic, laterOf (requiredLevel? f.annotations) classLevel⟩)
    | .constant c => some (c.name, ⟨none, true, laterOf (requiredLevel? c.annotations) classLevel⟩)
    | _ => none

namespace SourceType

/-- A declaration before the names in it are resolved. -/
def ofDecl (package : Option String) (d : TypeDecl) : SourceType where
  qualified := d.qualified
  simple := d.name
  package := package
  kind := d.kind
  methods := overloadsOf (requiredLevel? d.annotations) d.methods
  fields := fieldsOf (requiredLevel? d.annotations) d.members
  level := requiredLevel? d.annotations

end SourceType

structure Index where
  hierarchy : Hierarchy := .empty
  types : Table String SourceType := .empty
  /-- Qualified names of the top-level types by package and simple name. -/
  packages : Table (String × String) String := .empty
  deriving Inhabited

namespace Index

def ofCatalog (K : Platform.Catalog) : Index :=
  let classes := K.classes.values
  let H := classes.foldl (fun H c => H.add c.name .platform) Hierarchy.empty
  { hierarchy := classes.foldl (fun H c =>
      c.interfaces.foldl (fun H i => H.link c.name i .implement)
        (c.superClass.elim H fun s => H.link c.name s .extend)) H }

def sourceType? (I : Index) (name : String) : Option SourceType := I.types.get? name

/-- Whether a type of this name is declared by the platform or in source. -/
def isKnown (I : Index) (name : String) : Bool := I.hierarchy.contains name

def ancestors (I : Index) (name : String) : List String := I.hierarchy.ancestors name

def lineage (I : Index) (name : String) : List String := name :: I.ancestors name

def packageType? (I : Index) (package : Option String) (simple : String) : Option String :=
  I.packages.get? (package.getD "", simple)

/-- The type a name belongs to, if it is a member type. -/
def outerName? (qualified : String) : Option String :=
  (Text.cutLast? (· == '.') qualified.toList).map fun (outer, _) => String.ofList outer

def topLevelName (package simple : String) : String :=
  if package = "" then simple else package ++ "." ++ simple

/-- Make a named type findable by its simple name. -/
def publish (I : Index) (package : Option String) (d : TypeDecl) : Index :=
  let pkg := package.getD ""
  if d.name = "" then I
  else if d.qualified = topLevelName pkg d.name then
    { I with packages := I.packages.insert (pkg, d.name) d.qualified }
  else
    match outerName? d.qualified with
    | none => I
    | some outer =>
      { I with types := I.types.modify outer fun t =>
          { t with memberTypes := t.memberTypes.insert d.name d.qualified } }

def register (I : Index) (package : Option String) (d : TypeDecl) : Index :=
  { I with
    hierarchy := I.hierarchy.add d.qualified .source
    types := I.types.insert d.qualified (.ofDecl package d) }.publish package d

end Index
end LevelGuard.Project
