import LevelGuard.Project.Index

/-!
# Names of types in scope

A simple name means, in this order: an enclosing type or a member type of one, a
type declared anywhere in the file, a type imported by name, a type of the same
package, a known type of a package imported as a whole, a known type of
`java.lang`, or a member type inherited by an enclosing type. A type imported by
name is taken at its word, known or not.

A dotted name means the known type of that name, or else what its first part
means followed by member types.
-/
namespace LevelGuard.Project

open Java

structure Scope where
  index : Index
  unit : CompilationUnit
  /-- The source types around the code, innermost first. -/
  enclosing : List String

/-- The parts of a text that end before a character satisfying `p`, shortest first. -/
def leads (p : Char → Bool) : List Char → List (List Char)
  | [] => []
  | c :: cs =>
    let longer := (leads p cs).map (c :: ·)
    if p c then [] :: longer else longer

/-- A qualified name and the names of what may be around it, longest first. -/
def outwards (name : String) : List String :=
  name :: ((leads (fun c => c == '$' || c == '.') name.toList).map String.ofList).reverse

namespace Scope

def inside (I : Index) (u : CompilationUnit) (name : String) : Scope where
  index := I
  unit := u
  enclosing := (outwards name).takeWhile fun n => (I.sourceType? n).isSome

def known? (S : Scope) (name : String) : Option String :=
  if S.index.isKnown name then some name else none

def memberType? (S : Scope) (owner name : String) : Option String :=
  ((S.index.sourceType? owner).bind fun t => t.memberTypes.get? name).or
    (S.known? (owner ++ "." ++ name))

def enclosingType? (S : Scope) (name : String) : Option String :=
  S.enclosing.findSome? fun outer =>
    (S.index.sourceType? outer).bind fun t =>
      if t.simple = name then some outer else t.memberTypes.get? name

def unitType? (S : Scope) (name : String) : Option String :=
  (S.unit.allTypes.find? fun d => d.name = name).map (·.qualified)

def typeImports (S : Scope) : List Import := S.unit.imports.filter fun i => !i.isStatic

def importedType? (S : Scope) (name : String) : Option String :=
  (S.typeImports.find? fun i => !i.onDemand && i.simpleName = name).map (·.path)

/-- A known type of a package or class imported as a whole. -/
def onDemandType? (S : Scope) (name : String) : Option String :=
  (S.typeImports.filter (·.onDemand)).findSome? fun i => S.known? (i.path ++ "." ++ name)

def inheritedType? (S : Scope) (name : String) : Option String :=
  S.enclosing.findSome? fun outer =>
    (S.index.ancestors outer).findSome? fun ancestor => S.memberType? ancestor name

def resolveSimple? (S : Scope) (name : String) : Option String :=
  S.enclosingType? name
    <|> S.unitType? name
    <|> S.importedType? name
    <|> S.index.packageType? S.unit.package name
    <|> S.onDemandType? name
    <|> S.known? ("java.lang." ++ name)
    <|> S.inheritedType? name

def resolve? (S : Scope) (name : String) : Option String :=
  match Text.splitAll '.' name with
  | [] => none
  | [_] => S.resolveSimple? name
  | first :: rest =>
    S.known? name <|>
      (S.resolveSimple? first).bind fun owner => rest.foldlM S.memberType? owner

end Scope
end LevelGuard.Project
