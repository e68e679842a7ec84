import LevelGuard.Project.Scope

/-!
# Indexing a project

The index is made in three rounds over all types: first every declaration is
registered, so that names can be resolved across files; then the supertypes are
linked; then the types of fields and results are resolved, which may go through
member types inherited along the links.
-/
namespace LevelGuard.Project

open Java

def declarations (units : List CompilationUnit) : List (CompilationUnit × TypeDecl) :=
  units.flatMap fun u => u.allTypes.map fun d => (u, d)

/-- How a type of this kind names the types in its list of interfaces. -/
def interfaceLink : TypeKind → LinkKind
  | .interfaceType => .extend
  | _ => .implement

def linksOf (S : Scope) (d : TypeDecl) : List Link :=
  ((d.superClass.bind fun t => S.resolve? t.name).map fun s => ⟨d.qualified, s, .extend⟩).toList
    ++ (d.interfaces.filterMap fun t => S.resolve? t.name).map fun s =>
      ⟨d.qualified, s, interfaceLink d.kind⟩

def fieldTypes (S : Scope) (d : TypeDecl) : List (String × Option String) :=
  (d.fields.filter fun f => !f.type.isPrimitive).map fun f => (f.name, S.resolve? f.type.name)

def resultTypes (S : Scope) (d : TypeDecl) : List (String × Option String) :=
  d.methods.map fun m =>
    (methodKey m,
      m.returnType.bind fun t => if t.isPrimitive then none else S.resolve? t.name)

namespace SourceType

def setFieldTypes (t : SourceType) (types : List (String × Option String)) : SourceType :=
  { t with fields := types.foldl (fun fs e => fs.modify e.1 fun f => { f with type := e.2 }) t.fields }

/-- Give the overloads of each name, in order, the result types listed for it. -/
def setResultTypes (t : SourceType) (types : List (String × Option String)) : SourceType :=
  { t with
    methods := ⟨t.methods.entries.map fun (name, overloads) =>
      let given := (types.filter fun e => e.1 = name).map Prod.snd
      (name, overloads.zipIdx.map fun (m, i) =>
        match given[i]? with
        | some type => { m with returns := type }
        | none => m)⟩ }

end SourceType

namespace Index

def settleMembers (I : Index) (name : String) (fields results : List (String × Option String)) :
    Index :=
  { I with types := I.types.modify name fun t => (t.setFieldTypes fields).setResultTypes results }

def ofUnits (K : Platform.Catalog) (units : List CompilationUnit) : Index :=
  let decls := declarations units
  let registered := decls.foldl (fun I (u, d) => I.register u.package d) (ofCatalog K)
  let links := decls.flatMap fun (u, d) => linksOf (.inside registered u d.qualified) d
  let linked :=
    { registered with
      hierarchy := links.foldl (fun H l => H.link l.sub l.super l.kind) registered.hierarchy }
  let members := decls.map fun (u, d) =>
    let S := Scope.inside linked u d.qualified
    (d.qualified, fieldTypes S d, resultTypes S d)
  members.foldl (fun I (name, fields, results) => I.settleMembers name fields results) linked

end Index
end LevelGuard.Project
