import LevelGuard.Data.Basic
import LevelGuard.Project.Assemble
import LevelGuard.Proofs.Links

/-!
# Registration

Registering a type adds its name, its entry and, by its simple name, either a type of the
package or a member type of the type around it. Here it is said, name by name, what can
be looked up after a run of registrations, and what the two further rounds over the types
of a project leave as it is.
-/
namespace LevelGuard

namespace Hierarchy

theorem contains_add (H : Hierarchy) (name : String) (origin : Origin) (n : String) :
    (H.add name origin).contains n = true ↔ name = n ∨ H.contains n = true := by
  rw [eq_comm (a := name)]
  unfold add
  split
  · next hname =>
    refine ⟨.inr, fun h => h.elim ?_ id⟩
    rintro rfl
    exact hname
  · exact Table.contains_insert

@[simp] theorem links_add (H : Hierarchy) (name : String) (origin : Origin) :
    (H.add name origin).links = H.links := by
  unfold add
  split <;> rfl

theorem nodup_keys_add {H : Hierarchy} (h : H.types.keys.Nodup) (name : String) (origin : Origin) :
    (H.add name origin).types.keys.Nodup := by
  unfold add
  split
  · exact h
  · exact Table.nodup_keys_insert h name origin

end Hierarchy

namespace Project

open Java

namespace Index

/-- The package and the simple name under which a top-level type is found. -/
def topLevelKey? (package : Option String) (d : TypeDecl) : Option (String × String) :=
  if d.name = "" then none
  else if d.qualified = topLevelName (package.getD "") d.name then some (package.getD "", d.name)
  else none

/-- The name of the type around a named type that is not at the top level. -/
def memberOf? (package : Option String) (d : TypeDecl) : Option String :=
  if d.name = "" then none
  else if d.qualified = topLevelName (package.getD "") d.name then none
  else outerName? d.qualified

def withMemberType (d : TypeDecl) (t : SourceType) : SourceType :=
  { t with memberTypes := t.memberTypes.insert d.name d.qualified }

section Step

variable (I : Index) (package : Option String) (d : TypeDecl)

theorem publish_eq : I.publish package d =
    { I with
      packages := (topLevelKey? package d).elim I.packages (I.packages.insert · d.qualified)
      types := (memberOf? package d).elim I.types (I.types.modify · (withMemberType d)) } := by
  unfold publish topLevelKey? memberOf?
  by_cases hname : d.name = ""
  · simp [hname]
  by_cases htop : d.qualified = topLevelName (package.getD "") d.name
  · simp [hname, ← htop]
  · cases houter : outerName? d.qualified with
    | none => simp [hname, htop]
    | some outer =>
      simp only [hname, htop, if_false]
      rfl

theorem hierarchy_register :
    (I.register package d).hierarchy = I.hierarchy.add d.qualified .source := by
  rw [register, publish_eq]

theorem packages_register (k : String × String) : (I.register package d).packages.get? k =
    if topLevelKey? package d = some k then some d.qualified else I.packages.get? k := by
  rw [register, publish_eq]
  cases h : topLevelKey? package d with
  | none => simp
  | some k' =>
    by_cases hk : k' = k
    · simp [hk]
    · simp [hk, Ne.symm hk]

/-- What a registration makes of the entry for a name. -/
def entryAfter (package : Option String) (d : TypeDecl) (name : String)
    (entry : Option SourceType) : Option SourceType :=
  let entry := if name = d.qualified then some (.ofDecl package d) else entry
  if memberOf? package d = some name then entry.map (withMemberType d) else entry

theorem isSome_entryAfter (name : String) (entry : Option SourceType) :
    (entryAfter package d name entry).isSome ↔ d.qualified = name ∨ entry.isSome := by
  have hentry : (if name = d.qualified then some (.ofDecl package d) else entry).isSome ↔
      d.qualified = name ∨ entry.isSome := by
    by_cases hname : name = d.qualified
    · simp [hname]
    · simp [hname, Ne.symm hname]
  unfold entryAfter
  dsimp only
  split
  · rwa [Option.isSome_map]
  · exact hentry

theorem sourceType?_register (name : String) :
    (I.register package d).sourceType? name = entryAfter package d name (I.sourceType? name) := by
  rw [register, publish_eq]
  unfold entryAfter sourceType?
  cases h : memberOf? package d with
  | none => simp
  | some outer =>
    by_cases hname : name = outer
    · subst hname
      simp [Table.get?_modify]
    · simp [Table.get?_modify, hname, Ne.symm hname]

end Step

def classLinks (c : Platform.ApiClass) : List Link :=
  (c.superClass.map fun s => ⟨c.name, s, .extend⟩).toList
    ++ c.interfaces.map fun i => ⟨c.name, i, .implement⟩

theorem sub_of_mem_classLinks {c : Platform.ApiClass} {l : Link} (h : l ∈ classLinks c) :
    l.sub = c.name := by
  simp only [classLinks, List.mem_append, Option.mem_toList, Option.map_eq_some_iff,
    List.mem_map] at h
  obtain ⟨s, -, rfl⟩ | ⟨i, -, rfl⟩ := h <;> rfl

def classNames (K : Platform.Catalog) : Hierarchy :=
  K.classes.values.foldl (fun H c => H.add c.name .platform) .empty

theorem hierarchy_ofCatalog (K : Platform.Catalog) : (ofCatalog K).hierarchy =
    (K.classes.values.flatMap classLinks).foldl Hierarchy.addLink (classNames K) := by
  rw [List.foldl_flatMap]
  refine congrArg (K.classes.values.foldl · _) (funext fun H => funext fun c => ?_)
  rw [classLinks, List.foldl_append, List.foldl_map]
  cases c.superClass <;> rfl

theorem isKnown_ofCatalog (K : Platform.Catalog) (name : String) :
    (ofCatalog K).isKnown name = (classNames K).contains name := by
  rw [isKnown, hierarchy_ofCatalog]
  unfold Hierarchy.contains
  rw [Hierarchy.types_foldl_addLink]

theorem links_classNames (K : Platform.Catalog) : (classNames K).links = [] :=
  List.foldlRecOn (motive := fun H : Hierarchy => H.links = []) _ _ rfl
    fun H h c _ => (H.links_add c.name .platform).trans h

theorem nodup_keys_classNames (K : Platform.Catalog) : (classNames K).types.keys.Nodup :=
  List.foldlRecOn (motive := fun H : Hierarchy => H.types.keys.Nodup) _ _ List.nodup_nil
    fun _ h c _ => Hierarchy.nodup_keys_add h c.name .platform

theorem contains_classNames (K : Platform.Catalog) (name : String) :
    (classNames K).contains name = true ↔ ∃ c ∈ K.classes.values, c.name = name := by
  have hrun := foldl_iff_exists (P := fun H : Hierarchy => H.contains name = true)
    (fun H (c : Platform.ApiClass) => H.contains_add c.name .platform name) K.classes.values .empty
  exact hrun.trans (or_iff_left Bool.false_ne_true)

theorem linksFrom_ofCatalog_of_not_known {K : Platform.Catalog} {name : String}
    (h : (ofCatalog K).isKnown name = false) : (ofCatalog K).hierarchy.linksFrom name = [] := by
  rw [List.eq_nil_iff_forall_not_mem]
  intro l hl
  rw [isKnown_ofCatalog] at h
  rw [hierarchy_ofCatalog, Hierarchy.linksFrom_foldl] at hl
  have hsub : ∀ k ∈ (K.classes.values.flatMap classLinks).filter (fun l => l.sub = name),
      k.sub = name := fun k hk => by simpa using (List.mem_filter.mp hk).2
  have hlinks := (Hierarchy.mem_foldl_extend _ hsub _).mp ⟨l, hl, rfl⟩
  simp [Hierarchy.linksFrom, links_classNames, h] at hlinks

def registerAll (I : Index) (decls : List (CompilationUnit × TypeDecl)) : Index :=
  decls.foldl (fun I p => I.register p.1.package p.2) I

section Run

variable (decls : List (CompilationUnit × TypeDecl)) (I : Index)

theorem links_registerAll : (I.registerAll decls).hierarchy.links = I.hierarchy.links := by
  induction decls generalizing I with
  | nil => rfl
  | cons p decls ih =>
    refine (ih _).trans ?_
    rw [hierarchy_register, Hierarchy.links_add]

theorem nodup_keys_registerAll (h : I.hierarchy.types.keys.Nodup) :
    (I.registerAll decls).hierarchy.types.keys.Nodup :=
  List.foldlRecOn (motive := fun J : Index => J.hierarchy.types.keys.Nodup) decls _ h
    fun J hJ p _ => by
      rw [hierarchy_register]
      exact Hierarchy.nodup_keys_add hJ p.2.qualified .source

theorem isKnown_registerAll (name : String) : (I.registerAll decls).isKnown name = true ↔
    (∃ p ∈ decls, p.2.qualified = name) ∨ I.isKnown name = true :=
  foldl_iff_exists (P := fun J : Index => J.isKnown name = true) (fun J p => by
    rw [isKnown, hierarchy_register, Hierarchy.contains_add, isKnown]) decls I

theorem sourceType?_registerAll (name : String) : (I.registerAll decls).sourceType? name =
    decls.foldl (fun entry p => entryAfter p.1.package p.2 name entry) (I.sourceType? name) := by
  induction decls generalizing I with
  | nil => rfl
  | cons p decls ih =>
    refine (ih _).trans ?_
    rw [sourceType?_register, List.foldl_cons]

/-- An entry is there from the start or made for a declaration. -/
theorem isSome_sourceType?_registerAll (name : String) :
    ((I.registerAll decls).sourceType? name).isSome ↔
      (∃ p ∈ decls, p.2.qualified = name) ∨ (I.sourceType? name).isSome :=
  foldl_iff_exists (P := fun J : Index => (J.sourceType? name).isSome) (fun J p => by
    rw [sourceType?_register, isSome_entryAfter]) decls I

theorem packages_registerAll (k : String × String) : (I.registerAll decls).packages.get? k =
    decls.foldl (fun found p =>
      if topLevelKey? p.1.package p.2 = some k then some p.2.qualified else found)
      (I.packages.get? k) := by
  induction decls generalizing I with
  | nil => rfl
  | cons p decls ih =>
    refine (ih _).trans ?_
    rw [packages_register, List.foldl_cons]

end Run

/-- The links that the declarations offer when all are registered. -/
def offeredLinks (I : Index) (decls : List (CompilationUnit × TypeDecl)) : List Link :=
  decls.flatMap fun p => linksOf (.inside I p.1 p.2.qualified) p.2

def linkAll (I : Index) (decls : List (CompilationUnit × TypeDecl)) : Index :=
  { I with hierarchy := (I.offeredLinks decls).foldl Hierarchy.addLink I.hierarchy }

/-- What the types named in a declaration make of its entry. -/
def settledEntry (I : Index) (p : CompilationUnit × TypeDecl) (t : SourceType) : SourceType :=
  (t.setFieldTypes (fieldTypes (.inside I p.1 p.2.qualified) p.2)).setResultTypes
    (resultTypes (.inside I p.1 p.2.qualified) p.2)

/-- Resolve the types that the members of a declaration name, as they are in an index. -/
def settle (I J : Index) (p : CompilationUnit × TypeDecl) : Index :=
  { J with types := J.types.modify p.2.qualified (I.settledEntry p) }

/-- The index with the types of fields and results as they are resolved in it. -/
def settleAll (I : Index) (decls : List (CompilationUnit × TypeDecl)) : Index :=
  decls.foldl I.settle I

theorem ofUnits_eq (K : Platform.Catalog) (units : List CompilationUnit) : ofUnits K units =
    (((ofCatalog K).registerAll (declarations units)).linkAll (declarations units)).settleAll
      (declarations units) :=
  List.foldl_map

section Rounds

variable (decls : List (CompilationUnit × TypeDecl)) (I : Index)

theorem types_linkAll : (I.linkAll decls).hierarchy.types = I.hierarchy.types :=
  Hierarchy.types_foldl_addLink _ _

theorem isKnown_linkAll (name : String) : (I.linkAll decls).isKnown name = I.isKnown name := by
  simp only [isKnown, Hierarchy.contains, types_linkAll]

theorem hierarchy_settleAll : (I.settleAll decls).hierarchy = I.hierarchy :=
  List.foldlRecOn (motive := fun J : Index => J.hierarchy = I.hierarchy) decls I.settle rfl
    fun _ h _ _ => h

theorem packages_settleAll : (I.settleAll decls).packages = I.packages :=
  List.foldlRecOn (motive := fun J : Index => J.packages = I.packages) decls I.settle rfl
    fun _ h _ _ => h

theorem sourceType?_settleAll (name : String) : (I.settleAll decls).sourceType? name =
    decls.foldl (fun entry p =>
      if name = p.2.qualified then entry.map (I.settledEntry p) else entry)
      (I.sourceType? name) := by
  have hrun : ∀ J : Index, (decls.foldl I.settle J).sourceType? name = decls.foldl (fun entry p =>
      if name = p.2.qualified then entry.map (I.settledEntry p) else entry)
      (J.sourceType? name) := by
    induction decls with
    | nil => exact fun J => rfl
    | cons p decls ih =>
      intro J
      rw [List.foldl_cons, ih, List.foldl_cons, sourceType?, settle, Table.get?_modify, sourceType?]
  exact hrun I

end Rounds

end Index

end Project

end LevelGuard
