import LevelGuard.Platform.Locate
import LevelGuard.Proofs.Agreement
import LevelGuard.Proofs.Supertypes
import LevelGuard.Proofs.TableEntries

/-!
# The order of classes and files

The index of a project is made from the classes of the platform and from the types of the
files, one after another. The order in which they come does not show in what is found by
name, as long as no two types have one name and no type is made a member of a type in
another file. Each of the rounds in which the index is made keeps indexes alike.
-/
namespace LevelGuard

namespace Platform.Catalog

/-- Each class of the catalog is found by its own name. -/
structure Tidy (K : Catalog) : Prop where
  nodup : K.classes.keys.Nodup
  named : ∀ e ∈ K.classes.entries, e.1 = e.2.name

theorem classes_addEntries {K K' : Catalog} {es : List PermissionEntry}
    (h : K.addEntries es = .ok K') : K'.classes = K.classes := by
  induction es generalizing K with
  | nil =>
    cases h
    rfl
  | cons e es ih =>
    obtain ⟨⟨symbol, r⟩, -, hrest⟩ := exists_of_bind_eq_ok h
    have hclasses := ih hrest
    exact hclasses

theorem classes_addTable {K K' : Catalog} {t : PermissionTable} (h : K.addTable t = .ok K') :
    K'.classes = K.classes := by
  obtain ⟨L, hentries, hL⟩ := exists_of_bind_eq_ok h
  cases hL
  have hclasses := classes_addEntries hentries
  exact hclasses

namespace Tidy

variable {K : Catalog}

theorem empty : empty.Tidy := ⟨List.nodup_nil, nofun⟩

theorem addClass (h : K.Tidy) (c : ApiClass) : (K.addClass c).Tidy where
  nodup := Table.nodup_keys_insert h.nodup c.name c
  named e he := by
    rcases Table.mem_write he with rfl | he
    · rfl
    · exact h.named e he

theorem ofClasses (cs : List ApiClass) : (ofClasses cs).Tidy :=
  List.foldlRecOn cs Catalog.addClass empty fun _ h c _ => h.addClass c

theorem of_load {t : FileTree} {database table : Option Path} {kits : List Path}
    (hload : load t database table kits = .ok K) : K.Tidy := by
  unfold load at hload
  split at hload
  · cases hload
  · obtain ⟨text, -, hload⟩ := exists_of_bind_eq_ok hload
    obtain ⟨cs, -, hload⟩ := exists_of_bind_eq_ok hload
    split at hload
    · cases hload
      exact ofClasses cs
    · obtain ⟨table, -, hload⟩ := exists_of_bind_eq_ok hload
      have hclasses := classes_addTable hload
      exact ⟨hclasses ▸ (ofClasses cs).nodup, hclasses ▸ (ofClasses cs).named⟩

theorem names_eq (h : K.Tidy) : K.classes.values.map (·.name) = K.classes.keys := by
  rw [Table.values, Table.keys, List.map_map]
  exact List.map_congr_left fun e he => (h.named e he).symm

end Tidy

def withClasses (K : Catalog) (classes : Table String ApiClass) : Catalog :=
  { K with classes := classes }

theorem alike_withClasses {K : Catalog} (hK : K.Tidy) {classes : Table String ApiClass}
    (hperm : classes.entries.Perm K.classes.entries) : (K.withClasses classes).Alike K where
  class? name := (Table.get?_perm hperm.symm hK.nodup name).symm
  permissions := rfl
  revocable := rfl

end Platform.Catalog

namespace Project.Index

open Java

/-- Types that are found under the same names are listed up to their order. -/
theorem perm_keys {H H' : Hierarchy} (h : H.types.keys.Nodup) (h' : H'.types.keys.Nodup)
    (hcontains : ∀ name, H.contains name = true ↔ H'.contains name = true) :
    H.types.keys.Perm H'.types.keys := by
  refine (List.perm_ext_iff_of_nodup h h').mpr fun name => ?_
  rw [← Table.contains_iff_mem_keys, ← Table.contains_iff_mem_keys]
  exact hcontains name

theorem alike_ofCatalog {K : Platform.Catalog} (hK : K.Tidy) {classes : Table String Platform.ApiClass}
    (hperm : classes.entries.Perm K.classes.entries) :
    (ofCatalog (K.withClasses classes)).Alike (ofCatalog K) := by
  have hvalues : classes.values.Perm K.classes.values := hperm.map Prod.snd
  have hcontains : ∀ name, (classNames (K.withClasses classes)).contains name =
      (classNames K).contains name := fun name => by
    rw [Bool.eq_iff_iff, contains_classNames, contains_classNames]
    exact exists_congr fun c => and_congr_left' hvalues.mem_iff
  have hnames : (classes.values.map (·.name)).Nodup :=
    (hvalues.map _).nodup_iff.mpr (hK.names_eq ▸ hK.nodup)
  constructor
  case keys =>
    rw [hierarchy_ofCatalog, hierarchy_ofCatalog, Hierarchy.types_foldl_addLink,
      Hierarchy.types_foldl_addLink]
    exact perm_keys (nodup_keys_classNames _) (nodup_keys_classNames _) fun name => by rw [hcontains]
  case linksFrom =>
    intro name
    rw [hierarchy_ofCatalog, hierarchy_ofCatalog, Hierarchy.linksFrom_foldl,
      Hierarchy.linksFrom_foldl, funext hcontains, Hierarchy.linksFrom, Hierarchy.linksFrom,
      links_classNames, links_classNames]
    exact congrArg (List.foldl _ _) (Hierarchy.filter_flatMap_perm (fun c => c.name)
      (fun c l hl => sub_of_mem_classLinks hl) hnames hvalues name)
  case packages => exact fun k => rfl
  case sourceType? => exact fun name => rfl

/-- A type that is made a member of another one is in the same file. -/
def MembersTogether (units : List CompilationUnit) : Prop :=
  ∀ p ∈ declarations units, ∀ q ∈ declarations units,
    memberOf? p.1.package p.2 = some q.2.qualified →
      q.2.qualified ∈ p.1.allTypes.map (·.qualified)

/-- What the registration of a file makes of the entry for a name. -/
def entryAfterUnit (name : String) (entry : Option SourceType) (u : CompilationUnit) :
    Option SourceType :=
  u.allTypes.foldl (fun entry d => entryAfter u.package d name entry) entry

theorem sourceType?_registered (K : Platform.Catalog) (units : List CompilationUnit)
    (name : String) :
    (registered K units).sourceType? name = units.foldl (entryAfterUnit name) none := by
  rw [registered, sourceType?_registerAll, declarations, List.foldl_flatMap]
  simp only [List.foldl_map]
  rfl

theorem entryAfterUnit_of_not_mem {name : String} {u : CompilationUnit}
    (hname : name ∉ u.allTypes.map (·.qualified))
    (hmember : ∀ d ∈ u.allTypes, memberOf? u.package d ≠ some name) (entry : Option SourceType) :
    entryAfterUnit name entry u = entry := by
  refine List.foldlRecOn (motive := (· = entry)) _ _ rfl fun _ h d hd => ?_
  have hne : name ≠ d.qualified := fun heq => hname (heq ▸ List.mem_map_of_mem hd)
  rw [h, entryAfter, if_neg hne]
  exact if_neg (hmember d hd)

theorem mem_declarations {units : List CompilationUnit} {u : CompilationUnit} {d : TypeDecl} :
    (u, d) ∈ declarations units ↔ u ∈ units ∧ d ∈ u.allTypes := by
  simp only [declarations, List.mem_flatMap, List.mem_map, Prod.mk.injEq]
  constructor
  · rintro ⟨u, hu, d, hd, rfl, rfl⟩
    exact ⟨hu, hd⟩
  · rintro ⟨hu, hd⟩
    exact ⟨u, hu, d, hd, rfl, rfl⟩

theorem perm_declarations {files units : List CompilationUnit} (hperm : files.Perm units) :
    (declarations files).Perm (declarations units) :=
  hperm.flatMap_right _

section Files

variable {units files : List CompilationUnit} (hperm : files.Perm units)
  (hnames : ((declarations units).map (·.2.qualified)).Nodup)
include hnames

/-- A type is declared in one file only. -/
theorem unit_unique {u v : CompilationUnit} (hu : u ∈ units) (hv : v ∈ units) {name : String}
    (hname : name ∈ u.allTypes.map (·.qualified)) (hname' : name ∈ v.allTypes.map (·.qualified)) :
    u = v := by
  obtain ⟨d, hd, rfl⟩ := List.mem_map.mp hname
  obtain ⟨e, he, heq⟩ := List.mem_map.mp hname'
  have hsame := List.inj_on_of_nodup_map hnames (mem_declarations.mpr ⟨hu, hd⟩)
    (mem_declarations.mpr ⟨hv, he⟩) heq.symm
  exact congrArg Prod.fst hsame

variable (htogether : MembersTogether units)
include htogether

/-- Of two files at most one has to do with the entry of a declared type. -/
theorem entryAfterUnit_comm {q : CompilationUnit × TypeDecl} (hq : q ∈ declarations units)
    {u v : CompilationUnit} (hu : u ∈ units) (hv : v ∈ units) (entry : Option SourceType) :
    entryAfterUnit q.2.qualified (entryAfterUnit q.2.qualified entry u) v =
      entryAfterUnit q.2.qualified (entryAfterUnit q.2.qualified entry v) u := by
  have hother : ∀ w ∈ units, q.2.qualified ∉ w.allTypes.map (·.qualified) →
      ∀ entry, entryAfterUnit q.2.qualified entry w = entry := fun w hw hnot =>
    entryAfterUnit_of_not_mem hnot fun d hd hmember =>
      hnot (htogether (w, d) (mem_declarations.mpr ⟨hw, hd⟩) q hq hmember)
  by_cases hinu : q.2.qualified ∈ u.allTypes.map (·.qualified)
  · by_cases hinv : q.2.qualified ∈ v.allTypes.map (·.qualified)
    · rw [unit_unique hnames hu hv hinu hinv]
    · rw [hother v hv hinv, hother v hv hinv]
  · rw [hother u hu hinu, hother u hu hinu]

include hperm

theorem sourceType?_registered_perm (K L : Platform.Catalog) (name : String) :
    (registered L files).sourceType? name = (registered K units).sourceType? name := by
  by_cases hdeclared : ∃ q ∈ declarations units, q.2.qualified = name
  · obtain ⟨q, hq, rfl⟩ := hdeclared
    rw [sourceType?_registered, sourceType?_registered]
    refine (hperm.symm.foldl_eq' (fun u hu v hv entry => ?_) none).symm
    exact entryAfterUnit_comm hnames htogether hq hu hv entry
  · have hnone : ∀ (K : Platform.Catalog) (us : List CompilationUnit),
        (∀ p ∈ declarations us, p.2.qualified ≠ name) →
          (registered K us).sourceType? name = none := fun K us hus => by
      refine Option.not_isSome_iff_eq_none.mp fun hsome => ?_
      obtain ⟨p, hp, hname⟩ | h := (isSome_sourceType?_registerAll _ _ _).mp hsome
      · exact hus p hp hname
      · cases h
    rw [hnone K units fun p hp heq => hdeclared ⟨p, hp, heq⟩,
      hnone L files fun p hp heq => hdeclared ⟨p, (perm_declarations hperm).mem_iff.mp hp, heq⟩]

end Files

/-- The name of a top-level type follows from its package and its simple name. -/
theorem qualified_of_topLevelKey? {package : Option String} {d : TypeDecl} {k : String × String}
    (h : topLevelKey? package d = some k) : d.qualified = topLevelName k.1 k.2 := by
  unfold topLevelKey? at h
  split at h
  · cases h
  · split at h
    · next hname =>
      cases h
      exact hname
    · cases h

theorem packages_registerAll_perm {I J : Index} (hpackages : ∀ k, I.packages.get? k = J.packages.get? k)
    {decls decls' : List (CompilationUnit × TypeDecl)} (hperm : decls.Perm decls')
    (k : String × String) :
    (I.registerAll decls).packages.get? k = (J.registerAll decls').packages.get? k := by
  rw [packages_registerAll, packages_registerAll, hpackages]
  refine hperm.foldl_eq' (fun p _ q _ found => ?_) _
  by_cases hp : topLevelKey? p.1.package p.2 = some k <;>
    by_cases hq : topLevelKey? q.1.package q.2 = some k <;> simp only [hp, hq, if_true, if_false]
  rw [qualified_of_topLevelKey? hp, qualified_of_topLevelKey? hq]

section Rounds

variable {units files : List CompilationUnit} (hperm : files.Perm units)
  (hnames : ((declarations units).map (·.2.qualified)).Nodup)
include hperm hnames

theorem alike_registered {K L : Platform.Catalog} (hcatalog : (ofCatalog L).Alike (ofCatalog K))
    (htogether : MembersTogether units) : (registered L files).Alike (registered K units) where
  keys := by
    have hnodup : ∀ (K : Platform.Catalog) us, (registered K us).hierarchy.types.keys.Nodup :=
      fun K us => nodup_keys_registerAll _ _ (by
        rw [hierarchy_ofCatalog, Hierarchy.types_foldl_addLink]
        exact nodup_keys_classNames K)
    refine perm_keys (hnodup L files) (hnodup K units) fun name => ?_
    refine (isKnown_registerAll _ _ name).trans (Iff.trans ?_ (isKnown_registerAll _ _ name).symm)
    rw [hcatalog.isKnown]
    exact or_congr_left (exists_congr fun p => and_congr_left' (perm_declarations hperm).mem_iff)
  linksFrom name := by
    rw [Hierarchy.linksFrom, Hierarchy.linksFrom, registered, registered, links_registerAll,
      links_registerAll]
    exact hcatalog.linksFrom name
  packages := packages_registerAll_perm hcatalog.packages (perm_declarations hperm)
  sourceType? := sourceType?_registered_perm hperm hnames htogether K L

variable {I J : Index} (h : I.Alike J)
include h

theorem Alike.linkAll : (I.linkAll (declarations files)).Alike (J.linkAll (declarations units)) where
  keys := by
    rw [types_linkAll, types_linkAll]
    exact h.keys
  linksFrom name := by
    have hsame : I.offeredLinks (declarations files) = J.offeredLinks (declarations files) := by
      simp only [offeredLinks, linksOf, (h.inside _ _).resolve?]
    have hlinks : (J.offeredLinks (declarations units)).filter (fun l => l.sub = name) =
        (J.offeredLinks (declarations files)).filter fun l => l.sub = name :=
      Hierarchy.filter_flatMap_perm (fun p : CompilationUnit × TypeDecl => p.2.qualified)
        (fun p l hl => sub_of_mem_linksOf hl) hnames (perm_declarations hperm).symm name
    have hcontains : I.hierarchy.contains = J.hierarchy.contains := funext h.isKnown
    rw [Index.linkAll, Index.linkAll, Hierarchy.linksFrom_foldl, Hierarchy.linksFrom_foldl, hsame,
      hcontains, h.linksFrom, hlinks]
  packages := h.packages
  sourceType? := h.sourceType?

theorem Alike.settleAll :
    (I.settleAll (declarations files)).Alike (J.settleAll (declarations units)) where
  keys := by
    rw [hierarchy_settleAll, hierarchy_settleAll]
    exact h.keys
  linksFrom name := by
    rw [hierarchy_settleAll, hierarchy_settleAll]
    exact h.linksFrom name
  packages k := by
    rw [packages_settleAll, packages_settleAll]
    exact h.packages k
  sourceType? name := by
    have hentry : I.settledEntry = J.settledEntry := funext fun p => funext fun t => by
      simp only [settledEntry, fieldTypes, resultTypes, (h.inside p.1 p.2.qualified).resolve?]
    rw [sourceType?_settleAll, sourceType?_settleAll, hentry, h.sourceType?]
    refine ((perm_declarations hperm).symm.foldl_eq' (fun p hp q hq entry => ?_) _).symm
    by_cases hpn : name = p.2.qualified
    · by_cases hqn : name = q.2.qualified
      · rw [List.inj_on_of_nodup_map hnames hp hq (hpn.symm.trans hqn)]
      · rw [if_neg hqn, if_neg hqn]
    · rw [if_neg hpn, if_neg hpn]

end Rounds

/-- The order of the classes and of the files does not show in the index. -/
theorem alike_ofUnits {K : Platform.Catalog} (hK : K.Tidy) {classes : Table String Platform.ApiClass}
    (hclasses : classes.entries.Perm K.classes.entries) {units files : List CompilationUnit}
    (hperm : files.Perm units) (hnames : ((declarations units).map (·.2.qualified)).Nodup)
    (htogether : MembersTogether units) :
    (ofUnits (K.withClasses classes) files).Alike (ofUnits K units) := by
  rw [ofUnits_eq, ofUnits_eq]
  have hregistered := alike_registered hperm hnames (alike_ofCatalog hK hclasses) htogether
  exact (hregistered.linkAll hperm hnames).settleAll hperm hnames

end Project.Index

end LevelGuard
