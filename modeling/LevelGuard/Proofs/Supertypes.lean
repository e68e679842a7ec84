import Mathlib.Data.List.TakeWhile
import LevelGuard.Proofs.Naming
import LevelGuard.Proofs.Registration

/-!
# Supertypes

The supertypes of a declaration are resolved when all types are registered and none of
their links is there yet. The finished index has the same names, so it gives the names
of supertypes the same meaning, with one exception: a member type that is inherited from
a type of the project is found only later. Apart from such names, the links from a type
are those that the finished index gives for its declaration.
-/
namespace LevelGuard.Project

open Java

theorem interfaceLink_of_ne {kind : TypeKind} (h : kind ≠ .interfaceType) :
    interfaceLink kind = .implement := by
  cases kind <;> simp_all [interfaceLink]

theorem sub_of_mem_linksOf {S : Scope} {d : TypeDecl} {l : Link} (h : l ∈ linksOf S d) :
    l.sub = d.qualified := by
  simp only [linksOf, List.mem_append, Option.mem_toList, Option.map_eq_some_iff,
    List.mem_map] at h
  obtain ⟨s, -, rfl⟩ | ⟨s, -, rfl⟩ := h <;> rfl

/-- The links of a declaration lead to what its supertypes mean. -/
theorem exists_mem_linksOf {S : Scope} {d : TypeDecl} {s : String} :
    (∃ l ∈ linksOf S d, l.super = s) ↔ ∃ t ∈ d.supertypes, S.resolve? t.name = some s := by
  have hclass : (∃ l ∈ ((d.superClass.bind fun t => S.resolve? t.name).map fun s =>
      (⟨d.qualified, s, .extend⟩ : Link)).toList, l.super = s) ↔
      ∃ t ∈ d.superClass.toList, S.resolve? t.name = some s := by
    cases d.superClass <;> simp
  have hinterfaces : (∃ l ∈ (d.interfaces.filterMap fun t => S.resolve? t.name).map fun s =>
      (⟨d.qualified, s, interfaceLink d.kind⟩ : Link), l.super = s) ↔
      ∃ t ∈ d.interfaces, S.resolve? t.name = some s := by
    simp
  simp only [linksOf, TypeDecl.supertypes, List.mem_append, or_and_right, exists_or, hclass,
    hinterfaces]

namespace Index

section Rounds

variable (decls : List (CompilationUnit × TypeDecl)) (I : Index)

theorem names_settleAll (name : String) : ((I.settleAll decls).sourceType? name).map (·.names) =
    (I.sourceType? name).map (·.names) := by
  rw [sourceType?_settleAll]
  refine List.foldlRecOn (motive := fun entry : Option SourceType =>
    entry.map (·.names) = (I.sourceType? name).map (·.names)) decls _ rfl fun entry h p _ => ?_
  split
  · rw [← h, Option.map_map]
    rfl
  · exact h

theorem sameNames_rounds : I.SameNames ((I.linkAll decls).settleAll decls) where
  known name := by
    rw [isKnown, isKnown, hierarchy_settleAll]
    exact (I.isKnown_linkAll decls name).symm
  packages k := by rw [packages_settleAll]; rfl
  names name := (names_settleAll decls (I.linkAll decls) name).symm

end Rounds

variable {K : Platform.Catalog} {units : List CompilationUnit}

/-- The index of a project when all types are registered and none is linked. -/
def registered (K : Platform.Catalog) (units : List CompilationUnit) : Index :=
  (ofCatalog K).registerAll (declarations units)

theorem sameNames_registered (K : Platform.Catalog) (units : List CompilationUnit) :
    (registered K units).SameNames (ofUnits K units) := by
  rw [ofUnits_eq]
  exact sameNames_rounds _ _

section Distinct

variable (hplatform : ∀ p ∈ declarations units, (ofCatalog K).isKnown p.2.qualified = false)
include hplatform

theorem linksFrom_registered {name : String}
    (h : ((registered K units).sourceType? name).isSome) :
    (registered K units).hierarchy.linksFrom name = [] := by
  obtain ⟨p, hp, rfl⟩ | h := (isSome_sourceType?_registerAll _ _ name).mp h
  · rw [Hierarchy.linksFrom, registered, links_registerAll]
    exact linksFrom_ofCatalog_of_not_known (hplatform p hp)
  · cases h

/-- Before there are links nothing is inherited. -/
theorem inheritedType?_registered (u : CompilationUnit) (owner name : String) :
    (Scope.inside (registered K units) u owner).inheritedType? name = none := by
  refine List.findSome?_eq_none_iff.mpr fun outer houter => ?_
  have hsource := List.mem_takeWhile_imp houter
  have hnone := Hierarchy.ancestors_eq_nil (linksFrom_registered hplatform hsource)
  change ((registered K units).hierarchy.ancestors outer).findSome? _ = none
  rw [hnone]
  rfl

theorem resolve?_registered (u : CompilationUnit) (owner name : String) :
    (Scope.inside (registered K units) u owner).resolve? name =
      if (Scope.inside (ofUnits K units) u owner).inherits name then none
      else (Scope.inside (ofUnits K units) u owner).resolve? name := by
  have hsame := (sameNames_registered K units).inside u owner
  have hsimple : ∀ n, (Scope.inside (registered K units) u owner).resolveSimple? n =
      (Scope.inside (ofUnits K units) u owner).direct? n := fun n => by
    rw [Scope.resolveSimple?_eq, inheritedType?_registered hplatform, Option.or_none, hsame.direct?]
  rw [Scope.resolve?_eq, hsame.resolveBy hsimple, Scope.resolveBy_direct?]

variable (hnames : ((declarations units).map (·.2.qualified)).Nodup)
  {u : CompilationUnit} {d : TypeDecl} (hd : (u, d) ∈ declarations units)
include hnames hd

theorem linksFrom_ofUnits : (ofUnits K units).hierarchy.linksFrom d.qualified =
    (linksOf (.inside (registered K units) u d.qualified) d).foldl
      (Hierarchy.extend (ofUnits K units).isKnown) [] := by
  have hknown : (registered K units).hierarchy.contains = (ofUnits K units).isKnown :=
    funext (sameNames_registered K units).known
  have hdeclared : ((registered K units).sourceType? d.qualified).isSome :=
    (isSome_sourceType?_registerAll _ _ _).mpr (.inl ⟨_, hd, rfl⟩)
  have hoffered : ((registered K units).offeredLinks (declarations units)).filter
      (fun l => l.sub = d.qualified) = linksOf (.inside (registered K units) u d.qualified) d :=
    Hierarchy.filter_flatMap_sub (fun p : CompilationUnit × TypeDecl => p.2.qualified)
      (fun p l hl => sub_of_mem_linksOf hl) hnames hd
  have hlinks := Hierarchy.linksFrom_foldl ((registered K units).offeredLinks (declarations units))
    (registered K units).hierarchy d.qualified
  rw [hoffered, linksFrom_registered hplatform hdeclared, hknown] at hlinks
  have hhierarchy : (ofUnits K units).hierarchy =
      ((registered K units).linkAll (declarations units)).hierarchy := by
    rw [ofUnits_eq, hierarchy_settleAll]
    rfl
  rw [hhierarchy]
  exact hlinks

end Distinct

section Superclass

variable {known : String → Bool}

/-- The superclass is the type that the extends clause means, if it can be linked. -/
theorem head?_extend_linksOf {S : Scope} {d : TypeDecl} (hkind : d.kind ≠ .interfaceType)
    (hknown : known d.qualified = true) :
    ((((linksOf S d).foldl (Hierarchy.extend known) []).filter fun l => l.kind = .extend).map
        Link.super).head? =
      (d.superClass.bind fun t => S.resolve? t.name).filter fun s => known s && s != d.qualified := by
  rw [linksOf, interfaceLink_of_ne hkind, List.foldl_append, Hierarchy.filter_kind_foldl_extend]
  · cases d.superClass.bind fun t => S.resolve? t.name with
    | none => rfl
    | some s =>
      have haccepted : (known d.qualified && known s && d.qualified != s) =
          (known s && s != d.qualified) := by
        rw [hknown, Bool.true_and, bne_comm]
      simp only [Option.map_some, Option.toList_some, List.foldl_cons, List.foldl_nil,
        Hierarchy.extend_nil, haccepted, Option.filter_some]
      split <;> simp
  · intro l hl
    obtain ⟨s, -, rfl⟩ := List.mem_map.mp hl
    exact LinkKind.noConfusion

end Superclass

def finishedScope (K : Platform.Catalog) (units : List CompilationUnit) (u : CompilationUnit)
    (d : TypeDecl) : Scope :=
  .inside (ofUnits K units) u d.qualified

/-- The links from a type of the project lead to the known types that the finished index
gives for the names of its supertypes, those names left out that only inheritance gives a
meaning; and its superclass is the type that the extends clause means. -/
theorem supertypes_agree_with_scope
    (hplatform : ∀ p ∈ declarations units, (ofCatalog K).isKnown p.2.qualified = false)
    (hnames : ((declarations units).map (·.2.qualified)).Nodup)
    {u : CompilationUnit} {d : TypeDecl} (hd : (u, d) ∈ declarations units) :
    (∀ s, (∃ kind, ⟨d.qualified, s, kind⟩ ∈ (ofUnits K units).hierarchy.links) ↔
      (ofUnits K units).isKnown s = true ∧ s ≠ d.qualified ∧ ∃ t ∈ d.supertypes,
        (finishedScope K units u d).inherits t.name = false ∧
          (finishedScope K units u d).resolve? t.name = some s) ∧
    (d.kind ≠ .interfaceType → (ofUnits K units).hierarchy.superClass? d.qualified =
      ((d.superClass.filter fun t => !(finishedScope K units u d).inherits t.name).bind fun t =>
        (finishedScope K units u d).resolve? t.name).filter fun s =>
          (ofUnits K units).isKnown s && s != d.qualified) := by
  have hfrom := linksFrom_ofUnits hplatform hnames hd
  have hresolve := resolve?_registered (K := K) hplatform u d.qualified
  have hself : (ofUnits K units).isKnown d.qualified = true := by
    rw [← (sameNames_registered K units).known]
    exact (isKnown_registerAll _ _ _).mpr (.inl ⟨_, hd, rfl⟩)
  constructor
  · intro s
    have hlink : (∃ kind, ⟨d.qualified, s, kind⟩ ∈ (ofUnits K units).hierarchy.links) ↔
        ∃ l ∈ (ofUnits K units).hierarchy.linksFrom d.qualified, l.super = s := by
      simp only [Hierarchy.linksFrom, List.mem_filter, decide_eq_true_eq]
      constructor
      · rintro ⟨kind, hmem⟩
        exact ⟨_, ⟨hmem, rfl⟩, rfl⟩
      · rintro ⟨⟨sub, super, kind⟩, ⟨hmem, rfl⟩, rfl⟩
        exact ⟨kind, hmem⟩
    rw [hlink, hfrom, Hierarchy.mem_foldl_extend _ fun l hl => sub_of_mem_linksOf hl,
      exists_mem_linksOf]
    have hmeaning : ∀ name, (Scope.inside (registered K units) u d.qualified).resolve? name = some s ↔
        (finishedScope K units u d).inherits name = false ∧
          (finishedScope K units u d).resolve? name = some s := by
      intro name
      rw [hresolve, finishedScope]
      split <;> simp [*]
    simp only [hmeaning, hself, ne_comm (a := s), List.not_mem_nil, false_and, exists_false,
      false_or, true_and]
  · intro hkind
    rw [Hierarchy.superClass?, Hierarchy.supertypes_eq, hfrom, head?_extend_linksOf hkind hself]
    cases hclass : d.superClass with
    | none => rfl
    | some t =>
      rw [Option.bind_some, hresolve, Option.filter_some, finishedScope]
      cases (Scope.inside (ofUnits K units) u d.qualified).inherits t.name <;> rfl

def plainClass (name qualified : String) (superClass : Option String) (members : List TypeDecl) :
    TypeDecl :=
  ⟨name, qualified, .classType, [], superClass.map (⟨·, {}⟩), [], members.map .type, {}⟩

/-- `class Base { class Nested extends p.Api {} }` -/
def baseUnit : CompilationUnit :=
  ⟨"Base.java", none, [], [plainClass "Base" "Base" none
    [plainClass "Nested" "Base.Nested" (some "p.Api") []]]⟩

/-- `class In extends …`, inside a class that extends `Base`. -/
def innerClass (super : String) : TypeDecl := plainClass "In" "Main.In" (some super) []

/-- `class Main extends Base { class In extends … {} }` -/
def mainUnit (super : String) : CompilationUnit :=
  ⟨"Main.java", none, [], [plainClass "Main" "Main" (some "Base") [innerClass super]]⟩

def apiCatalog : Platform.Catalog := .ofClasses [{ name := "p.Api", since := 1 }]

theorem supertypes_agree_with_scope_nested :
    (ofUnits apiCatalog [baseUnit, mainUnit "Base.Nested"]).hierarchy.superClass? "Main.In" =
        some "Base.Nested" ∧
      ∀ s, (∃ kind, ⟨"Main.In", s, kind⟩ ∈
        (ofUnits apiCatalog [baseUnit, mainUnit "Base.Nested"]).hierarchy.links) ↔
          s = "Base.Nested" := by
  have hd : (mainUnit "Base.Nested", innerClass "Base.Nested") ∈
      declarations [baseUnit, mainUnit "Base.Nested"] := .tail _ (.tail _ (.tail _ (.head _)))
  have hagree := supertypes_agree_with_scope (K := apiCatalog) (by decide +kernel)
    (by decide +kernel) hd
  have hmeaning : (finishedScope apiCatalog [baseUnit, mainUnit "Base.Nested"]
      (mainUnit "Base.Nested") (innerClass "Base.Nested")).resolve? "Base.Nested" =
        some "Base.Nested" := by decide +kernel
  refine ⟨(hagree.2 (by decide)).trans (by decide +kernel), fun s => (hagree.1 s).trans ?_⟩
  constructor
  · rintro ⟨-, -, t, ht, -, hs⟩
    rw [List.mem_singleton.mp ht] at hs
    exact Option.some.inj (hs.symm.trans hmeaning)
  · rintro rfl
    exact ⟨by decide +kernel, by decide, _, List.mem_singleton_self _, by decide +kernel, hmeaning⟩

/-- A supertype that is named as a member type of a superclass is not linked, though the
finished index knows what the name means. -/
theorem inherited_supertype_unlinked :
    (finishedScope apiCatalog [baseUnit, mainUnit "Nested"] (mainUnit "Nested")
        (innerClass "Nested")).resolve? "Nested" = some "Base.Nested" ∧
      (ofUnits apiCatalog [baseUnit, mainUnit "Nested"]).isKnown "Base.Nested" = true ∧
      (ofUnits apiCatalog [baseUnit, mainUnit "Nested"]).hierarchy.linksFrom "Main.In" = [] := by
  decide +kernel

end Index

end LevelGuard.Project
