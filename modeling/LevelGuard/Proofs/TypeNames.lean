import Mathlib.Data.List.Nodup
import Mathlib.Data.List.Perm.Basic
import LevelGuard.Proofs.Renaming
import LevelGuard.Proofs.Supertypes

/-!
# Names of the types of a file

In a file whose types have plain names, and different ones where they are declared side by
side, all types have different qualified names, unless two classes in annotations of types
at the outermost level have the same simple name: these are named without a number. The
types around the code of a type are found from its qualified name alone, as long as no type
of the project is called like the package of the file.
-/
namespace LevelGuard

theorem Project.Index.isSome_sourceType?_registered {K : Platform.Catalog}
    {units : List Java.CompilationUnit} {name : String} :
    ((registered K units).sourceType? name).isSome ↔ ∃ v ∈ units, ∃ c ∈ v.allTypes, c.qualified = name := by
  refine (isSome_sourceType?_registerAll _ _ name).trans ⟨?_, ?_⟩
  · rintro (⟨⟨v, c⟩, hmem, hname⟩ | h)
    · obtain ⟨v, hv, hmem⟩ := List.mem_flatMap.mp hmem
      obtain ⟨c, hc, heq⟩ := List.mem_map.mp hmem
      cases heq
      exact ⟨v, hv, c, hc, hname⟩
    · cases h
  · rintro ⟨v, hv, c, hc, hname⟩
    exact .inl ⟨(v, c), List.mem_flatMap.mpr ⟨v, hv, List.mem_map_of_mem hc⟩, hname⟩

namespace Java

open Project

/-- What is around the outermost types of a file. -/
def packageOutwards : Option String → List String
  | none => []
  | some p => outwards p

section TopType

variable (package : Option String) (c : TypeDecl)

theorem outwards_nameTopType (h : IsSegment c.name.toList) :
    outwards (nameTopType package c).qualified =
      (nameTopType package c).qualified :: packageOutwards package := by
  cases package with
  | none => exact outwards_of_isSegment h
  | some p =>
    refine outwards_of_eq_append (c := '.') h (by decide) ((toList_qualified_nameTopType (some p) c).trans ?_)
    exact (List.append_cons _ _ _).symm

theorem numbered_topMembers : ∃ n, Numbered (some (nameTopType package c).qualified) 0 n
    (typeNames (nameTopType package c).members) (membersNested none (nameTopType package c).members) :=
  ⟨_, (walks_members _ none c.members 0).numbered⟩

end TopType

/-- How the names of a type of the package and of the types in it are made up. -/
structure TopNamed (package : Option String) (d : TypeDecl) : Prop where
  body : Spread (Continues (packageLead package) d.name.toList) (bodyNested d)
  chained : Chained (packageOutwards package) (bodyNested d)
  annotations : Rooted (annotationsNested d.annotations)

theorem topNamed {package : Option String} {c : TypeDecl}
    (h : ∀ p ∈ declNested (nameTopType package c), WellNamed p.1) :
    TopNamed package (nameTopType package c) := by
  rw [declNested_eq] at h
  obtain ⟨hbody, hannotations⟩ := List.forall_mem_append.mp h
  obtain ⟨hd, hinner⟩ := Numbered.wellNamed_body hbody
  obtain ⟨n, hmembers⟩ := numbered_topMembers package c
  obtain ⟨hspread, hchained⟩ := hmembers.fits hinner hd.distinct
  refine ⟨?_, ?_, (walks_annotations none c.annotations 0).numbered.fits hannotations List.nodup_nil⟩
  · rw [bodyNested_eq]
    exact hspread.body (toList_qualified_nameTopType package c)
  · rw [bodyNested_eq]
    exact hchained.body (outwards_nameTopType package c hd.simple.isSegment)

namespace CompilationUnit

/-- Types declared in one body have different simple names, and neither these nor the
beginning of the package have a dollar sign. -/
structure PlainNames (u : CompilationUnit) : Prop where
  package : ∀ p ∈ u.package, p.toList.head? ≠ some '$'
  names : ∀ p ∈ u.nested, '$' ∉ p.1.name.toList
  members : ∀ p ∈ u.nested, (typeNames p.1.members).Nodup
  types : (u.types.map (·.name)).Nodup

variable (u : CompilationUnit)

instance : Decidable u.PlainNames :=
  decidable_of_iff ((∀ p ∈ u.package, p.toList.head? ≠ some '$') ∧
      (∀ p ∈ u.nested, '$' ∉ p.1.name.toList) ∧ (∀ p ∈ u.nested, (typeNames p.1.members).Nodup) ∧
      (u.types.map (·.name)).Nodup)
    ⟨fun ⟨h₁, h₂, h₃, h₄⟩ => ⟨h₁, h₂, h₃, h₄⟩, fun ⟨h₁, h₂, h₃, h₄⟩ => ⟨h₁, h₂, h₃, h₄⟩⟩

theorem mem_nested {u : CompilationUnit} {d : TypeDecl} (hd : d ∈ u.types) : (d, []) ∈ u.nested := by
  refine List.mem_flatMap.mpr ⟨d, hd, ?_⟩
  rw [declNested_eq, bodyNested_eq]
  exact List.mem_append_left _ List.mem_cons_self

theorem perm_nested : u.nested.Perm (u.bodyTypes ++ u.annotationTypes) := by
  have hsplit : declNested = fun d => bodyNested d ++ annotationsNested d.annotations :=
    funext declNested_eq
  rw [nested, hsplit]
  exact (List.flatMap_append_perm _ _ _).symm

end CompilationUnit

section Types

variable {package : Option String} {types : List TypeDecl} (h : ∀ d ∈ types, TopNamed package d)
include h

theorem spread_bodies (hsegments : ∀ d ∈ types, IsSegment d.name.toList)
    (hnames : (types.map (·.name)).Nodup) :
    Spread (fun n => ∃ d ∈ types, Continues (packageLead package) d.name.toList n)
      (types.flatMap bodyNested) := by
  induction types with
  | nil => exact .nil
  | cons d types ih =>
    obtain ⟨hd, htypes⟩ := List.forall_mem_cons.mp h
    obtain ⟨hsegment, hsegments⟩ := List.forall_mem_cons.mp hsegments
    obtain ⟨hnew, hnames⟩ := List.nodup_cons.mp hnames
    rw [List.flatMap_cons]
    refine hd.body.append (ih htypes hsegments hnames) ?_ (fun n hn => ⟨d, List.mem_cons_self, hn⟩) ?_
    · rintro n hn ⟨c, hc, hn'⟩
      have hsame := hn.unique hsegment (hsegments c hc) hn'
      exact hnew (List.mem_map.mpr ⟨c, hc, (String.toList_injective hsame).symm⟩)
    · rintro n ⟨c, hc, hn⟩
      exact ⟨c, List.mem_cons_of_mem _ hc, hn⟩

theorem chained_bodies : Chained (packageOutwards package) (types.flatMap bodyNested) := by
  intro p hp
  obtain ⟨d, hd, hp⟩ := List.mem_flatMap.mp hp
  exact (h d hd).chained p hp

theorem rooted_annotations : Rooted (types.flatMap fun d => annotationsNested d.annotations) := by
  induction types with
  | nil => exact .nil
  | cons d types ih =>
    obtain ⟨hd, htypes⟩ := List.forall_mem_cons.mp h
    rw [List.flatMap_cons]
    exact hd.annotations.append (ih htypes)

end Types

theorem AtRoot.head?_eq {simples : List String} {name : String} (h : AtRoot simples name) :
    name.toList.head? = some '$' := by
  obtain ⟨_, _, _, rest, hname, _⟩ := h
  rw [hname]
  rfl

/-- The name of a type in a body begins with no dollar sign. -/
theorem Continues.head?_ne {package : Option String} {simple name : String}
    (hpackage : ∀ p ∈ package, p.toList.head? ≠ some '$') (hsimple : IsWord simple)
    (hdollar : '$' ∉ simple.toList) (h : Continues (packageLead package) simple.toList name) :
    name.toList.head? ≠ some '$' := by
  obtain ⟨rest, hname, -⟩ := h
  rw [hname]
  cases package with
  | none =>
    cases hchars : simple.toList with
    | nil => exact absurd (String.toList_eq_nil_iff.mp hchars) hsimple.ne_empty
    | cons c cs =>
      rw [hchars] at hdollar
      intro heq
      exact hdollar (Option.some.inj heq ▸ List.mem_cons_self)
  | some p =>
    have hp := hpackage p rfl
    cases hchars : p.toList with
    | nil => simp [packageLead, hchars]
    | cons c cs =>
      rw [hchars] at hp
      simpa [packageLead, hchars] using hp

theorem isSimpleName_of_word {name : String} (h : name = "" ∨ IsWord name) (hdollar : '$' ∉ name.toList) :
    IsSimpleName name := by
  rcases h with rfl | h
  · exact ⟨nofun, nofun⟩
  · refine ⟨fun c hc => ?_, h.noDigit⟩
    have hne : c ≠ '$' := fun heq => hdollar (heq ▸ hc)
    have hne' : c ≠ '.' := fun heq => h.noDot (heq ▸ hc)
    simp [isSeparator, hne, hne']

section Named

variable {u : CompilationUnit} (hnamed : u.Named)
include hnamed

theorem name_of_mem_nested {p : Enclosed} (hp : p ∈ u.nested) : p.1.name = "" ∨ IsWord p.1.name :=
  (hnamed.proper _ (u.shows.lists.subset (List.mem_map_of_mem hp))).name

variable (hplain : u.PlainNames)
include hplain

theorem wellNamed_nested : ∀ p ∈ u.nested, WellNamed p.1 := fun p hp =>
  ⟨isSimpleName_of_word (name_of_mem_nested hnamed hp) (hplain.names p hp), hplain.members p hp⟩

theorem topNamed_types : ∀ d ∈ u.types, TopNamed u.package d := by
  have hwellNamed := wellNamed_nested hnamed hplain
  obtain ⟨raw, htypes⟩ := hnamed.walked
  intro d hd
  have hwell : ∀ p ∈ declNested d, WellNamed p.1 := fun p hp =>
    hwellNamed p (List.mem_flatMap.mpr ⟨d, hd, hp⟩)
  rw [htypes] at hd
  obtain ⟨c, -, rfl⟩ := List.mem_map.mp hd
  exact topNamed hwell

theorem spread_bodyTypes :
    Spread (fun n => ∃ d ∈ u.types, Continues (packageLead u.package) d.name.toList n) u.bodyTypes :=
  spread_bodies (topNamed_types hnamed hplain)
    (fun _ hd => (wellNamed_nested hnamed hplain _ (CompilationUnit.mem_nested hd)).simple.isSegment)
    hplain.types

/-- A type in a body is not called like one in an annotation of an outermost type. -/
theorem qualified_ne_of_annotationTypes {p q : Enclosed} (hp : p ∈ u.bodyTypes)
    (hq : q ∈ u.annotationTypes) : p.1.qualified ≠ q.1.qualified := by
  intro heq
  obtain ⟨d, hd, hname⟩ := (spread_bodyTypes hnamed hplain).inside p hp
  have hdollar := hplain.names _ (CompilationUnit.mem_nested hd)
  have hroot := (rooted_annotations (topNamed_types hnamed hplain)).inside q hq
  exact hname.head?_ne hplain.package (hnamed.words d hd) hdollar (heq ▸ hroot.head?_eq)

theorem nodup_nested_iff :
    (u.nested.map (·.1.qualified)).Nodup ↔ (rootNames u.annotationTypes).Nodup := by
  rw [(u.perm_nested.map _).nodup_iff, List.map_append, List.nodup_append]
  refine (and_iff_right (spread_bodyTypes hnamed hplain).nodup).trans ?_
  refine (and_iff_left fun n hn n' hn' heq => ?_).trans
    (rooted_annotations (topNamed_types hnamed hplain)).nodup_iff
  obtain ⟨p, hp, rfl⟩ := List.mem_map.mp hn
  obtain ⟨q, hq, rfl⟩ := List.mem_map.mp hn'
  exact qualified_ne_of_annotationTypes hnamed hplain hp hq heq

theorem around_unique {d : TypeDecl} {around a : List TypeDecl} (hbody : (d, around) ∈ u.bodyTypes) :
    (d, a) ∈ u.nested ↔ a = around := by
  constructor
  · intro hmem
    rcases List.mem_append.mp (u.perm_nested.mem_iff.mp hmem) with hmem | hmem
    · have heq := List.inj_on_of_nodup_map (spread_bodyTypes hnamed hplain).nodup hmem hbody rfl
      exact congrArg Prod.snd heq
    · exact (qualified_ne_of_annotationTypes hnamed hplain hbody hmem rfl).elim
  · rintro rfl
    exact u.perm_nested.mem_iff.mpr (List.mem_append_left _ hbody)

/-- Cutting the name of a type in a body leads through the types around it to the package. -/
theorem enclosing_of_mem_bodyTypes {d : TypeDecl} {around : List TypeDecl}
    (hbody : (d, around) ∈ u.bodyTypes) (hall : ∀ a ∈ d :: around, a ∈ u.allTypes)
    (K : Platform.Catalog) {units : List CompilationUnit} (hu : u ∈ units)
    (hpackage : ∀ p ∈ u.package, ∀ v ∈ units, ∀ c ∈ v.allTypes, c.qualified ≠ p) :
    (Scope.inside (Index.ofUnits K units) u d.qualified).enclosing = (d :: around).map (·.qualified) := by
  rw [← ((Index.sameNames_registered K units).inside u d.qualified).enclosing]
  change (outwards d.qualified).takeWhile (fun n => ((Index.registered K units).sourceType? n).isSome) = _
  rw [chained_bodies (topNamed_types hnamed hplain) _ hbody]
  -- The names up to the outermost type are declared, and the next one is the package.
  refine takeWhile_append_eq (fun n hn => ?_) fun n hn => ?_
  · obtain ⟨a, ha, rfl⟩ := List.mem_map.mp hn
    exact Index.isSome_sourceType?_registered.mpr ⟨u, hu, a, hall a ha, rfl⟩
  · rw [Bool.eq_false_iff]
    intro hsome
    obtain ⟨v, hv, c, hc, hname⟩ := Index.isSome_sourceType?_registered.mp hsome
    cases hp : u.package with
    | none =>
      rw [hp] at hn
      cases hn
    | some p =>
      rw [hp] at hn
      exact hpackage p hp v hv c hc (hname.trans (Option.some.inj hn).symm)

end Named

/-- In a file with plain names the types are told apart by their qualified names, exactly if
the classes in annotations of its outermost types are by their simple names. A type that
the file is asked for stands in one place, and the types around it are what the scope inside
it is made of, innermost first. -/
theorem type_names_follow_nesting {path source : String} {u : CompilationUnit}
    (hread : readUnit? path source = some u) (hplain : u.PlainNames) :
    ((u.nested.map (·.1.qualified)).Nodup ↔ (rootNames u.annotationTypes).Nodup) ∧
      ∀ d ∈ u.allTypes, ∃ around, (∀ a, (d, a) ∈ u.nested ↔ a = around) ∧
        ∀ (K : Platform.Catalog) (units : List CompilationUnit), u ∈ units →
          (∀ p ∈ u.package, ∀ v ∈ units, ∀ c ∈ v.allTypes, c.qualified ≠ p) →
          (Scope.inside (Index.ofUnits K units) u d.qualified).enclosing =
            (d :: around).map (·.qualified) := by
  have hnamed := named_of_readUnit? hread
  refine ⟨nodup_nested_iff hnamed hplain, fun d hd => ?_⟩
  obtain ⟨around, hbody, haround⟩ := u.listed_bodyTypes d hd
  refine ⟨around, fun a => around_unique hnamed hplain hbody, fun K units hu hpackage => ?_⟩
  exact enclosing_of_mem_bodyTypes hnamed hplain hbody (List.forall_mem_cons.mpr ⟨hd, haround⟩) K hu hpackage

/-- A file with classes of the same simple name in different bodies, and a class in an
annotation. -/
def nestedText : String :=
  "package p; @A(new C() \x7b\x7d) class T \x7b class B \x7b\x7d " ++
    "void m() \x7b class B \x7b Object o = new B() \x7b\x7d; \x7d \x7d \x7d"

theorem type_names_follow_nesting_sample : ∃ u, readUnit? "T.java" nestedText = some u ∧ u.PlainNames ∧
    u.nested.map (fun p => (p.1 :: p.2).map (·.qualified)) = [["p.T"], ["p.T.B", "p.T"],
      ["p.T$1B", "p.T"], ["p.T$1B$1", "p.T$1B", "p.T"], ["$"]] ∧
    (u.nested.map (·.1.qualified)).Nodup ∧
    ∀ d ∈ u.allTypes, ∃ around, (d, around) ∈ u.nested ∧ ∀ K,
      (Scope.inside (Index.ofUnits K [u]) u d.qualified).enclosing = (d :: around).map (·.qualified) := by
  have hsome : ∃ u, readUnit? "T.java" nestedText = some u ∧ u.PlainNames ∧
      u.nested.map (fun p => (p.1 :: p.2).map (·.qualified)) = [["p.T"], ["p.T.B", "p.T"],
        ["p.T$1B", "p.T"], ["p.T$1B$1", "p.T$1B", "p.T"], ["$"]] ∧
      (rootNames u.annotationTypes).Nodup ∧ ∀ p ∈ u.package, ∀ c ∈ u.allTypes, c.qualified ≠ p :=
    exists_readUnit? (Text.toList_append_eq String.toList_ofList String.toList_ofList)
      (by decide +kernel)
  obtain ⟨u, hread, hplain, hnested, hroots, hpackage⟩ := hsome
  obtain ⟨hnodup, hscopes⟩ := type_names_follow_nesting hread hplain
  refine ⟨u, hread, hplain, hnested, hnodup.mpr hroots, fun d hd => ?_⟩
  obtain ⟨around, haround, henclosing⟩ := hscopes d hd
  refine ⟨around, (haround around).mpr rfl, fun K => henclosing K [u] (List.mem_singleton_self u) ?_⟩
  intro p hp v hv
  rw [List.mem_singleton.mp hv]
  exact hpackage p hp

/-- Two anonymous classes in annotations of outermost types have the same name. -/
theorem annotation_classes_share_name : ∃ u,
    readUnit? "T.java" "@A(new B() \x7b\x7d) class T \x7b\x7d @A(new B() \x7b\x7d) class U \x7b\x7d" = some u ∧
      u.PlainNames ∧ ¬ (u.nested.map (·.1.qualified)).Nodup :=
  exists_readUnit? String.toList_ofList (by decide +kernel)

end Java

end LevelGuard
