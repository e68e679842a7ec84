import Mathlib.Data.List.Nodup
import LevelGuard.Proofs.IndexOrder
import LevelGuard.Proofs.Renaming

/-!
# Member types

The member types of a type are not taken from its declaration: a registered type is made a
member of the type that its qualified name has before the last dot. For the types of named
files this is right for member types and for types at the outermost level. The name
of a type that is local to a body has a dollar sign after that of the type around it, so the
last dot in it is further out: such a type becomes a member of a type that does not declare
it, if there is one of that name, and may hide a member type with the same simple name.
-/
namespace LevelGuard

namespace Text

theorem cutLast?_eq_none_iff {p : Char → Bool} {cs : List Char} :
    cutLast? p cs = none ↔ ∀ c ∈ cs, p c = false := by
  induction cs with
  | nil => simp [cutLast?]
  | cons c cs ih =>
    rw [List.forall_mem_cons, ← ih, cutLast?]
    cases cutLast? p cs <;> simp

theorem cutLast?_eq_some_iff {p : Char → Bool} {cs before after : List Char} :
    cutLast? p cs = some (before, after) ↔
      ∃ c, p c = true ∧ cs = before ++ c :: after ∧ ∀ d ∈ after, p d = false := by
  induction cs generalizing before with
  | nil => simp [cutLast?]
  | cons c cs ih =>
    rw [cutLast?]
    cases hcut : cutLast? p cs with
    | none =>
      rw [cutLast?_eq_none_iff] at hcut
      constructor
      · intro h
        simp only [Option.ite_none_right_eq_some, Option.some.injEq, Prod.mk.injEq] at h
        obtain ⟨hc, rfl, rfl⟩ := h
        exact ⟨c, hc, rfl, hcut⟩
      · rintro ⟨d, hd, heq, -⟩
        cases before with
        | nil =>
          obtain ⟨rfl, rfl⟩ := List.cons.inj heq
          exact if_pos hd
        | cons b before =>
          have hmem : d ∈ cs := (List.cons.inj heq).2 ▸ List.mem_append_right _ List.mem_cons_self
          rw [hcut d hmem] at hd
          cases hd
    | some r =>
      constructor
      · rintro ⟨⟩
        obtain ⟨d, hd, heq, hafter⟩ := ih.mp hcut
        exact ⟨d, hd, congrArg (c :: ·) heq, hafter⟩
      · rintro ⟨d, hd, heq, hafter⟩
        cases before with
        | nil =>
          obtain ⟨-, rfl⟩ := List.cons.inj heq
          rw [cutLast?_eq_none_iff.mpr hafter] at hcut
          cases hcut
        | cons b before =>
          obtain ⟨rfl, hcs⟩ := List.cons.inj heq
          rw [ih.mpr ⟨d, hd, hcs, hafter⟩] at hcut
          cases hcut
          rfl

end Text

namespace Project.Index

open Java

theorem outerName?_eq_some_iff {name outer : String} :
    outerName? name = some outer ↔ ∃ rest, name.toList = outer.toList ++ '.' :: rest ∧ '.' ∉ rest := by
  rw [outerName?, Option.map_eq_some_iff]
  constructor
  · rintro ⟨⟨before, rest⟩, hcut, rfl⟩
    obtain ⟨c, hc, hname, hrest⟩ := Text.cutLast?_eq_some_iff.mp hcut
    obtain rfl : c = '.' := beq_iff_eq.mp hc
    exact ⟨rest, by rw [hname, String.toList_ofList], fun hmem => beq_eq_false_iff_ne.mp (hrest _ hmem) rfl⟩
  · rintro ⟨rest, hname, hrest⟩
    refine ⟨(outer.toList, rest), Text.cutLast?_eq_some_iff.mpr ⟨'.', rfl, hname, fun c hc => ?_⟩, ?_⟩
    · exact beq_eq_false_iff_ne.mpr fun heq => hrest (heq ▸ hc)
    · exact String.ofList_toList

/-- The name of a member type. -/
theorem outerName?_append {outer simple : String} (h : '.' ∉ simple.toList) :
    outerName? (outer ++ "." ++ simple) = some outer :=
  outerName?_eq_some_iff.mpr ⟨simple.toList, by simp, h⟩

theorem length_lt_of_outerName? {name outer : String} (h : outerName? name = some outer) :
    outer.length < name.length := by
  obtain ⟨rest, hname, -⟩ := outerName?_eq_some_iff.mp h
  have hlength := congrArg List.length hname
  rw [List.length_append, List.length_cons, String.length_toList, String.length_toList] at hlength
  omega

theorem memberOf?_eq_some_iff {package : Option String} {d : TypeDecl} {outer : String} :
    memberOf? package d = some outer ↔ d.name ≠ "" ∧
      d.qualified ≠ topLevelName (package.getD "") d.name ∧ outerName? d.qualified = some outer := by
  unfold memberOf?
  split
  · next h => simp [h]
  · next h =>
    split
    · next h' => simp [h']
    · next h' => simp [h, h']

def withMember (name : String) (T : Table String String) (p : CompilationUnit × TypeDecl) :
    Table String String :=
  if memberOf? p.1.package p.2 = some name then T.insert p.2.name p.2.qualified else T

theorem get?_withMember {name s : String} (T : Table String String) (p : CompilationUnit × TypeDecl) :
    (withMember name T p).get? s =
      if memberOf? p.1.package p.2 = some name ∧ p.2.name = s then some p.2.qualified else T.get? s := by
  unfold withMember
  by_cases hmember : memberOf? p.1.package p.2 = some name
  · simp only [hmember, if_true, true_and, Table.get?_insert, eq_comm]
  · simp only [hmember, if_false, false_and]

section Run

variable {name : String} (ps : List (CompilationUnit × TypeDecl)) (T : Table String String) (s : String)

theorem isSome_get?_foldl : ((ps.foldl (withMember name) T).get? s).isSome ↔
    (∃ p ∈ ps, memberOf? p.1.package p.2 = some name ∧ p.2.name = s) ∨ (T.get? s).isSome :=
  foldl_iff_exists (P := fun T : Table String String => (T.get? s).isSome) (fun T p => by
    rw [get?_withMember]
    split
    · next h => simp [h]
    · next h => simp [h]) ps T

theorem exists_of_get?_foldl {q : String} (h : (ps.foldl (withMember name) T).get? s = some q) :
    T.get? s = some q ∨
      ∃ p ∈ ps, memberOf? p.1.package p.2 = some name ∧ p.2.name = s ∧ p.2.qualified = q := by
  induction ps generalizing T with
  | nil => exact .inl h
  | cons p ps ih =>
    obtain h | ⟨p', hp', h⟩ := ih _ h
    · rw [get?_withMember] at h
      split at h
      · next hp => exact .inr ⟨p, List.mem_cons_self, hp.1, hp.2, Option.some.inj h⟩
      · exact .inl h
    · exact .inr ⟨p', List.mem_cons_of_mem _ hp', h⟩

end Run

theorem memberTypes_foldl_entryAfter {name : String} {ps : List (CompilationUnit × TypeDecl)}
    (hne : ∀ p ∈ ps, p.2.qualified ≠ name) (t : SourceType) :
    ∃ t', ps.foldl (fun entry p => entryAfter p.1.package p.2 name entry) (some t) = some t' ∧
      t'.memberTypes = ps.foldl (withMember name) t.memberTypes := by
  induction ps generalizing t with
  | nil => exact ⟨t, rfl, rfl⟩
  | cons p ps ih =>
    obtain ⟨hp, hps⟩ := List.forall_mem_cons.mp hne
    rw [List.foldl_cons, List.foldl_cons, entryAfter, if_neg (Ne.symm hp), withMember]
    split
    · exact ih hps (withMemberType p.2 t)
    · exact ih hps t

/-- Declarations around one of them, which has the types in its body after it. -/
theorem exists_declarations_eq {units : List CompilationUnit} {u : CompilationUnit} {d : TypeDecl}
    (h : (u, d) ∈ declarations units) :
    ∃ before after, declarations units = before ++ (u, d) :: after ∧
      ∀ c ∈ membersTypes d.members, (u, c) ∈ after := by
  obtain ⟨hu, hd⟩ := mem_declarations.mp h
  obtain ⟨files, files', rfl⟩ := List.append_of_mem hu
  obtain ⟨types, types', htypes⟩ := u.shows.whole d hd
  refine ⟨declarations files ++ types.map (Prod.mk u),
    (membersTypes d.members ++ types').map (Prod.mk u) ++ declarations files', ?_, fun c hc => ?_⟩
  · rw [declarations, List.flatMap_append, List.flatMap_cons, ← htypes, declTypes_eq]
    simp [declarations]
  · exact List.mem_append_left _ (List.mem_map_of_mem (List.mem_append_left _ hc))

/-- The entry of a declared type, with the member types that later registrations give it. -/
theorem memberTypes_ofUnits (K : Platform.Catalog) {units : List CompilationUnit} {u : CompilationUnit}
    {d : TypeDecl} {before after : List (CompilationUnit × TypeDecl)}
    (hnames : ((declarations units).map (·.2.qualified)).Nodup)
    (heq : declarations units = before ++ (u, d) :: after) :
    ∃ t, (ofUnits K units).sourceType? d.qualified = some t ∧
      t.memberTypes = after.foldl (withMember d.qualified) .empty := by
  have hlater : ∀ p ∈ after, p.2.qualified ≠ d.qualified := by
    rw [heq, List.map_append, List.map_cons] at hnames
    have hnew := (List.nodup_cons.mp (List.nodup_append.mp hnames).2.1).1
    exact fun p hp hname => hnew (hname ▸ List.mem_map_of_mem hp)
  have hself : memberOf? u.package d ≠ some d.qualified := fun h =>
    Nat.lt_irrefl _ (length_lt_of_outerName? (memberOf?_eq_some_iff.mp h).2.2)
  obtain ⟨t, ht, hmembers⟩ := memberTypes_foldl_entryAfter hlater (.ofDecl u.package d)
  have hentry : (registered K units).sourceType? d.qualified = some t := by
    rw [registered, sourceType?_registerAll, heq, List.foldl_append, List.foldl_cons, ← ht, entryAfter,
      if_pos rfl, if_neg hself]
  have hsame := (sameNames_registered K units).names d.qualified
  rw [hentry, Option.map_some] at hsame
  obtain ⟨t', ht', hnames'⟩ := Option.map_eq_some_iff.mp hsame.symm
  exact ⟨t', ht', (congrArg Prod.snd hnames').trans hmembers⟩

end Project.Index

namespace Java

open Project.Index

namespace CompilationUnit

theorem mem_written (u : CompilationUnit) {d : TypeDecl} (hd : d ∈ u.allTypes) : d ∈ u.outline.written :=
  Outline.mem_written_of_mem_visited (u.shows.visited ▸ hd)

/-- The types in the body of a type of the file are types of it. -/
theorem mem_allTypes (u : CompilationUnit) {c d : TypeDecl} (hd : d ∈ u.allTypes)
    (hc : c ∈ membersTypes d.members) : c ∈ u.allTypes := by
  refine (u.shows.whole d hd).subset ?_
  rw [declTypes_eq]
  exact List.mem_cons_of_mem _ hc

/-- A type of the file that is neither at the outermost level nor a member of another one. -/
def IsLocal (u : CompilationUnit) (l : TypeDecl) : Prop :=
  l ∈ u.allTypes ∧ l ∉ u.types ∧ ∀ a ∈ u.allTypes, Member.type l ∉ a.members

end CompilationUnit

theorem mem_typeNames {members : List Member} {s : String} :
    s ∈ typeNames members ↔ ∃ c, Member.type c ∈ members ∧ c.name = s := by
  rw [typeNames, List.mem_filterMap]
  constructor
  · rintro ⟨m, hm, hname⟩
    cases m with
    | type c => exact ⟨c, hm, Option.some.inj hname⟩
    | method m => cases hname
    | field f => cases hname
    | initializer isStatic body => cases hname
    | constant c => cases hname
  · rintro ⟨c, hc, rfl⟩
    exact ⟨.type c, hc, rfl⟩

section Named

variable {u : CompilationUnit} (hnamed : u.Named)
include hnamed

theorem length_package_lt {d : TypeDecl} (hd : d ∈ u.allTypes) :
    (packageLead u.package).length < d.qualified.length := by
  obtain ⟨e, he, hd⟩ := List.mem_flatMap.mp hd
  have hword := (hnamed.words e he).ne_empty
  obtain ⟨raw, htypes⟩ := hnamed.walked
  rw [htypes] at he
  obtain ⟨c, -, rfl⟩ := List.mem_map.mp he
  have hname : 0 < c.name.length := Nat.pos_of_ne_zero fun hzero => hword (String.length_eq_zero_iff.mp hzero)
  have htop := congrArg List.length (toList_qualified_nameTopType u.package c)
  rw [List.length_append, String.length_toList, String.length_toList] at htop
  have hle := length_nameTopType_le hd
  omega

theorem package_ne_qualified {d : TypeDecl} (hd : d ∈ u.allTypes) : ∀ p ∈ u.package, p ≠ d.qualified := by
  rintro p hp rfl
  have hlt := length_package_lt hnamed hd
  rw [Option.mem_def.mp hp, packageLead, List.length_append, String.length_toList] at hlt
  omega

/-- A type with a name becomes a member of the type whose name it has before its last dot. -/
theorem memberOf?_of_outerName? {d l : TypeDecl} (hd : d ∈ u.allTypes) (hl : l ∈ u.outline.written)
    (hname : l.name ≠ "") (houter : outerName? l.qualified = some d.qualified) :
    memberOf? u.package l = some d.qualified := by
  have hword : IsWord l.name := (hnamed.proper l hl).name.resolve_left hname
  refine memberOf?_eq_some_iff.mpr ⟨hname, fun htop => ?_, houter⟩
  rw [htop, topLevelName] at houter
  split at houter
  · obtain ⟨rest, hdots, -⟩ := outerName?_eq_some_iff.mp houter
    exact hword.noDot (hdots ▸ List.mem_append_right _ List.mem_cons_self)
  · next hpackage =>
    rw [outerName?_append hword.noDot] at houter
    cases hp : u.package with
    | none => exact hpackage (by rw [hp]; rfl)
    | some p =>
      rw [hp] at houter
      exact package_ne_qualified hnamed hd p hp (Option.some.inj houter)

/-- A type at the outermost level becomes no member of a declared type. -/
theorem eq_empty_of_memberOf? {c : TypeDecl} {outer : String} (hc : c ∈ u.types)
    (h : memberOf? u.package c = some outer) : outer = "" := by
  obtain ⟨-, htop, houter⟩ := memberOf?_eq_some_iff.mp h
  obtain ⟨raw, htypes⟩ := hnamed.walked
  have hword := hnamed.words c hc
  rw [htypes] at hc
  obtain ⟨c, -, rfl⟩ := List.mem_map.mp hc
  have hsimple : IsWord c.name := hword
  cases hp : u.package with
  | none =>
    rw [hp] at htop
    exact (htop rfl).elim
  | some p =>
    rw [hp] at htop houter
    by_cases hempty : p = ""
    · have hcut : outerName? (p ++ "." ++ c.name) = some outer := houter
      rw [outerName?_append hsimple.noDot] at hcut
      exact (Option.some.inj hcut).symm.trans hempty
    · exact (htop (if_neg hempty).symm).elim

theorem isWord_member {c d : TypeDecl} (hd : d ∈ u.allTypes) (hc : Member.type c ∈ d.members) :
    IsWord c.name :=
  (hnamed.proper d (u.mem_written hd)).members c.name (mem_typeNames.mpr ⟨c, hc, rfl⟩)

theorem outerName?_member {c d : TypeDecl} (hd : d ∈ u.allTypes) (hc : Member.type c ∈ d.members) :
    outerName? c.qualified = some d.qualified := by
  rw [hnamed.qualified_member (u.mem_written hd) hc]
  exact outerName?_append (isWord_member hnamed hd hc).noDot

end Named

theorem mem_membersTypes {members : List Member} {c : TypeDecl} (h : Member.type c ∈ members) :
    c ∈ membersTypes members := by
  induction members with
  | nil => cases h
  | cons m members ih =>
    rcases List.mem_cons.mp h with rfl | h
    · cases c
      exact List.mem_cons_self
    · have hrest := ih h
      cases m with
      | method m => cases m; exact List.mem_append_right _ hrest
      | field f => cases f; exact List.mem_append_right _ hrest
      | type d => exact List.mem_append_right _ hrest
      | initializer isStatic body => exact List.mem_append_right _ hrest
      | constant c => cases c; exact List.mem_append_right _ hrest

end Java

namespace Project.Index

open Java

/-- A type that is local to a body and has the name of another type before the last dot of its
own, which makes it a member of that type. -/
def StraysInto (units : List CompilationUnit) (d l : TypeDecl) : Prop :=
  ∃ u ∈ units, u.IsLocal l ∧ outerName? l.qualified = some d.qualified

section Units

variable {units : List CompilationUnit}
  (hnamed : ∀ u ∈ units, u.Named) {u : CompilationUnit} {d : TypeDecl} (hd : (u, d) ∈ declarations units)
include hnamed hd

theorem member_or_strays (hnames : ((declarations units).map (·.2.qualified)).Nodup)
    {v : CompilationUnit} {c : TypeDecl} (hc : (v, c) ∈ declarations units)
    (h : memberOf? v.package c = some d.qualified) : Member.type c ∈ d.members ∨ StraysInto units d c := by
  obtain ⟨hu, hall⟩ := mem_declarations.mp hd
  obtain ⟨hv, hc⟩ := mem_declarations.mp hc
  have houter := (memberOf?_eq_some_iff.mp h).2.2
  by_cases htop : c ∈ v.types
  · have hlength := length_package_lt (hnamed u hu) hall
    rw [eq_empty_of_memberOf? (hnamed v hv) htop h] at hlength
    exact absurd hlength (Nat.not_lt_zero _)
  by_cases hmember : ∃ a ∈ v.allTypes, Member.type c ∈ a.members
  · obtain ⟨a, ha, hmember⟩ := hmember
    rw [outerName?_member (hnamed v hv) ha hmember] at houter
    have hsame := List.inj_on_of_nodup_map hnames (mem_declarations.mpr ⟨hv, ha⟩) hd (Option.some.inj houter)
    obtain ⟨rfl, rfl⟩ := Prod.mk.inj hsame
    exact .inl hmember
  · exact .inr ⟨v, hv, ⟨hc, htop, fun a ha hmem => hmember ⟨a, ha, hmem⟩⟩, houter⟩

/-- Both kinds of types are made members, if they have a name. -/
theorem memberOf?_of_member_or_strays {c : TypeDecl} (hc : c ∈ u.allTypes) (hname : c.name ≠ "")
    (h : Member.type c ∈ d.members ∨ StraysInto units d c) : memberOf? u.package c = some d.qualified := by
  obtain ⟨hu, hall⟩ := mem_declarations.mp hd
  refine memberOf?_of_outerName? (hnamed u hu) hall (u.mem_written hc) hname ?_
  obtain hmember | ⟨_, _, _, houter⟩ := h
  · exact outerName?_member (hnamed u hu) hall hmember
  · exact houter

end Units

/-- In a project of named files whose types have different qualified names, the member
types of a type under a simple name are those that it declares, unless a local type of that
name strays into it. Whatever else is among its member types has strayed, and the named types
in its body that stray into it are found there under their names, as its member types are. -/
theorem memberTypes_up_to_strays (K : Platform.Catalog) {units : List CompilationUnit}
    (hnamed : ∀ u ∈ units, u.Named)
    (hnames : ((declarations units).map (·.2.qualified)).Nodup) {u : CompilationUnit} {d : TypeDecl}
    (hd : (u, d) ∈ declarations units) :
    ∃ t, (ofUnits K units).sourceType? d.qualified = some t ∧
      (∀ s, (∀ l, StraysInto units d l → l.name ≠ s) → ∀ q, t.memberTypes.get? s = some q ↔
        ∃ c, Member.type c ∈ d.members ∧ c.name = s ∧ c.qualified = q) ∧
      (∀ s q, t.memberTypes.get? s = some q →
        ∃ c, (Member.type c ∈ d.members ∨ StraysInto units d c) ∧ c.name = s ∧ c.qualified = q) ∧
      ∀ l ∈ membersTypes d.members, l.name ≠ "" → (Member.type l ∈ d.members ∨ StraysInto units d l) →
        (t.memberTypes.get? l.name).isSome := by
  obtain ⟨hu, hall⟩ := mem_declarations.mp hd
  obtain ⟨before, after, heq, hinside⟩ := exists_declarations_eq hd
  obtain ⟨t, ht, hmembers⟩ := memberTypes_ofUnits K hnames heq
  have hfound : ∀ s q, t.memberTypes.get? s = some q →
      ∃ c, (Member.type c ∈ d.members ∨ StraysInto units d c) ∧ c.name = s ∧ c.qualified = q := by
    intro s q hget
    rw [hmembers] at hget
    obtain hget | ⟨p, hp, hmember, hs, hq⟩ := exists_of_get?_foldl after _ s hget
    · cases hget
    · have hdeclared : p ∈ declarations units := heq ▸ List.mem_append_right _ (List.mem_cons_of_mem _ hp)
      exact ⟨p.2, member_or_strays hnamed hd hnames hdeclared hmember, hs, hq⟩
  have hthere : ∀ l ∈ membersTypes d.members, l.name ≠ "" →
      (Member.type l ∈ d.members ∨ StraysInto units d l) → (t.memberTypes.get? l.name).isSome := by
    intro l hl hname hcause
    rw [hmembers, isSome_get?_foldl]
    have hmember := memberOf?_of_member_or_strays hnamed hd (u.mem_allTypes hall hl) hname hcause
    exact .inl ⟨(u, l), hinside l hl, hmember, rfl⟩
  refine ⟨t, ht, fun s hs q => ⟨fun hget => ?_, ?_⟩, hfound, hthere⟩
  · obtain ⟨c, hc | hc, hname, hq⟩ := hfound s q hget
    · exact ⟨c, hc, hname, hq⟩
    · exact (hs c hc hname).elim
  · rintro ⟨c, hc, rfl, rfl⟩
    have hname := (isWord_member (hnamed u hu) hall hc).ne_empty
    obtain ⟨q, hq⟩ := Option.isSome_iff_exists.mp (hthere c (mem_membersTypes hc) hname (.inl hc))
    -- What is found is a member type of the same simple name, so of the same qualified name.
    obtain ⟨c', hc' | hc', hsame, hq'⟩ := hfound c.name q hq
    · rw [hq, ← hq', (hnamed u hu).qualified_member (u.mem_written hall) hc', hsame,
        ← (hnamed u hu).qualified_member (u.mem_written hall) hc]
    · exact (hs c' hc' hsame).elim

/-- A member type with a member type and a class local to a method. -/
def nestedMembersText : String :=
  "package p; class Outer \x7b class Inner \x7b class Deep \x7b\x7d void m() \x7b class Local \x7b\x7d \x7d \x7d \x7d"

theorem memberTypes_up_to_strays_nested : ∃ u, readUnit? "Outer.java" nestedMembersText = some u ∧
    ((declarations [u]).map (·.2.qualified)).Nodup ∧
    ∀ K, ∃ t, (ofUnits K [u]).sourceType? "p.Outer" = some t ∧
      (∀ q, t.memberTypes.get? "Inner" = some q ↔ q = "p.Outer.Inner") ∧
      t.memberTypes.get? "Local" = some "p.Outer.Inner$1Local" := by
  have hsome : ∃ u, readUnit? "Outer.java" nestedMembersText = some u ∧
      ((declarations [u]).map (·.2.qualified)).Nodup ∧ u.types.map (·.name) = ["Outer"] ∧
      (∀ a ∈ u.allTypes, "Local" ∉ Java.typeNames a.members) ∧
      (∀ a ∈ u.allTypes, a.name = "Inner" → a.qualified = "p.Outer.Inner") ∧
      (∀ a ∈ u.allTypes, a.name = "Local" → a.qualified = "p.Outer.Inner$1Local") ∧
      ∃ d ∈ u.allTypes, d.qualified = "p.Outer" ∧ "Inner" ∈ Java.typeNames d.members ∧
        ∃ l ∈ membersTypes d.members, l.name = "Local" ∧ outerName? l.qualified = some "p.Outer" :=
    exists_readUnit? String.toList_ofList (by decide +kernel)
  obtain ⟨u, hread, hnames, htypes, hlocal, hinner, hlocals, d, hd, hq, hmember, l, hl, hname,
    houter⟩ := hsome
  refine ⟨u, hread, hnames, fun K => ?_⟩
  have hfiles : ∀ v ∈ [u], v.Named := List.forall_mem_singleton.mpr (named_of_readUnit? hread)
  have hall : ∀ a ∈ u.allTypes, (u, a) ∈ declarations [u] := fun a ha =>
    mem_declarations.mpr ⟨List.mem_singleton_self u, ha⟩
  obtain ⟨t, ht, hexact, hfound, hthere⟩ := memberTypes_up_to_strays K hfiles hnames (hall d hd)
  rw [hq] at ht
  obtain ⟨c, hc, hcname⟩ := mem_typeNames.mp hmember
  have hcall := u.mem_allTypes hd (mem_membersTypes hc)
  have hcq := hinner c hcall hcname
  have hclear : ∀ a, StraysInto [u] d a → a.name ≠ "Inner" := by
    rintro a ⟨v, hv, hlocal, -⟩ haname
    rw [List.mem_singleton.mp hv] at hlocal
    have hsame := List.inj_on_of_nodup_map hnames (hall a hlocal.1) (hall c hcall)
      ((hinner a hlocal.1 haname).trans hcq.symm)
    exact hlocal.2.2 d hd ((Prod.mk.inj hsame).2 ▸ hc)
  have hstrays : StraysInto [u] d l := by
    refine ⟨u, List.mem_singleton_self u, ⟨u.mem_allTypes hd hl, fun htop => ?_, fun a ha hmem => ?_⟩, ?_⟩
    · have hmem := List.mem_map_of_mem (f := fun d : TypeDecl => d.name) htop
      rw [htypes, hname] at hmem
      exact absurd hmem (by decide)
    · exact hlocal a ha (mem_typeNames.mpr ⟨l, hmem, hname⟩)
    · rw [houter, hq]
  refine ⟨t, ht, fun q => (hexact "Inner" hclear q).trans ⟨?_, ?_⟩, ?_⟩
  · rintro ⟨e, he, hename, rfl⟩
    exact hinner e (u.mem_allTypes hd (mem_membersTypes he)) hename
  · rintro rfl
    exact ⟨c, hc, hcname, hcq⟩
  · have hsome := hthere l hl (by rw [hname]; decide) (.inr hstrays)
    rw [hname] at hsome
    obtain ⟨q, hget⟩ := Option.isSome_iff_exists.mp hsome
    obtain ⟨e, he, hename, rfl⟩ := hfound "Local" q hget
    have heall : e ∈ u.allTypes := by
      obtain he | ⟨v, hv, he, -⟩ := he
      · exact u.mem_allTypes hd (mem_membersTypes he)
      · exact List.mem_singleton.mp hv ▸ he.1
    rw [hget, hlocals e heall hename]

/-- A class that is local to a method and one of the same simple name further out. -/
def sameNamesText : String :=
  "class Outer \x7b class Local \x7b\x7d class Inner \x7b void m() \x7b class Local \x7b\x7d \x7d \x7d \x7d"

/-- The class local to a method takes the place of the member type. -/
theorem local_class_replaces_member_type : ∃ u, readUnit? "Outer.java" sameNamesText = some u ∧
    ((declarations [u]).map (·.2.qualified)).Nodup ∧
    ((ofUnits (.ofClasses []) [u]).sourceType? "Outer").map (fun t => t.memberTypes.get? "Local") =
      some (some "Outer.Inner$1Local") :=
  exists_readUnit? String.toList_ofList (by decide +kernel)

end Project.Index

end LevelGuard
