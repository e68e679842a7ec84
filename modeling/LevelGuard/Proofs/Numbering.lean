import LevelGuard.Java.Naming
import LevelGuard.Proofs.Enclosing
import LevelGuard.Proofs.QualifiedNames

/-!
# Numbered names

Naming walks a tree with the number of the nested classes named so far. What a walk names
is told apart by the numbers that it uses up, and member types by their simple names; so
the names given by one walk and by the next one differ, and the same goes for the names
inside a type, which all begin with the name of the type. Cutting a name at its last
separator gives the name of the type around it.

Types in annotations at the outermost level stand in no type. They have no numbers, so
there only the simple names can tell them apart.
-/
namespace LevelGuard.Java

open Project

/-- A type with a simple name, whose member types have different ones. -/
structure WellNamed (d : TypeDecl) : Prop where
  simple : IsSimpleName d.name
  distinct : (typeNames d.members).Nodup

/-- The simple names of the types that stand in no other. -/
def rootNames (ps : List Enclosed) : List String := (ps.filter (·.2.isEmpty)).map (·.1.name)

theorem rootNames_append (ps ps' : List Enclosed) : rootNames (ps ++ ps') = rootNames ps ++ rootNames ps' := by
  rw [rootNames, List.filter_append, List.map_append]
  rfl

theorem rootNames_within (ps : List Enclosed) (d : TypeDecl) : rootNames (ps.map (·.within d)) = [] := by
  simp [rootNames, List.filter_map, Function.comp_def, Enclosed.within]

/-- The names of what stands in the body of the type `q`: nested classes with the numbers
from `i` on up to `j`, and member types with these simple names. -/
def InBody (q : String) (i j : Nat) (members : List String) (name : String) : Prop :=
  (∃ k simple, i < k ∧ k ≤ j ∧ IsSimpleName simple ∧
      Continues (q.toList ++ ['$']) (numberedSegment k simple) name) ∨
    ∃ simple ∈ members, IsSimpleName simple ∧ Continues (q.toList ++ ['.']) simple.toList name

/-- The names of what stands in no body, with these simple names. -/
def AtRoot (simples : List String) (name : String) : Prop :=
  ∃ simple ∈ simples, IsSimpleName simple ∧ Continues ['$'] simple.toList name

namespace InBody

variable {q name : String} {i j k : Nat} {members members' : List String}

theorem continues (h : InBody q i j members name) :
    ∃ c seg, isSeparator c = true ∧ Continues (q.toList ++ [c]) seg name := by
  rcases h with ⟨k, simple, -, -, -, h⟩ | ⟨simple, -, -, h⟩
  · exact ⟨'$', _, rfl, h⟩
  · exact ⟨'.', _, rfl, h⟩

theorem before (h : InBody q i j members name) (hle : j ≤ k) (members' : List String) :
    InBody q i k (members ++ members') name := by
  rcases h with ⟨n, simple, hi, hj, h⟩ | ⟨simple, hmem, h⟩
  · exact .inl ⟨n, simple, hi, Nat.le_trans hj hle, h⟩
  · exact .inr ⟨simple, List.mem_append_left _ hmem, h⟩

theorem after (h : InBody q j k members' name) (hle : i ≤ j) (members : List String) :
    InBody q i k (members ++ members') name := by
  rcases h with ⟨n, simple, hj, hk, h⟩ | ⟨simple, hmem, h⟩
  · exact .inl ⟨n, simple, Nat.lt_of_le_of_lt hle hj, hk, h⟩
  · exact .inr ⟨simple, List.mem_append_right _ hmem, h⟩

/-- The names of a walk are not those of the next one. -/
theorem disjoint (h : InBody q i j members name) (h' : InBody q j k members' name)
    (hmembers : ∀ s ∈ members, s ∉ members') : False := by
  rcases h with ⟨n, simple, -, hj, hs, h⟩ | ⟨simple, hmem, hs, h⟩
  · rcases h' with ⟨n', simple', hj', -, hs', h'⟩ | ⟨simple', -, -, h'⟩
    · have hseg := h.unique (isSegment_numbered n hs) (isSegment_numbered n' hs') h'
      have hn := numberedSegment_inj hs hs' hseg
      omega
    · exact h.false_of_ne (by decide) h'
  · rcases h' with ⟨n', simple', -, -, -, h'⟩ | ⟨simple', hmem', hs', h'⟩
    · exact h.false_of_ne (by decide) h'
    · have hseg := h.unique hs.isSegment hs'.isSegment h'
      exact hmembers simple hmem (String.toList_injective hseg ▸ hmem')

end InBody

theorem AtRoot.disjoint {simples simples' : List String} {name : String} (h : AtRoot simples name)
    (h' : AtRoot simples' name) (hdisjoint : ∀ s ∈ simples, s ∉ simples') : False := by
  obtain ⟨simple, hmem, hs, h⟩ := h
  obtain ⟨simple', hmem', hs', h'⟩ := h'
  have hseg := h.unique hs.isSegment hs'.isSegment h'
  exact hdisjoint simple hmem (String.toList_injective hseg ▸ hmem')

/-- The types have different names, all of them at the place. -/
structure Spread (place : String → Prop) (ps : List Enclosed) : Prop where
  nodup : (ps.map (·.1.qualified)).Nodup
  inside : ∀ p ∈ ps, place p.1.qualified

namespace Spread

variable {place place' place'' : String → Prop} {ps ps' : List Enclosed}

theorem nil : Spread place [] := ⟨List.nodup_nil, nofun⟩

theorem append (h : Spread place ps) (h' : Spread place' ps')
    (hdisjoint : ∀ n, place n → place' n → False) (hleft : ∀ n, place n → place'' n)
    (hright : ∀ n, place' n → place'' n) : Spread place'' (ps ++ ps') := by
  refine ⟨?_, fun p hp => ?_⟩
  · rw [List.map_append, List.nodup_append]
    refine ⟨h.nodup, h'.nodup, fun n hn n' hn' heq => ?_⟩
    obtain ⟨p, hp, rfl⟩ := List.mem_map.mp hn
    obtain ⟨p', hp', rfl⟩ := List.mem_map.mp hn'
    exact hdisjoint _ (h.inside p hp) (heq ▸ h'.inside p' hp')
  · rcases List.mem_append.mp hp with hp | hp
    · exact hleft _ (h.inside p hp)
    · exact hright _ (h'.inside p hp)

theorem mono (h : Spread place ps) (hle : ∀ n, place n → place' n) : Spread place' ps :=
  ⟨h.nodup, fun p hp => hle _ (h.inside p hp)⟩

/-- A type and what is in its body, where all names continue that of the type. -/
theorem body {d : TypeDecl} {lead seg : List Char} {i j : Nat} {members : List String}
    (hname : d.qualified.toList = lead ++ seg) (h : Spread (InBody d.qualified i j members) ps) :
    Spread (Continues lead seg) ((d, []) :: ps.map (·.within d)) := by
  have hnames : ∀ q ∈ ps, q.1.qualified ≠ d.qualified ∧ Continues lead seg q.1.qualified := by
    intro q hq
    obtain ⟨c, seg', hc, hcont⟩ := (h.inside q hq).continues
    exact ⟨hcont.ne, hcont.trans hname hc⟩
  refine ⟨?_, fun p hp => ?_⟩
  · rw [List.map_cons, List.map_map, List.nodup_cons]
    refine ⟨fun hmem => ?_, h.nodup⟩
    obtain ⟨q, hq, heq⟩ := List.mem_map.mp hmem
    exact (hnames q hq).1 heq
  · rcases List.mem_cons.mp hp with rfl | hp
    · exact .refl hname
    · obtain ⟨q, hq, rfl⟩ := List.mem_map.mp hp
      exact (hnames q hq).2

end Spread

/-- Cutting the names of the types leads through the types around them to the other names. -/
def Chained (beyond : List String) (ps : List Enclosed) : Prop :=
  ∀ p ∈ ps, outwards p.1.qualified = (p.1 :: p.2).map (·.qualified) ++ beyond

namespace Chained

variable {beyond : List String} {ps ps' : List Enclosed}

theorem append (h : Chained beyond ps) (h' : Chained beyond ps') : Chained beyond (ps ++ ps') := by
  intro p hp
  rcases List.mem_append.mp hp with hp | hp
  · exact h p hp
  · exact h' p hp

theorem body {d : TypeDecl} (hd : outwards d.qualified = d.qualified :: beyond)
    (h : Chained (outwards d.qualified) ps) : Chained beyond ((d, []) :: ps.map (·.within d)) := by
  intro p hp
  rcases List.mem_cons.mp hp with rfl | hp
  · exact hd
  · obtain ⟨p, hmem, rfl⟩ := List.mem_map.mp hp
    have hcut : outwards (p.within d).1.qualified = _ := h p hmem
    rw [hcut, hd]
    simp [Enclosed.within]

end Chained

/-- Types that stand in no body, with the types in theirs. They are named after their simple
names alone, so their names are different if these are. -/
structure Rooted (ps : List Enclosed) : Prop where
  named : ∀ p ∈ ps, p.2 = [] → p.1.qualified = "$" ++ p.1.name
  inside : ∀ p ∈ ps, AtRoot (rootNames ps) p.1.qualified
  nodup : (rootNames ps).Nodup → (ps.map (·.1.qualified)).Nodup

namespace Rooted

variable {ps ps' : List Enclosed}

theorem nil : Rooted [] := ⟨nofun, nofun, fun _ => List.nodup_nil⟩

theorem append (h : Rooted ps) (h' : Rooted ps') : Rooted (ps ++ ps') := by
  have hleft : ∀ n, AtRoot (rootNames ps) n → AtRoot (rootNames (ps ++ ps')) n := by
    rintro n ⟨s, hs, hn⟩
    exact ⟨s, rootNames_append ps ps' ▸ List.mem_append_left _ hs, hn⟩
  have hright : ∀ n, AtRoot (rootNames ps') n → AtRoot (rootNames (ps ++ ps')) n := by
    rintro n ⟨s, hs, hn⟩
    exact ⟨s, rootNames_append ps ps' ▸ List.mem_append_right _ hs, hn⟩
  refine ⟨List.forall_mem_append.mpr ⟨h.named, h'.named⟩, ?_, fun hroots => ?_⟩
  · exact List.forall_mem_append.mpr
      ⟨fun p hp => hleft _ (h.inside p hp), fun p hp => hright _ (h'.inside p hp)⟩
  · rw [rootNames_append] at hroots
    obtain ⟨hroots, hroots', hother⟩ := List.nodup_append.mp hroots
    have hspread : Spread (AtRoot (rootNames ps)) ps := ⟨h.nodup hroots, h.inside⟩
    have hspread' : Spread (AtRoot (rootNames ps')) ps' := ⟨h'.nodup hroots', h'.inside⟩
    refine (hspread.append hspread' (fun n hn hn' => ?_) hleft hright).nodup
    exact hn.disjoint hn' fun s hs hs' => hother s hs s hs' rfl

/-- The names are different exactly if the simple names of the outermost types are. -/
theorem nodup_iff (h : Rooted ps) : (ps.map (·.1.qualified)).Nodup ↔ (rootNames ps).Nodup := by
  refine ⟨fun hnodup => ?_, h.nodup⟩
  have hroots : (ps.filter (·.2.isEmpty)).map (·.1.qualified) = (rootNames ps).map ("$" ++ ·) := by
    rw [rootNames, List.map_map]
    refine List.map_congr_left fun p hp => ?_
    obtain ⟨hp, hroot⟩ := List.mem_filter.mp hp
    exact h.named p hp (List.isEmpty_iff.mp hroot)
  have hnames : ((rootNames ps).map ("$" ++ ·)).Nodup := hroots ▸ hnodup.sublist (List.filter_sublist.map _)
  exact List.Pairwise.of_map _ (fun s s' hne heq => hne (congrArg ("$" ++ ·) heq)) hnames

end Rooted

/-- What a walk from the number `i` to the number `j` names in the body of the owner. -/
def Fits (owner : Option String) (i j : Nat) (members : List String) (ps : List Enclosed) : Prop :=
  match owner with
  | some q => Spread (InBody q i j members) ps ∧ Chained (outwards q) ps
  | none => Rooted ps

/-- If the simple names of the types are such as names can be, all the names that a walk gives
are different and at their place. -/
structure Numbered (owner : Option String) (i j : Nat) (members : List String) (ps : List Enclosed) :
    Prop where
  le : i ≤ j
  fits : (∀ p ∈ ps, WellNamed p.1) → members.Nodup → Fits owner i j members ps

namespace Numbered

variable {owner : Option String} {i j k : Nat} {members members' : List String}
  {ps ps' : List Enclosed}

theorem nil : Numbered owner i i [] [] := by
  refine ⟨Nat.le_refl i, fun _ _ => ?_⟩
  cases owner with
  | none => exact .nil
  | some q => exact ⟨.nil, nofun⟩

/-- One walk after another. -/
theorem append (h : Numbered owner i j members ps) (h' : Numbered owner j k members' ps') :
    Numbered owner i k (members ++ members') (ps ++ ps') := by
  refine ⟨Nat.le_trans h.le h'.le, fun hnamed hmembers => ?_⟩
  obtain ⟨hleft, hright⟩ := List.forall_mem_append.mp hnamed
  obtain ⟨hnodup, hnodup', hdisjoint⟩ := List.nodup_append.mp hmembers
  have hfits := h.fits hleft hnodup
  have hfits' := h'.fits hright hnodup'
  cases owner with
  | none => exact Rooted.append hfits hfits'
  | some q =>
    refine ⟨hfits.1.append hfits'.1 (fun n hn hn' => ?_) ?_ ?_, hfits.2.append hfits'.2⟩
    · exact hn.disjoint hn' fun s hs hs' => hdisjoint s hs s hs' rfl
    · exact fun n hn => hn.before h'.le members'
    · exact fun n hn => hn.after h.le members

section Body

variable {d : TypeDecl} {q : String} {n : Nat}

theorem wellNamed_body (h : ∀ p ∈ bodyNested d, WellNamed p.1) :
    WellNamed d ∧ ∀ p ∈ membersNested none d.members, WellNamed p.1 := by
  rw [bodyNested_eq] at h
  refine ⟨h _ List.mem_cons_self, fun p hp => ?_⟩
  exact h (p.within d) (List.mem_cons_of_mem _ (List.mem_map.mpr ⟨p, hp, rfl⟩))

variable (h : Numbered (some d.qualified) 0 n (typeNames d.members) (membersNested none d.members))
include h

/-- A nested class takes the next number. -/
theorem nested_body (hq : d.qualified = q ++ "$" ++ toString (i + 1) ++ d.name) :
    Numbered (some q) i (i + 1) [] (bodyNested d) := by
  have hlist : d.qualified.toList = q.toList ++ '$' :: numberedSegment (i + 1) d.name := by
    rw [hq]
    simp [numberedSegment]
  refine ⟨Nat.le_succ i, fun hnamed _ => ?_⟩
  obtain ⟨hd, hinner⟩ := wellNamed_body hnamed
  obtain ⟨hspread, hchain⟩ := h.fits hinner hd.distinct
  have hplace := hspread.body (hlist.trans (List.append_cons _ _ _))
  rw [bodyNested_eq]
  refine ⟨hplace.mono fun n hn => ?_, hchain.body ?_⟩
  · exact .inl ⟨i + 1, d.name, Nat.lt_succ_self i, Nat.le_refl _, hd.simple, hn⟩
  · exact outwards_of_eq_append (isSegment_numbered _ hd.simple) (by decide) hlist

/-- A member type has its simple name after that of its owner. -/
theorem member_body (hq : d.qualified = q ++ "." ++ d.name) :
    Numbered (some q) i i [d.name] (bodyNested d) := by
  have hlist : d.qualified.toList = q.toList ++ '.' :: d.name.toList := by
    rw [hq]
    simp
  refine ⟨Nat.le_refl i, fun hnamed _ => ?_⟩
  obtain ⟨hd, hinner⟩ := wellNamed_body hnamed
  obtain ⟨hspread, hchain⟩ := h.fits hinner hd.distinct
  have hplace := hspread.body (hlist.trans (List.append_cons _ _ _))
  rw [bodyNested_eq]
  refine ⟨hplace.mono fun n hn => ?_, hchain.body ?_⟩
  · exact .inr ⟨d.name, List.mem_singleton_self _, hd.simple, hn⟩
  · exact outwards_of_eq_append hd.simple.isSegment (by decide) hlist

/-- A class in an annotation at the outermost level has no number. -/
theorem root_body (hq : d.qualified = "$" ++ d.name) :
    Numbered none i i [] (bodyNested d) := by
  have hlist : d.qualified.toList = ['$'] ++ d.name.toList := by
    rw [hq]
    simp
  refine ⟨Nat.le_refl i, fun hnamed _ => ?_⟩
  obtain ⟨hd, hinner⟩ := wellNamed_body hnamed
  obtain ⟨hspread, -⟩ := h.fits hinner hd.distinct
  have hplace := hspread.body hlist
  have hroot : rootNames ((d, []) :: (membersNested none d.members).map (·.within d)) = [d.name] :=
    congrArg (d.name :: ·) (rootNames_within _ d)
  rw [bodyNested_eq]
  refine ⟨fun p hp hnone => ?_, fun p hp => ?_, fun _ => hplace.nodup⟩
  · rcases List.mem_cons.mp hp with rfl | hp
    · exact hq
    · obtain ⟨p, -, rfl⟩ := List.mem_map.mp hp
      exact absurd hnone (by simp [Enclosed.within])
  · rw [hroot]
    exact ⟨d.name, List.mem_singleton_self _, hd.simple, hplace.inside p hp⟩

/-- A class with the next name for one that is nested in a body of the owner. -/
theorem next_body {owner : Option String} (hq : d.qualified = ((nestedName owner d.name).run i).1) :
    Numbered owner i ((nestedName owner d.name).run i).2 [] (bodyNested d) := by
  cases owner with
  | none => exact h.root_body hq
  | some q => exact h.nested_body hq

end Body

end Numbered

/-- The annotations of a field, which are those of the field before it if they are shared. -/
def fieldAnnotations (q : String) (shared : Option (Span × List Annotation)) (span : Span)
    (annotations : List Annotation) : Numbering (List Annotation) :=
  match shared with
  | some (s, before) => if s = span then pure before else nameAnnotations (some q) annotations
  | none => nameAnnotations (some q) annotations

theorem nameMembers_field (q : String) (shared : Option (Span × List Annotation)) (f : FieldDecl)
    (rest : List Member) : nameMembers q shared (.field f :: rest) = do
      let annotations ← fieldAnnotations q shared f.type.span f.annotations
      let init ← nameExpr? (some q) f.init
      let rest ← nameMembers q (some (f.type.span, annotations)) rest
      return .field { f with annotations, init } :: rest := by
  cases f with
  | mk n type isStatic isFinal isPrivate annotations init span =>
    rcases shared with _ | ⟨s, before⟩
    · rfl
    · by_cases hs : s = type.span
      · rw [fieldAnnotations, if_pos hs]
        exact if_pos hs
      · rw [fieldAnnotations, if_neg hs]
        exact if_neg hs

end LevelGuard.Java
