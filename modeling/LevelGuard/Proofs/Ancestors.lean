import Mathlib.Logic.Relation
import LevelGuard.Proofs.Registration

/-!
# Which ancestors are listed

The ancestors of a type are listed by two walks. The first climbs from superclass to
superclass, along the first extending link of each type; the second starts at the
interfaces that are implemented on the way and follows links of either kind, but not from
the types of the first walk. So everything that can be reached by links is listed exactly
if the further extending links of the type and of its superclasses, which no walk
follows, lead to types that are listed anyway. An interface that extends several others
is a type with such links.
-/
namespace LevelGuard

namespace Hierarchy

/-- A link of either kind leads from a type to another. -/
def Linked (H : Hierarchy) (sub super : String) : Prop := ∃ kind, ⟨sub, super, kind⟩ ∈ H.links

/-- A type can be reached from another by one or more links. -/
def Above (H : Hierarchy) (name ancestor : String) : Prop := Relation.TransGen H.Linked name ancestor

/-- A type can be reached from another, or is the same, by going from superclass to
superclass. -/
def Climbs (H : Hierarchy) (name ancestor : String) : Prop :=
  Relation.ReflTransGen (fun a b => H.superClass? a = some b) name ancestor

/-- What every hierarchy satisfies that is made by adding types and links: a type is there
once, and links lead to known types. -/
structure Sound (H : Hierarchy) : Prop where
  nodup : H.types.keys.Nodup
  known : ∀ l ∈ H.links, H.contains l.super = true

section Making

variable {H : Hierarchy}

theorem sound_empty : empty.Sound := ⟨List.nodup_nil, fun _ hl => nomatch hl⟩

theorem Sound.add (h : H.Sound) (name : String) (origin : Origin) : (H.add name origin).Sound where
  nodup := nodup_keys_add h.nodup name origin
  known l hl := by
    rw [links_add] at hl
    exact (contains_add H name origin l.super).mpr (.inr (h.known l hl))

theorem known_of_mem_addLink {k l : Link} (hk : k ∈ (H.addLink l).links) :
    k ∈ H.links ∨ H.contains k.sub = true ∧ H.contains k.super = true := by
  unfold Hierarchy.addLink link at hk
  split at hk
  · next haccepted =>
    simp only [Bool.and_eq_true] at haccepted
    rcases List.mem_append.mp hk with hk | hk
    · exact .inl hk
    · rw [List.mem_singleton.mp hk]
      exact .inr haccepted.1.1
  · exact .inl hk

theorem Sound.addLink (h : H.Sound) (l : Link) : (H.addLink l).Sound where
  nodup := by
    rw [types_addLink]
    exact h.nodup
  known k hk := by
    rw [contains, types_addLink]
    exact (known_of_mem_addLink hk).elim (h.known k) And.right

theorem Sound.addLinks (h : H.Sound) (ls : List Link) : (ls.foldl Hierarchy.addLink H).Sound :=
  List.foldlRecOn ls _ h fun _ hH l _ => hH.addLink l

end Making

variable {H : Hierarchy}

theorem mem_supertypes {name s : String} {kind : LinkKind} :
    s ∈ H.supertypes name kind ↔ ⟨name, s, kind⟩ ∈ H.links := by
  simp only [supertypes, List.mem_map, List.mem_filter, Bool.and_eq_true, decide_eq_true_eq]
  constructor
  · rintro ⟨⟨sub, super, k⟩, ⟨hl, rfl, rfl⟩, rfl⟩
    exact hl
  · intro hl
    exact ⟨_, ⟨hl, rfl, rfl⟩, rfl⟩

theorem linked_iff {a b : String} :
    H.Linked a b ↔ b ∈ H.supertypes a .implement ∨ b ∈ H.supertypes a .extend := by
  rw [mem_supertypes, mem_supertypes]
  constructor
  · rintro ⟨kind, hl⟩
    cases kind with
    | extend => exact .inr hl
    | implement => exact .inl hl
  · rintro (hl | hl)
    · exact ⟨_, hl⟩
    · exact ⟨_, hl⟩

theorem linked_of_superClass? {a b : String} (h : H.superClass? a = some b) : H.Linked a b :=
  linked_iff.mpr (.inr (List.mem_of_head? h))

theorem Climbs.linked {a b : String} (h : H.Climbs a b) : Relation.ReflTransGen H.Linked a b :=
  Relation.ReflTransGen.mono (fun _ _ hstep => linked_of_superClass? hstep) a b h

section Walks

variable {unseen : List String} {name : String}

theorem mem_chain {c : String} (h : c ∈ H.chain unseen name) : c ∈ unseen ∧ H.Climbs name c := by
  fun_induction chain H unseen name with
  | case1 => cases h
  | case2 unseen name s hs hmem ih =>
    rcases List.mem_cons.mp h with rfl | h
    · exact ⟨hmem, .single hs⟩
    · obtain ⟨hunseen, hclimbs⟩ := ih h
      exact ⟨List.mem_of_mem_erase hunseen, .head hs hclimbs⟩
  | case3 => cases h

/-- The chain ends where the superclass has been seen. -/
theorem superClass_mem_chain {c s : String} (hc : c ∈ name :: H.chain unseen name)
    (hs : H.superClass? c = some s) (hunseen : s ∈ unseen) : s ∈ H.chain unseen name := by
  fun_induction chain H unseen name with
  | case1 unseen name hnone =>
    rw [List.mem_singleton.mp hc, hnone] at hs
    cases hs
  | case2 unseen name t ht hmem ih =>
    by_cases hst : s = t
    · exact hst ▸ List.mem_cons_self
    · rcases List.mem_cons.mp hc with rfl | hc
      · rw [hs] at ht
        exact absurd (Option.some.inj ht) hst
      · exact List.mem_cons_of_mem _ (ih hc ((List.mem_erase_of_ne hst).mpr hunseen))
  | case3 unseen name t ht hmem =>
    rw [List.mem_singleton.mp hc, ht] at hs
    cases hs
    exact absurd hunseen hmem

theorem mem_walk {queue : List String} {a : String} (h : a ∈ H.walk unseen queue) :
    a ∈ unseen ∧ ∃ t ∈ queue, Relation.ReflTransGen H.Linked t a := by
  fun_induction walk H unseen queue with
  | case1 => cases h
  | case2 unseen t queue hmem ih =>
    rcases List.mem_cons.mp h with rfl | h
    · exact ⟨hmem, _, List.mem_cons_self, .refl⟩
    · obtain ⟨hunseen, u, hu, hreach⟩ := ih h
      refine ⟨List.mem_of_mem_erase hunseen, ?_⟩
      -- What is new in the queue is a supertype of its head.
      rw [List.append_assoc, List.mem_append, List.mem_append, ← linked_iff] at hu
      rcases hu with hu | hu
      · exact ⟨u, List.mem_cons_of_mem _ hu, hreach⟩
      · exact ⟨t, List.mem_cons_self, .head hu hreach⟩
  | case3 unseen t queue hmem ih =>
    obtain ⟨hunseen, u, hu, hreach⟩ := ih h
    exact ⟨hunseen, u, List.mem_cons_of_mem _ hu, hreach⟩

/-- The walk leaves out nothing that is in the queue or above a type that it lists, unless
it has been seen. -/
theorem mem_walk_of_unseen {queue : List String} {b : String} (hb : b ∈ unseen)
    (h : b ∈ queue ∨ ∃ a ∈ H.walk unseen queue, H.Linked a b) : b ∈ H.walk unseen queue := by
  fun_induction walk H unseen queue with
  | case1 =>
    rcases h with h | ⟨a, ha, -⟩
    · cases h
    · cases ha
  | case2 unseen t queue hmem ih =>
    by_cases hbt : b = t
    · exact hbt ▸ List.mem_cons_self
    · refine List.mem_cons_of_mem _ (ih ((List.mem_erase_of_ne hbt).mpr hb) ?_)
      rcases h with h | ⟨a, ha, hab⟩
      · have hqueue := (List.mem_cons.mp h).resolve_left hbt
        exact .inl (List.mem_append_left _ (List.mem_append_left _ hqueue))
      · rcases List.mem_cons.mp ha with rfl | ha
        · rw [List.append_assoc, List.mem_append, List.mem_append, ← linked_iff]
          exact .inl (.inr hab)
        · exact .inr ⟨a, ha, hab⟩
  | case3 unseen t queue hmem ih =>
    refine ih hb (h.imp_left fun h => (List.mem_cons.mp h).resolve_left ?_)
    rintro rfl
    exact hmem hb

end Walks

section Ancestors

variable {name : String}

/-- The superclasses of a known type, nearest first. -/
def classesAbove (H : Hierarchy) (name : String) : List String :=
  H.chain (H.types.keys.erase name) name

variable (hname : H.contains name = true)
include hname

theorem mem_ancestors {a : String} : a ∈ H.ancestors name ↔ a ∈ H.classesAbove name ∨
    a ∈ H.walk ((H.types.keys.erase name).filter (· ∉ H.classesAbove name))
      ((name :: H.classesAbove name).flatMap (H.supertypes · .implement)) := by
  rw [ancestors, if_pos hname]
  exact List.mem_append

omit hname in
theorem mem_unseen {s : String} (hs : H.contains s = true) (hne : s ≠ name) :
    s ∈ H.types.keys.erase name :=
  (List.mem_erase_of_ne hne).mpr (Table.contains_iff_mem_keys.mp hs)

variable (hH : H.Sound)
include hH

omit hname in
theorem Sound.contains_of_linked {a b : String} (h : H.Linked a b) : H.contains b = true := by
  obtain ⟨kind, hl⟩ := h
  exact hH.known _ hl

omit hname in
theorem mem_classesAbove {c : String} :
    c ∈ name :: H.classesAbove name ↔ H.Climbs name c := by
  constructor
  · intro hc
    rcases List.mem_cons.mp hc with rfl | hc
    · exact .refl
    · exact (mem_chain hc).2
  · intro hc
    induction hc with
    | refl => exact List.mem_cons_self
    | @tail b c _ hbc ih =>
      by_cases hne : c = name
      · exact hne ▸ List.mem_cons_self
      · have hknown := hH.contains_of_linked (linked_of_superClass? hbc)
        exact List.mem_cons_of_mem _ (superClass_mem_chain ih hbc (mem_unseen hknown hne))

/-- Only types are listed that can be reached, and never the type itself. -/
theorem above_of_mem_ancestors {a : String} (ha : a ∈ H.ancestors name) :
    a ≠ name ∧ H.Above name a := by
  have hne : ∀ {s}, s ∈ H.types.keys.erase name → s ≠ name := fun hs =>
    ((List.Nodup.mem_erase_iff hH.nodup).mp hs).1
  rcases (mem_ancestors hname).mp ha with ha | ha
  · obtain ⟨hunseen, hclimbs⟩ := mem_chain ha
    refine ⟨hne hunseen, ?_⟩
    exact (Relation.reflTransGen_iff_eq_or_transGen.mp hclimbs.linked).resolve_left (hne hunseen)
  · obtain ⟨hunseen, i, hi, hreach⟩ := mem_walk ha
    obtain ⟨c, hc, hci⟩ := List.mem_flatMap.mp hi
    have hclimbs : H.Climbs name c := (mem_classesAbove hH).mp hc
    refine ⟨hne (List.mem_of_mem_filter hunseen), ?_⟩
    exact .trans_left (.tail' hclimbs.linked (linked_iff.mpr (.inl hci))) hreach

theorem mem_ancestors_of_walk {s : String} (hs : H.contains s = true) (hne : s ≠ name)
    (h : (∃ c, H.Climbs name c ∧ s ∈ H.supertypes c .implement) ∨
      ∃ a ∈ H.ancestors name, ¬ H.Climbs name a ∧ H.Linked a s) :
    s ∈ H.ancestors name := by
  by_cases hclass : s ∈ H.classesAbove name
  · exact (mem_ancestors hname).mpr (.inl hclass)
  · refine (mem_ancestors hname).mpr (.inr (mem_walk_of_unseen ?_ ?_))
    · simpa [hclass] using mem_unseen hs hne
    · rcases h with ⟨c, hc, hcs⟩ | ⟨a, ha, hclimbs, has⟩
      · exact .inl (List.mem_flatMap.mpr ⟨c, (mem_classesAbove hH).mpr hc, hcs⟩)
      · refine .inr ⟨a, ((mem_ancestors hname).mp ha).resolve_left fun hclass => ?_, has⟩
        exact hclimbs ((mem_classesAbove hH).mp (List.mem_cons_of_mem _ hclass))

/-- Everything above a type is listed exactly if the types are that it and its superclasses
extend. -/
theorem mem_ancestors_iff_above :
    (∀ a, a ∈ H.ancestors name ↔ a ≠ name ∧ H.Above name a) ↔
      ∀ c s, H.Climbs name c → s ∈ H.supertypes c .extend → s = name ∨ s ∈ H.ancestors name := by
  constructor
  · intro h c s hc hs
    by_cases hne : s = name
    · exact .inl hne
    · exact .inr ((h s).mpr ⟨hne, .tail' hc.linked (linked_iff.mpr (.inr hs))⟩)
  · intro h a
    -- A link leads from what is listed to what is listed: each walk follows its links, but
    -- for those the condition is about.
    have hstep : ∀ b c, b = name ∨ b ∈ H.ancestors name → H.Linked b c →
        c = name ∨ c ∈ H.ancestors name := by
      intro b c hb hbc
      by_cases hne : c = name
      · exact .inl hne
      have hknown := hH.contains_of_linked hbc
      by_cases hclimbs : H.Climbs name b
      · rcases linked_iff.mp hbc with himplement | hextend
        · exact .inr (mem_ancestors_of_walk hname hH hknown hne (.inl ⟨b, hclimbs, himplement⟩))
        · exact h b c hclimbs hextend
      · rcases hb with rfl | hb
        · exact absurd .refl hclimbs
        · exact .inr (mem_ancestors_of_walk hname hH hknown hne (.inr ⟨b, hb, hclimbs, hbc⟩))
    have hlisted : H.Above name a → a = name ∨ a ∈ H.ancestors name := by
      intro habove
      induction habove with
      | single hlink => exact hstep name _ (.inl rfl) hlink
      | tail _ hlink ih => exact hstep _ _ ih hlink
    exact ⟨above_of_mem_ancestors hname hH, fun h => (hlisted h.2).resolve_left h.1⟩

end Ancestors

end Hierarchy

namespace Project.Index

open Java

theorem sound_ofCatalog (K : Platform.Catalog) : (ofCatalog K).hierarchy.Sound := by
  rw [hierarchy_ofCatalog]
  refine Hierarchy.Sound.addLinks ?_ _
  exact List.foldlRecOn _ _ Hierarchy.sound_empty fun _ hH c _ => hH.add c.name .platform

theorem sound_registerAll {I : Index} (h : I.hierarchy.Sound)
    (decls : List (CompilationUnit × TypeDecl)) : (I.registerAll decls).hierarchy.Sound :=
  List.foldlRecOn (motive := fun J : Index => J.hierarchy.Sound) decls _ h fun J hJ p _ => by
    rw [hierarchy_register]
    exact hJ.add p.2.qualified .source

theorem sound_ofUnits (K : Platform.Catalog) (units : List CompilationUnit) :
    (ofUnits K units).hierarchy.Sound := by
  rw [ofUnits_eq, hierarchy_settleAll]
  exact (sound_registerAll (sound_ofCatalog K) _).addLinks _

/-- In every project the ancestors of a type are types other than itself that links lead to.
They are all of these exactly if the types that it and its superclasses extend are among
them. -/
theorem ancestors_complete_iff (K : Platform.Catalog) (units : List CompilationUnit)
    {name : String} (hname : (ofUnits K units).isKnown name = true) :
    (∀ a ∈ (ofUnits K units).ancestors name,
      a ≠ name ∧ (ofUnits K units).hierarchy.Above name a) ∧
    ((∀ a, a ∈ (ofUnits K units).ancestors name ↔
        a ≠ name ∧ (ofUnits K units).hierarchy.Above name a) ↔
      ∀ c s, (ofUnits K units).hierarchy.Climbs name c →
        s ∈ (ofUnits K units).hierarchy.supertypes c .extend →
          s = name ∨ s ∈ (ofUnits K units).ancestors name) :=
  ⟨fun _ => Hierarchy.above_of_mem_ancestors hname (sound_ofUnits K units),
    Hierarchy.mem_ancestors_iff_above hname (sound_ofUnits K units)⟩

def emptyType (kind : TypeKind) (name : String) (interfaces : List String) : TypeDecl :=
  ⟨name, name, kind, [], none, interfaces.map (⟨·, {}⟩), [], {}⟩

/-- `interface A {} interface B {} interface Both extends A, B {} class C implements Both {}` -/
def bothUnit : CompilationUnit :=
  ⟨"C.java", none, [], [emptyType .interfaceType "A" [], emptyType .interfaceType "B" [],
    emptyType .interfaceType "Both" ["A", "B"], emptyType .classType "C" ["Both"]]⟩

/-- The class extends nothing, so all that is above it is listed. -/
theorem ancestors_complete_iff_class :
    (ofUnits .empty [bothUnit]).isKnown "C" = true ∧
      (ofUnits .empty [bothUnit]).ancestors "C" = ["Both", "A", "B"] ∧
      ∀ a, a ∈ (ofUnits .empty [bothUnit]).ancestors "C" ↔
        a ≠ "C" ∧ (ofUnits .empty [bothUnit]).hierarchy.Above "C" a := by
  have hknown : (ofUnits .empty [bothUnit]).isKnown "C" = true := by decide +kernel
  have hextends : (ofUnits .empty [bothUnit]).hierarchy.supertypes "C" .extend = [] := by
    decide +kernel
  -- Without a superclass the chain is the class alone.
  have hchain : ∀ c, (ofUnits .empty [bothUnit]).hierarchy.Climbs "C" c → c = "C" := by
    intro c hc
    induction hc with
    | refl => rfl
    | tail _ hsuper ih =>
      rw [ih, Hierarchy.superClass?, hextends] at hsuper
      cases hsuper
  refine ⟨hknown, by decide +kernel, (ancestors_complete_iff _ _ hknown).2.mpr ?_⟩
  intro c s hc hs
  rw [hchain c hc, hextends] at hs
  cases hs

/-- The second interface that an interface extends is above it and not listed. -/
theorem second_superinterface_missed :
    (ofUnits .empty [bothUnit]).ancestors "Both" = ["A"] ∧
      (ofUnits .empty [bothUnit]).hierarchy.Above "Both" "B" := by
  refine ⟨by decide +kernel, .single ⟨.extend, ?_⟩⟩
  decide +kernel

end Project.Index

end LevelGuard
