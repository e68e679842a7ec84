import LevelGuard.Proofs.Ancestors

/-!
# In which order ancestors are listed

A hierarchy is made by adding types and links in any order, cycles and repetitions
included. The ancestors of a type begin with its superclass chain, which ends where there
is no superclass or where a type would come a second time. What follows comes after a type
that names it as a supertype: the type itself, one of its superclasses, or one listed
before. So nothing is listed twice, nor the type itself, and the first ancestor that
declares a member does so at a place that some subtype of it, listed before, leads to.
-/
namespace LevelGuard.Hierarchy

/-- One step in making a hierarchy. -/
inductive Step where
  | add (name : String) (origin : Origin)
  | link (l : Link)

def Step.run (H : Hierarchy) : Step → Hierarchy
  | .add name origin => H.add name origin
  | .link l => H.addLink l

def ofSteps (steps : List Step) : Hierarchy := steps.foldl Step.run empty

/-- Links lead from known types. -/
def Rooted (H : Hierarchy) : Prop := ∀ l ∈ H.links, H.contains l.sub = true

variable {H : Hierarchy}

theorem Rooted.run (h : H.Rooted) (step : Step) : (step.run H).Rooted := by
  intro l hl
  cases step with
  | add name origin =>
    rw [Step.run, links_add] at hl
    exact (contains_add H name origin l.sub).mpr (.inr (h l hl))
  | link k =>
    rw [Step.run, contains, types_addLink]
    exact (known_of_mem_addLink hl).elim (h l) And.left

theorem Sound.run (h : H.Sound) (step : Step) : (step.run H).Sound := by
  cases step with
  | add name origin => exact h.add name origin
  | link l => exact h.addLink l

theorem sound_ofSteps (steps : List Step) : (ofSteps steps).Sound :=
  List.foldlRecOn steps _ sound_empty fun _ hH step _ => hH.run step

theorem rooted_ofSteps (steps : List Step) : (ofSteps steps).Rooted :=
  List.foldlRecOn steps _ (fun _ hl => nomatch hl) fun _ hH step _ => hH.run step

theorem Rooted.superClass?_eq_none (h : H.Rooted) {name : String}
    (hname : H.contains name = false) : H.superClass? name = none := by
  cases hs : H.superClass? name with
  | none => rfl
  | some s =>
    obtain ⟨kind, hl⟩ := linked_of_superClass? hs
    rw [h _ hl] at hname
    cases hname

/-- The classes above a type, one superclass after the other, to the last one that has
no superclass or only one that is there already. -/
structure SuperclassChain (H : Hierarchy) (name : String) (classes : List String) : Prop where
  steps : (name :: classes).IsChain fun a b => H.superClass? a = some b
  nodup : (name :: classes).Nodup
  ends : ∀ c s, (name :: classes).getLast? = some c → H.superClass? c = some s →
    s ∈ name :: classes

/-- Each type of a list is named as a supertype by one that is before it. -/
def Follows (H : Hierarchy) (seen list : List String) : Prop :=
  ∀ before t after, list = before ++ t :: after → ∃ s ∈ seen ++ before, H.Linked s t

theorem follows_nil (seen : List String) : H.Follows seen [] := by
  intro before t after h
  simp at h

theorem Follows.cons {seen list : List String} {t s : String} (hs : s ∈ seen)
    (hst : H.Linked s t) (h : H.Follows (seen ++ [t]) list) : H.Follows seen (t :: list) := by
  intro before u after hlist
  cases before with
  | nil =>
    obtain ⟨rfl, -⟩ := List.cons.inj hlist
    exact ⟨s, List.mem_append_left _ hs, hst⟩
  | cons b before =>
    obtain ⟨rfl, hrest⟩ := List.cons.inj hlist
    obtain ⟨r, hr, hru⟩ := h before u after hrest
    rw [List.append_assoc] at hr
    exact ⟨r, hr, hru⟩

section Walks

variable {unseen : List String} {name : String}

theorem isChain_chain (H : Hierarchy) (unseen : List String) (name : String) :
    (name :: H.chain unseen name).IsChain fun a b => H.superClass? a = some b := by
  fun_induction chain H unseen name with
  | case1 => exact .singleton _
  | case2 unseen name s hs _ ih => exact .cons_cons hs ih
  | case3 => exact .singleton _

theorem nodup_chain (h : unseen.Nodup) : (H.chain unseen name).Nodup := by
  fun_induction chain H unseen name with
  | case1 => exact List.nodup_nil
  | case2 unseen name s _ _ ih =>
    refine List.nodup_cons.mpr ⟨fun hmem => ?_, ih (h.erase s)⟩
    exact (h.mem_erase_iff.mp (mem_chain hmem).1).1 rfl
  | case3 => exact List.nodup_nil

theorem nodup_walk {queue : List String} (h : unseen.Nodup) : (H.walk unseen queue).Nodup := by
  fun_induction walk H unseen queue with
  | case1 => exact List.nodup_nil
  | case2 unseen t queue _ ih =>
    refine List.nodup_cons.mpr ⟨fun hmem => ?_, ih (h.erase t)⟩
    exact (h.mem_erase_iff.mp (mem_walk hmem).1).1 rfl
  | case3 unseen t queue _ ih => exact ih h

/-- The queue holds supertypes of what has been listed, so the walk follows links. -/
theorem follows_walk {queue seen : List String}
    (h : ∀ t ∈ queue, ∃ s ∈ seen, H.Linked s t) : H.Follows seen (H.walk unseen queue) := by
  fun_induction walk H unseen queue generalizing seen with
  | case1 => exact follows_nil seen
  | case2 unseen t queue _ ih =>
    obtain ⟨s, hs, hst⟩ := h t List.mem_cons_self
    refine .cons hs hst (ih fun u hu => ?_)
    rw [List.append_assoc, List.mem_append, List.mem_append, ← linked_iff] at hu
    rcases hu with hu | hu
    · obtain ⟨r, hr, hru⟩ := h u (List.mem_cons_of_mem _ hu)
      exact ⟨r, List.mem_append_left _ hr, hru⟩
    · exact ⟨t, List.mem_append_right _ (List.mem_singleton.mpr rfl), hu⟩
  | case3 unseen t queue _ ih => exact ih fun u hu => h u (List.mem_cons_of_mem _ hu)

end Walks

section Ancestors

variable {name : String} (hH : H.Sound)
include hH

theorem Sound.superclassChain_classesAbove : H.SuperclassChain name (H.classesAbove name) where
  steps := isChain_chain H _ name
  nodup := by
    refine List.nodup_cons.mpr ⟨fun hmem => ?_, nodup_chain (hH.nodup.erase name)⟩
    exact (hH.nodup.mem_erase_iff.mp (mem_chain hmem).1).1 rfl
  ends c s hc hs := by
    have hclimbs := (mem_classesAbove hH).mp (List.mem_of_getLast? hc)
    exact (mem_classesAbove hH).mpr (hclimbs.tail hs)

/-- The types of the second walk are none of the first. -/
theorem Sound.nodup_ancestors : (H.ancestors name).Nodup := by
  unfold ancestors
  split
  · have hunseen := hH.nodup.erase name
    refine List.nodup_append.mpr ⟨nodup_chain hunseen, nodup_walk (hunseen.filter _), ?_⟩
    rintro a hclass b hwalk rfl
    have hnot := (List.mem_filter.mp (mem_walk hwalk).1).2
    exact of_decide_eq_true hnot hclass
  · exact List.nodup_nil

end Ancestors

/-- However a hierarchy is made, and for known names and others, the list of ancestors is
the superclass chain, followed by types each of which is named as a supertype by a type
before it. It lists no type twice, not the type itself, and only types that links lead to. -/
theorem ancestors_order (steps : List Step) (name : String) :
    ((ofSteps steps).ancestors name).Nodup ∧
    (∀ a ∈ (ofSteps steps).ancestors name, a ≠ name ∧ (ofSteps steps).Above name a) ∧
    ∃ classes rest, (ofSteps steps).ancestors name = classes ++ rest ∧
      (ofSteps steps).SuperclassChain name classes ∧
      (ofSteps steps).Follows (name :: classes) rest := by
  have hH := sound_ofSteps steps
  refine ⟨hH.nodup_ancestors, fun a ha => ?_, ?_⟩
  · by_cases hname : (ofSteps steps).contains name = true
    · exact above_of_mem_ancestors hname hH ha
    · rw [ancestors, if_neg hname] at ha
      cases ha
  · by_cases hname : (ofSteps steps).contains name = true
    · refine ⟨_, _, if_pos hname, hH.superclassChain_classesAbove, ?_⟩
      refine follows_walk fun t ht => ?_
      obtain ⟨c, hc, hct⟩ := List.mem_flatMap.mp ht
      exact ⟨c, hc, linked_iff.mpr (.inl hct)⟩
    · have hnone := (rooted_ofSteps steps).superClass?_eq_none (Bool.eq_false_iff.mpr hname)
      refine ⟨[], [], if_neg hname, ⟨.singleton _, ?_, ?_⟩, follows_nil _⟩
      · exact List.nodup_singleton name
      · intro c s hc hs
        rw [← Option.some.inj hc, List.getLast_singleton, hnone] at hs
        cases hs

/-- Two classes that extend each other, with a diamond of interfaces above one of them. -/
example : (ofSteps [.add "A" .source, .add "B" .source, .add "I" .platform, .add "J" .platform,
      .add "K" .platform, .link ⟨"A", "B", .extend⟩, .link ⟨"B", "A", .extend⟩,
      .link ⟨"A", "I", .implement⟩, .link ⟨"A", "J", .implement⟩, .link ⟨"I", "K", .implement⟩,
      .link ⟨"J", "K", .extend⟩, .link ⟨"K", "A", .extend⟩]).ancestors "A" =
    ["B", "I", "J", "K"] := by
  decide +kernel

end LevelGuard.Hierarchy
