import LevelGuard.Proofs.FactLattice

/-!
# What is true of all facts

Facts are made from `top` by updates of one set and by meets of two. Whatever is made so is
coherent: its bounds leave some level or it is known to be contradictory, the floor that
annotations declare is part of the floor, and no requirement is listed twice. So the minimum
that messages cite is never above the least level that reaches the place.

Only a meet can make something else of a contradiction.
-/
namespace LevelGuard.Facts

/-- A change to the facts at one place. -/
inductive Update where
  | raiseFloor (level : Level)
  | raiseAnnotationFloor (level : Level)
  | suppress (categories : List Category)
  | declareRequirement (requirement : Permission.Requirement)
  | assume (guard : Guard) (truth : Bool)

def Update.apply : Update → Facts → Facts
  | raiseFloor level, F => F.raiseFloor level
  | raiseAnnotationFloor level, F => F.raiseAnnotationFloor level
  | suppress categories, F => F.suppress categories
  | declareRequirement r, F => F.declareRequirement r
  | assume g t, F => F.assume g t

/-- Facts that updates and meets make, with nothing known to start from. -/
inductive Made : Facts → Prop
  | top : Made top
  | update {F : Facts} (u : Update) : Made F → Made (u.apply F)
  | meet {F G : Facts} : Made F → Made G → Made (F.meet G)

structure Coherent (F : Facts) : Prop where
  /-- The facts are contradictory or their floor is at most their ceiling. -/
  settled : F.Settled
  /-- A declared floor is at most the floor, which is there too. -/
  declared : FloorLe F.annotationFloor F.floor
  once : F.requirements.Nodup

theorem coherent_top : top.Coherent where
  settled := .inr nofun
  declared := nofun
  once := List.nodup_nil

namespace Coherent

variable {F G : Facts}

theorem raiseFloor (h : F.Coherent) (v : Level) : (F.raiseFloor v).Coherent where
  settled := settled_raiseFloor F v
  declared := h.declared.trans (floorLe_raised F.floor v)
  once := h.once

theorem raiseAnnotationFloor (h : F.Coherent) (v : Level) :
    (F.raiseAnnotationFloor v).Coherent where
  settled := settled_raiseFloor _ v
  declared := by
    rintro x hx
    cases hx
    exact ⟨_, rfl, raised_mono h.declared v⟩
  once := h.once

theorem declareRequirement (h : F.Coherent) (r : Permission.Requirement) :
    (F.declareRequirement r).Coherent := by
  unfold Facts.declareRequirement
  split
  · exact h
  · next hnew =>
    have hnew : r ∉ F.requirements := by simpa using hnew
    exact ⟨h.settled, h.declared, by simpa using h.once.concat hnew⟩

theorem meet (hF : F.Coherent) (hG : G.Coherent) : (F.meet G).Coherent := by
  cases bF : F.bottom with
  | true => rwa [meet_of_bottom_left bF]
  | false =>
    cases bG : G.bottom with
    | true => rwa [meet_of_bottom_right bF bG]
    | false =>
      have hsettled := hF.settled.meet hG.settled
      simp only [Facts.meet, bF, bG, Bool.false_eq_true, if_false] at hsettled ⊢
      exact ⟨hsettled, floorLe_common ((floorLe_common_left _ _).trans hF.declared)
        ((floorLe_common_right _ _).trans hG.declared), hF.once.filter _⟩

end Coherent

@[simp] theorem floor_raiseFloor (F : Facts) (v : Level) :
    (F.raiseFloor v).floor = some (raised F.floor v) := rfl

@[simp] theorem floor_lowerCeiling (F : Facts) (v : Level) : (F.lowerCeiling v).floor = F.floor := rfl

/-- No leaf lowers a floor, also where it contradicts the facts. -/
theorem floorLe_assume_leaf (F : Facts) {g : Guard} (hg : g.IsLeaf) (t : Bool) :
    FloorLe F.floor (F.assume g t).floor := by
  refine assume_leaf_of_step (P := fun H => FloorLe F.floor H.floor) (.refl _) hg t
    fun _ step hstep => ?_
  cases hstep with
  | keep | fail | lower _ | hold _ | exclude _ => exact .refl _
  | raise v | pin v => exact floorLe_raised F.floor v

namespace Coherent

variable {F : Facts}

theorem assume (h : F.Coherent) (g : Guard) (t : Bool) : (F.assume g t).Coherent := by
  refine Stable.assume ⟨fun H g t hg hH => ?_, fun _ _ hH hK => hH.meet hK⟩ h g t
  have hframe := assume_frame H g t
  simp only [frame, Prod.mk.injEq] at hframe
  obtain ⟨hdeclared, -, hrequirements⟩ := hframe
  refine ⟨hH.settled.assume g t, ?_, hrequirements ▸ hH.once⟩
  rw [hdeclared]
  exact hH.declared.trans (floorLe_assume_leaf H hg t)

theorem apply (h : F.Coherent) (u : Update) : (u.apply F).Coherent := by
  cases u with
  | raiseFloor v => exact h.raiseFloor v
  | raiseAnnotationFloor v => exact h.raiseAnnotationFloor v
  | suppress categories => exact ⟨h.settled, h.declared, h.once⟩
  | declareRequirement r => exact h.declareRequirement r
  | assume g t => exact h.assume g t

theorem reportedMin_le (h : F.Coherent) (m : Level) : F.reportedMin m ≤ F.effectiveFloor m :=
  raised_mono h.declared m

end Coherent

theorem Update.bottom_apply (u : Update) {F : Facts} (h : F.bottom = true) :
    (u.apply F).bottom = true := by
  cases u with
  | raiseFloor v => simp [apply, Facts.raiseFloor, settle, h]
  | raiseAnnotationFloor v => simp [apply, Facts.raiseAnnotationFloor, Facts.raiseFloor, settle, h]
  | suppress categories => exact h
  | declareRequirement r =>
    rw [apply, Facts.declareRequirement]
    split <;> exact h
  | assume g t => rwa [apply, assume_of_bottom h]

theorem Made.coherent {F : Facts} (h : F.Made) : F.Coherent := by
  induction h with
  | top => exact coherent_top
  | update u _ ih => exact ih.apply u
  | meet _ _ ihF ihG => exact ihF.meet ihG

/-- All facts that updates and meets make are coherent, so they cite no minimum above the least
level that reaches the place. A contradiction stays one under every update. -/
theorem made_facts_coherent (F : Facts) (h : F.Made) :
    F.Coherent ∧ (∀ m, F.reportedMin m ≤ F.effectiveFloor m) ∧
      ∀ u : Update, F.bottom = true → (u.apply F).bottom = true :=
  ⟨h.coherent, h.coherent.reportedMin_le, fun u hF => u.bottom_apply hF⟩

/-- A method with an annotation and a requirement. -/
def annotatedFacts : Facts :=
  (top.raiseAnnotationFloor 21).declareRequirement ⟨.single "p.A", none⟩

/-- A place in the method that no device reaches. -/
def unreachedFacts : Facts :=
  annotatedFacts.assume (.and [.atLeast 26, .or [.atMost 20, .exactly 25]]) true

theorem made_annotatedFacts : annotatedFacts.Made :=
  .update (.declareRequirement _) (.update (.raiseAnnotationFloor 21) .top)

theorem made_facts_coherent_unreached :
    (annotatedFacts.meet unreachedFacts).Coherent ∧ unreachedFacts.Coherent ∧
      annotatedFacts.reportedMin 19 ≤ annotatedFacts.effectiveFloor 19 ∧
      unreachedFacts.bottom = true ∧ (unreachedFacts.raiseFloor 30).bottom = true := by
  have hunreached : unreachedFacts.Made := .update (.assume _ true) made_annotatedFacts
  have hbottom : unreachedFacts.bottom = true := by decide +kernel
  exact ⟨(made_facts_coherent _ (.meet made_annotatedFacts hunreached)).1,
    (made_facts_coherent _ hunreached).1, (made_facts_coherent _ made_annotatedFacts).2.1 19,
    hbottom, (made_facts_coherent _ hunreached).2.2 (.raiseFloor 30) hbottom⟩

end LevelGuard.Facts
