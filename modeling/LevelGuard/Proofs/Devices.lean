import LevelGuard.Proofs.Entailment

/-!
# Devices and guards

A device has a level and a set of granted permissions. A guard is true or false on
a device once its open leaves have a value: the conditions nothing is known about,
and the handlers of exceptions, which a device does not decide. The value of a leaf
depends on where it stands in the guard, so two unknown conditions may differ.

Facts allow a device if all they say is true of it. Assuming the value that a guard
has on a device keeps the device allowed: this is what makes facts found along a
path true of every device that can take the path.
-/
namespace LevelGuard

/-- What a run of the program depends on: both stay fixed while it runs. -/
structure Device where
  level : Level
  granted : String → Bool

/-- The values of the open leaves of a guard, by place: the positions of the parts
that lead to the leaf, from the outside inwards. -/
abbrev Leaves := List Nat → Bool

namespace Leaves

def inside (u : Leaves) (position : Nat) : Leaves := fun place => u (position :: place)

def around (u : Leaves) : Leaves := fun place => u place.tail

@[simp] theorem inside_around (u : Leaves) (position : Nat) : u.around.inside position = u := rfl

end Leaves

namespace Guard

mutual

def holds (d : Device) (u : Leaves) : Guard → Bool
  | .atLeast v => v ≤ d.level
  | .atMost v => d.level ≤ v
  | .exactly v => d.level = v
  | .held p => d.granted p
  | .excluded _ => u []
  | .and parts => allHold d u 0 parts
  | .or parts => someHolds d u 0 parts
  | .not inner => !inner.holds d (u.inside 0)
  | .unknown => u []

/-- Whether all parts are true, the first of them being at a position. -/
def allHold (d : Device) (u : Leaves) (position : Nat) : List Guard → Bool
  | [] => true
  | g :: gs => g.holds d (u.inside position) && allHold d u (position + 1) gs

/-- Whether some part is true, the first of them being at a position. -/
def someHolds (d : Device) (u : Leaves) (position : Nat) : List Guard → Bool
  | [] => false
  | g :: gs => g.holds d (u.inside position) || someHolds d u (position + 1) gs

end

mutual

/-- The value of a guard, where `leaf` values each leaf by what it is and by its place. -/
def eval (leaf : Guard → Leaves → Bool) (u : Leaves) : Guard → Bool
  | .and parts => evalAll leaf u 0 parts
  | .or parts => evalSome leaf u 0 parts
  | .not inner => !inner.eval leaf (u.inside 0)
  | g => leaf g u

/-- Whether all parts are true, the first of them being at a position. -/
def evalAll (leaf : Guard → Leaves → Bool) (u : Leaves) (position : Nat) : List Guard → Bool
  | [] => true
  | g :: gs => g.eval leaf (u.inside position) && evalAll leaf u (position + 1) gs

/-- Whether some part is true, the first of them being at a position. -/
def evalSome (leaf : Guard → Leaves → Bool) (u : Leaves) (position : Nat) : List Guard → Bool
  | [] => false
  | g :: gs => g.eval leaf (u.inside position) || evalSome leaf u (position + 1) gs

end

end Guard

/-- The value of a leaf on a device: of those that are left open, the one that is given. -/
def Device.leaf (d : Device) : Guard → Leaves → Bool
  | .atLeast v, _ => v ≤ d.level
  | .atMost v, _ => d.level ≤ v
  | .exactly v, _ => d.level = v
  | .held p, _ => d.granted p
  | _, u => u []

namespace Guard

mutual

theorem holds_eq_eval (d : Device) : (u : Leaves) → (g : Guard) → g.holds d u = g.eval d.leaf u
  | u, .and parts => allHold_eq_evalAll d u 0 parts
  | u, .or parts => someHolds_eq_evalSome d u 0 parts
  | u, .not inner => congrArg (!·) (holds_eq_eval d (u.inside 0) inner)
  | _, .atLeast _ | _, .atMost _ | _, .exactly _ | _, .held _ | _, .excluded _ | _, .unknown => rfl

theorem allHold_eq_evalAll (d : Device) : (u : Leaves) → (position : Nat) → (gs : List Guard) →
    allHold d u position gs = evalAll d.leaf u position gs
  | _, _, [] => rfl
  | u, position, g :: gs => by
    rw [allHold, evalAll, holds_eq_eval d (u.inside position) g,
      allHold_eq_evalAll d u (position + 1) gs]

theorem someHolds_eq_evalSome (d : Device) : (u : Leaves) → (position : Nat) →
    (gs : List Guard) → someHolds d u position gs = evalSome d.leaf u position gs
  | _, _, [] => rfl
  | u, position, g :: gs => by
    rw [someHolds, evalSome, holds_eq_eval d (u.inside position) g,
      someHolds_eq_evalSome d u (position + 1) gs]

end

/-- A guard that can have a value can have the other when negated. -/
theorem exists_eval_negate {leaf : Guard → Leaves → Bool} (hleaf : ∀ u, leaf .unknown u = u [])
    {g : Guard} {t : Bool} (h : ∃ u, g.eval leaf u = t) : ∃ u, g.negate.eval leaf u = !t := by
  obtain ⟨u, hu⟩ := h
  cases g with
  | not inner =>
    refine ⟨u.inside 0, ?_⟩
    rw [eval] at hu
    rw [← hu, Bool.not_not]
    rfl
  | unknown => exact ⟨fun _ => !t, hleaf _⟩
  | _ =>
    refine ⟨u.around, ?_⟩
    simp only [negate, eval, Leaves.inside_around] at hu ⊢
    rw [hu]

theorem exists_holds_negate {d : Device} {g : Guard} {t : Bool}
    (h : ∃ u, g.holds d u = t) : ∃ u, g.negate.holds d u = !t := by
  simp only [holds_eq_eval] at h ⊢
  exact exists_eval_negate (fun _ => rfl) h

end Guard

namespace Facts

/-- All that the facts say of the device is true. -/
structure Allows (F : Facts) (d : Device) : Prop where
  consistent : F.bottom = false
  floor : ∀ v, F.floor = some v → v ≤ d.level
  ceiling : ∀ v, F.ceiling = some v → d.level ≤ v
  held : ∀ p ∈ F.held, d.granted p = true

theorem Entails.allows {F G : Facts} {d : Device} (h : F.Entails G) (hF : F.Allows d) :
    G.Allows d where
  consistent := h.bottom_eq_false hF.consistent
  floor v hv := by
    obtain ⟨w, hw, hvw⟩ := (h.includes hF.consistent).floor v hv
    exact Nat.le_trans hvw (hF.floor w hw)
  ceiling v hv := by
    obtain ⟨w, hw, hwv⟩ := (h.includes hF.consistent).ceiling v hv
    exact Nat.le_trans (hF.ceiling w hw) hwv
  held p hp := hF.held p ((h.includes hF.consistent).held p hp)

theorem Allows.not_contradictory {F : Facts} {d : Device} (h : F.Allows d) :
    F.contradictory = false := by
  cases hc : F.contradictory with
  | false => rfl
  | true =>
    obtain ⟨f, c, hf, hc, hlt⟩ := contradictory_iff.mp hc
    exact absurd (Nat.lt_of_lt_of_le hlt (h.floor f hf)) (Nat.not_lt.mpr (h.ceiling c hc))

theorem Allows.settle {F : Facts} {d : Device} (h : F.Allows d) : F.settle.Allows d where
  consistent := by simp [Facts.settle, h.consistent, h.not_contradictory]
  floor := h.floor
  ceiling := h.ceiling
  held := h.held

theorem Allows.raiseFloor {F : Facts} {d : Device} (h : F.Allows d) {v : Level}
    (hv : v ≤ d.level) : (F.raiseFloor v).Allows d := by
  apply Allows.settle
  refine ⟨h.consistent, ?_, h.ceiling, h.held⟩
  rintro w hw
  cases hw
  cases hf : F.floor with
  | none => exact hv
  | some f => exact Nat.max_le.mpr ⟨h.floor f hf, hv⟩

theorem Allows.lowerCeiling {F : Facts} {d : Device} (h : F.Allows d) {v : Level}
    (hv : d.level ≤ v) : (F.lowerCeiling v).Allows d := by
  apply Allows.settle
  refine ⟨h.consistent, h.floor, ?_, h.held⟩
  rintro w hw
  cases hw
  cases hc : F.ceiling with
  | none => exact hv
  | some c => exact Nat.le_min.mpr ⟨h.ceiling c hc, hv⟩

open Guard

/-- A property of facts that weaker facts keep, and that no leaf breaks with its own value. -/
structure Tracks (leaf : Guard → Leaves → Bool) (P : Facts → Prop) : Prop where
  weaken : ∀ F G : Facts, F.Entails G → P F → P G
  assume_leaf : ∀ (F : Facts) (g : Guard) (u : Leaves), g.IsLeaf → P F → P (F.assume g (leaf g u))

namespace Tracks

variable {leaf : Guard → Leaves → Bool} {P : Facts → Prop}

mutual

/-- No guard breaks such a property with its own value. -/
theorem assume_eval (h : Tracks leaf P) {F : Facts} (hF : P F) (u : Leaves) : (g : Guard) →
    P (F.assume g (g.eval leaf u))
  | .and gs => by
    rw [Guard.eval]
    cases hgs : evalAll leaf u 0 gs with
    | true =>
      rw [assume_and_true]
      exact h.assumeAll_evalAll hF u 0 gs hgs
    | false =>
      obtain ⟨g, hg, hPg⟩ := h.exists_evalAll_false hF u 0 gs hgs
      exact h.weaken _ _ (assume_entails_and hg) hPg
  | .or gs => by
    rw [Guard.eval]
    cases hgs : evalSome leaf u 0 gs with
    | true =>
      obtain ⟨g, hg, hPg⟩ := h.exists_evalSome_true hF u 0 gs hgs
      exact h.weaken _ _ (assume_entails_or hg) hPg
    | false =>
      rw [assume_or_false]
      exact h.assumeAll_evalSome hF u 0 gs hgs
  | .not inner => by
    rw [Guard.eval, assume_not, Bool.not_not]
    exact h.assume_eval hF (u.inside 0) inner
  | .atLeast _ | .atMost _ | .exactly _ | .held _ | .excluded _ | .unknown =>
    h.assume_leaf F _ u trivial hF

theorem assumeAll_evalAll (h : Tracks leaf P) {F : Facts} (hF : P F) (u : Leaves) (position : Nat) :
    (gs : List Guard) → evalAll leaf u position gs = true → P (F.assumeAll gs true)
  | [], _ => hF
  | g :: gs, hgs => by
    rw [evalAll, Bool.and_eq_true] at hgs
    have hg := h.assume_eval hF (u.inside position) g
    rw [hgs.1] at hg
    exact h.assumeAll_evalAll hg u (position + 1) gs hgs.2

theorem assumeAll_evalSome (h : Tracks leaf P) {F : Facts} (hF : P F) (u : Leaves) (position : Nat) :
    (gs : List Guard) → evalSome leaf u position gs = false → P (F.assumeAll gs false)
  | [], _ => hF
  | g :: gs, hgs => by
    rw [evalSome, Bool.or_eq_false_iff] at hgs
    have hg := h.assume_eval hF (u.inside position) g
    rw [hgs.1] at hg
    exact h.assumeAll_evalSome hg u (position + 1) gs hgs.2

theorem exists_evalAll_false (h : Tracks leaf P) {F : Facts} (hF : P F) (u : Leaves) (position : Nat) :
    (gs : List Guard) → evalAll leaf u position gs = false → ∃ g ∈ gs, P (F.assume g false)
  | [], hgs => nomatch hgs
  | g :: gs, hgs => by
    have hg := h.assume_eval hF (u.inside position) g
    cases hv : g.eval leaf (u.inside position) with
    | false =>
      rw [hv] at hg
      exact ⟨g, List.mem_cons_self, hg⟩
    | true =>
      rw [evalAll, hv, Bool.true_and] at hgs
      obtain ⟨g', hg', hP⟩ := h.exists_evalAll_false hF u (position + 1) gs hgs
      exact ⟨g', List.mem_cons_of_mem _ hg', hP⟩

theorem exists_evalSome_true (h : Tracks leaf P) {F : Facts} (hF : P F) (u : Leaves) (position : Nat) :
    (gs : List Guard) → evalSome leaf u position gs = true → ∃ g ∈ gs, P (F.assume g true)
  | [], hgs => nomatch hgs
  | g :: gs, hgs => by
    have hg := h.assume_eval hF (u.inside position) g
    cases hv : g.eval leaf (u.inside position) with
    | true =>
      rw [hv] at hg
      exact ⟨g, List.mem_cons_self, hg⟩
    | false =>
      rw [evalSome, hv, Bool.false_or] at hgs
      obtain ⟨g', hg', hP⟩ := h.exists_evalSome_true hF u (position + 1) gs hgs
      exact ⟨g', List.mem_cons_of_mem _ hg', hP⟩

end

end Tracks

theorem Allows.assume_leaf {d : Device} {F : Facts} (h : F.Allows d) {g : Guard} (hg : g.IsLeaf)
    (u : Leaves) : (F.assume g (d.leaf g u)).Allows d := by
  have hF := h.consistent
  match g with
  | .atLeast v =>
    by_cases hv : v ≤ d.level
    · simp only [Device.leaf, hv, decide_true, Facts.assume, hF, Bool.false_eq_true, if_false]
      exact h.raiseFloor hv
    · cases v with
      | zero => exact absurd (Nat.zero_le _) hv
      | succ v =>
        simp only [Device.leaf, hv, decide_false, Facts.assume, hF, Bool.false_eq_true, if_false]
        exact h.lowerCeiling (Nat.le_of_lt_succ (Nat.lt_of_not_le hv))
  | .atMost v =>
    by_cases hv : d.level ≤ v
    · simp only [Device.leaf, hv, decide_true, Facts.assume, hF, Bool.false_eq_true, if_false]
      exact h.lowerCeiling hv
    · simp only [Device.leaf, hv, decide_false, Facts.assume, hF, Bool.false_eq_true, if_false]
      exact h.raiseFloor (Nat.le_trans (Nat.min_le_left _ _) (Nat.lt_of_not_le hv))
  | .exactly v =>
    by_cases hv : d.level = v
    · simp only [Device.leaf, hv, decide_true, Facts.assume, hF, Bool.false_eq_true, if_false]
      exact (h.raiseFloor (Nat.le_of_eq hv.symm)).lowerCeiling (Nat.le_of_eq hv)
    · simp only [Device.leaf, hv, decide_false, Facts.assume, hF, Bool.false_eq_true, if_false]
      exact h
  | .held p =>
    cases hp : d.granted p with
    | false =>
      simp only [Device.leaf, hp, Facts.assume, hF, Bool.false_eq_true, if_false]
      exact h
    | true =>
      simp only [Device.leaf, hp, Facts.assume, hF, Bool.false_eq_true, if_false]
      refine ⟨rfl, h.floor, h.ceiling, ?_⟩
      intro q hq
      rcases SortedSet.mem_insert.mp hq with rfl | hq
      · exact hp
      · exact h.held q hq
  | .excluded e =>
    cases hu : u [] with
    | false =>
      simp only [Device.leaf, hu, Facts.assume, hF, Bool.false_eq_true, if_false]
      exact h
    | true =>
      simp only [Device.leaf, hu, Facts.assume, hF, Bool.false_eq_true, if_false]
      exact ⟨rfl, h.floor, h.ceiling, h.held⟩
  | .unknown =>
    simp only [Facts.assume, hF, Bool.false_eq_true, if_false]
    exact h

/-- Assuming the value that a guard has on a device keeps the device allowed. -/
theorem Allows.assume {d : Device} {F : Facts} (h : F.Allows d) (u : Leaves) (g : Guard) :
    (F.assume g (g.holds d u)).Allows d := by
  have htracks : Tracks d.leaf (·.Allows d) :=
    ⟨fun _ _ hFG hF => hFG.allows hF, fun _ _ u hg hF => hF.assume_leaf hg u⟩
  rw [holds_eq_eval]
  exact htracks.assume_eval h u g

end Facts
end LevelGuard
