import LevelGuard.Proofs.Devices

/-!
# Device states and facts

A device state adds to a device the exception types that handlers catch where the
program is. A guard has a value in a device state once its unknown leaves have one.
Facts are satisfied by the device states of which all that they say is true. To assume
an outcome of a guard keeps every device state in which the guard can have that outcome,
and it keeps no others where facts can tell the outcome exactly.
-/
namespace LevelGuard

/-- A device and the exception types that the handlers around a place catch. -/
structure DeviceState extends Device where
  caught : String → Bool

/-- The value of a leaf in a device state, which leaves open only what is unknown. -/
def DeviceState.leaf (s : DeviceState) : Guard → Leaves → Bool
  | .excluded e, _ => s.caught e
  | g, u => s.toDevice.leaf g u

/-- The value of a guard in a device state, given the values of its unknown leaves. -/
def Guard.value (s : DeviceState) (u : Leaves) (g : Guard) : Bool := g.eval s.leaf u

/-- Outcomes that facts can tell exactly: bounds that exist, what is held or excluded, and
all of several such outcomes together. -/
inductive Guard.Exact : Guard → Bool → Prop
  | atLeast (v : Level) (t : Bool) : Exact (.atLeast v) t
  | atMost (v : Level) : Exact (.atMost v) true
  | above {v : Level} : v < Level.greatest → Exact (.atMost v) false
  | exactly (v : Level) : Exact (.exactly v) true
  | held (p : String) : Exact (.held p) true
  | excluded (e : String) : Exact (.excluded e) true
  | and {gs : List Guard} : (∀ g ∈ gs, Exact g true) → Exact (.and gs) true
  | or {gs : List Guard} : (∀ g ∈ gs, Exact g false) → Exact (.or gs) false
  | not {g : Guard} {t : Bool} : Exact g (!t) → Exact (.not g) t

namespace Facts

open Guard

/-- All that the facts say of the device state is true. -/
structure Satisfied (F : Facts) (s : DeviceState) : Prop extends F.Allows s.toDevice where
  excluded : ∀ e ∈ F.excluded, s.caught e = true

variable {s : DeviceState} {F G : Facts}

theorem Entails.satisfied (h : F.Entails G) (hF : F.Satisfied s) : G.Satisfied s where
  toAllows := h.allows hF.toAllows
  excluded e he := hF.excluded e ((h.includes hF.consistent).excluded e he)

theorem Satisfied.assume_leaf (h : F.Satisfied s) {g : Guard} (hg : g.IsLeaf) (u : Leaves) :
    (F.assume g (s.leaf g u)).Satisfied s := by
  by_cases hne : ∃ e, g = .excluded e
  · obtain ⟨e, rfl⟩ := hne
    have hF := h.consistent
    cases hcaught : s.caught e with
    | false =>
      simp only [DeviceState.leaf, hcaught, Facts.assume, hF, Bool.false_eq_true, if_false]
      exact h
    | true =>
      simp only [DeviceState.leaf, hcaught, Facts.assume, hF, Bool.false_eq_true, if_false]
      refine ⟨⟨rfl, h.floor, h.ceiling, h.held⟩, ?_⟩
      intro e' he'
      rcases SortedSet.mem_insert.mp he' with rfl | he'
      · exact hcaught
      · exact h.excluded e' he'
  · have hleaf : s.leaf g u = s.toDevice.leaf g u := by
      cases g with
      | excluded e => exact absurd ⟨e, rfl⟩ hne
      | _ => rfl
    rw [hleaf]
    refine ⟨h.toAllows.assume_leaf hg u, ?_⟩
    rw [assume_leaf_excluded hg (fun e he => hne ⟨e, he⟩)]
    exact h.excluded

/-- Assuming the value that a guard has in a device state keeps the state satisfying. -/
theorem Satisfied.assume_value (h : F.Satisfied s) (u : Leaves) (g : Guard) :
    (F.assume g (g.value s u)).Satisfied s := by
  have htracks : Tracks s.leaf (·.Satisfied s) :=
    ⟨fun _ _ hFG hF => hFG.satisfied hF, fun _ _ u hg hF => hF.assume_leaf hg u⟩
  exact htracks.assume_eval h u g

theorem le_level_of_raiseFloor {v : Level} (h : (F.raiseFloor v).Satisfied s) : v ≤ s.level := by
  have hraised : v ≤ raised F.floor v := by
    cases F.floor with
    | none => exact Nat.le_refl v
    | some f => exact Nat.le_max_right f v
  exact Nat.le_trans hraised (h.floor _ rfl)

theorem level_le_of_lowerCeiling {v : Level} (h : (F.lowerCeiling v).Satisfied s) :
    s.level ≤ v := by
  have hlowered : lowered F.ceiling v ≤ v := by
    cases F.ceiling with
    | none => exact Nat.le_refl v
    | some c => exact Nat.min_le_right c v
  exact Nat.le_trans (h.ceiling _ rfl) hlowered

/-- What has been assumed one after the other can be told of a state that is left. -/
theorem evalAll_of_satisfied {gs : List Guard}
    (h : ∀ g ∈ gs, ∀ F u, (Facts.assume F g true).Satisfied s → g.value s u = true)
    (hs : (F.assumeAll gs true).Satisfied s) (u : Leaves) (position : Nat) :
    evalAll s.leaf u position gs = true := by
  induction gs generalizing F position with
  | nil => rfl
  | cons g gs ih =>
    obtain ⟨hg, hgs⟩ := List.forall_mem_cons.mp h
    have hhead := (assumeAll_entails (F.assume g true) gs true).satisfied hs
    rw [evalAll, Bool.and_eq_true]
    exact ⟨hg F _ hhead, ih hgs hs (position + 1)⟩

theorem evalSome_of_satisfied {gs : List Guard}
    (h : ∀ g ∈ gs, ∀ F u, (Facts.assume F g false).Satisfied s → g.value s u = false)
    (hs : (F.assumeAll gs false).Satisfied s) (u : Leaves) (position : Nat) :
    evalSome s.leaf u position gs = false := by
  induction gs generalizing F position with
  | nil => rfl
  | cons g gs ih =>
    obtain ⟨hg, hgs⟩ := List.forall_mem_cons.mp h
    have hhead := (assumeAll_entails (F.assume g false) gs false).satisfied hs
    rw [evalSome, Bool.or_eq_false_iff]
    exact ⟨hg F _ hhead, ih hgs hs (position + 1)⟩

/-- An outcome that facts can tell exactly is the one in every state that is left. -/
theorem value_of_satisfied {g : Guard} {t : Bool} (h : g.Exact t) :
    ∀ (F : Facts) (u : Leaves), (F.assume g t).Satisfied s → g.value s u = t := by
  induction h with
  | and _ ih =>
    intro F u hs
    rw [assume_and_true] at hs
    exact evalAll_of_satisfied ih hs u 0
  | or _ ih =>
    intro F u hs
    rw [assume_or_false] at hs
    exact evalSome_of_satisfied ih hs u 0
  | @not g t _ ih =>
    intro F u hs
    rw [assume_not] at hs
    have hinner := ih F (u.inside 0) hs
    change (!g.value s (u.inside 0)) = t
    rw [hinner, Bool.not_not]
  | atLeast v t =>
    intro F u hs
    have hF := (assume_entails F _ t).bottom_eq_false hs.consistent
    cases t with
    | true =>
      simp only [Facts.assume, hF, Bool.false_eq_true, if_false] at hs
      exact decide_eq_true (le_level_of_raiseFloor hs)
    | false =>
      cases v with
      | zero =>
        simp only [Facts.assume, hF, Bool.false_eq_true, if_false] at hs
        exact absurd hs.consistent (by simp)
      | succ v =>
        simp only [Facts.assume, hF, Bool.false_eq_true, if_false] at hs
        exact decide_eq_false (Nat.not_lt.mpr (level_le_of_lowerCeiling hs))
  | atMost v =>
    intro F u hs
    have hF := (assume_entails F _ true).bottom_eq_false hs.consistent
    simp only [Facts.assume, hF, Bool.false_eq_true, if_false] at hs
    exact decide_eq_true (level_le_of_lowerCeiling hs)
  | @above v hv =>
    intro F u hs
    have hF := (assume_entails F _ false).bottom_eq_false hs.consistent
    simp only [Facts.assume, hF, Bool.false_eq_true, if_false] at hs
    have hup : Level.up v = v + 1 := Nat.min_eq_left hv
    have hle := le_level_of_raiseFloor hs
    rw [hup] at hle
    exact decide_eq_false (Nat.not_le.mpr hle)
  | exactly v =>
    intro F u hs
    have hF := (assume_entails F _ true).bottom_eq_false hs.consistent
    simp only [Facts.assume, hF, Bool.false_eq_true, if_false] at hs
    have hle := le_level_of_raiseFloor ((lowerCeiling_entails _ v).satisfied hs)
    exact decide_eq_true (Nat.le_antisymm (level_le_of_lowerCeiling hs) hle)
  | held p =>
    intro F u hs
    have hF := (assume_entails F _ true).bottom_eq_false hs.consistent
    simp only [Facts.assume, hF, Bool.false_eq_true, if_false] at hs
    exact hs.held p (SortedSet.mem_insert.mpr (.inl rfl))
  | excluded e =>
    intro F u hs
    have hF := (assume_entails F _ true).bottom_eq_false hs.consistent
    simp only [Facts.assume, hF, Bool.false_eq_true, if_false] at hs
    exact hs.excluded e (SortedSet.mem_insert.mpr (.inl rfl))

/-- A device state that satisfies facts, and in which a guard can come out as `t` for some
values of its unknown leaves, satisfies the facts after `t` has been assumed of the guard; so
these are contradictory only if there is no such state. Where facts can tell the outcome
exactly, no other states satisfy them. -/
theorem assume_keeps_states (F : Facts) (g : Guard) (t : Bool) :
    (∀ s : DeviceState, F.Satisfied s → (∃ u, g.value s u = t) → (F.assume g t).Satisfied s) ∧
      ((F.assume g t).bottom = true →
        ¬ ∃ s : DeviceState, F.Satisfied s ∧ ∃ u, g.value s u = t) ∧
      (g.Exact t → ∀ (s : DeviceState) (u : Leaves),
        (F.assume g t).Satisfied s → F.Satisfied s ∧ g.value s u = t) := by
  have hsound : ∀ s : DeviceState, F.Satisfied s → (∃ u, g.value s u = t) →
      (F.assume g t).Satisfied s := by
    rintro s hs ⟨u, rfl⟩
    exact hs.assume_value u g
  refine ⟨hsound, ?_, ?_⟩
  · rintro hbottom ⟨s, hs, hvalue⟩
    have hconsistent := (hsound s hs hvalue).consistent
    rw [hbottom] at hconsistent
    cases hconsistent
  · intro hexact s u hs
    exact ⟨(assume_entails F g t).satisfied hs, value_of_satisfied hexact F u hs⟩

/-- Level 23, one permission, and a handler for one type of exceptions. -/
def sampleState : DeviceState := ⟨⟨23, (· = "p.P")⟩, (· = "E")⟩

/-- The level or an open condition, and no handler for another type. -/
def sampleGuard : Guard :=
  .and [.or [.exactly 19, .unknown], .not (.or [.atMost 20, .excluded "T"]), .held "p.P"]

theorem sampleState_satisfies : ({ floor := some 19, excluded := .ofList ["E"] } : Facts).Satisfied
    sampleState := by
  refine ⟨⟨rfl, ?_, nofun, nofun⟩, ?_⟩
  · rintro v ⟨⟩
    decide
  · intro e he
    have hE : e = "E" := by simpa using he
    simp [sampleState, hE]

theorem assume_keeps_states_sample :
    (assume { floor := some 19, excluded := .ofList ["E"] } sampleGuard true).Satisfied sampleState ∧
      (¬ ∃ s : DeviceState, Facts.Satisfied { floor := some 21 } s ∧
        ∃ u, (Guard.and [.unknown, .not (.atLeast 21)]).value s u = true) ∧
      (assume top (.and [.atLeast 21, .held "p.P"]) true).Satisfied sampleState ∧
      top.Satisfied sampleState ∧
        (Guard.and [.atLeast 21, .held "p.P"]).value sampleState (fun _ => false) = true := by
  have htop : top.Satisfied sampleState := ⟨⟨rfl, nofun, nofun, nofun⟩, nofun⟩
  have hkept : (assume top (.and [.atLeast 21, .held "p.P"]) true).Satisfied sampleState :=
    (assume_keeps_states _ _ _).1 _ htop ⟨fun _ => true, by decide⟩
  have hexact : (Guard.and [.atLeast 21, .held "p.P"]).Exact true := by
    refine .and fun g hg => ?_
    rcases List.mem_cons.mp hg with rfl | hg
    · exact .atLeast 21 true
    · rw [List.mem_singleton.mp hg]
      exact .held "p.P"
  exact ⟨(assume_keeps_states _ _ _).1 _ sampleState_satisfies ⟨fun _ => true, by decide⟩,
    (assume_keeps_states _ _ _).2.1 (by decide),
    hkept, (assume_keeps_states _ _ _).2.2 hexact _ _ hkept⟩

end Facts
end LevelGuard
