import LevelGuard.Proofs.Statements

/-!
# Assuming a guard again

A second assumption of the same outcome of a guard can only add to the first. It adds nothing
if the guard is a bound, a permission or a handler, and nothing if it is a choice between
guards of which that is true. It can add something where a choice stands before other parts
of a conjunction: the parts are assumed from left to right, so what a later part says is not
yet known when the alternatives of the choice are compared, and only the second time it can
rule one of them out.

A guard is steady if no part of a conjunction clashes with an alternative of an earlier part.
Then the second assumption changes nothing.
-/
namespace LevelGuard

namespace Guard

/-- The guard that has an outcome if one of its parts has it. -/
def anyOf (gs : List Guard) : Bool → Guard
  | true => .or gs
  | false => .and gs

mutual

/-- The statements that a guard can add only if it rules out alternatives of a choice. -/
def offered : Guard → Bool → List Statement
  | .and parts, true => offeredAll parts true
  | .or parts, false => offeredAll parts false
  | .or parts, true => toldAll parts true
  | .and parts, false => toldAll parts false
  | .not inner, t => inner.offered (!t)
  | _, _ => []

def offeredAll : List Guard → Bool → List Statement
  | [], _ => []
  | g :: gs, t => g.offered t ++ offeredAll gs t

end

mutual

/-- The choices among the parts that an outcome of a guard establishes together. -/
def choices : Guard → Bool → List (Guard × Bool)
  | .and parts, true => choicesAll parts true
  | .or parts, false => choicesAll parts false
  | .or parts, true => [(.or parts, true)]
  | .and parts, false => [(.and parts, false)]
  | .not inner, t => inner.choices (!t)
  | _, _ => []

def choicesAll : List Guard → Bool → List (Guard × Bool)
  | [], _ => []
  | g :: gs, t => g.choices t ++ choicesAll gs t

end

mutual

/-- Whether no part of a conjunction in the guard clashes with an alternative of an earlier
part. -/
def steady : Guard → Bool → Bool
  | .and parts, true => steadyInTurn parts true
  | .or parts, false => steadyInTurn parts false
  | .or parts, true => steadyEach parts true
  | .and parts, false => steadyEach parts false
  | .not inner, t => inner.steady (!t)
  | _, _ => true

def steadyInTurn : List Guard → Bool → Bool
  | [], _ => true
  | g :: gs, t =>
    g.steady t && ((g.offered t).all fun s => (toldAll gs t).all fun s' => !s.clashes s')
      && steadyInTurn gs t

def steadyEach : List Guard → Bool → Bool
  | [], _ => true
  | g :: gs, t => g.steady t && steadyEach gs t

end

theorem told_anyOf (gs : List Guard) (t : Bool) : (anyOf gs t).told t = toldAll gs t := by
  cases t <;> rw [anyOf, told]

end Guard

namespace Facts

open Guard

variable {F G : Facts} {g : Guard} {t : Bool} {S : List Statement}

/-- An assumption changes nothing if the facts say all that it would add. -/
theorem assume_eq_self_iff : F.assume g t = F ↔ F.Entails (F.assume g t) := by
  constructor
  · intro h
    rw [h]
    exact .refl F
  · intro h
    have hrequirements : F.requirements = (F.assume g t).requirements :=
      congrArg (fun frame => frame.2.2) (assume_frame F g t).symm
    rcases h.antisymm (assume_entails F g t) hrequirements with heq | ⟨hF, -⟩
    · exact heq.symm
    · exact assume_of_bottom hF g t

theorem assumeAll_cons_eq_self_iff {gs : List Guard} :
    F.assumeAll (g :: gs) t = F ↔ F.assume g t = F ∧ F.assumeAll gs t = F := by
  rw [assumeAll]
  constructor
  · intro h
    have hg : F.assume g t = F := by
      have hentails := assumeAll_entails (F.assume g t) gs t
      rw [h] at hentails
      exact assume_eq_self_iff.mpr hentails
    rw [hg] at h
    exact ⟨hg, h⟩
  · rintro ⟨hg, hgs⟩
    rw [hg, hgs]

/-- A leaf that has been assumed adds nothing to facts that have got stronger since. -/
theorem Settled.assume_leaf_eq_self (hG : G.Settled) (hg : g.IsLeaf) (h : G.Entails (F.assume g t)) :
    G.assume g t = G := by
  cases hbottom : G.bottom with
  | true => exact assume_of_bottom hbottom g t
  | false =>
    have hFt := h.bottom_eq_false hbottom
    have htold : ∀ s ∈ g.told t, G.States s := fun s hs =>
      h.states hbottom ((states_assume_leaf hg hFt).mpr (.inr ⟨s, hs, .refl s⟩))
    have hGt : (G.assume g t).bottom = false := by
      by_contra hcontra
      obtain ⟨s, hs, s', hclash, hs'⟩ := hG.assume_leaf_clash hbottom hg (by simpa using hcontra)
      have hnot := hG.not_clashes hbottom (htold s hs) (hs'.elim id (htold s'))
      rw [hclash] at hnot
      cases hnot
    refine assume_eq_self_iff.mpr (entails_of_states (assume_frame G g t).symm hGt fun s hs => ?_)
    rcases (states_assume_leaf hg hGt).mp hs with hs | ⟨s', hs', himplies⟩
    · exact hs
    · exact (htold s' hs').of_implies himplies

/-- A guard that adds nothing to facts adds nothing to stronger ones, if what these say in
addition rules out no alternative. -/
theorem Quiet.assume_eq_self (hquiet : Quiet (g.told t) G F) (hG : G.Settled) (hF : F.Settled)
    (h : G.Entails F) (hsame : F.assume g t = F) : G.assume g t = G := by
  cases hbottom : G.bottom with
  | true => exact assume_of_bottom hbottom g t
  | false =>
    have hFt : (F.assume g t).bottom = false := by
      rw [hsame]
      exact h.bottom_eq_false hbottom
    obtain ⟨hGt, hstates⟩ := states_assume_of_quiet hG hF hbottom hquiet hFt
    rw [hsame] at hstates
    refine assume_eq_self_iff.mpr (entails_of_states (assume_frame G g t).symm hGt fun s hs => ?_)
    exact (hstates s hs).elim id (h.states hbottom)

theorem assume_anyOf_cons (F : Facts) (g : Guard) (gs : List Guard) (t : Bool) :
    F.assume (anyOf (g :: gs) t) t = F.assumeSome (F.assume g t) gs t := by
  cases t with
  | true => exact assume_or_true F g gs
  | false => exact assume_and_false F g gs

theorem assume_anyOf_nil (F : Facts) (t : Bool) : F.assume (anyOf [] t) t = F := by
  cases t with
  | true => exact assume_or_nil F
  | false => exact assume_and_nil F

theorem assume_entails_anyOf {gs : List Guard} (hg : g ∈ gs) :
    (F.assume g t).Entails (F.assume (anyOf gs t) t) := by
  cases t with
  | true => exact assume_entails_or hg
  | false => exact assume_entails_and hg

/-- Alternatives that all entail others leave what entails what these leave. -/
theorem assumeSome_entails_assumeSome {M N : Facts} (hM : M.Entails N) {gs : List Guard}
    (h : ∀ g ∈ gs, (F.assume g t).Entails (G.assume g t)) :
    (F.assumeSome M gs t).Entails (G.assumeSome N gs t) := by
  induction gs generalizing M N with
  | nil => exact hM
  | cons g gs ih =>
    obtain ⟨hg, hgs⟩ := List.forall_mem_cons.mp h
    exact ih (meet_mono hM hg) hgs

/-- A choice between guards that can be repeated can be repeated: it is weaker than each
alternative, and each of them still leaves what it left before. -/
theorem assume_anyOf_again {gs : List Guard}
    (h : ∀ g ∈ gs, (F.assume g t).assume g t = F.assume g t) :
    (F.assume (anyOf gs t) t).assume (anyOf gs t) t = F.assume (anyOf gs t) t := by
  have hparts : ∀ g ∈ gs, (F.assume g t).Entails ((F.assume (anyOf gs t) t).assume g t) := by
    intro g hg
    have hmono := assume_mono (assume_entails_anyOf (F := F) (t := t) hg) g t
    rwa [h g hg] at hmono
  cases gs with
  | nil => rw [assume_anyOf_nil, assume_anyOf_nil]
  | cons g gs =>
    obtain ⟨hg, hgs⟩ := List.forall_mem_cons.mp hparts
    rw [assume_eq_self_iff]
    nth_rewrite 1 [assume_anyOf_cons]
    rw [assume_anyOf_cons (F.assume (anyOf (g :: gs) t) t)]
    exact assumeSome_entails_assumeSome hg hgs

theorem Quiet.assume_anyOf_eq_self (hG : G.Settled) (hF : F.Settled) {gs : List Guard}
    (hparts : ∀ g ∈ gs, (F.assume g t).assume g t = F.assume g t)
    (h : G.Entails (F.assume (anyOf gs t) t))
    (hquiet : Quiet (toldAll gs t) G (F.assume (anyOf gs t) t)) :
    G.assume (anyOf gs t) t = G := by
  rw [← told_anyOf] at hquiet
  exact hquiet.assume_eq_self hG (hF.assume _ t) h (assume_anyOf_again hparts)

mutual

/-- A guard that has been assumed adds nothing to stronger facts, if no part of its
conjunctions clashes with an earlier alternative and the facts say nothing more that does. -/
theorem assume_eq_self_of_steady {F G : Facts} (hG : G.Settled) (hF : F.Settled) :
    (g : Guard) → (t : Bool) → g.steady t = true → G.Entails (F.assume g t) →
      Quiet (g.offered t) G (F.assume g t) → G.assume g t = G
  | .and gs, true, hsteady, h, hquiet => by
    rw [steady] at hsteady
    rw [offered] at hquiet
    rw [assume_and_true] at h hquiet ⊢
    exact assumeAll_eq_self_of_steady hG hF gs true hsteady h hquiet
  | .or gs, false, hsteady, h, hquiet => by
    rw [steady] at hsteady
    rw [offered] at hquiet
    rw [assume_or_false] at h hquiet ⊢
    exact assumeAll_eq_self_of_steady hG hF gs false hsteady h hquiet
  | .or gs, true, hsteady, h, hquiet => by
    rw [steady] at hsteady
    rw [offered] at hquiet
    exact Quiet.assume_anyOf_eq_self (t := true) hG hF
      (assume_again_of_steadyEach hF gs true hsteady) h hquiet
  | .and gs, false, hsteady, h, hquiet => by
    rw [steady] at hsteady
    rw [offered] at hquiet
    exact Quiet.assume_anyOf_eq_self (t := false) hG hF
      (assume_again_of_steadyEach hF gs false hsteady) h hquiet
  | .not inner, t, hsteady, h, hquiet => by
    rw [steady] at hsteady
    rw [offered] at hquiet
    rw [assume_not] at h hquiet ⊢
    exact assume_eq_self_of_steady hG hF inner (!t) hsteady h hquiet
  | .atLeast _, _, _, h, _ | .atMost _, _, _, h, _ | .exactly _, _, _, h, _ | .held _, _, _, h, _
  | .excluded _, _, _, h, _ | .unknown, _, _, h, _ => hG.assume_leaf_eq_self trivial h

theorem assumeAll_eq_self_of_steady {F G : Facts} (hG : G.Settled) (hF : F.Settled) :
    (gs : List Guard) → (t : Bool) → steadyInTurn gs t = true → G.Entails (F.assumeAll gs t) →
      Quiet (offeredAll gs t) G (F.assumeAll gs t) → G.assumeAll gs t = G
  | [], _, _, _, _ => rfl
  | g :: gs, t, hsteady, h, hquiet => by
    cases hbottom : G.bottom with
    | true => exact assumeAll_of_bottom hbottom _ t
    | false =>
      rw [steadyInTurn, Bool.and_eq_true, Bool.and_eq_true] at hsteady
      obtain ⟨⟨hg, hnoclash⟩, hgs⟩ := hsteady
      simp only [List.all_eq_true, Bool.not_eq_true'] at hnoclash
      rw [offeredAll] at hquiet
      rw [assumeAll] at h hquiet
      have hadds := (AddsOnly.parallel (toldAll gs t) (F.assume g t)).assumeAll
        (F := F) (.inr fun _ hs => .inl hs) gs t fun _ => told_subset_toldAll
      have hlast := hadds.resolve_left (by simp [h.bottom_eq_false hbottom])
      refine assumeAll_cons_eq_self_iff.mpr ⟨?_, ?_⟩
      · refine assume_eq_self_of_steady hG hF g t hg (h.trans (assumeAll_entails _ gs t)) ?_
        -- What clashes with an alternative of the first part is none of what the others tell.
        intro s hs s' hclash hs'
        rcases hlast s' (hquiet s (List.mem_append_left _ hs) s' hclash hs') with
          hfirst | ⟨r, hr, himplies⟩
        · exact hfirst
        · have hnot := hnoclash s hs r hr
          rw [himplies.clashes hclash] at hnot
          cases hnot
      · exact assumeAll_eq_self_of_steady hG (hF.assume g t) gs t hgs h
          (hquiet.mono (List.subset_append_right _ _))

theorem assume_again_of_steadyEach {F : Facts} (hF : F.Settled) : (gs : List Guard) → (t : Bool) →
    steadyEach gs t = true → ∀ g ∈ gs, (F.assume g t).assume g t = F.assume g t
  | [], _, _ => nofun
  | g :: gs, t, hsteady => by
    rw [steadyEach, Bool.and_eq_true] at hsteady
    exact List.forall_mem_cons.mpr
      ⟨assume_eq_self_of_steady (hF.assume g t) hF g t hsteady.1 (.refl _) (.refl _ _),
        assume_again_of_steadyEach hF gs t hsteady.2⟩

end

mutual

/-- Of a guard that has been assumed, only the choices can add to stronger facts. -/
theorem assume_eq_self_iff_choices {F G : Facts} (hG : G.Settled) : (g : Guard) → (t : Bool) →
    G.Entails (F.assume g t) →
      (G.assume g t = G ↔ ∀ c ∈ g.choices t, G.assume c.1 c.2 = G)
  | .and gs, true, h => by
    rw [assume_and_true] at h ⊢
    rw [choices]
    exact assumeAll_eq_self_iff_choices hG gs true h
  | .or gs, false, h => by
    rw [assume_or_false] at h ⊢
    rw [choices]
    exact assumeAll_eq_self_iff_choices hG gs false h
  | .or gs, true, _ => by simp [choices]
  | .and gs, false, _ => by simp [choices]
  | .not inner, t, h => by
    rw [assume_not] at h ⊢
    rw [choices]
    exact assume_eq_self_iff_choices hG inner (!t) h
  | .atLeast _, _, h | .atMost _, _, h | .exactly _, _, h | .held _, _, h | .excluded _, _, h
  | .unknown, _, h => iff_of_true (hG.assume_leaf_eq_self trivial h) (by simp [choices])

theorem assumeAll_eq_self_iff_choices {F G : Facts} (hG : G.Settled) : (gs : List Guard) →
    (t : Bool) → G.Entails (F.assumeAll gs t) →
      (G.assumeAll gs t = G ↔ ∀ c ∈ choicesAll gs t, G.assume c.1 c.2 = G)
  | [], _, _ => by simp [assumeAll, choicesAll]
  | g :: gs, t, h => by
    rw [assumeAll] at h
    rw [assumeAll_cons_eq_self_iff, choicesAll, List.forall_mem_append,
      assume_eq_self_iff_choices hG g t (h.trans (assumeAll_entails _ gs t)),
      assumeAll_eq_self_iff_choices hG gs t h]

end

/-- To assume an outcome of a guard a second time can only add to what facts say of the device.
It changes nothing exactly if no choice among the parts of the guard does, and it never
changes anything if the guard is steady. -/
theorem assume_again (F : Facts) (hF : F.Settled) (g : Guard) (t : Bool) :
    ((F.assume g t).assume g t).Entails (F.assume g t) ∧
      ((F.assume g t).assume g t).frame = F.frame ∧
      ((F.assume g t).assume g t = F.assume g t ↔
        ∀ c ∈ g.choices t, (F.assume g t).assume c.1 c.2 = F.assume g t) ∧
      (g.steady t = true → (F.assume g t).assume g t = F.assume g t) := by
  have honce := hF.assume g t
  refine ⟨assume_entails _ g t, ?_, assume_eq_self_iff_choices honce g t (.refl _), fun hsteady => ?_⟩
  · rw [assume_frame, assume_frame]
  · exact assume_eq_self_of_steady honce hF g t hsteady (.refl _) (.refl _ _)

/-- The levels on both sides of a gap, and at least one inside it: the last part rules out an
alternative of the first. -/
def gapGuard : Guard := .and [.or [.atLeast 14, .atMost 8], .atLeast 10]

/-- The second assumption of that guard raises the floor once more. -/
theorem gapGuard_again : top.assume gapGuard true = { floor := some 10 } ∧
    (top.assume gapGuard true).assume gapGuard true = { floor := some 14 } ∧
    gapGuard.steady true = false := by
  decide +kernel

/-- A guard with its choice at the end, inside of another choice. -/
def rangeGuard : Guard :=
  .or [.and [.atLeast 10, .or [.atLeast 14, .atMost 12]],
    .not (.and [.or [.atMost 30, .held "p.P"], .unknown])]

theorem assume_again_range :
    (top.assume rangeGuard true).assume rangeGuard true = top.assume rangeGuard true ∧
      (top.assume rangeGuard false).assume rangeGuard false = top.assume rangeGuard false ∧
      ¬ ∀ c ∈ gapGuard.choices true, (top.assume gapGuard true).assume c.1 c.2 =
        top.assume gapGuard true := by
  have htop : top.Settled := .inr nofun
  refine ⟨(assume_again top htop rangeGuard true).2.2.2 (by decide +kernel),
    (assume_again top htop rangeGuard false).2.2.2 (by decide +kernel), ?_⟩
  rw [← (assume_again top htop gapGuard true).2.2.1]
  decide +kernel

end Facts
end LevelGuard
