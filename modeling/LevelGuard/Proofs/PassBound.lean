import LevelGuard.Project.Code
import LevelGuard.Proofs.Lowering
import LevelGuard.Proofs.Solution

/-!
# The bound on passes

The facts at the blocks of a body do not depend on how many passes are made, as long
as one is: further passes find the same again. What they find solves the flow
equations, and every other solution follows from it. Two sets of facts that are both
contradictory count as the same. A block gets what was found for it, or the facts at the
start where nothing or only a contradiction was found.
-/
namespace LevelGuard

namespace Flow.Graph

open Facts

variable {G : Graph}

/-- The flow equations: the entry has the seed, and every other reachable block has
the meet of what flows in from its reachable sources. -/
structure Balances (G : Graph) (seed : Facts) (state : Assignment) : Prop where
  entry : state.getD G.entry none = some seed
  block : ∀ b, G.Reachable b → b ≠ G.entry → ∃ F M, state.getD b none = some F ∧
    G.inflow state b = some M ∧ F.Agrees M
  unreached : ∀ b, ¬ G.Reachable b → state.getD b none = none

/-- The facts that blocks get, given those that were found. -/
structure Settles (G : Graph) (seed : Facts) (state : Assignment) (facts : List Facts) : Prop where
  length : facts.length = G.size
  found : ∀ b F, state.getD b none = some F → F.bottom = false → facts[b]? = some F
  contradictory : ∀ b F, state.getD b none = some F → F.bottom = true → facts[b]? = some seed
  missing : ∀ b, b < G.size → state.getD b none = none → facts[b]? = some seed

theorem settles_map_settled {seed : Facts} {state : Assignment} (hlength : state.length = G.size) :
    G.Settles seed state (state.map (settled seed)) := by
  have hget : ∀ b < G.size, (state.map (settled seed))[b]? = some (settled seed (state.getD b none)) := by
    intro b hb
    rw [← hlength] at hb
    rw [List.getElem?_map, List.getD_eq_getElem?_getD, List.getElem?_eq_getElem hb]
    rfl
  have hlt : ∀ b F, state.getD b none = some F → b < G.size := by
    intro b F hF
    by_contra hb
    rw [List.getD_eq_getElem?_getD, List.getElem?_eq_none (by omega)] at hF
    cases hF
  refine ⟨by rw [List.length_map, hlength], fun b F hF hbottom => ?_, fun b F hF hbottom => ?_,
    fun b hb hnone => ?_⟩
  · rw [hget b (hlt b F hF), hF, settled, hbottom]
    rfl
  · rw [hget b (hlt b F hF), hF, settled, hbottom]
    rfl
  · rw [hget b hb, hnone]
    rfl

theorem Confirms.balances (hG : G.Structured) {seed : Facts} {state : Assignment}
    (h : G.Confirms seed state) : G.Balances seed state where
  entry := h.entry
  unreached := h.unreached
  block b hb hne := by
    obtain ⟨F, hF, hagrees⟩ := h.reached b hb
    obtain ⟨M, hM, hagrees'⟩ := inflow_agrees hG h.framed h.reached h.unreached hb hne
    exact ⟨F, M, hF, hM, hagrees.trans hagrees'.symm⟩

theorem Balances.exists_getD {seed : Facts} {state : Assignment} (h : G.Balances seed state)
    {b : Nat} (hb : G.Reachable b) : ∃ F, state.getD b none = some F := by
  by_cases hne : b = G.entry
  · exact ⟨seed, hne ▸ h.entry⟩
  · obtain ⟨F, _, hF, _⟩ := h.block b hb hne
    exact ⟨F, hF⟩

theorem Balances.reachable {seed F : Facts} {state : Assignment} (h : G.Balances seed state)
    {b : Nat} (hF : state.getD b none = some F) : G.Reachable b := by
  by_contra hnot
  rw [h.unreached b hnot] at hF
  cases hF

theorem Balances.solves {seed : Facts} {state : Assignment} (h : G.Balances seed state) :
    G.Solves seed fun b => (state.getD b none).getD seed where
  entry := by
    rw [h.entry]
    rfl
  block b hb hne := by
    obtain ⟨F, M, hF, hM, hagrees⟩ := h.block b hb hne
    have hmeet := inflow_isMeet hM
    rw [hF, Option.getD_some]
    refine ⟨?_, fun K hK => ?_⟩
    · rintro _ ⟨e, he, htarget, hreach, rfl⟩
      obtain ⟨H, hH⟩ := h.exists_getD hreach
      beta_reduce
      rw [hH, Option.getD_some]
      exact (hmeet.1 _ ⟨e, mem_incoming.mpr ⟨he, htarget⟩, H, hH, rfl⟩).trans
        hagrees.symm.entails
    · refine hagrees.entails.trans (hmeet.2 K ?_)
      rintro _ ⟨e, he, H, hH, rfl⟩
      obtain ⟨he, htarget⟩ := mem_incoming.mp he
      refine hK _ ⟨e, he, htarget, h.reachable hH, ?_⟩
      beta_reduce
      rw [hH, Option.getD_some]

/-- What passes find follows into every other solution of the equations. -/
theorem Confirms.strongest (hG : G.Structured) {seed F H : Facts} {state other : Assignment}
    (h : G.Confirms seed state) (hother : G.Balances seed other) {b : Nat}
    (hF : state.getD b none = some F) (hH : other.getD b none = some H) : F.Entails H := by
  have hb := hother.reachable hH
  obtain ⟨F', hF', hagrees⟩ := h.reached b hb
  have hstrong := firstPass_strongest hG hother.solves.bounds hb
  rw [hH, Option.getD_some] at hstrong
  rw [hF] at hF'
  cases hF'
  exact hagrees.entails.trans hstrong

end Flow.Graph

namespace Project.Code

open LevelGuard.Flow LevelGuard.Flow.Graph

theorem structured_graph (R : Recognizer) (c : Code) : (c.graph R).Structured := by
  unfold graph
  cases c.steps with
  | block b => exact structured_ofBuild (.lowerStmts R b.stmts)
  | exprs es => exact structured_ofBuild (.lowerExprs R es)

/-- One pass is enough: with any larger bound the same facts come out, and they are those of the
strongest solution of the flow equations, but for blocks that have none or contradictory ones. -/
theorem propagate_loses_nothing (R : Recognizer) (c : Code) (seed : Facts) (bound : Nat) :
    (c.graph R).propagateWithin (bound + 1) seed = (c.graph R).propagate seed ∧
      (c.graph R).Settles seed ((c.graph R).passes (bound + 1) ((c.graph R).start seed))
        ((c.graph R).propagateWithin (bound + 1) seed) ∧
      (c.graph R).Balances seed ((c.graph R).passes (bound + 1) ((c.graph R).start seed)) ∧
      ∀ other, (c.graph R).Balances seed other → ∀ b F H,
        ((c.graph R).passes (bound + 1) ((c.graph R).start seed)).getD b none = some F →
        other.getD b none = some H → F.Entails H := by
  have hG := structured_graph R c
  have hpasses := confirms_passes hG seed bound
  refine ⟨?_, settles_map_settled hpasses.length, hpasses.balances hG, ?_⟩
  · exact hpasses.map_settled (confirms_passes hG seed 1)
  · intro other hother b F H hF hH
    exact hpasses.strongest hG hother hF hH

/-- `while (SDK_INT < 21) continue;` -/
def waitingCode : Code where
  steps := .block ⟨[.whileLoop {} (.binary {} .lt (.name {} "SDK_INT") (.literal {} (.int 21)))
    (.continues {} none)], {}⟩

example : ((waitingCode.graph { levelImported := true }).propagateWithin 1 {}).map
    (fun F => (F.floor, F.ceiling)) =
      [(none, none), (some 21, none), (none, none), (none, some 20), (some 21, none), (none, none)] := by
  decide +kernel

end Project.Code
end LevelGuard
