import LevelGuard.Check.Symbols
import LevelGuard.Proofs.FactInvariants
import LevelGuard.Proofs.Solution

/-!
# What propagation leaves alone

Facts that flow through a graph only get stronger on the way. What they say of the device is
at least what the seed says, whatever the edges of the graph and their guards are. What they
say of the code itself, its annotations, silenced categories and declared requirements, is
just what the seed says. So a check at run time can make a message disappear, but it never
changes the minimum that the message cites.
-/
namespace LevelGuard.Flow

open Facts

/-- Handlers around a site say nothing about the code itself. -/
theorem Site.inside_frame (s : Site) (F : Facts) : (s.inside F).frame = F.frame := by
  unfold Site.inside
  generalize s.handlers = handlers
  induction handlers generalizing F with
  | nil => rfl
  | cons g gs ih => exact (ih _).trans (assume_frame F g true)

namespace Graph

variable {G : Graph}

theorem Keeps.of_mem_propagate {P : Facts → Prop} (hP : G.Keeps P) {seed F : Facts} (hseed : P seed)
    (hF : F ∈ G.propagate seed) : P F := by
  obtain ⟨b, hb⟩ := List.mem_iff_getElem?.mp hF
  have hPb := hP.propagate hseed b
  rwa [List.getD_eq_getElem?_getD, hb, Option.getD_some] at hPb

/-- A block that only contradictions reach is checked with the seed. -/
theorem eq_seed_or_consistent {seed F : Facts} (hF : F ∈ G.propagate seed) :
    F = seed ∨ F.bottom = false := by
  obtain ⟨facts, -, rfl⟩ := List.mem_map.mp hF
  cases facts with
  | none => exact .inl rfl
  | some H =>
    cases hH : H.bottom with
    | true => exact .inl (by simp [settled, hH])
    | false => exact .inr (by simp [settled, hH])

theorem keeps_entails (seed : Facts) : G.Keeps fun F => F.Entails seed where
  edge e _ F hF := (along_entails e F).trans hF
  meet _ _ hF hH := meet_entails hF hH

theorem keeps_coherent : G.Keeps Coherent where
  edge e _ F hF := by
    unfold along
    cases e.guard with
    | none => exact hF
    | some g => exact hF.assume g true
  meet _ _ hF hH := hF.meet hH

theorem includes_seed {seed F : Facts} (hF : F ∈ G.propagate seed) : F.Includes seed := by
  rcases eq_seed_or_consistent hF with rfl | hconsistent
  · exact .refl F
  · exact ((keeps_entails seed).of_mem_propagate (.refl seed) hF).includes hconsistent

/-- The facts that propagation finds say of the code what the seed says, and of the device at
least what the seed says; they are contradictory only if the seed is, and coherent if the seed
is. At every site, whatever handlers are around it, messages cite the minimum of the seed. -/
theorem propagate_strengthens_seed (G : Graph) (seed F : Facts) (hF : F ∈ G.propagate seed) :
    (F.annotationFloor = seed.annotationFloor ∧ F.suppressed = seed.suppressed ∧
      F.requirements = seed.requirements) ∧
    (FloorLe seed.floor F.floor ∧ CeilingLe seed.ceiling F.ceiling ∧
      (∀ p ∈ seed.held, p ∈ F.held) ∧ ∀ t ∈ seed.excluded, t ∈ F.excluded) ∧
    (F.bottom = true → seed.bottom = true) ∧ (seed.Coherent → F.Coherent) ∧
    (∀ m, F.reportedMin m = seed.reportedMin m) ∧
    ∀ (C : Check.Setting) (s : Site) (v : Level), C.levelClause (s.inside F) v = C.levelClause seed v := by
  have hframe : F.frame = seed.frame := (keeps_frame seed).of_mem_propagate rfl hF
  have hincludes := includes_seed hF
  have hcited : ∀ {H : Facts}, H.frame = seed.frame → ∀ m, H.reportedMin m = seed.reportedMin m := by
    intro H hH m
    rw [reportedMin, show H.annotationFloor = seed.annotationFloor from congrArg Prod.fst hH, reportedMin]
  refine ⟨by simpa [frame] using hframe,
    ⟨hincludes.floor, hincludes.ceiling, hincludes.held, hincludes.excluded⟩, ?_,
    fun h => keeps_coherent.of_mem_propagate h hF, hcited hframe, fun C s v => ?_⟩
  · intro hbottom
    rcases eq_seed_or_consistent hF with rfl | hconsistent
    · exact hbottom
    · rw [hconsistent] at hbottom
      cases hbottom
  · have hsite := hcited ((s.inside_frame F).trans hframe) C.baseline.min
    unfold Check.Setting.levelClause
    rw [hsite]

/-- A graph with an edge into its entry, a loop, a guard that contradicts the one before, and a
block that nothing leads to. -/
def tangledGraph : Graph where
  size := 4
  entry := 0
  exit := 2
  edges :=
    [{ source := 0, target := 1, guard := some (.atLeast 26) }, { source := 1, target := 0 },
      { source := 1, target := 2, guard := some (.or [.atMost 25, .held "p.P"]) },
      { source := 2, target := 1, kind := .back }, { source := 3, target := 2 }]
  sites := []

def checkedTwice : Facts := { annotatedFacts with floor := some 26, held := .ofList ["p.P"] }

theorem propagate_strengthens_seed_tangled :
    tangledGraph.propagate annotatedFacts =
        [annotatedFacts, { annotatedFacts with floor := some 26 }, checkedTwice, annotatedFacts] ∧
      checkedTwice.Coherent ∧ checkedTwice.reportedMin 19 = annotatedFacts.reportedMin 19 := by
  have hfacts : tangledGraph.propagate annotatedFacts =
      [annotatedFacts, { annotatedFacts with floor := some 26 }, checkedTwice, annotatedFacts] := by
    decide +kernel
  have hmem : checkedTwice ∈ tangledGraph.propagate annotatedFacts := by simp [hfacts]
  obtain ⟨-, -, -, hcoherent, hcited, -⟩ := propagate_strengthens_seed _ _ _ hmem
  exact ⟨hfacts, hcoherent made_annotatedFacts.coherent, hcited 19⟩

end Graph
end LevelGuard.Flow
