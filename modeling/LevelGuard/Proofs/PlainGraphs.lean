import LevelGuard.Flow.Propagate
import LevelGuard.Proofs.LoweringSteps

/-!
# Graphs of plain code

The lowering makes the same blocks and edges for the plain form of some code as for the
code itself, and records the plain forms of its sites in the same blocks.
-/
namespace LevelGuard.Flow

open Java Build Project

variable {R : Recognizer}

def Site.plain (s : Site) : Site := { s with event := s.event.plain }

def plainPlaced (s : Nat × Site) : Nat × Site := (s.1, s.2.plain)

def Draft.plain (d : Draft) : Draft := { d with sites := d.sites.map plainPlaced }

def Graph.plain (G : Graph) : Graph := { G with sites := G.sites.map plainPlaced }

/-- On the plain form of a draft the second step gives the same, and makes the plain form
of the draft that the first step makes. -/
def Build.Mirrors {α : Type} (m m' : Build α) : Prop :=
  ∀ d : Draft, m'.run d.plain = ((m.run d).1, (m.run d).2.plain)

def StepRule.mirrors (R : Recognizer) : StepRule (EdgeRule.leading R fun _ => True) where
  Holds m m' _ := m.Mirrors m'
  seq {m m' f f' _ _} hm hf d := by
    change (f' (m'.run d.plain).1).run (m'.run d.plain).2 = _
    rw [hm d]
    exact hf () (m.run d).2
  block hf d := hf d.size trivial (newBlock.after d)
  look _ _ _ hf d := hf d.spot d.spot.aims_anywhere d
  done _ := rfl
  addEdge _ _ := rfl
  setCurrent _ _ := rfl
  addSite event d := by
    have hsites : (d.sites ++ [(d.current, (⟨event, d.handlers⟩ : Site))]).map plainPlaced =
        d.sites.map plainPlaced ++ [(d.current, ⟨event.plain, d.handlers⟩)] := List.map_append
    exact congrArg (fun sites => ((), { d with sites := sites })) hsites.symm
  withJump {j _ _ _} _ _ h d := by
    have hinner := h { d with jumps := j :: d.jumps }
    exact congrArg (fun r => ((), { r.2 with jumps := d.jumps })) hinner
  withHandlers guards _ _ _ h d := by
    have hinner := h { d with handlers := guards ++ d.handlers }
    exact congrArg (fun r => ((), { r.2 with handlers := d.handlers })) hinner

namespace Graph

theorem ofBuild_plain {m m' : Build Unit} {s : List Guard → List Site}
    (h : (StepRule.mirrors R).Holds m m' s) : ofBuild m' = (ofBuild m).plain :=
  congrArg (fun r => (⟨r.2.size, entryBlock, exitBlock, r.2.edges, r.2.sites⟩ : Graph)) (h.toExit {})

/-- A walk of a graph does not look at its sites. -/
theorem explore_plain (G : Graph) (depth : Nat) (bs : List Nat) (w : Walk) :
    G.plain.explore depth bs w = G.explore depth bs w := by
  fun_induction G.explore depth bs w with
  | case1 => simp [explore]
  | case2 => simp [explore]
  | case3 depth b bs w hseen ih =>
    rw [explore, if_pos hseen, ih]
  | case4 depth b bs w hseen inner ih ih' =>
    have hsuccessors : G.plain.successors b = G.successors b := rfl
    rw [explore, if_neg hseen, hsuccessors, ih]
    exact ih'

theorem pass_plain (G : Graph) (state : Assignment) : G.plain.pass state = G.pass state := by
  have horder : G.plain.order = G.order :=
    congrArg Walk.left (explore_plain G G.size [G.entry] {})
  unfold pass
  rw [horder]
  rfl

theorem passes_plain (G : Graph) (bound : Nat) (state : Assignment) :
    G.plain.passes bound state = G.passes bound state := by
  induction bound generalizing state with
  | zero => rfl
  | succ bound ih => simp only [passes, pass_plain, ih]

theorem propagate_plain (G : Graph) (seed : Facts) : G.plain.propagate seed = G.propagate seed :=
  congrArg (List.map (settled seed)) (passes_plain G passCount (G.start seed))

end Graph

end LevelGuard.Flow

namespace LevelGuard.Project.Code

open LevelGuard.Flow

theorem graph_plain (R : Recognizer) (c : Code) : c.plain.graph R = (c.graph R).plain := by
  obtain ⟨params, ⟨stmts, s⟩ | es⟩ := c
  · exact Graph.ofBuild_plain ((StepRule.mirrors R).lowerStmts stmts)
  · exact Graph.ofBuild_plain ((StepRule.mirrors R).lowerExprs es)

end LevelGuard.Project.Code
