import LevelGuard.Flow.Graph
import LevelGuard.Proofs.Devices

/-!
# Paths and dominance

A path lists the edges it takes. A block is reachable if a path leads to it from
the entry, and it is dominated by another if every such path visits the other. It is
live on a device if the guards on such a path can all be true there.

A graph is structured if its blocks can be ranked so that every edge goes up in
rank or back to a block that dominates its source. Then a depth-first walk meets a
block it is still inside of only along an edge back to a dominating block.
-/
namespace LevelGuard.Flow

/-- The guard of the edge, if there is one, can be true on the device. -/
def Edge.Open (d : Device) (e : Edge) : Prop :=
  ∀ g, e.guard = some g → ∃ u, g.holds d u = true

def Passable (d : Device) (es : List Edge) : Prop := ∀ e ∈ es, e.Open d

namespace Graph

variable {G : Graph}

/-- A sequence of edges that leads from one block to another. -/
inductive Path (G : Graph) (start : Nat) : List Edge → Nat → Prop where
  | nil : Path G start [] start
  | snoc {es : List Edge} {e : Edge} :
      Path G start es e.source → e ∈ G.edges → Path G start (es ++ [e]) e.target

def Reachable (G : Graph) (block : Nat) : Prop := ∃ es, G.Path G.entry es block

/-- The blocks on a path from the entry. -/
def visited (G : Graph) (es : List Edge) : List Nat := G.entry :: es.map Edge.target

/-- The device can get to the block. -/
def Live (G : Graph) (d : Device) (block : Nat) : Prop :=
  ∃ es, G.Path G.entry es block ∧ Passable d es

/-- Every path from the entry to the second block visits the first. -/
def Dominates (G : Graph) (a b : Nat) : Prop := ∀ es, G.Path G.entry es b → a ∈ G.visited es

@[simp] theorem visited_snoc (es : List Edge) (e : Edge) :
    G.visited (es ++ [e]) = G.visited es ++ [e.target] := by
  simp [visited]

theorem reachable_entry : G.Reachable G.entry := ⟨[], .nil⟩

theorem Reachable.step {e : Edge} (h : G.Reachable e.source) (he : e ∈ G.edges) :
    G.Reachable e.target := by
  obtain ⟨es, hes⟩ := h
  exact ⟨es ++ [e], .snoc hes he⟩

theorem live_entry (d : Device) : G.Live d G.entry := ⟨[], .nil, nofun⟩

theorem Live.step {d : Device} {e : Edge} (h : G.Live d e.source) (he : e ∈ G.edges)
    (hopen : e.Open d) : G.Live d e.target := by
  obtain ⟨es, hpath, hes⟩ := h
  refine ⟨es ++ [e], .snoc hpath he, ?_⟩
  intro e' he'
  rcases List.mem_append.mp he' with he' | he'
  · exact hes e' he'
  · rw [List.mem_singleton.mp he']
    exact hopen

theorem Live.exists_last_edge {d : Device} {b : Nat} (h : G.Live d b) (hne : b ≠ G.entry) :
    ∃ e ∈ G.edges, e.target = b ∧ G.Live d e.source ∧ e.Open d := by
  obtain ⟨es, hpath, hes⟩ := h
  cases hpath with
  | nil => exact absurd rfl hne
  | @snoc es e hpath he =>
    refine ⟨e, he, rfl, ⟨es, hpath, fun e' he' => hes e' (List.mem_append_left _ he')⟩, ?_⟩
    exact hes e (List.mem_append_right _ List.mem_cons_self)

theorem mem_successors {a b : Nat} :
    b ∈ G.successors a ↔ ∃ e ∈ G.edges, e.source = a ∧ e.target = b := by
  simp [successors, and_assoc]

theorem mem_incoming {b : Nat} {e : Edge} :
    e ∈ G.incoming b ↔ e ∈ G.edges ∧ e.target = b := by
  simp [incoming]

theorem Path.end_mem_visited {es : List Edge} {b : Nat} (h : G.Path G.entry es b) :
    b ∈ G.visited es := by
  cases h with
  | nil => simp [visited]
  | snoc _ _ => simp

theorem Dominates.eq_entry {a : Nat} (h : G.Dominates a G.entry) : a = G.entry := by
  have := h [] .nil
  simpa [visited] using this

/-- A block that dominates the end of an edge, and is not the end, dominates its source. -/
theorem Dominates.source {a : Nat} {e : Edge} (h : G.Dominates a e.target)
    (hne : a ≠ e.target) (he : e ∈ G.edges) : G.Dominates a e.source := by
  intro es hes
  have hmem := h (es ++ [e]) (.snoc hes he)
  rw [visited_snoc, List.mem_append, List.mem_singleton] at hmem
  exact hmem.resolve_right hne

/-- A block that a path visits is first entered along an edge whose source it does not
dominate. -/
theorem Path.exists_first_edge {es : List Edge} {c : Nat} (h : G.Path G.entry es c) {b : Nat}
    (hb : b ∈ G.visited es) (hne : b ≠ G.entry) :
    ∃ e ∈ G.edges, e.target = b ∧ G.Reachable e.source ∧ ¬ G.Dominates b e.source := by
  induction h with
  | nil => exact absurd (by simpa [visited] using hb) hne
  | @snoc es e hes he ih =>
    by_cases hold : b ∈ G.visited es
    · exact ih hold
    · rw [visited_snoc, List.mem_append, List.mem_singleton] at hb
      have htarget := hb.resolve_left hold
      exact ⟨e, he, htarget.symm, ⟨es, hes⟩, fun hdom => hold (hdom es hes)⟩

theorem Reachable.exists_first_edge {b : Nat} (h : G.Reachable b) (hne : b ≠ G.entry) :
    ∃ e ∈ G.edges, e.target = b ∧ G.Reachable e.source ∧ ¬ G.Dominates b e.source := by
  obtain ⟨es, hes⟩ := h
  exact hes.exists_first_edge hes.end_mem_visited hne

/-- The blocks of a graph are there, and a rank explains its edges. -/
structure Structured (G : Graph) : Prop where
  entry_lt : G.entry < G.size
  target_lt : ∀ e ∈ G.edges, e.target < G.size
  ranked : ∃ rank : Nat → Nat, ∀ e ∈ G.edges, G.Reachable e.source →
    rank e.source < rank e.target ∨ G.Dominates e.target e.source

end Graph
end LevelGuard.Flow
