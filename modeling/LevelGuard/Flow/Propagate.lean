import LevelGuard.Facts.Basic
import LevelGuard.Flow.Graph

/-!
# Facts at blocks

Facts flow along edges from the entry: what holds at a block is what the facts at
the end of every incoming edge have in common, each refined by the guard of its
edge. The blocks are visited in order until nothing changes, but no more than a fixed
number of times. A block that is not reached, or only under a contradiction, gets the
facts of the entry, so code in it is checked like any other.
-/
namespace LevelGuard.Flow

/-- The facts found so far, by block; none where nothing has flowed yet. -/
abbrev Assignment := List (Option Facts)

/-- The facts at a site, given those of its block: it is inside the handlers around it. -/
def Site.inside (s : Site) (F : Facts) : Facts := s.handlers.foldl (fun F g => F.assume g true) F

namespace Graph

def along (e : Edge) (F : Facts) : Facts :=
  match e.guard with
  | some g => F.assume g true
  | none => F

def merge : Option Facts → Facts → Option Facts
  | some F, G => some (F.meet G)
  | none, G => some G

def inflow (G : Graph) (state : Assignment) (block : Nat) : Option Facts :=
  (G.incoming block).foldl
    (fun acc e =>
      match state.getD e.source none with
      | some F => merge acc (along e F)
      | none => acc)
    none

/-- Visit every block once; later blocks see what earlier ones got. -/
def pass (G : Graph) (state : Assignment) : Assignment :=
  G.order.foldl
    (fun state b => if b = G.entry then state else state.set b (G.inflow state b)) state

/-- Before the first pass only the entry has facts. -/
def start (G : Graph) (seed : Facts) : Assignment :=
  (List.replicate G.size none).set G.entry (some seed)

/-- Make passes until one changes nothing, and no more than `bound`. -/
def passes (G : Graph) : (bound : Nat) → Assignment → Assignment
  | 0, state => state
  | bound + 1, state =>
    let next := G.pass state
    if next = state then state else G.passes bound next

def settled (seed : Facts) : Option Facts → Facts
  | some F => if F.bottom then seed else F
  | none => seed

def propagateWithin (G : Graph) (bound : Nat) (seed : Facts) : List Facts :=
  (G.passes bound (G.start seed)).map (settled seed)

def passCount : Nat := 2

def propagate (G : Graph) (seed : Facts) : List Facts := G.propagateWithin passCount seed

end Graph
end LevelGuard.Flow
