import LevelGuard.Facts.Guard
import LevelGuard.Java.Syntax

/-!
# Control-flow graphs

A graph has numbered blocks, edges between them in the order of creation, and
sites: places of the source that a check looks at, each in a block and in the order
of evaluation. An edge carries the guard that holds when it is taken. A site also
keeps the guards of the handlers around it, innermost first.
-/
namespace LevelGuard.Flow

open Java

inductive Event where
  /-- A name, field access, call, object creation or method reference. -/
  | reference (expr : Expr)
  /-- A type named by a class literal, a type test or a handler. -/
  | typeUse (type : TypeRef)
  | caseLabel (label selector : Expr)
  | lambda (params : List Param) (body : LambdaBody)
  | classBody (decl : TypeDecl)
  | tryWithResources (span : Span)

def referenceLabel : Expr → String
  | .name _ n => "Name " ++ n
  | .fieldAccess _ _ n => "FieldAccess " ++ n
  | .call _ _ n args => s!"Call {n}/{args.length}"
  | .new _ t args _ => s!"New {t.name}/{args.length}"
  | .methodRef _ _ n => "MethodRef " ++ n
  | _ => ""

structure Site where
  event : Event
  /-- The guards of the enclosing handlers, innermost first. -/
  handlers : List Guard

inductive EdgeKind where
  | flow
  | onTrue
  | onFalse
  | onCase
  | exception
  | back
  deriving DecidableEq, Repr, Inhabited

def EdgeKind.name : EdgeKind → String
  | .flow => "flow"
  | .onTrue => "true"
  | .onFalse => "false"
  | .onCase => "case"
  | .exception => "exception"
  | .back => "back"

structure Edge where
  source : Nat
  target : Nat
  kind : EdgeKind := .flow
  guard : Option Guard := none
  deriving Inhabited

structure Graph where
  /-- The blocks are the numbers below this. -/
  size : Nat
  entry : Nat
  exit : Nat
  edges : List Edge
  /-- The sites, each with its block, in the order of creation. -/
  sites : List (Nat × Site)

namespace Graph

def sitesOf (G : Graph) (block : Nat) : List Site :=
  G.sites.filterMap fun (b, s) => if b = block then some s else none

def incoming (G : Graph) (block : Nat) : List Edge :=
  (G.edges.filter fun e => e.target = block).reverse

/-- The blocks an edge leads to from a block, in the order of the edges. -/
def successors (G : Graph) (block : Nat) : List Nat :=
  (G.edges.filter fun e => e.source = block).map Edge.target

theorem length_successors_le (G : Graph) (block : Nat) :
    (G.successors block).length ≤ G.edges.length := by
  rw [successors, List.length_map]
  exact List.length_filter_le _ _

/-- A walk of the graph: the blocks seen, and those left for good, the latest first. -/
structure Walk where
  seen : List Nat := []
  left : List Nat := []

def explore (G : Graph) : (depth : Nat) → List Nat → Walk → Walk
  | _, [], w => w
  | 0, _ :: _, w => w
  | depth + 1, b :: bs, w =>
    if w.seen.contains b then G.explore (depth + 1) bs w
    else
      let inner := G.explore depth (G.successors b) { w with seen := b :: w.seen }
      G.explore (depth + 1) bs { inner with left := b :: inner.left }
termination_by depth bs => depth * (G.edges.length + 1) + bs.length
decreasing_by
  · simp
  · have hsuccessors := G.length_successors_le b
    rw [Nat.succ_mul, List.length_cons]
    omega
  · simp

/-- The blocks that can be reached from the entry, each before those that can only
be reached through it: the reverse of the order in which a depth-first walk leaves
them. -/
def order (G : Graph) : List Nat := (G.explore G.size [G.entry] {}).left

end Graph
end LevelGuard.Flow
