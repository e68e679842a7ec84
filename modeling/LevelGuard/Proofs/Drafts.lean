import LevelGuard.Flow.Build

/-!
# Drafts

What a step of the builder leaves behind. The steps of the builder only add to the draft
and give the jumps around them back. The lowering of what a pattern before it does not
take is stated as an equation.
-/
namespace LevelGuard.Flow

open Java Build

namespace Build

variable {α β : Type}

def after (m : Build α) (d : Draft) : Draft := (m.run d).2

theorem after_seq (m : Build Unit) (f : Unit → Build β) (d : Draft) :
    (m >>= f).after d = (f ()).after (m.after d) := rfl

theorem after_get_bind (f : Draft → Build β) (d : Draft) :
    ((get : Build Draft) >>= f).after d = (f d).after d := rfl

theorem after_newBlock_bind (f : Nat → Build β) (d : Draft) :
    (newBlock >>= f).after d = (f d.size).after (newBlock.after d) := rfl

end Build

/-- The draft has grown, inside the same statements. -/
structure Draft.Extends (d d' : Draft) : Prop where
  edges : d.edges ⊆ d'.edges
  sites : d.sites ⊆ d'.sites
  jumps : d'.jumps = d.jumps

namespace Draft.Extends

theorem refl (d : Draft) : d.Extends d :=
  ⟨fun _ h => h, fun _ h => h, rfl⟩

theorem trans {d d' d'' : Draft} (h : d.Extends d') (h' : d'.Extends d'') : d.Extends d'' where
  edges := fun _ he => h'.edges (h.edges he)
  sites := fun _ hs => h'.sites (h.sites hs)
  jumps := h'.jumps.trans h.jumps

end Draft.Extends

def Build.Extending {α : Type} (m : Build α) : Prop := ∀ d : Draft, d.Extends (m.after d)

namespace Build.Extending

variable {α β : Type}

theorem bind {m : Build α} {f : α → Build β} (hm : m.Extending) (hf : ∀ a, (f a).Extending) :
    (m >>= f).Extending :=
  fun d => (hm d).trans (hf _ _)

theorem pure (a : α) : (Pure.pure a : Build α).Extending := fun d => .refl d

theorem get : (MonadState.get : Build Draft).Extending := fun d => .refl d

theorem newBlock : Build.newBlock.Extending :=
  fun _ => ⟨fun _ h => h, fun _ h => h, rfl⟩

theorem addEdge (e : Edge) : (Build.addEdge e).Extending :=
  fun _ => ⟨List.subset_append_left _ _, fun _ h => h, rfl⟩

theorem edgeTo (target : Nat) (kind : EdgeKind) (guard : Option Guard) :
    (Build.edgeTo target kind guard).Extending :=
  get.bind fun _ => addEdge _

theorem setCurrent (block : Nat) : (Build.setCurrent block).Extending :=
  fun _ => ⟨fun _ h => h, fun _ h => h, rfl⟩

theorem jumpTo (target : Nat) : (Build.jumpTo target).Extending :=
  (edgeTo target _ _).bind fun _ => newBlock.bind setCurrent

theorem addSite (event : Event) : (Build.addSite event).Extending :=
  fun _ => ⟨fun _ h => h, List.subset_append_left _ _, rfl⟩

theorem fallTo (target : Nat) : (open? : Option Nat) → (Build.fallTo target open?).Extending
  | some _ => addEdge _
  | none => pure ()

theorem withJump (j : Jump) {inner : Build Unit} (h : inner.Extending) :
    (Build.withJump j inner).Extending := fun d =>
  have h := h { d with jumps := j :: d.jumps }
  ⟨h.edges, h.sites, rfl⟩

theorem withHandlers (guards : List Guard) {inner : Build Unit} (h : inner.Extending) :
    (Build.withHandlers guards inner).Extending := fun d =>
  have h := h { d with handlers := guards ++ d.handlers }
  ⟨h.edges, h.sites, h.jumps⟩

theorem branchOn (guard : Option Guard) : (goal : Goal) → (Flow.branchOn guard goal).Extending
  | .value => pure ()
  | .branch _ _ => (edgeTo _ _ _).bind fun _ => edgeTo _ _ _

end Build.Extending

section Remaining

variable (R : Recognizer) (goal : Goal)

theorem lowerExpr_binary {op : BinaryOp} (hand : op ≠ .and) (hor : op ≠ .or) (s : Span)
    (lhs rhs : Expr) : lowerExpr R goal (.binary s op lhs rhs) = (do
      lowerExpr R .value lhs
      lowerExpr R .value rhs
      branchOn (R.recognize? (.binary s op lhs rhs)) goal) := by
  cases op with
  | and => exact absurd rfl hand
  | or => exact absurd rfl hor
  | _ => rfl

theorem lowerExpr_unary {op : UnaryOp} (hnot : op ≠ .not) (s : Span) (operand : Expr) :
    lowerExpr R goal (.unary s op operand) = (do
      lowerExpr R .value operand
      branchOn none goal) := by
  cases op with
  | not => exact absurd rfl hnot
  | _ => rfl

theorem lowerExpr_literal {l : Literal} (hbool : ∀ b, l ≠ .bool b) (s : Span) :
    lowerExpr R goal (.literal s l) = branchOn none goal := by
  cases l with
  | bool b => exact absurd rfl (hbool b)
  | _ => rfl

theorem lowerStmt_continues (label : Option String) (s : Span) (target : Option String) :
    lowerStmt R label (.continues s target) = (do
      match continueTarget? (← get).jumps target with
      | some block =>
        edgeTo block .back none
        setCurrent (← newBlock)
      | none => jumpTo exitBlock) := rfl

theorem lowerStmt_labeled (label : Option String) (s : Span) (name : String) (body : Stmt) :
    lowerStmt R label (.labeled s name body) =
      if takesLabel body then lowerStmt R (some name) body
      else (do
        let after ← newBlock
        withJump ⟨some name, after, none, false, false⟩ (lowerStmt R none body)
        flowTo after
        setCurrent after) := rfl

theorem lowerLabels_cons (selector : Expr) {e : Expr} (hname : ∀ s n, e ≠ .name s n)
    (rest : List Expr) : lowerLabels R selector (e :: rest) = (do
      lowerExpr R .value e
      lowerLabels R selector rest) := by
  cases e with
  | name s n => exact absurd rfl (hname s n)
  | _ => rfl

end Remaining

end LevelGuard.Flow
