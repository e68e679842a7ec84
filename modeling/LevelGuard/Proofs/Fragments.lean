import LevelGuard.Proofs.Drafts

/-!
# The edges of a fragment

What a step of the builder adds is determined by the spot where it starts: how many
blocks there are, which of them is current, and where jumps lead. The graph so far does
not matter. An edge of the fragment leads to a block made for it, to a target of its
goal, or out of it along a jump, and carries a guard that the recogniser gave, if any.
-/
namespace LevelGuard.Flow

open Java Build

/-- What the edges of the next step depend on. -/
structure Spot where
  size : Nat
  current : Nat
  jumps : List Jump

def Draft.spot (d : Draft) : Spot := ⟨d.size, d.current, d.jumps⟩

def Spot.draft (s : Spot) : Draft := { size := s.size, current := s.current, jumps := s.jumps }

/-- From the first spot the step gets to the second with this result and these edges,
whatever else is in the draft. -/
def Build.Adds {α : Type} (m : Build α) (s : Spot) (a : α) (s' : Spot) (new : List Edge) : Prop :=
  ∀ d : Draft, d.spot = s →
    (m.run d).1 = a ∧ (m.after d).spot = s' ∧ (m.after d).edges = d.edges ++ new

namespace Build.Adds

variable {α β : Type} {s s' s'' : Spot} {new new' : List Edge}

theorem bind {m : Build α} {f : α → Build β} {a : α} {b : β} (hm : m.Adds s a s' new)
    (hf : (f a).Adds s' b s'' new') : (m >>= f).Adds s b s'' (new ++ new') := by
  intro d hd
  obtain ⟨rfl, hspot, hedges⟩ := hm d hd
  obtain ⟨hresult, hspot', hedges'⟩ := hf (m.after d) hspot
  refine ⟨hresult, hspot', ?_⟩
  rw [← List.append_assoc, ← hedges]
  exact hedges'

/-- The fragment is what the step makes of an empty graph. -/
theorem fragment {m : Build α} {a : α} (h : m.Adds s a s' new) :
    (m.after s.draft).spot = s' ∧ (m.after s.draft).edges = new :=
  (h s.draft rfl).2

theorem setCurrent (s : Spot) (b : Nat) :
    (Build.setCurrent b).Adds s () { s with current := b } [] := by
  rintro d rfl
  exact ⟨rfl, rfl, (List.append_nil _).symm⟩

theorem newBlock (s : Spot) :
    Build.newBlock.Adds s s.size { s with size := s.size + 1 } [] := by
  rintro d rfl
  exact ⟨rfl, rfl, (List.append_nil _).symm⟩

theorem edgeTo (s : Spot) (target : Nat) (kind : EdgeKind) (guard : Option Guard) :
    (Build.edgeTo target kind guard).Adds s () s [⟨s.current, target, kind, guard⟩] := by
  rintro d rfl
  exact ⟨rfl, rfl, rfl⟩

end Build.Adds

/-- Jumps from the spot, and blocks that are made there, are among the targets. -/
structure Spot.Aims (T : Nat → Prop) (s : Spot) : Prop where
  fresh : ∀ b, s.size ≤ b → T b
  exit : T exitBlock
  breaks : ∀ j ∈ s.jumps, T j.breakTo
  continues : ∀ j ∈ s.jumps, ∀ c, j.continueTo = some c → T c

theorem Spot.aims_anywhere (s : Spot) : s.Aims fun _ => True :=
  ⟨fun _ _ => trivial, trivial, fun _ _ => trivial, fun _ _ _ _ => trivial⟩

namespace Spot.Aims

variable {T : Nat → Prop} {s : Spot}

theorem newBlock (h : s.Aims T) : { s with size := s.size + 1 }.Aims T :=
  { h with fresh := fun b hb => h.fresh b (Nat.le_of_succ_le hb) }

theorem push (h : s.Aims T) {j : Jump} (hbreak : T j.breakTo)
    (hcontinue : ∀ c, j.continueTo = some c → T c) : { s with jumps := j :: s.jumps }.Aims T where
  fresh := h.fresh
  exit := h.exit
  breaks := List.forall_mem_cons.mpr ⟨hbreak, h.breaks⟩
  continues := List.forall_mem_cons.mpr ⟨hcontinue, h.continues⟩

theorem pop {s' : Spot} (h : s.Aims T) (h' : s'.Aims T) : { s' with jumps := s.jumps }.Aims T :=
  ⟨h'.fresh, h.exit, h.breaks, h.continues⟩

theorem found (h : s.Aims T) (fits : Jump → Bool) :
    T (((s.jumps.find? fits).map (·.breakTo)).getD exitBlock) := by
  cases hfind : s.jumps.find? fits with
  | none => exact h.exit
  | some j => exact h.breaks j (List.mem_of_find?_eq_some hfind)

theorem breakTarget (h : s.Aims T) (label : Option String) : T (breakTarget s.jumps label) :=
  h.found _

theorem yieldTarget (h : s.Aims T) : T (yieldTarget s.jumps) := h.found _

theorem continueTarget? (h : s.Aims T) {label : Option String} {c : Nat}
    (hc : continueTarget? s.jumps label = some c) : T c := by
  unfold Build.continueTarget? at hc
  obtain ⟨j, hfind, hj⟩ := Option.bind_eq_some_iff.mp hc
  have hmem := List.mem_of_find?_eq_some hfind
  exact h.continues j (List.mem_filter.mp hmem).1 c hj

end Spot.Aims

/-- The goal branches to targets only. -/
inductive Goal.Aims (T : Nat → Prop) : Goal → Prop where
  | value : Goal.Aims T .value
  | branch {onTrue onFalse : Nat} (htrue : T onTrue) (hfalse : T onFalse) :
      Goal.Aims T (.branch onTrue onFalse)

/-- What edges a recogniser may give rise to: where they may lead, and the guards that they
may carry. -/
structure EdgeRule (R : Recognizer) where
  target : Nat → Prop
  guard : Option Guard → Prop
  plain : guard none
  branch : ∀ e, guard (R.recognize? e)
  negated : ∀ e, guard ((R.recognize? e).map Guard.negate)
  case : ∀ selector labels, guard (R.caseGuard? selector labels)

variable {R : Recognizer}

def EdgeRule.Permits (A : EdgeRule R) (e : Edge) : Prop := A.target e.target ∧ A.guard e.guard

/-- Edges with any guard to these targets. -/
def EdgeRule.leading (R : Recognizer) (T : Nat → Prop) : EdgeRule R where
  target := T
  guard := fun _ => True
  plain := trivial
  branch := fun _ => trivial
  negated := fun _ => trivial
  case := fun _ _ => trivial

/-- Where the blocks to be made are targets, the step adds edges by the rule only, and its
result is as described. -/
def Build.Aims {α : Type} (A : EdgeRule R) (m : Build α) (result : α → Prop) : Prop :=
  ∀ s : Spot, s.Aims A.target →
    ∃ a s' new, m.Adds s a s' new ∧ result a ∧ s'.Aims A.target ∧ ∀ e ∈ new, A.Permits e

/-- The same for a step that is made for its edges. -/
abbrev Build.Aiming (A : EdgeRule R) (m : Build Unit) : Prop := m.Aims A fun _ => True

namespace Build.Aims

variable {α β : Type} {A : EdgeRule R}

theorem bind {m : Build α} {f : α → Build β} {P : α → Prop} {Q : β → Prop} (hm : m.Aims A P)
    (hf : ∀ a, P a → (f a).Aims A Q) : (m >>= f).Aims A Q := by
  intro s hs
  obtain ⟨a, s', new, hadds, ha, hs', hnew⟩ := hm s hs
  obtain ⟨b, s'', new', hadds', hb, hs'', hnew'⟩ := hf a ha s' hs'
  exact ⟨b, s'', new ++ new', hadds.bind hadds', hb, hs'', List.forall_mem_append.mpr ⟨hnew, hnew'⟩⟩

theorem look {f : Draft → Build β} {Q : β → Prop} (g : Spot → Build β)
    (hfg : ∀ d, f d = g d.spot) (hg : ∀ s, s.Aims A.target → (g s).Aims A Q) :
    (get >>= f).Aims A Q := by
  intro s hs
  obtain ⟨b, s', new, hadds, hb, hs', hnew⟩ := hg s hs s hs
  refine ⟨b, s', new, fun d hd => ?_, hb, hs', hnew⟩
  have hrun := hadds d hd
  rw [← hd, ← hfg] at hrun
  exact hrun

theorem pure {a : α} {Q : α → Prop} (ha : Q a) : (Pure.pure a : Build α).Aims A Q := by
  refine fun s hs => ⟨a, s, [], ?_, ha, hs, nofun⟩
  rintro d rfl
  exact ⟨rfl, rfl, (List.append_nil _).symm⟩

theorem newBlock : Build.newBlock.Aims A A.target := fun s hs =>
  ⟨s.size, _, [], .newBlock s, hs.fresh _ (Nat.le_refl _), hs.newBlock, nofun⟩

theorem addEdge {e : Edge} (he : A.Permits e) : (Build.addEdge e).Aiming A := by
  refine fun s hs => ⟨(), s, [e], ?_, trivial, hs, List.forall_mem_singleton.mpr he⟩
  rintro d rfl
  exact ⟨rfl, rfl, rfl⟩

theorem setCurrent (b : Nat) : (Build.setCurrent b).Aiming A := fun s hs =>
  ⟨(), _, [], .setCurrent s b, trivial, ⟨hs.fresh, hs.exit, hs.breaks, hs.continues⟩, nofun⟩

theorem addSite (event : Event) : (Build.addSite event).Aiming A := by
  refine fun s hs => ⟨(), s, [], ?_, trivial, hs, nofun⟩
  rintro d rfl
  exact ⟨rfl, rfl, (List.append_nil _).symm⟩

theorem withJump {j : Jump} {inner : Build Unit} (hbreak : A.target j.breakTo)
    (hcontinue : ∀ c, j.continueTo = some c → A.target c) (h : inner.Aiming A) :
    (Build.withJump j inner).Aiming A := by
  intro s hs
  obtain ⟨_, s', new, hadds, -, hs', hnew⟩ := h _ (hs.push hbreak hcontinue)
  refine ⟨(), { s' with jumps := s.jumps }, new, ?_, trivial, hs.pop hs', hnew⟩
  rintro d rfl
  obtain ⟨-, hspot, hedges⟩ := hadds { d with jumps := j :: d.jumps } rfl
  rw [← hspot]
  exact ⟨rfl, rfl, hedges⟩

theorem withHandlers (guards : List Guard) {inner : Build Unit} (h : inner.Aiming A) :
    (Build.withHandlers guards inner).Aiming A := by
  intro s hs
  obtain ⟨_, s', new, hadds, -, hs', hnew⟩ := h s hs
  refine ⟨(), s', new, ?_, trivial, hs', hnew⟩
  rintro d rfl
  obtain ⟨-, hspot, hedges⟩ := hadds { d with handlers := guards ++ d.handlers } rfl
  rw [← hspot]
  exact ⟨rfl, rfl, hedges⟩

end Build.Aims

end LevelGuard.Flow
