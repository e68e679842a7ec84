import LevelGuard.Proofs.Lowering
import LevelGuard.Proofs.LoweringSteps
import LevelGuard.Proofs.Solution

/-!
# Conditions written in the branch

A condition in a branch is split into blocks, and its parts become edges; a condition in a
variable is one guard. What the blocks of a condition let through to its two targets is at
least what the guard says, so writing a condition in the branch never protects less than
keeping it in a variable.

The proof labels the blocks of a condition with facts. The label of a block that a part ends
in is the facts refined by the guard of that part, and every edge of the fragment keeps to
the labels. Whatever is propagated through the fragment then says at least as much.
-/
namespace LevelGuard

namespace Facts

def assumed (F : Facts) (guard : Option Guard) (t : Bool) : Facts :=
  match guard with
  | some g => F.assume g t
  | none => F

theorem assume_unknown (F : Facts) (t : Bool) : F.assume .unknown t = F := by
  cases hF : F.bottom <;> cases t <;> simp [assume, hF]

theorem assumed_eq (F : Facts) (guard : Option Guard) (t : Bool) :
    F.assumed guard t = F.assume (guard.getD .unknown) t := by
  cases guard with
  | none => exact (assume_unknown F t).symm
  | some g => rfl

theorem assumed_entails (F : Facts) (guard : Option Guard) (t : Bool) :
    (F.assumed guard t).Entails F := by
  rw [assumed_eq]
  exact assume_entails F _ t

theorem assumed_mono {F G : Facts} (h : F.Entails G) (guard : Option Guard) (t : Bool) :
    (F.assumed guard t).Entails (G.assumed guard t) := by
  rw [assumed_eq, assumed_eq]
  exact assume_mono h _ t

theorem assumed_negate (F : Facts) (guard : Option Guard) (t : Bool) :
    F.assumed (guard.map Guard.negate) t = F.assumed guard (!t) := by
  cases guard with
  | none => rfl
  | some g => exact assume_negate F g t

/-- How a guard of several parts refines facts, if it has the value `t` once all parts have:
part by part for this value, and for the other by no more than one part would. -/
structure Joins (node : List Guard → Guard) (t : Bool) : Prop where
  all : ∀ (F : Facts) (g h : Guard), F.assume (node [g, h]) t = (F.assume g t).assume h t
  part : ∀ (F : Facts) (gs : List Guard), ∀ g ∈ gs, (F.assume g !t).Entails (F.assume (node gs) !t)

theorem joins_and : Joins .and true where
  all F g h := by simp only [assume_and_true, assumeAll]
  part _ _ _ hg := assume_entails_and hg

theorem joins_or : Joins .or false where
  all F g h := by simp only [assume_or_false, assumeAll]
  part _ _ _ hg := assume_entails_or hg

end Facts

namespace Flow

open Java Build Facts

theorem assume_entails_combined (F : Facts) (node : List Guard → Guard) (l r : Option Guard)
    (t : Bool) : (F.assume (node [l.getD .unknown, r.getD .unknown]) t).Entails
      (F.assumed (Recognizer.combined? node l r) t) := by
  cases l with
  | none =>
    cases r with
    | none => exact assume_entails F _ t
    | some r => exact .refl _
  | some l => exact .refl _

section Combined

variable {node : List Guard → Guard} {t : Bool} (hnode : Joins node t) (F : Facts)
  (l r : Option Guard)
include hnode

theorem assumed_both : ((F.assumed l t).assumed r t).Entails
    (F.assumed (Recognizer.combined? node l r) t) := by
  have h := assume_entails_combined F node l r t
  rwa [hnode.all, ← assumed_eq, ← assumed_eq] at h

theorem assumed_left : (F.assumed l !t).Entails
    (F.assumed (Recognizer.combined? node l r) !t) := by
  rw [assumed_eq F l]
  exact (hnode.part F _ _ List.mem_cons_self).trans (assume_entails_combined F node l r !t)

theorem assumed_right : (F.assumed r !t).Entails
    (F.assumed (Recognizer.combined? node l r) !t) := by
  rw [assumed_eq F r]
  exact (hnode.part F _ _ (List.mem_cons_of_mem _ List.mem_cons_self)).trans
    (assume_entails_combined F node l r !t)

end Combined

/-- The block is where a jump from the spot may lead. -/
def Spot.Exits (s : Spot) (b : Nat) : Prop :=
  b = exitBlock ∨ ∃ j ∈ s.jumps, b = j.breakTo ∨ j.continueTo = some b

/-- The step gets from the first spot to the second. Labels of blocks that were there stay as
they are, and every edge that is added keeps to the labels. -/
structure Build.Labels {α : Type} (m : Build α) (s : Spot) (Y : Nat → Facts) (a : α) (s' : Spot)
    (Y' : Nat → Facts) : Prop where
  size : s.size ≤ s'.size
  jumps : s'.jumps = s.jumps
  agrees : ∀ b, b < s.size → Y' b = Y b
  edges : ∃ new, m.Adds s a s' new ∧ ∀ e ∈ new, e.source < s'.size ∧ e.target < s'.size ∧
    (Graph.along e (Y' e.source)).Entails (Y' e.target)

namespace Build.Labels

variable {α β : Type} {s s' s'' : Spot} {Y Y' Y'' : Nat → Facts}

theorem bind {m : Build α} {f : α → Build β} {a : α} {b : β} (hm : m.Labels s Y a s' Y')
    (hf : (f a).Labels s' Y' b s'' Y'') : (m >>= f).Labels s Y b s'' Y'' where
  size := Nat.le_trans hm.size hf.size
  jumps := hf.jumps.trans hm.jumps
  agrees b hb := (hf.agrees b (Nat.lt_of_lt_of_le hb hm.size)).trans (hm.agrees b hb)
  edges := by
    obtain ⟨new, hadds, hnew⟩ := hm.edges
    obtain ⟨new', hadds', hnew'⟩ := hf.edges
    refine ⟨new ++ new', hadds.bind hadds', List.forall_mem_append.mpr ⟨?_, hnew'⟩⟩
    intro e he
    obtain ⟨hsource, htarget, hentails⟩ := hnew e he
    have hsize := hf.size
    rw [hf.agrees _ hsource, hf.agrees _ htarget]
    exact ⟨by omega, by omega, hentails⟩

theorem newBlock (s : Spot) (Y : Nat → Facts) (F : Facts) :
    ∃ Y', Build.newBlock.Labels s Y s.size { s with size := s.size + 1 } Y' ∧ Y' s.size = F := by
  refine ⟨fun b => if b = s.size then F else Y b, ⟨Nat.le_succ _, rfl, fun b hb => ?_, ?_⟩, ?_⟩
  · exact if_neg (Nat.ne_of_lt hb)
  · exact ⟨[], .newBlock s, nofun⟩
  · exact if_pos rfl

theorem setCurrent (s : Spot) (Y : Nat → Facts) (b : Nat) :
    (Build.setCurrent b).Labels s Y () { s with current := b } Y where
  size := Nat.le_refl _
  jumps := rfl
  agrees _ _ := rfl
  edges := ⟨[], .setCurrent s b, nofun⟩

theorem edgeTo {target : Nat} {kind : EdgeKind} {guard : Option Guard}
    (hcurrent : s.current < s.size) (htarget : target < s.size)
    (h : ((Y s.current).assumed guard true).Entails (Y target)) :
    (Build.edgeTo target kind guard).Labels s Y () s Y where
  size := Nat.le_refl _
  jumps := rfl
  agrees _ _ := rfl
  edges := ⟨_, .edgeTo s target kind guard, List.forall_mem_singleton.mpr ⟨hcurrent, htarget, h⟩⟩

end Build.Labels

/-- The blocks that a branch or a jump from the spot may lead to have been made, and are not
the current one. -/
structure Spot.Forks (s : Spot) (target : Bool → Nat) : Prop where
  current : s.current < s.size
  exits : ∀ b, s.Exits b → b < s.size ∧ b ≠ s.current
  made : ∀ t, target t < s.size ∧ target t ≠ s.current

/-- Facts that go on from the spot say what the labels ask: all of them along a jump, and at
the targets of a branch as refined by its guard. -/
structure Spot.Fits (s : Spot) (Y : Nat → Facts) (target : Bool → Nat) (guard : Option Guard) :
    Prop where
  exits : ∀ b, s.Exits b → (Y s.current).Entails (Y b)
  arrives : ∀ t, ((Y s.current).assumed guard t).Entails (Y (target t))

/-- Where the labels fit the guard, the blocks that the step makes can be labelled. -/
def Build.Serves (m : Build Unit) (target : Bool → Nat) (guard : Option Guard) : Prop :=
  ∀ s Y, s.Forks target → s.Fits Y target guard → ∃ s' Y', m.Labels s Y () s' Y'

namespace Spot

variable {s : Spot} {target : Bool → Nat}

theorem Forks.orderly (h : s.Forks target) : Orderly [] [s.current] s.draft := by
  refine ⟨?_, ?_, ?_, ?_, ?_, ?_, ?_, ?_, ?_, ?_⟩ <;> simp [Spot.draft, h.current]

theorem Forks.targets (h : s.Forks target) : Targets [] [s.current] s.draft := by
  have hpending : ∀ b, s.Exits b → Pending [s.current] s.draft b := fun b hb =>
    ⟨(h.exits b hb).1, fun hmem => (h.exits b hb).2 (List.mem_singleton.mp hmem)⟩
  refine ⟨hpending _ (.inl rfl), fun j hj => ?_, fun j hj c hc => .inl ?_⟩
  · exact hpending _ (.inr ⟨j, hj, .inl rfl⟩)
  · exact hpending c (.inr ⟨j, hj, .inr hc⟩)

theorem Forks.goal (h : s.Forks target) :
    (Goal.branch (target true) (target false)).Pending [s.current] s.draft := by
  have hpending : ∀ t, Pending [s.current] s.draft (target t) := fun t =>
    ⟨(h.made t).1, fun hmem => (h.made t).2 (List.mem_singleton.mp hmem)⟩
  exact .branch (hpending true) (hpending false)

theorem exits_congr {s' : Spot} (hjumps : s'.jumps = s.jumps) (b : Nat) :
    s'.Exits b ↔ s.Exits b := by
  unfold Spot.Exits
  rw [hjumps]

/-- From the same block, a branch may also lead to blocks made since. -/
theorem Forks.turn {s' : Spot} {target' : Bool → Nat} (h : s.Forks target) (hsize : s.size ≤ s'.size)
    (hjumps : s'.jumps = s.jumps) (hcurrent : s'.current = s.current)
    (htarget : ∀ t, target' t = target t ∨ s.size ≤ target' t ∧ target' t < s'.size) :
    s'.Forks target' := by
  have hlt := h.current
  refine ⟨by omega, fun b hb => ?_, fun t => ?_⟩
  · have := h.exits b ((exits_congr hjumps b).mp hb)
    omega
  · have := h.made t
    have := htarget t
    omega

/-- The same branch from a block made since. -/
theorem Forks.enter {s' : Spot} (h : s.Forks target) (hjumps : s'.jumps = s.jumps)
    (hle : s.size ≤ s'.current) (hlt : s'.current < s'.size) : s'.Forks target := by
  refine ⟨hlt, fun b hb => ?_, fun t => ?_⟩
  · have := h.exits b ((exits_congr hjumps b).mp hb)
    omega
  · have := h.made t
    omega

theorem aims_exits (s : Spot) : s.Aims fun b => s.size ≤ b ∨ s.Exits b where
  fresh _ hb := .inl hb
  exit := .inr (.inl rfl)
  breaks j hj := .inr (.inr ⟨j, hj, .inl rfl⟩)
  continues j hj _ hc := .inr (.inr ⟨j, hj, .inr hc⟩)

end Spot

/-- Labels that fit jumps from a spot fit those from a later one with more facts. -/
theorem Build.Labels.exits {α : Type} {m : Build α} {a : α} {s s' : Spot} {Y Y' : Nat → Facts}
    {target : Bool → Nat} (h : m.Labels s Y a s' Y') (hfork : s.Forks target)
    (hexits : ∀ b, s.Exits b → (Y s.current).Entails (Y b)) {F : Facts}
    (hF : F.Entails (Y s.current)) : ∀ b, s'.Exits b → F.Entails (Y' b) := by
  intro b hb
  have hb := (Spot.exits_congr h.jumps b).mp hb
  rw [h.agrees b (hfork.exits b hb).1]
  exact hF.trans (hexits b hb)

/-- What is evaluated on the way to a branch changes nothing: all its blocks get the label of
the current one. -/
theorem lowerExpr_value_runs (R : Recognizer) (e : Expr) {s : Spot} {Y : Nat → Facts}
    {target : Bool → Nat} (hfork : s.Forks target)
    (hexits : ∀ b, s.Exits b → (Y s.current).Entails (Y b)) :
    ∃ s', s'.current < s'.size ∧ ∃ Y', Y' s'.current = Y s.current ∧
      (lowerExpr R .value e).Labels s Y () s' Y' := by
  obtain ⟨_, s', new, hadds, -, -, haims⟩ :=
    (StepRule.aims (.leading R _)).lowerExpr .value e s s.aims_exits
  obtain ⟨hspot, hedges⟩ := hadds.fragment
  obtain ⟨entered, p⟩ := Build.Nests.lowerExpr R .value e [] [s.current] s.draft hfork.orderly
    hfork.targets .value
  have hsize : s'.size = ((lowerExpr R .value e).after s.draft).size := congrArg Spot.size hspot.symm
  have hentered : ∀ b ∈ entered, b < s'.size ∧ (b = s.current ∨ s.size ≤ b) := by
    intro b hb
    refine ⟨hsize ▸ p.orderly.lt_size b hb, ?_⟩
    rcases (p.mem b).mp hb with hb | hb
    · exact .inl (List.mem_singleton.mp hb)
    · exact .inr hb.1
  let Y' : Nat → Facts := fun b => if b < s.size then Y b else Y s.current
  have hY' : ∀ b, b = s.current ∨ s.size ≤ b → Y' b = Y s.current := by
    rintro b (rfl | hb)
    · exact if_pos hfork.current
    · exact if_neg (Nat.not_lt.mpr hb)
  have hcurrent : s'.current ∈ entered := by
    rw [← hspot]
    exact p.orderly.current
  refine ⟨s', (hentered _ hcurrent).1, Y', hY' _ (hentered _ hcurrent).2, ?_⟩
  refine ⟨hsize ▸ p.size, ?_, fun b hb => if_pos hb, new, hadds, fun e he => ?_⟩
  · rw [← hspot]
    exact p.jumps
  · have hsource := hentered e.source (p.orderly.source_mem e (hedges ▸ he))
    refine ⟨hsource.1, hsize ▸ p.orderly.target_lt e (hedges ▸ he), ?_⟩
    rw [hY' _ hsource.2]
    refine (Graph.along_entails e _).trans ?_
    rcases (haims e he).1 with hfresh | hexit
    · rw [hY' _ (.inr hfresh)]
      exact .refl _
    · have hlt := (hfork.exits _ hexit).1
      simp only [Y', if_pos hlt]
      exact hexits _ hexit

namespace Build.Serves

variable {m : Build Unit} {target : Bool → Nat} {guard : Option Guard}

theorem forget (h : m.Serves target guard) : m.Serves target none := fun s Y hfork hfits =>
  h s Y hfork ⟨hfits.exits, fun t => (assumed_entails _ guard t).trans (hfits.arrives t)⟩

/-- A condition that is not split is evaluated, and then branched on. -/
theorem atom {R : Recognizer} {e : Expr}
    (h : lowerExpr R (.branch (target true) (target false)) e = (do
      lowerExpr R .value e
      branchOn (R.recognize? e) (.branch (target true) (target false)))) :
    (lowerExpr R (.branch (target true) (target false)) e).Serves target (R.recognize? e) := by
  intro s Y hfork hfits
  obtain ⟨s', hcurrent, Y', hlabel, hruns⟩ := lowerExpr_value_runs R e hfork hfits.exits
  have htarget : ∀ t, target t < s'.size := fun t =>
    Nat.lt_of_lt_of_le (hfork.made t).1 hruns.size
  have hentails : ∀ t, ((Y' s'.current).assumed (R.recognize? e) t).Entails (Y' (target t)) := by
    intro t
    rw [hlabel, hruns.agrees _ (hfork.made t).1]
    exact hfits.arrives t
  have hfalse := hentails false
  rw [show false = !true from rfl, ← assumed_negate] at hfalse
  rw [h]
  exact ⟨s', Y', hruns.bind ((Labels.edgeTo hcurrent (htarget true) (hentails true)).bind
    (Labels.edgeTo hcurrent (htarget false) hfalse))⟩

theorem negate (h : m.Serves (fun t => target !t) guard) :
    m.Serves target (guard.map Guard.negate) := by
  intro s Y hfork hfits
  refine h s Y ⟨hfork.current, hfork.exits, fun t => hfork.made !t⟩
    ⟨hfits.exits, fun t => ?_⟩
  have htarget := hfits.arrives !t
  rwa [assumed_negate, Bool.not_not] at htarget

theorem constant (b : Bool) : (Build.flowTo (target b)).Serves target none := fun s Y hfork hfits =>
  ⟨s, Y, .edgeTo hfork.current (hfork.made b).1 (hfits.arrives b)⟩

/-- After a first part, a further one starts in a block that was made for it. -/
theorem enter {α : Type} {first : Build α} {s s' : Spot} {Y Y' : Nat → Facts} {a : α}
    (hm : m.Serves target guard) (hfork : s.Forks target)
    (hexits : ∀ b, s.Exits b → (Y s.current).Entails (Y b)) (hfirst : first.Labels s Y a s' Y')
    {b : Nat} (hle : s.size ≤ b) (hlt : b < s'.size) (hlabel : (Y' b).Entails (Y s.current))
    (htarget : ∀ t, ((Y' b).assumed guard t).Entails (Y (target t))) :
    ∃ s'' Y'', m.Labels { s' with current := b } Y' () s'' Y'' := by
  refine hm _ Y' (hfork.enter hfirst.jumps hle hlt)
    ⟨hfirst.exits hfork hexits hlabel, fun t => ?_⟩
  rw [hfirst.agrees _ (hfork.made t).1]
  exact htarget t

theorem resume {α : Type} {first : Build α} {s s' : Spot} {Y Y' : Nat → Facts} {a : α}
    (hm : m.Serves target none) (hfork : s.Forks target) (hfits : s.Fits Y target none)
    (hfirst : first.Labels s Y a s' Y') {b : Nat} (hle : s.size ≤ b) (hlt : b < s'.size)
    (hlabel : Y' b = Y s.current) :
    ∃ s'' Y'', m.Labels { s' with current := b } Y' () s'' Y'' :=
  hm.enter hfork hfits.exits hfirst hle hlt (hlabel ▸ .refl _) (hlabel ▸ hfits.arrives)

/-- The second of two conditions is reached if the first does not decide. -/
theorem chain {node : List Guard → Guard} {t : Bool} (hnode : Joins node t)
    {first : Nat → Build Unit} {guard' : Option Guard}
    (hfirst : ∀ mid, (first mid).Serves (fun b => if b = t then mid else target b) guard')
    (hm : m.Serves target guard) :
    (do
      let mid ← Build.newBlock
      first mid
      Build.setCurrent mid
      m : Build Unit).Serves target (Recognizer.combined? node guard' guard) := by
  intro s Y hfork hfits
  obtain ⟨Y₁, hnew, hmid⟩ := Labels.newBlock s Y ((Y s.current).assumed guard' t)
  have hcurrent : Y₁ s.current = Y s.current := hnew.agrees _ hfork.current
  have hturn : Spot.Forks { s with size := s.size + 1 } fun b => if b = t then s.size else target b := by
    refine hfork.turn hnew.size rfl rfl ((Bool.forall_bool' t).mpr ⟨.inr ?_, .inl ?_⟩)
    · simp
    · simp
  have hfits₁ : Spot.Fits { s with size := s.size + 1 } Y₁
      (fun b => if b = t then s.size else target b) guard' := by
    refine ⟨hnew.exits hfork hfits.exits (hcurrent ▸ .refl _),
      (Bool.forall_bool' t).mpr ⟨?_, ?_⟩⟩
    · simp only [hcurrent, hmid, if_true]
      exact .refl _
    · simp only [hcurrent, Bool.not_eq_self, if_false, hnew.agrees _ (hfork.made (!t)).1]
      exact (assumed_left hnode _ _ _).trans (hfits.arrives (!t))
  obtain ⟨s', Y', hruns⟩ := hfirst s.size _ Y₁ hturn hfits₁
  have hboth := hnew.bind (f := first) hruns
  have hlabel : Y' s.size = (Y s.current).assumed guard' t :=
    (hruns.agrees _ (Nat.lt_succ_self _)).trans hmid
  have htarget : ∀ b, ((Y' s.size).assumed guard b).Entails (Y (target b)) := by
    rw [hlabel]
    refine (Bool.forall_bool' t).mpr ⟨(assumed_both hnode _ _ _).trans (hfits.arrives t), ?_⟩
    have hmore := assumed_mono (assumed_entails (Y s.current) guard' t) guard (!t)
    exact hmore.trans ((assumed_right hnode _ _ _).trans (hfits.arrives (!t)))
  obtain ⟨s'', Y'', hruns'⟩ := hm.enter hfork hfits.exits hboth (Nat.le_refl _) hruns.size
    (hlabel ▸ assumed_entails _ _ _) htarget
  exact ⟨s'', Y'', hnew.bind (hruns.bind ((Labels.setCurrent s' Y' s.size).bind hruns'))⟩

/-- Either of two conditions is reached by way of another, which may say anything. -/
theorem choice {first : Nat → Nat → Build Unit} {yes no : Build Unit} {guard' : Option Guard}
    (hfirst : ∀ onTrue onFalse,
      (first onTrue onFalse).Serves (fun b => if b then onTrue else onFalse) guard')
    (hyes : yes.Serves target none) (hno : no.Serves target none) :
    (do
      let yesBlock ← Build.newBlock
      let noBlock ← Build.newBlock
      first yesBlock noBlock
      Build.setCurrent yesBlock
      yes
      Build.setCurrent noBlock
      no : Build Unit).Serves target none := by
  intro s Y hfork hfits
  obtain ⟨Y₁, hnewYes, hlabelYes⟩ := Labels.newBlock s Y (Y s.current)
  obtain ⟨Y₂, hnewNo, hlabelNo⟩ := Labels.newBlock { s with size := s.size + 1 } Y₁ (Y s.current)
  have hmade := hnewYes.bind (f := fun _ => Build.newBlock) hnewNo
  have hcurrent : Y₂ s.current = Y s.current := hmade.agrees _ hfork.current
  have hlabelYes₂ : Y₂ s.size = Y s.current :=
    (hnewNo.agrees _ (Nat.lt_succ_self _)).trans hlabelYes
  -- All blocks that the three parts start in have the label of the current one.
  have hturn : Spot.Forks { s with size := s.size + 1 + 1 }
      fun b => if b then s.size else s.size + 1 := by
    refine hfork.turn hmade.size rfl rfl fun b => .inr ?_
    dsimp only
    split <;> omega
  have hfits₂ : Spot.Fits { s with size := s.size + 1 + 1 } Y₂
      (fun b => if b then s.size else s.size + 1) guard' := by
    refine ⟨hmade.exits hfork hfits.exits (hcurrent ▸ .refl _),
      Bool.forall_bool.mpr ⟨?_, ?_⟩⟩
    · simp only [hcurrent, hlabelNo, Bool.false_eq_true, if_false]
      exact assumed_entails _ _ _
    · simp only [hcurrent, hlabelYes₂, if_true]
      exact assumed_entails _ _ _
  obtain ⟨s₃, Y₃, hcond⟩ := hfirst s.size (s.size + 1) _ Y₂ hturn hfits₂
  have hsize := hcond.size
  have hlabel₃ : ∀ b, b < s.size + 1 + 1 → Y₃ b = Y₂ b := hcond.agrees
  obtain ⟨s₄, Y₄, hyes⟩ := hyes.resume hfork hfits (hmade.bind (f := fun _ => first _ _) hcond)
    (Nat.le_refl s.size) (by dsimp only at hsize; omega)
    ((hlabel₃ _ (by omega)).trans hlabelYes₂)
  have hthen := hcond.bind (f := fun _ => do
    Build.setCurrent s.size
    yes) ((Labels.setCurrent s₃ Y₃ s.size).bind hyes)
  obtain ⟨s₅, Y₅, hno⟩ := hno.resume hfork hfits (hmade.bind (f := fun _ => _) hthen)
    (Nat.le_succ s.size) (by have := hyes.size; dsimp only at hsize this; omega)
    ((hyes.agrees _ (by dsimp only at hsize ⊢; omega)).trans
      ((hlabel₃ _ (by omega)).trans hlabelNo))
  exact ⟨s₅, Y₅, hnewYes.bind (hnewNo.bind (hcond.bind ((Labels.setCurrent s₃ Y₃ s.size).bind
    (hyes.bind ((Labels.setCurrent s₄ Y₄ (s.size + 1)).bind hno)))))⟩

end Build.Serves

/-- The condition is split when it is branched on. -/
def IsSplit : Expr → Prop
  | .binary _ .and _ _ | .binary _ .or _ _ | .unary _ .not _ | .conditional .. => True
  | .literal _ (.bool _) => True
  | _ => False

theorem lowerExpr_of_not_split (R : Recognizer) {e : Expr} (h : ¬ IsSplit e) (goal : Goal) :
    lowerExpr R goal e = (do
      lowerExpr R .value e
      branchOn (R.recognize? e) goal) := by
  cases e with
  | binary s op lhs rhs =>
    cases op with
    | and | or => exact absurd trivial h
    | _ => rfl
  | unary s op operand =>
    cases op with
    | not => exact absurd trivial h
    | _ => rfl
  | conditional => exact absurd trivial h
  | literal s l =>
    cases l with
    | bool b => exact absurd trivial h
    | _ => rfl
  | _ => rfl

/-- The blocks of a condition can be labelled so that its targets have what its guard says. -/
theorem lowerExpr_serves (R : Recognizer) : (e : Expr) → (target : Bool → Nat) →
    (lowerExpr R (.branch (target true) (target false)) e).Serves target (R.recognize? e)
  | .binary s op lhs rhs, target => by
    by_cases hand : op = .and
    · subst hand
      exact .chain joins_and (fun mid => lowerExpr_serves R lhs _) (lowerExpr_serves R rhs target)
    by_cases hor : op = .or
    · subst hor
      exact .chain joins_or (fun mid => lowerExpr_serves R lhs _) (lowerExpr_serves R rhs target)
    · refine .atom (lowerExpr_of_not_split R ?_ _)
      cases op <;> simp_all [IsSplit]
  | .unary s op operand, target => by
    by_cases hnot : op = .not
    · subst hnot
      exact .negate (lowerExpr_serves R operand fun t => target (!t))
    · refine .atom (lowerExpr_of_not_split R ?_ _)
      cases op <;> simp_all [IsSplit]
  | .conditional _ cond yes no, target =>
    .choice (fun onTrue onFalse => lowerExpr_serves R cond _) (lowerExpr_serves R yes target).forget
      (lowerExpr_serves R no target).forget
  | .literal s l, target => by
    by_cases hbool : ∃ b, l = .bool b
    · obtain ⟨b, rfl⟩ := hbool
      cases b with
      | true => exact .constant true
      | false => exact .constant false
    · refine .atom (lowerExpr_of_not_split R ?_ _)
      cases l <;> simp_all [IsSplit]
  | .name .., _ | .fieldAccess .., _ | .call .., _ | .methodRef .., _ | .new .., _
  | .newArray .., _ | .arrayInit .., _ | .assign .., _ | .cast .., _ | .instanceOf .., _
  | .lambda .., _ | .arrayAccess .., _ | .switch .., _ | .classLit .., _ | .this _, _ | .super _, _
  | .unknown .., _ => .atom (lowerExpr_of_not_split R id _)

/-- The targets of a branch in the draft are two blocks that have been made, neither the
current one nor one that a jump leads to. -/
structure Branches (d : Draft) (target : Bool → Nat) : Prop extends d.spot.Forks target where
  apart : target true ≠ target false
  ahead : ∀ t, ¬ d.spot.Exits (target t)

/-- Wherever the builder is, two new blocks can be the targets of a branch. A loop around that
place does not continue at the block that is current there. -/
theorem branches_made {heads entered : List Nat} {d : Draft} (h : Orderly heads entered d)
    (ht : Targets heads entered d) (hjumps : ∀ j ∈ d.jumps, j.continueTo ≠ some d.current) {n : Nat}
    (hn : d.size + 1 < n) :
    Branches { d with size := n } fun t => if t then d.size else d.size + 1 := by
  have hcurrent := h.lt_size _ h.current
  have hpending : ∀ b, Pending entered d b → b < d.size ∧ b ≠ d.current := fun b hb =>
    ⟨hb.1, fun heq => hb.2 (heq ▸ h.current)⟩
  have hexits : ∀ b, Spot.Exits { d with size := n }.spot b → b < d.size ∧ b ≠ d.current := by
    rintro b (rfl | ⟨j, hj, rfl | hc⟩)
    · exact hpending _ ht.exit
    · exact hpending _ (ht.breaks j hj)
    · refine ⟨?_, fun heq => hjumps j hj (heq ▸ hc)⟩
      rcases ht.continues j hj b hc with hb | hb
      · exact hb.1
      · exact h.lt_size b (h.heads_mem b hb)
  have hmade : ∀ t : Bool, d.size ≤ (if t then d.size else d.size + 1) ∧
      (if t then d.size else d.size + 1) < n := by
    intro t
    split <;> omega
  refine ⟨⟨?_, fun b hb => ⟨?_, (hexits b hb).2⟩, fun t => ⟨(hmade t).2, ?_⟩⟩, ?_, fun t ht => ?_⟩
  · exact Nat.lt_trans hcurrent (Nat.lt_of_succ_lt hn)
  · exact Nat.lt_trans (hexits b hb).1 (Nat.lt_of_succ_lt hn)
  · exact Nat.ne_of_gt (Nat.lt_of_lt_of_le hcurrent (hmade t).1)
  · simp
  · exact absurd (hexits _ ht).1 (Nat.not_lt.mpr (hmade t).1)

namespace Graph

/-- The part of a graph that a condition adds, entered where the condition is. -/
def ofCondition (R : Recognizer) (e : Expr) (target : Bool → Nat) (d : Draft) : Graph :=
  let d' := (lowerExpr R (.branch (target true) (target false)) e).after d
  ⟨d'.size, d.current, exitBlock, d'.edges.drop d.edges.length, d'.sites.drop d.sites.length⟩

/-- The facts that are propagated to a block from the entry; none if it is not reached. -/
def delivered (G : Graph) (seed : Facts) (b : Nat) : Option Facts :=
  (G.passes passCount (G.start seed)).getD b none

variable {G : Graph}

theorem delivered_eq_none (hG : G.Structured) (seed : Facts) (b : Nat) :
    G.delivered seed b = none ↔ ¬ G.Reachable b := by
  have h := confirms_passes hG seed 1
  refine ⟨fun hnone hb => ?_, h.unreached b⟩
  obtain ⟨D, hD, -⟩ := h.reached b hb
  exact absurd (hnone.symm.trans hD) nofun

/-- What is delivered is what the first pass finds. -/
theorem delivered_agrees (hG : G.Structured) {seed : Facts} {b : Nat} {D : Facts}
    (hD : G.delivered seed b = some D) : G.Reachable b ∧ D.Agrees (G.firstPass seed b) := by
  have hb : G.Reachable b := by
    by_contra hb
    rw [(delivered_eq_none hG seed b).mpr hb] at hD
    cases hD
  obtain ⟨D', hD', hagrees⟩ := (confirms_passes hG seed 1).reached b hb
  have heq : D' = D := Option.some.inj (hD'.symm.trans hD)
  exact ⟨hb, heq ▸ hagrees⟩

section Condition

variable (R : Recognizer) (e : Expr) {target : Bool → Nat} {d : Draft}

/-- The condition adds the same blocks and edges to every graph. -/
theorem ofCondition_eq {s' : Spot} {new : List Edge}
    (h : (lowerExpr R (.branch (target true) (target false)) e).Adds d.spot () s' new) :
    ∃ sites, ofCondition R e target d = ⟨s'.size, d.current, exitBlock, new, sites⟩ := by
  obtain ⟨-, hspot, hedges⟩ := h d rfl
  refine ⟨((lowerExpr R (.branch (target true) (target false)) e).after d).sites.drop
    d.sites.length, ?_⟩
  simp only [ofCondition, hedges, List.drop_left, ← hspot]
  rfl

theorem ofCondition_structured (hfork : d.spot.Forks target) :
    (ofCondition R e target d).Structured := by
  obtain ⟨s', new, hadds⟩ := exists_adds R (.branch (target true) (target false)) e d.spot
  obtain ⟨sites, hgraph⟩ := ofCondition_eq R e hadds
  obtain ⟨hspot, hedges⟩ := hadds.fragment
  obtain ⟨entered, p⟩ := Build.Nests.lowerExpr R _ e [] [d.current] d.spot.draft hfork.orderly
    hfork.targets hfork.goal
  rw [hgraph, ← hspot, ← hedges]
  refine structured_of_orderly p.orderly ((p.mem _).mpr (.inl List.mem_cons_self)) ?_ _ _
  intro b hb
  rcases (p.mem b).mp hb with hb | hb
  · exact Nat.le_of_eq (List.mem_singleton.mp hb).symm
  · exact Nat.le_trans (Nat.le_of_lt hfork.current) hb.1

variable {e} in
/-- The labels of a condition bound whatever is propagated through it. -/
theorem exists_bounds (h : Branches d target) (F : Facts) :
    ∃ Y, (ofCondition R e target d).Bounds F Y ∧
      ∀ t, Y (target t) = F.assumed (R.recognize? e) t := by
  -- Before the condition, its targets have what its guard says, and all else the facts.
  let Y : Nat → Facts := fun b =>
    if b = target true then F.assumed (R.recognize? e) true
    else if b = target false then F.assumed (R.recognize? e) false
    else F
  have htarget : ∀ t, Y (target t) = F.assumed (R.recognize? e) t := by
    intro t
    cases t with
    | true => exact if_pos rfl
    | false =>
      simp only [Y, if_neg h.apart.symm, if_true]
  have helse : ∀ b, (∀ t, b ≠ target t) → Y b = F := by
    intro b hb
    simp only [Y, if_neg (hb true), if_neg (hb false)]
  have hcurrent : Y d.current = F := helse _ fun t ht => (h.made t).2 ht.symm
  have hfits : d.spot.Fits Y target (R.recognize? e) := by
    refine ⟨fun b hb => ?_, fun t => ?_⟩
    · have hb : Y b = F := helse b fun t ht => h.ahead t (ht ▸ hb)
      rw [hb]
      exact hcurrent ▸ .refl _
    · rw [htarget]
      exact hcurrent ▸ .refl _
  obtain ⟨s', Y', hruns⟩ := lowerExpr_serves R e target d.spot Y h.toForks hfits
  obtain ⟨new, hadds, hnew⟩ := hruns.edges
  obtain ⟨sites, hgraph⟩ := ofCondition_eq R e hadds
  refine ⟨Y', ?_, fun t => (hruns.agrees _ (h.made t).1).trans (htarget t)⟩
  rw [hgraph]
  refine ⟨?_, fun e he _ _ => (hnew e he).2.2⟩
  have hentry : Y' d.current = F := (hruns.agrees _ h.current).trans hcurrent
  exact hentry ▸ .refl F

/-- A variable that holds a guard lets through no more than the guard says. -/
theorem exists_delivered_name {d : Draft} {target : Bool → Nat} (h : Branches d target) (F : Facts)
    (span : Span) (x : String) (t : Bool) :
    ∃ D, (ofCondition R (.name span x) target d).delivered F (target t) = some D ∧
      (F.assumed (R.flags.get? x) t).Entails D := by
  have hG := ofCondition_structured R (.name span x) h.toForks
  -- The two edges of the branch carry the guard and its negation.
  have hadds : (lowerExpr R (.branch (target true) (target false)) (.name span x)).Adds d.spot ()
      d.spot [⟨d.current, target true, .onTrue, R.flags.get? x⟩,
        ⟨d.current, target false, .onFalse, (R.flags.get? x).map Guard.negate⟩] := by
    intro d' hd'
    have hcurrent : d'.current = d.current := congrArg Spot.current hd'
    refine ⟨rfl, hd', ?_⟩
    rw [← hcurrent]
    exact List.append_assoc d'.edges _ _
  obtain ⟨sites, hgraph⟩ := ofCondition_eq R (.name span x) hadds
  have hentry : (ofCondition R (.name span x) target d).entry = d.current := rfl
  have hedge : ∃ e ∈ (ofCondition R (.name span x) target d).edges,
      e.source = d.current ∧ e.target = target t ∧ along e F = F.assumed (R.flags.get? x) t := by
    rw [hgraph]
    cases t with
    | true => exact ⟨_, List.mem_cons_self, rfl, rfl, rfl⟩
    | false =>
      refine ⟨_, List.mem_cons_of_mem _ List.mem_cons_self, rfl, rfl, ?_⟩
      exact assumed_negate F (R.flags.get? x) true
  obtain ⟨e, he, hsource, htarget, halong⟩ := hedge
  have hreachable : (ofCondition R (.name span x) target d).Reachable e.source :=
    hsource ▸ reachable_entry
  have hsolves := firstPass_solves hG F
  have harrives := hsolves.edge he hreachable (by rw [htarget, hentry]; exact (h.made t).2)
  rw [hsource, htarget, ← hentry, hsolves.entry, halong] at harrives
  have hsome : (ofCondition R (.name span x) target d).delivered F (target t) ≠ none := fun hnone =>
    (delivered_eq_none hG F _).mp hnone (htarget ▸ hreachable.step he)
  obtain ⟨D, hD⟩ := Option.ne_none_iff_exists'.mp hsome
  exact ⟨D, hD, harrives.trans (delivered_agrees hG hD).2.symm.entails⟩

end Condition

/-- A condition written in the branch protects at least as much as its guard.

The facts delivered to a block are the meet over its edges in the part of the graph that the
condition makes, and none if no path leads there. Those at the targets say at least what the
guard says of the outcome, so at least what is delivered if the guard is in a variable. -/
theorem inline_condition_protects (R : Recognizer) (e : Expr) {d : Draft} {target : Bool → Nat}
    (h : Branches d target) (F : Facts) :
    (∃ X, (ofCondition R e target d).Solves F X ∧
      ∀ b D, (ofCondition R e target d).delivered F b = some D → D.Agrees (X b)) ∧
    (∀ t, (ofCondition R e target d).delivered F (target t) = none ↔
      ¬ (ofCondition R e target d).Reachable (target t)) ∧
    (∀ t D, (ofCondition R e target d).delivered F (target t) = some D →
      D.Entails (F.assumed (R.recognize? e) t)) ∧
    ∀ (R' : Recognizer) (span : Span) (x : String), R'.flags.get? x = R.recognize? e → ∀ t,
      ∃ D', (ofCondition R' (.name span x) target d).delivered F (target t) = some D' ∧
        ∀ D, (ofCondition R e target d).delivered F (target t) = some D → D.Entails D' := by
  have hG := ofCondition_structured R e h.toForks
  obtain ⟨Y, hbounds, hY⟩ := exists_bounds R (e := e) h F
  have hprotects : ∀ t D, (ofCondition R e target d).delivered F (target t) = some D →
      D.Entails (F.assumed (R.recognize? e) t) := by
    intro t D hD
    obtain ⟨hreachable, hagrees⟩ := delivered_agrees hG hD
    have hstrong := firstPass_strongest hG hbounds hreachable
    rw [hY] at hstrong
    exact hagrees.entails.trans hstrong
  refine ⟨⟨_, firstPass_solves hG F, fun b D hD => (delivered_agrees hG hD).2⟩,
    fun t => delivered_eq_none hG F _, hprotects, fun R' span x hx t => ?_⟩
  obtain ⟨D', hD', hentails⟩ := exists_delivered_name R' h F span x t
  rw [hx] at hentails
  exact ⟨D', hD', fun D hD => (hprotects t D hD).trans hentails⟩

/-- The draft of a method that begins with an `if`, when its condition is lowered. -/
def ifDraft : Draft := { size := 5 }

def ifTarget (t : Bool) : Nat := if t then 2 else 3

theorem branches_ifDraft : Branches ifDraft ifTarget :=
  branches_made orderly_start targets_start nofun (by decide)

/-- A check of the level, and something else. -/
def checkedCondition : Expr :=
  .binary default .and
    (.binary default .ge (.name default "SDK_INT") (.literal default (.int 23)))
    (.name default "other")

def checkedGuard : Guard := .and [.atLeast 23, .unknown]

/-- The level is imported, and a variable holds the guard of the condition. -/
def checkedRecognizer : Recognizer :=
  { levelImported := true, flags := Table.empty.insert "checked" checkedGuard }

theorem inline_condition_protects_if :
    Entails { floor := some 23 } (top.assume checkedGuard true) ∧
      (ofCondition checkedRecognizer checkedCondition ifTarget ifDraft).delivered top 2 =
        some { floor := some 23 } ∧
      ∃ D, (ofCondition checkedRecognizer (.name default "checked") ifTarget ifDraft).delivered
        top 2 = some D ∧ Entails { floor := some 23 } D := by
  have hguard : checkedRecognizer.recognize? checkedCondition = some checkedGuard := rfl
  have hD : (ofCondition checkedRecognizer checkedCondition ifTarget ifDraft).delivered top 2 =
      some { floor := some 23 } := by decide +kernel
  obtain ⟨-, -, hprotects, hvariable⟩ :=
    inline_condition_protects checkedRecognizer checkedCondition branches_ifDraft top
  have hentails := hprotects true _ hD
  rw [hguard] at hentails
  obtain ⟨D, hdelivered, hless⟩ :=
    hvariable checkedRecognizer default "checked" (hguard ▸ rfl) true
  exact ⟨hentails, hD, D, hdelivered, hless _ hD⟩

end Graph

end Flow
end LevelGuard
