import LevelGuard.Proofs.Drafts
import LevelGuard.Proofs.Tracking

/-!
# Following runs

A step of the builder follows the runs of a part of a program if every graph that the
step's draft ends up in tracks the runs, once the block where the step starts is live.
Steps in sequence follow runs in sequence, and the branches of a condition follow the
values that the condition can have.
-/
namespace LevelGuard.Flow

open Java Build Runs

/-- The block that a goal leads to from the end of an expression. -/
def Goal.block (current : Nat) : Goal → Bool → Nat
  | .value, _ => current
  | .branch onTrue onFalse, t => if t then onTrue else onFalse

/-- What is in the draft is in the graph. -/
def Draft.Within (d : Draft) (G : Graph) : Prop := d.edges ⊆ G.edges ∧ d.sites ⊆ G.sites

section Within

variable {G : Graph} {d : Draft}

theorem Draft.Within.before {α : Type} {m : Build α} (hm : m.Extending)
    (h : (m.after d).Within G) : d.Within G :=
  ⟨fun _ he => h.1 ((hm d).edges he), fun _ hs => h.2 ((hm d).sites hs)⟩

theorem within_newBlock : (newBlock.after d).Within G ↔ d.Within G := Iff.rfl

theorem within_setCurrent {b : Nat} : ((setCurrent b).after d).Within G ↔ d.Within G := Iff.rfl

theorem within_withJump {j : Jump} {inner : Build Unit} :
    ((withJump j inner).after d).Within G ↔
      (inner.after { d with jumps := j :: d.jumps }).Within G := Iff.rfl

theorem within_withHandlers {guards : List Guard} {inner : Build Unit} :
    ((withHandlers guards inner).after d).Within G ↔
      (inner.after { d with handlers := guards ++ d.handlers }).Within G := Iff.rfl

theorem within_addEdge {e : Edge} :
    ((addEdge e).after d).Within G ↔ d.Within G ∧ e ∈ G.edges := by
  have hedges : ((addEdge e).after d).edges = d.edges ++ [e] := rfl
  have hsites : ((addEdge e).after d).sites = d.sites := rfl
  simp only [Draft.Within, hedges, hsites, List.append_subset, List.cons_subset]
  constructor
  · rintro ⟨⟨hedges, he, -⟩, hsites⟩
    exact ⟨⟨hedges, hsites⟩, he⟩
  · rintro ⟨⟨hedges, hsites⟩, he⟩
    exact ⟨⟨hedges, he, List.nil_subset _⟩, hsites⟩

theorem within_edgeTo {b : Nat} {kind : EdgeKind} {guard : Option Guard} :
    ((edgeTo b kind guard).after d).Within G ↔
      d.Within G ∧ ⟨d.current, b, kind, guard⟩ ∈ G.edges := within_addEdge

theorem within_flowTo {b : Nat} : ((flowTo b).after d).Within G ↔
    d.Within G ∧ ⟨d.current, b, .flow, none⟩ ∈ G.edges := within_addEdge

theorem within_fallTo {b : Nat} {open? : Option Nat} :
    ((fallTo b open?).after d).Within G ↔
      d.Within G ∧ ∀ a, open? = some a → { source := a, target := b } ∈ G.edges := by
  cases open? with
  | none =>
    constructor
    · intro hd
      refine ⟨hd, fun a ha => ?_⟩
      cases ha
    · rintro ⟨hd, -⟩
      exact hd
  | some a =>
    rw [fallTo, within_addEdge]
    constructor
    · rintro ⟨hd, he⟩
      refine ⟨hd, fun a' ha' => ?_⟩
      rw [← Option.some.inj ha']
      exact he
    · rintro ⟨hd, he⟩
      exact ⟨hd, he a rfl⟩

theorem within_addSite {e : Event} : ((addSite e).after d).Within G ↔
    d.Within G ∧ (d.current, ⟨e, d.handlers⟩) ∈ G.sites := by
  have hedges : ((addSite e).after d).edges = d.edges := rfl
  have hsites : ((addSite e).after d).sites = d.sites ++ [(d.current, ⟨e, d.handlers⟩)] := rfl
  simp only [Draft.Within, hedges, hsites, List.append_subset, List.cons_subset]
  constructor
  · rintro ⟨hedges, hsites, hs, -⟩
    exact ⟨⟨hedges, hsites⟩, hs⟩
  · rintro ⟨⟨hedges, hsites⟩, hs⟩
    exact ⟨hedges, hsites, hs, List.nil_subset _⟩

end Within

theorem Graph.Live.flow {G : Graph} {d : Device} {a b : Nat} {kind : EdgeKind}
    (h : G.Live d a) (he : ⟨a, b, kind, none⟩ ∈ G.edges) : G.Live d b :=
  Graph.Live.step (e := ⟨a, b, kind, none⟩) h he nofun

/-- From a live block on, the step makes what tracks the runs. -/
structure Build.Follows (R : Recognizer) (W : World) (G : Graph) (m : Build Unit) (goal : Goal)
    (A : Runs) : Prop where
  extending : m.Extending
  tracks : ∀ d : Draft, (m.after d).Within G → G.Live W.device d.current →
    Tracked R W G d.jumps A (goal.block (m.after d).current)

namespace Build.Follows

variable {R : Recognizer} {W : World} {G : Graph} {m : Build Unit} {goal : Goal} {A B C : Runs}

theorem tracksIn (h : Follows R W G m goal A) {d : Draft} (hw : (m.after d).Within G)
    (hlive : G.Live W.device d.current) {jumps : List Jump} (hjumps : d.jumps = jumps) :
    Tracked R W G jumps A (goal.block (m.after d).current) :=
  hjumps ▸ h.tracks d hw hlive

theorem bind {f : Unit → Build Unit} {g : Bool → Runs} (hm : Follows R W G m .value A)
    (hf : ∀ t, Follows R W G (f ()) goal (g t)) :
    Follows R W G (m >>= f) goal (A.bind g) where
  extending := hm.extending.bind fun _ => (hf true).extending
  tracks d hw hlive := by
    have hw' : (m.after d).Within G := Draft.Within.before (hf true).extending hw
    refine (hm.tracks d hw' hlive).bind fun t hlive' => ?_
    exact (hf t).tracksIn hw hlive' (hm.extending d).jumps

theorem pure (t : Bool) : Follows R W G (Pure.pure ()) .value (ending (.done t)) where
  extending := .pure ()
  tracks _ _ hlive := .ending hlive

theorem addSite (e : Event) : Follows R W G (Build.addSite e) .value (event e) where
  extending := .addSite e
  tracks _ hw hlive := .event (within_addSite.mp hw).2 rfl hlive hlive

/-- Where nothing is left to be built, only the ending of the runs is to be looked at. -/
theorem andEnd {o : Ending} (ho : ∀ jumps b, G.Live W.device b → G.Lands W.device jumps (fun _ => b) o)
    (h : Follows R W G m .value A) : Follows R W G m .value (A.seq (ending o)) where
  extending := h.extending
  tracks d hw hlive := (h.tracks d hw hlive).bind fun _ hlive' => .ending (ho _ _ hlive')

theorem andDone (h : Follows R W G m .value A) : Follows R W G m .value (A.seq (ending (.done true))) :=
  h.andEnd fun _ _ hlive => hlive

theorem addSiteIf (present : Bool) (e : Event) :
    Follows R W G (Build.addSiteIf present e) .value (events (if present then [e] else [])) := by
  cases present with
  | true => exact (addSite e).andDone
  | false => exact pure true

theorem addSites {α : Type} (f : α → Event) (as : List α) :
    Follows R W G (as.forM fun a => Build.addSite (f a)) .value (events (as.map f)) := by
  induction as with
  | nil => exact pure true
  | cons a as ih => exact (addSite (f a)).bind fun _ => ih

theorem addSite? {α : Type} (f : α → Event) (a? : Option α) :
    Follows R W G (a?.forM fun a => Build.addSite (f a)) .value (events (a?.toList.map f)) := by
  cases a? with
  | none => exact pure true
  | some a => exact (addSite (f a)).andDone

/-- The guard of a branch can have every value that the condition can have. -/
theorem branchOn {guard : Option Guard} {P : Bool → Prop}
    (h : ∀ t, P t → ∀ g, guard = some g → ∃ u, g.holds W.device u = t) (goal : Goal) :
    Follows R W G (Flow.branchOn guard goal) goal (settle P) where
  extending := .branchOn guard goal
  tracks d hw hlive := by
    cases goal with
    | value => exact .settle fun _ _ => hlive
    | branch onTrue onFalse =>
      obtain ⟨hw', hfalse⟩ := within_edgeTo.mp hw
      obtain ⟨-, htrue⟩ := within_edgeTo.mp hw'
      refine .settle fun t ht => ?_
      cases t with
      | true => exact hlive.step htrue (h true ht)
      | false =>
        refine hlive.step hfalse ?_
        intro g hg
        obtain ⟨g', hg', rfl⟩ := Option.map_eq_some_iff.mp hg
        exact Guard.exists_holds_negate (h false ht g' hg')

theorem branchOnUnknown (goal : Goal) : Follows R W G (Flow.branchOn none goal) goal anything :=
  branchOn nofun goal

theorem leave {o : Ending} (hm : m.Extending)
    (h : ∀ d, (m.after d).Within G → G.Live W.device d.current →
      ∀ block, G.Lands W.device d.jumps block o) :
    Follows R W G m .value (ending o) :=
  ⟨hm, fun d hw hlive => .ending (h d hw hlive _)⟩

theorem breakTo (label : Option String) :
    Follows R W G (do jumpTo (breakTarget (← get).jumps label)) .value
      (ending (.breaks label)) :=
  leave (.bind .get fun _ => .jumpTo _) fun _ hw hlive _ => hlive.flow (within_flowTo.mp hw).2

theorem yieldTo :
    Follows R W G (do jumpTo (yieldTarget (← get).jumps)) .value (ending .yields) :=
  leave (.bind .get fun _ => .jumpTo _) fun _ hw hlive _ => hlive.flow (within_flowTo.mp hw).2

theorem continueTo (label : Option String) :
    Follows R W G
      (do
        match continueTarget? (← get).jumps label with
        | some block =>
          edgeTo block .back none
          setCurrent (← newBlock)
        | none => jumpTo exitBlock)
      .value (ending (.continues label)) := by
  refine leave (.bind .get fun d => ?_) fun d hw hlive _ => ?_
  · cases continueTarget? d.jumps label with
    | none => exact .jumpTo _
    | some block => exact .bind (.edgeTo _ _ _) fun _ => .bind .newBlock fun _ => .setCurrent _
  · intro block hblock
    simp only [after_get_bind, hblock] at hw
    exact hlive.flow (within_edgeTo.mp hw).2

theorem truth (t : Bool) : (goal : Goal) →
    Follows R W G
      (match goal with
        | .branch onTrue onFalse => flowTo (if t then onTrue else onFalse)
        | .value => return ())
      goal (ending (.done t))
  | .value => pure t
  | .branch _ _ =>
    { extending := .edgeTo _ _ _
      tracks := fun _ hw hlive => .ending (hlive.flow (within_flowTo.mp hw).2) }

theorem shortBranch {stop : Bool} {lhs rhs : Goal → Build Unit} {onTrue onFalse : Nat}
    {first : Nat → Goal}
    (hfirst : ∀ mid current t, (first mid).block current t =
      if t = stop then (Goal.branch onTrue onFalse).block current t else mid)
    (hl : ∀ goal, Follows R W G (lhs goal) goal A)
    (hr : ∀ goal, Follows R W G (rhs goal) goal B) :
    Follows R W G
      (do
        let mid ← newBlock
        lhs (first mid)
        setCurrent mid
        rhs (.branch onTrue onFalse))
      (.branch onTrue onFalse) (shortCircuit stop A B) where
  extending := .bind .newBlock fun _ => (hl _).extending.bind fun _ =>
    .bind (.setCurrent _) fun _ => (hr _).extending
  tracks d hw hlive := by
    simp only [after_newBlock_bind, after_seq] at hw ⊢
    -- Later steps only add to a draft, so the draft after the left operand is within the graph.
    have hw' := hw.before (hr _).extending
    rw [within_setCurrent] at hw'
    refine ((hl _).tracks _ hw' hlive).bind fun t ht => ?_
    rw [hfirst] at ht
    by_cases hstop : t = stop
    · rw [if_pos hstop] at ht ⊢
      exact .ending ht
    · rw [if_neg hstop] at ht ⊢
      exact (hr _).tracksIn hw ht ((hl _).extending _).jumps

theorem shortValue {stop : Bool} {lhs : Goal → Build Unit} {rhs : Build Unit}
    {first : Nat → Nat → Goal}
    (hfirst : ∀ right join current t, (first right join).block current t =
      if t = stop then join else right)
    (hl : ∀ goal, Follows R W G (lhs goal) goal A) (hr : Follows R W G rhs .value B) :
    Follows R W G
      (do
        let right ← newBlock
        let join ← newBlock
        lhs (first right join)
        setCurrent right
        rhs
        flowTo join
        setCurrent join)
      .value (shortCircuit stop A B) where
  extending := .bind .newBlock fun _ => .bind .newBlock fun _ => (hl _).extending.bind fun _ =>
    .bind (.setCurrent _) fun _ => hr.extending.bind fun _ => .bind (.edgeTo _ _ _) fun _ =>
    .setCurrent _
  tracks d hw hlive := by
    simp only [after_newBlock_bind, after_seq, within_setCurrent, within_flowTo] at hw ⊢
    obtain ⟨hw, hjoin⟩ := hw
    have hw' := hw.before hr.extending
    rw [within_setCurrent] at hw'
    refine ((hl _).tracks _ hw' hlive).bind fun t ht => ?_
    rw [hfirst] at ht
    by_cases hstop : t = stop
    · rw [if_pos hstop] at ht ⊢
      exact .ending ht
    · rw [if_neg hstop] at ht ⊢
      have hright := hr.tracksIn hw ht ((hl _).extending _).jumps
      exact hright.mono fun _ hend => hend.flow hjoin

section ShortCircuit

variable {lhs rhs : Goal → Build Unit}

theorem andBranch (onTrue onFalse : Nat) (hl : ∀ goal, Follows R W G (lhs goal) goal A)
    (hr : ∀ goal, Follows R W G (rhs goal) goal B) :
    Follows R W G
      (do
        let mid ← newBlock
        lhs (.branch mid onFalse)
        setCurrent mid
        rhs (.branch onTrue onFalse))
      (.branch onTrue onFalse) (shortCircuit false A B) := by
  have hfirst : ∀ mid current t, (Goal.branch mid onFalse).block current t =
      if t = false then (Goal.branch onTrue onFalse).block current t else mid := by
    intro _ _ t
    cases t <;> rfl
  exact shortBranch hfirst hl hr

theorem orBranch (onTrue onFalse : Nat) (hl : ∀ goal, Follows R W G (lhs goal) goal A)
    (hr : ∀ goal, Follows R W G (rhs goal) goal B) :
    Follows R W G
      (do
        let mid ← newBlock
        lhs (.branch onTrue mid)
        setCurrent mid
        rhs (.branch onTrue onFalse))
      (.branch onTrue onFalse) (shortCircuit true A B) := by
  have hfirst : ∀ mid current t, (Goal.branch onTrue mid).block current t =
      if t = true then (Goal.branch onTrue onFalse).block current t else mid := by
    intro _ _ t
    cases t <;> rfl
  exact shortBranch hfirst hl hr

theorem andValue {rhs : Build Unit} (hl : ∀ goal, Follows R W G (lhs goal) goal A)
    (hr : Follows R W G rhs .value B) :
    Follows R W G
      (do
        let right ← newBlock
        let join ← newBlock
        lhs (.branch right join)
        setCurrent right
        rhs
        flowTo join
        setCurrent join)
      .value (shortCircuit false A B) := by
  have hfirst : ∀ right join current t, (Goal.branch right join).block current t =
      if t = false then join else right := by
    intro _ _ _ t
    cases t <;> rfl
  exact shortValue hfirst hl hr

theorem orValue {rhs : Build Unit} (hl : ∀ goal, Follows R W G (lhs goal) goal A)
    (hr : Follows R W G rhs .value B) :
    Follows R W G
      (do
        let right ← newBlock
        let join ← newBlock
        lhs (.branch join right)
        setCurrent right
        rhs
        flowTo join
        setCurrent join)
      .value (shortCircuit true A B) := by
  have hfirst : ∀ right join current t, (Goal.branch join right).block current t =
      if t = true then join else right := fun _ _ _ _ => rfl
  exact shortValue hfirst hl hr

end ShortCircuit

theorem negated {goal' : Goal} (hgoal : ∀ current t, goal'.block current (!t) = goal.block current t)
    (h : Follows R W G m goal A) : Follows R W G m goal' (A.endsAs .negated) where
  extending := h.extending
  tracks d hw hlive := by
    refine (h.tracks d hw hlive).endsAs fun o ho => ?_
    cases o with
    | done t =>
      rw [Ending.negated, Graph.Lands, hgoal]
      exact ho
    | _ => exact ho

theorem choiceBranch {cond yes no : Goal → Build Unit} (onTrue onFalse : Nat)
    (hc : ∀ goal, Follows R W G (cond goal) goal C)
    (hy : ∀ goal, Follows R W G (yes goal) goal A) (hn : ∀ goal, Follows R W G (no goal) goal B) :
    Follows R W G
      (do
        let yesBlock ← newBlock
        let noBlock ← newBlock
        cond (.branch yesBlock noBlock)
        setCurrent yesBlock
        yes (.branch onTrue onFalse)
        setCurrent noBlock
        no (.branch onTrue onFalse))
      (.branch onTrue onFalse) (C.bind fun t => if t then A else B) where
  extending := .bind .newBlock fun _ => .bind .newBlock fun _ => (hc _).extending.bind fun _ =>
    .bind (.setCurrent _) fun _ => (hy _).extending.bind fun _ => .bind (.setCurrent _) fun _ =>
    (hn _).extending
  tracks d hw hlive := by
    simp only [after_newBlock_bind, after_seq] at hw ⊢
    have hwyes := hw.before (hn _).extending
    rw [within_setCurrent] at hwyes
    have hwcond := hwyes.before (hy _).extending
    rw [within_setCurrent] at hwcond
    refine ((hc _).tracks _ hwcond hlive).bind fun t ht => ?_
    have hjumps := ((hc (.branch d.size (d.size + 1))).extending (newBlock.after (newBlock.after d))).jumps
    cases t with
    | true => exact (hy _).tracksIn hwyes ht hjumps
    | false => exact (hn _).tracksIn hw ht (((hy _).extending _).jumps.trans hjumps)

theorem choice {cond : Goal → Build Unit} {yes no : Build Unit}
    (hc : ∀ goal, Follows R W G (cond goal) goal C)
    (hy : Follows R W G yes .value A) (hn : Follows R W G no .value B) :
    Follows R W G
      (do
        let yesBlock ← newBlock
        let noBlock ← newBlock
        let join ← newBlock
        cond (.branch yesBlock noBlock)
        setCurrent yesBlock
        yes
        flowTo join
        setCurrent noBlock
        no
        flowTo join
        setCurrent join)
      .value (C.bind fun t => if t then A else B) where
  extending := .bind .newBlock fun _ => .bind .newBlock fun _ => .bind .newBlock fun _ =>
    (hc _).extending.bind fun _ => .bind (.setCurrent _) fun _ => hy.extending.bind fun _ =>
    .bind (.edgeTo _ _ _) fun _ => .bind (.setCurrent _) fun _ => hn.extending.bind fun _ =>
    .bind (.edgeTo _ _ _) fun _ => .setCurrent _
  tracks d hw hlive := by
    simp only [after_newBlock_bind, after_seq, within_setCurrent, within_flowTo] at hw ⊢
    obtain ⟨hw, hnojoin⟩ := hw
    have hwyes := hw.before hn.extending
    rw [within_setCurrent, within_flowTo] at hwyes
    obtain ⟨hwyes, hyesjoin⟩ := hwyes
    have hwcond := hwyes.before hy.extending
    rw [within_setCurrent] at hwcond
    refine ((hc _).tracks _ hwcond hlive).bind fun t ht => ?_
    have hjumps := ((hc (.branch d.size (d.size + 1))).extending
      (newBlock.after (newBlock.after (newBlock.after d)))).jumps
    cases t with
    | true => exact (hy.tracksIn hwyes ht hjumps).mono fun _ hend => hend.flow hyesjoin
    | false =>
      have hno := hn.tracksIn hw ht ((hy.extending _).jumps.trans hjumps)
      exact hno.mono fun _ hend => hend.flow hnojoin

end Build.Follows

end LevelGuard.Flow
