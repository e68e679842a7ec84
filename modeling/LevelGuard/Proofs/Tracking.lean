import LevelGuard.Proofs.Execution
import LevelGuard.Proofs.Paths

/-!
# Tracking runs in a graph

A graph tracks the runs of a part of a program if every event of a run has a site in a
live block, and the block that a run gets to by ending is live: the one after the part,
one of the two a condition branches to, or the target of a jump. What a graph tracks is
closed under the ways in which runs are put together.
-/
namespace LevelGuard.Flow

open Java Build Runs

/-- Every event of the run has a site in a live block. -/
def Graph.Covers (G : Graph) (d : Device) (t : List Step) : Prop :=
  ∀ e, .event e ∈ t → ∃ b site, (b, site) ∈ G.sites ∧ site.event = e ∧ G.Live d b

/-- The block that an ending leads to is live; at the end of a part it is given. -/
def Graph.Lands (G : Graph) (d : Device) (jumps : List Jump) (block : Bool → Nat) :
    Ending → Prop
  | .done t => G.Live d (block t)
  | .breaks l => G.Live d (breakTarget jumps l)
  | .continues l => ∀ b, continueTarget? jumps l = some b → G.Live d b
  | .yields => G.Live d (yieldTarget jumps)
  | .returns | .throws | .stopped => True

section Rules

variable (R : Recognizer) (W : World) (G : Graph)

/-- The graph tracks the runs, but for those that leave out what could not be evaluated. -/
def Runs.Tracked (jumps : List Jump) (A : Runs) (block : Bool → Nat) : Prop :=
  ∀ t o, A t o → (∀ s ∈ t, Passes R W s) →
    G.Covers W.device t ∧ G.Lands W.device jumps block o

variable {R W G} {jumps : List Jump} {block next : Bool → Nat} {A B : Runs}

theorem Graph.covers_nil {d : Device} : G.Covers d [] := nofun

theorem Graph.Covers.append {d : Device} {t t' : List Step} (h : G.Covers d t)
    (h' : G.Covers d t') : G.Covers d (t ++ t') := by
  intro e he
  rcases List.mem_append.mp he with he | he
  · exact h e he
  · exact h' e he

theorem Graph.lands_of_cut {d : Device} {o : Ending} (h : o.Cut) : G.Lands d jumps block o := by
  cases h <;> trivial

theorem Graph.Lands.abrupt {d : Device} {o : Ending} (h : G.Lands d jumps block o)
    (ho : ∀ t, o ≠ .done t) : G.Lands d jumps next o := by
  cases o with
  | done t => exact absurd rfl (ho t)
  | _ => exact h

namespace Runs.Tracked

theorem mono (h : Tracked R W G jumps A block)
    (hnext : ∀ t, G.Live W.device (block t) → G.Live W.device (next t)) :
    Tracked R W G jumps A next := by
  intro t o hrun hpass
  obtain ⟨hcovers, hlands⟩ := h t o hrun hpass
  refine ⟨hcovers, ?_⟩
  cases o with
  | done truth => exact hnext truth hlands
  | _ => exact hlands

theorem atom {steps : List Step} {ends : Ending → Prop}
    (hsteps : (∀ s ∈ steps, Passes R W s) → G.Covers W.device steps)
    (hends : (∀ s ∈ steps, Passes R W s) → ∀ o, ends o → G.Lands W.device jumps block o) :
    Tracked R W G jumps (Runs.atom steps ends) block := by
  intro t o hrun hpass
  cases hrun with
  | before hcut => exact ⟨Graph.covers_nil, Graph.lands_of_cut hcut⟩
  | after hcut => exact ⟨hsteps hpass, Graph.lands_of_cut hcut⟩
  | whole ho => exact ⟨hsteps hpass, hends hpass o ho⟩

theorem ending {o : Ending} (h : G.Lands W.device jumps block o) :
    Tracked R W G jumps (Runs.ending o) block := by
  refine atom (fun _ => Graph.covers_nil) ?_
  rintro - _ rfl
  exact h

theorem settle {P : Bool → Prop} (h : ∀ t, P t → G.Live W.device (block t)) :
    Tracked R W G jumps (Runs.settle P) block := by
  refine atom (fun _ => Graph.covers_nil) ?_
  rintro - _ ⟨t, ht, rfl⟩
  exact h t ht

theorem event {e : Event} {b : Nat} {site : Site} (hsite : (b, site) ∈ G.sites)
    (he : site.event = e) (hb : G.Live W.device b) (hblock : G.Live W.device (block true)) :
    Tracked R W G jumps (Runs.event e) block := by
  refine atom (fun _ => ?_) ?_
  · intro e' he'
    cases List.mem_singleton.mp he'
    exact ⟨b, site, hsite, he, hb⟩
  · rintro - _ rfl
    exact hblock

/-- An operand that is left out, if it could be evaluated to its end. -/
theorem skip {e : Expr} (h : Tracked R W G jumps (runExpr R W e) fun _ => block true) :
    Tracked R W G jumps (Runs.skip e) block := by
  refine atom (fun _ => ?_) ?_
  · intro e' he'
    cases List.mem_singleton.mp he'
  · rintro hpass _ rfl
    cases hpass _ List.mem_cons_self with
    | skipped hrun hsteps => exact (h _ _ hrun hsteps).2

theorem bind {f : Bool → Runs} (hA : Tracked R W G jumps A block)
    (hf : ∀ t, G.Live W.device (block t) → Tracked R W G jumps (f t) next) :
    Tracked R W G jumps (A.bind f) next := by
  intro t o hrun hpass
  cases hrun with
  | @next t t' truth _ hfirst hsecond =>
    obtain ⟨hpass, hpass'⟩ := List.forall_mem_append.mp hpass
    obtain ⟨hcovers, hlive⟩ := hA _ _ hfirst hpass
    obtain ⟨hcovers', hlands⟩ := hf truth hlive t' o hsecond hpass'
    exact ⟨hcovers.append hcovers', hlands⟩
  | early hfirst ho =>
    obtain ⟨hcovers, hlands⟩ := hA t o hfirst hpass
    exact ⟨hcovers, hlands.abrupt ho⟩

theorem either (hA : Tracked R W G jumps A block) (hB : Tracked R W G jumps B block) :
    Tracked R W G jumps (A.either B) block := by
  rintro t o (hrun | hrun) hpass
  · exact hA t o hrun hpass
  · exact hB t o hrun hpass

theorem onlyIf {P : Prop} (hA : P → Tracked R W G jumps A block) :
    Tracked R W G jumps (Runs.onlyIf P A) block := by
  rintro t o ⟨hP, hrun⟩ hpass
  exact hA hP t o hrun hpass

/-- A part that is left anywhere, from where the block that follows it can be got to. -/
theorem begun (hA : Tracked R W G jumps A block) (hnext : ∀ t, G.Live W.device (next t)) :
    Tracked R W G jumps A.begun next := by
  rintro t o (hrun | ⟨hrun, rfl⟩) hpass
  · exact hA.mono (fun t _ => hnext t) t o hrun hpass
  · exact ⟨(hA t _ hrun hpass).1, hnext true⟩

theorem endsAs {f : Ending → Ending} {jumps' : List Jump} (hA : Tracked R W G jumps' A block)
    (hf : ∀ o, G.Lands W.device jumps' block o → G.Lands W.device jumps next (f o)) :
    Tracked R W G jumps (A.endsAs f) next := by
  rintro t _ ⟨o, hrun, rfl⟩ hpass
  obtain ⟨hcovers, hlands⟩ := hA t o hrun hpass
  exact ⟨hcovers, hf o hlands⟩

/-- Every round starts from where the loop starts, so it is enough to track one. -/
theorem repeats {again after : Nat}
    (hround : Tracked R W G jumps A fun t => if t then again else after) :
    Tracked R W G jumps (Runs.repeats A) fun _ => after := by
  intro t o hrun hpass
  induction hrun with
  | @again t t' o hfirst _ ih =>
    obtain ⟨hpass, hpass'⟩ := List.forall_mem_append.mp hpass
    obtain ⟨hcovers, -⟩ := hround _ _ hfirst hpass
    obtain ⟨hcovers', hlands⟩ := ih hpass'
    exact ⟨hcovers.append hcovers', hlands⟩
  | left hfirst => exact hround _ _ hfirst hpass
  | early hfirst ho =>
    obtain ⟨hcovers, hlands⟩ := hround _ _ hfirst hpass
    exact ⟨hcovers, hlands.abrupt ho⟩

theorem handled (hA : Tracked R W G jumps A block) (hB : Tracked R W G jumps B block) :
    Tracked R W G jumps (A.handled B) block := by
  intro t o hrun hpass
  cases hrun with
  | caught hfirst hsecond =>
    obtain ⟨hpass, hpass'⟩ := List.forall_mem_append.mp hpass
    obtain ⟨hcovers, -⟩ := hA _ _ hfirst hpass
    obtain ⟨hcovers', hlands⟩ := hB _ _ hsecond hpass'
    exact ⟨hcovers.append hcovers', hlands⟩
  | passed hrun _ => exact hA t o hrun hpass

theorem closed {b : Nat} (hA : Tracked R W G jumps A block)
    (hB : Tracked R W G jumps B fun _ => b) :
    Tracked R W G jumps (A.closed B) fun _ => b := by
  intro t o hrun hpass
  cases hrun with
  | stopped hfirst => exact ⟨(hA _ _ hfirst hpass).1, trivial⟩
  | resumed hfirst _ hsecond =>
    obtain ⟨hpass, hpass'⟩ := List.forall_mem_append.mp hpass
    obtain ⟨hcovers, hlands⟩ := hA _ _ hfirst hpass
    obtain ⟨hcovers', hlive⟩ := hB _ _ hsecond hpass'
    refine ⟨hcovers.append hcovers', ?_⟩
    -- A jump out of the first part still goes where it went; only its end moves to `b`.
    cases o with
    | done _ => exact hlive
    | _ => exact hlands
  | replaced hfirst _ hsecond _ =>
    obtain ⟨hpass, hpass'⟩ := List.forall_mem_append.mp hpass
    obtain ⟨hcovers, -⟩ := hA _ _ hfirst hpass
    obtain ⟨hcovers', hlands⟩ := hB _ _ hsecond hpass'
    exact ⟨hcovers.append hcovers', hlands⟩

end Runs.Tracked

end Rules

section Jumps

variable (j : Jump) (jumps : List Jump) (l : Option String)

theorem breakTarget_cons_of_breakable (h : j.breakable = true) : breakTarget (j :: jumps) l =
    if l = none ∨ l = j.label then j.breakTo else breakTarget jumps l := by
  cases l with
  | none => simp [breakTarget, h]
  | some name =>
    by_cases hj : some name = j.label
    · simp [breakTarget, ← hj]
    · simp [breakTarget, hj, Ne.symm hj]

theorem breakTarget_cons_of_not_breakable (h : j.breakable = false) :
    breakTarget (j :: jumps) l =
      if l ≠ none ∧ l = j.label then j.breakTo else breakTarget jumps l := by
  cases l with
  | none => simp [breakTarget, h]
  | some name =>
    by_cases hj : some name = j.label
    · simp [breakTarget, ← hj]
    · simp [breakTarget, hj, Ne.symm hj]

theorem continueTarget?_cons_of_none (h : j.continueTo = none) :
    continueTarget? (j :: jumps) l = continueTarget? jumps l := by
  simp [continueTarget?, h]

theorem continueTarget?_cons_of_some {b : Nat} (h : j.continueTo = some b) :
    continueTarget? (j :: jumps) l =
      if l = none ∨ l = j.label then some b else continueTarget? jumps l := by
  cases l with
  | none => simp [continueTarget?, h]
  | some name =>
    by_cases hj : some name = j.label
    · simp [continueTarget?, h, ← hj]
    · simp [continueTarget?, h, hj, Ne.symm hj]

theorem yieldTarget_cons :
    yieldTarget (j :: jumps) = if j.yields then j.breakTo else yieldTarget jumps := by
  unfold yieldTarget
  cases hj : j.yields <;> simp [hj]

end Jumps

variable {R : Recognizer} {W : World} {G : Graph} {A B C : Runs}

namespace Runs.Tracked

variable {jumps : List Jump} {label : Option String} {last after next : Nat}

theorem ofLoop
    (h : Tracked R W G (⟨label, after, some next, true, false⟩ :: jumps) A fun _ => last)
    (hnext : G.Live W.device last → G.Live W.device next) :
    Tracked R W G jumps (A.endsAs (.ofLoop label)) fun t => if t then next else after := by
  refine h.endsAs fun o ho => ?_
  cases o with
  | done _ => exact hnext ho
  | continues l =>
    rw [Graph.Lands, continueTarget?_cons_of_some _ _ _ rfl] at ho
    rw [Ending.ofLoop]
    by_cases hl : l = none ∨ l = label
    · rw [if_pos hl]
      exact ho next (if_pos hl)
    · rw [if_neg hl] at ho ⊢
      exact ho
  | breaks l =>
    rw [Graph.Lands, breakTarget_cons_of_breakable _ _ _ rfl] at ho
    rw [Ending.ofLoop]
    by_cases hl : l = none ∨ l = label
    · rw [if_pos hl] at ho ⊢
      exact ho
    · rw [if_neg hl] at ho ⊢
      exact ho
  | yields =>
    rw [Graph.Lands, yieldTarget_cons] at ho
    exact ho
  | _ => trivial

theorem ofSwitch
    (h : Tracked R W G (⟨label, after, none, true, false⟩ :: jumps) A fun _ => after) :
    Tracked R W G jumps (A.endsAs (.ofSwitch label)) fun _ => after := by
  refine h.endsAs fun o ho => ?_
  cases o with
  | breaks l =>
    rw [Graph.Lands, breakTarget_cons_of_breakable _ _ _ rfl] at ho
    rw [Ending.ofSwitch]
    by_cases hl : l = none ∨ l = label
    · rw [if_pos hl] at ho ⊢
      exact ho
    · rw [if_neg hl] at ho ⊢
      exact ho
  | continues l =>
    rw [Graph.Lands, continueTarget?_cons_of_none _ _ _ rfl] at ho
    exact ho
  | yields =>
    rw [Graph.Lands, yieldTarget_cons] at ho
    exact ho
  | _ => exact ho

theorem ofYield
    (h : Tracked R W G (⟨none, after, none, false, true⟩ :: jumps) A fun _ => after) :
    Tracked R W G jumps (A.endsAs .ofYield) fun _ => after := by
  refine h.endsAs fun o ho => ?_
  cases o with
  | breaks l =>
    rw [Graph.Lands, breakTarget_cons_of_not_breakable _ _ _ rfl, if_neg (fun h => h.1 h.2)] at ho
    exact ho
  | continues l =>
    rw [Graph.Lands, continueTarget?_cons_of_none _ _ _ rfl] at ho
    exact ho
  | yields =>
    rw [Graph.Lands, yieldTarget_cons] at ho
    exact ho
  | _ => exact ho

theorem ofLabeled {name : String}
    (h : Tracked R W G (⟨some name, after, none, false, false⟩ :: jumps) A fun _ => last)
    (hafter : G.Live W.device last → G.Live W.device after) :
    Tracked R W G jumps (A.endsAs (.ofLabeled name)) fun _ => after := by
  refine h.endsAs fun o ho => ?_
  cases o with
  | done _ => exact hafter ho
  | breaks l =>
    rw [Graph.Lands, breakTarget_cons_of_not_breakable _ _ _ rfl] at ho
    rw [Ending.ofLabeled]
    by_cases hl : l = some name
    · rw [if_pos ⟨by simp [hl], hl⟩] at ho
      rw [if_pos hl]
      exact ho
    · rw [if_neg fun h => hl h.2] at ho
      rw [if_neg hl]
      exact ho
  | continues l =>
    rw [Graph.Lands, continueTarget?_cons_of_none _ _ _ rfl] at ho
    exact ho
  | yields =>
    rw [Graph.Lands, yieldTarget_cons] at ho
    exact ho
  | _ => trivial

end Runs.Tracked

end LevelGuard.Flow
