import LevelGuard.Proofs.Conditions
import LevelGuard.Proofs.GuardVariables
import LevelGuard.Proofs.LoweringSteps
import LevelGuard.Proofs.Solution

/-!
# The guards on edges

Only conditions that the program tests are put on the edges of a graph: levels and
permissions, never handlers. So on whatever way facts go through a graph, they say the
same of handlers as at its start.
-/
namespace LevelGuard

/-- A condition that a program can test. It says nothing of handlers. -/
inductive Guard.Tested : Guard → Prop
  | atLeast (v : Level) : Tested (.atLeast v)
  | atMost (v : Level) : Tested (.atMost v)
  | exactly (v : Level) : Tested (.exactly v)
  | held (p : String) : Tested (.held p)
  | and {parts : List Guard} : (∀ g ∈ parts, Tested g) → Tested (.and parts)
  | or {parts : List Guard} : (∀ g ∈ parts, Tested g) → Tested (.or parts)
  | not {g : Guard} : Tested g → Tested (.not g)
  | unknown : Tested .unknown

theorem Guard.Tested.negate {g : Guard} (h : g.Tested) : g.negate.Tested := by
  cases h with
  | not h => exact h
  | unknown => exact .unknown
  | atLeast v => exact .not (.atLeast v)
  | atMost v => exact .not (.atMost v)
  | exactly v => exact .not (.exactly v)
  | held p => exact .not (.held p)
  | and h => exact .not (.and h)
  | or h => exact .not (.or h)

namespace Facts

theorem meet_excluded {F G : Facts} (h : F.excluded = G.excluded) :
    (F.meet G).excluded = G.excluded := by
  unfold meet
  split
  · rfl
  · split
    · exact h
    · refine SortedSet.eq_of_mem_iff fun x => ?_
      simp [h]

/-- A condition of the program changes nothing about handlers. -/
theorem assume_excluded (F : Facts) (g : Guard) (hg : g.Tested) (t : Bool) :
    (F.assume g t).excluded = F.excluded := by
  have hparallel : Parallel (fun g _ => g.Tested) fun H _ => H.excluded = F.excluded :=
    { and := fun _ _ h => by cases h with | and h => exact h
      or := fun _ _ h => by cases h with | or h => exact h
      not := fun _ _ h => by cases h with | not h => exact h
      leaf := fun H _ g t hg htested hH =>
        (assume_leaf_excluded hg (fun e he => by subst he; cases htested) H t).trans hH
      meet := fun H K _ _ hH hK => (meet_excluded (hH.trans hK.symm)).trans hK }
  exact hparallel.assume (G := F) rfl g t hg

end Facts

namespace Flow

open Java

namespace Recognizer

/-- All variables that hold a guard hold a condition of the program. -/
def Tested (R : Recognizer) : Prop := ∀ x g, R.flags.get? x = some g → g.Tested

theorem comparisonGuard?_tested {op : BinaryOp} {v : Level} {g : Guard}
    (h : comparisonGuard? op v = some g) : g.Tested := by
  cases op with
  | ge | gt => cases h; exact .atLeast _
  | le | lt => cases h; exact .atMost _
  | eq => cases h; exact .exactly _
  | ne => cases h; exact (Guard.Tested.exactly v).negate
  | and | or | other => cases h

theorem levelGuard?_tested {R : Recognizer} {op : BinaryOp} {accessor level : Expr} {g : Guard}
    (h : R.levelGuard? op accessor level = some g) : g.Tested := by
  unfold levelGuard? at h
  split at h
  · obtain ⟨v, -, hv⟩ := Option.bind_eq_some_iff.mp h
    exact comparisonGuard?_tested hv
  · cases h

theorem permissionGuard?_tested {op : BinaryOp} {check status : Expr} {g : Guard}
    (h : permissionGuard? op check status = some g) : g.Tested := by
  unfold permissionGuard? at h
  split at h
  · split at h
    · obtain ⟨p, -, h⟩ := Option.bind_eq_some_iff.mp h
      obtain ⟨granted, -, h⟩ := Option.bind_eq_some_iff.mp h
      split at h
      · cases h; exact .held p
      · cases h; exact .held p
      · cases h; exact (Guard.Tested.held p).negate
      · cases h; exact (Guard.Tested.held p).negate
      · cases h
    · cases h
  · cases h

theorem getD_tested {guard : Option Guard} (h : ∀ g, guard = some g → g.Tested) :
    (guard.getD .unknown).Tested := by
  cases guard with
  | none => exact .unknown
  | some g => exact h g rfl

theorem recognize?_tested {R : Recognizer} (hR : R.Tested) {e : Expr} {g : Guard}
    (h : R.recognize? e = some g) : g.Tested := by
  refine recognize?_induction (motive := fun _ g => g.Tested) ?_ ?_ ?_ ?_ ?_ h
  · exact fun _ _ _ _ hg => hg.negate
  · intro _ lhs rhs hl hr
    exact .and (by simp [getD_tested hl, getD_tested hr])
  · intro _ lhs rhs hl hr
    exact .or (by simp [getD_tested hl, getD_tested hr])
  · intro s op lhs rhs g hand hor h
    rw [recognize?_binary hand hor] at h
    rcases Option.or_eq_some_iff.mp h with h | ⟨-, h⟩
    · exact levelGuard?_tested h
    rcases Option.or_eq_some_iff.mp h with h | ⟨-, h⟩
    · exact levelGuard?_tested h
    rcases Option.or_eq_some_iff.mp h with h | ⟨-, h⟩
    · exact permissionGuard?_tested h
    · exact permissionGuard?_tested h
  · exact fun _ n g h => hR n g h

theorem exactly_of_mapM {labels : List Expr} {gs : List Guard}
    (h : (labels.mapM fun l => (levelConstant? l).map Guard.exactly) = some gs) :
    ∀ g ∈ gs, g.Tested := by
  induction labels generalizing gs with
  | nil => cases h; nofun
  | cons l labels ih =>
    rw [List.mapM_cons] at h
    obtain ⟨g, hg, h⟩ := Option.bind_eq_some_iff.mp h
    obtain ⟨gs', hgs', h⟩ := Option.bind_eq_some_iff.mp h
    cases h
    obtain ⟨v, -, rfl⟩ := Option.map_eq_some_iff.mp hg
    exact List.forall_mem_cons.mpr ⟨.exactly v, ih hgs'⟩

theorem caseGuard?_tested {R : Recognizer} {selector : Expr} {labels : List Expr} {g : Guard}
    (h : R.caseGuard? selector labels = some g) : g.Tested := by
  unfold caseGuard? at h
  split at h
  · obtain ⟨gs, hgs, h⟩ := Option.bind_eq_some_iff.mp h
    split at h
    · cases h
    · cases h
      exact exactly_of_mapM hgs g List.mem_cons_self
    · cases h
      exact .or (exactly_of_mapM hgs)
  · cases h

theorem Tested.withVariables {R : Recognizer} (hR : R.Tested) {flags : Table String Guard}
    (hflags : ∀ x g, (x, g) ∈ flags.entries → g.Tested) : (R.withVariables flags).Tested :=
  fun x g h => (Table.get?_insertAll h).elim (hflags x g) (hR x g)

theorem Tested.bindUnassigned {R : Recognizer} (hR : R.Tested) {assigned : List String}
    {candidates : List (String × Expr)} {x : String} {g : Guard}
    (h : (x, g) ∈ (R.bindUnassigned assigned candidates).entries) : g.Tested :=
  bindUnassigned_induction (P := fun _ g => g.Tested)
    (fun _ _ _ _ hbound _ _ hg => recognize?_tested (hR.withVariables hbound) hg) h

theorem tested_ofUnit (u : CompilationUnit) : (ofUnit u).Tested := nofun

end Recognizer

/-- The edge carries a condition of the program or none. -/
def Edge.Tested (e : Edge) : Prop := ∀ g, e.guard = some g → g.Tested

/-- The step adds no edges but such as carry a condition of the program or none. -/
def Build.Tests {α : Type} (m : Build α) : Prop :=
  ∀ d : Draft, (∀ e ∈ d.edges, e.Tested) → ∀ e ∈ (m.after d).edges, e.Tested

section Edges

variable {R : Recognizer} (hR : R.Tested)

/-- Edges that carry a condition of the program or none, to anywhere. -/
def EdgeRule.tested : EdgeRule R where
  target := fun _ => True
  guard := fun guard => ∀ g, guard = some g → g.Tested
  plain := nofun
  branch := fun _ _ h => Recognizer.recognize?_tested hR h
  negated := by
    intro e g h
    obtain ⟨g', hg', rfl⟩ := Option.map_eq_some_iff.mp h
    exact (Recognizer.recognize?_tested hR hg').negate
  case := fun _ _ _ h => Recognizer.caseGuard?_tested h

theorem Build.Aims.tests {m : Build Unit} (h : m.Aiming (EdgeRule.tested hR)) : m.Tests := by
  intro d hd e he
  obtain ⟨_, _, new, hadds, -, -, hnew⟩ := h d.spot d.spot.aims_anywhere
  rw [(hadds d rfl).2.2] at he
  rcases List.mem_append.mp he with he | he
  · exact hd e he
  · exact (hnew e he).2

theorem Graph.tested_ofBuild {m m' : Build Unit} {s : List Guard → List Site}
    (h : (StepRule.aims (EdgeRule.tested hR)).Holds m m' s) :
    ∀ e ∈ (Graph.ofBuild m).edges, e.Tested :=
  Build.Aims.tests hR h.toExit {} nofun

end Edges

/-- Facts say the same of handlers at every block as at the start. -/
theorem Graph.propagate_excluded {G : Graph} (hG : ∀ e ∈ G.edges, e.Tested) (seed : Facts) (b : Nat) :
    ((G.propagate seed).getD b seed).excluded = seed.excluded := by
  have hkeeps : G.Keeps fun F => F.excluded = seed.excluded :=
    { edge := fun e he F hF => by
        unfold along
        cases hg : e.guard with
        | none => exact hF
        | some g => exact (Facts.assume_excluded F g (hG e he g hg) true).trans hF
      meet := fun _ _ hF hH => (Facts.meet_excluded (hF.trans hH.symm)).trans hH }
  exact hkeeps.propagate rfl b

end Flow

namespace Project.Code

open LevelGuard.Flow

variable {R : Recognizer} (hR : R.Tested) (c : Code)
include hR

theorem recognizer_tested : (c.recognizer R).Tested := by
  have houter : (c.outerRecognizer R).Tested := fun x g h => hR x g (Recognizer.get?_without h).2
  refine houter.withVariables fun x g h => ?_
  unfold guards at h
  split at h
  · exact houter.bindUnassigned h
  · cases h

theorem graph_tested : ∀ e ∈ (c.graph R).edges, e.Tested := by
  unfold graph
  cases c.steps with
  | block b => exact Graph.tested_ofBuild hR ((StepRule.aims _).lowerStmts b.stmts)
  | exprs es => exact Graph.tested_ofBuild hR ((StepRule.aims _).lowerExprs es)

end Project.Code

end LevelGuard
