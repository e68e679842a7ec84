import LevelGuard.Flow.Recognizer
import LevelGuard.Proofs.Devices

/-!
# Conditions on a device

The values that a condition can have on a device. A comparison of the device's level
with a constant, or of the outcome of a permission check with a possible one, is a
comparison of two numbers; a variable that holds a guard has a value of the guard;
all other conditions are open. The guard that a condition is recognised as can have
every value that the condition can have.
-/
namespace LevelGuard.Flow

open Java Recognizer

/-- What the run of a program depends on from outside. -/
structure World where
  device : Device
  /-- The values that a variable can have where it is read as a condition. -/
  reads : String → Bool → Prop

/-- The comparison of two numbers, for an operator that compares. -/
def compare? (op : BinaryOp) (m n : Int) : Option Bool :=
  match op with
  | .eq => some (m = n)
  | .ne => some (m ≠ n)
  | .lt => some (m < n)
  | .le => some (m ≤ n)
  | .gt => some (n < m)
  | .ge => some (n ≤ m)
  | .and | .or | .other => none

theorem compare?_flipped (op : BinaryOp) (m n : Int) :
    compare? op.flipped n m = compare? op m n := by
  cases op with
  | eq => simp [BinaryOp.flipped, compare?, eq_comm]
  | ne => simp [BinaryOp.flipped, compare?, eq_comm]
  | _ => rfl

/-- The outcome of a permission check. -/
def outcome (granted : Bool) : Int := if granted then 0 else -1

theorem outcome_eq_iff {a b : Bool} : outcome a = outcome b ↔ a = b := by
  cases a <;> cases b <;> decide

namespace World

/-- The operand of a comparison is this number. -/
inductive Denotes (W : World) (R : Recognizer) : Expr → Int → Prop where
  | level {e : Expr} : R.readsLevel e = true → Denotes W R e W.device.level
  | constant {e : Expr} {v : Level} : levelConstant? e = some v → Denotes W R e v
  | check {s : Span} {target : Option Expr} {name permission : String} {args : List Expr} :
      permissionChecks.contains name = true → args.findSome? permissionName? = some permission →
      Denotes W R (.call s target name args) (outcome (W.device.granted permission))
  | status {e : Expr} {granted : Bool} : grants? e = some granted →
      Denotes W R e (outcome granted)

/-- The value of a condition that is a variable or a comparison. -/
def Value (W : World) (R : Recognizer) : Expr → Bool → Prop
  | .name _ n, t => W.reads n t
  | .binary _ op lhs rhs, t =>
    ∀ m n, W.Denotes R lhs m → W.Denotes R rhs n → compare? op m n = some t
  | _, _ => True

/-- The values that an atomic condition can have: all, if nothing is known about it. -/
def Truth (W : World) (R : Recognizer) (e : Expr) (t : Bool) : Prop :=
  (R.recognize? e).isSome → W.Value R e t

/-- The selector of a switch can lead to a case with these labels. -/
def Selects (W : World) (R : Recognizer) (selector : Expr) (labels : List Expr) : Prop :=
  (R.caseGuard? selector labels).isSome →
    ∃ l ∈ labels, ∀ m n, W.Denotes R selector m → W.Denotes R l n → m = n

/-- The device has a level that there is, and a variable that holds a guard has only
values that the guard can have. -/
structure Faithful (W : World) (R : Recognizer) : Prop where
  level_pos : 1 ≤ W.device.level
  level_le : W.device.level ≤ 2147483647
  truthful : ∀ n g t, R.flags.get? n = some g → W.reads n t → ∃ u, g.holds W.device u = t

end World

variable {R : Recognizer} {W : World}

/-- The bounds matter where the next or the last level would leave their range. -/
theorem comparisonGuard?_holds {d : Device} (hpos : 1 ≤ d.level) (hle : d.level ≤ 2147483647)
    {op : BinaryOp} {v : Level} {g : Guard} (hg : comparisonGuard? op v = some g) {t : Bool}
    (ht : compare? op d.level v = some t) (u : Leaves) : g.holds d u = t := by
  have hup : Level.up v ≤ d.level ↔ v < d.level := by
    have hgreatest : d.level < Level.greatest := Nat.lt_of_le_of_lt hle (by decide)
    unfold Level.up Level at *
    omega
  have hdown : d.level ≤ v - 1 ↔ d.level < v := by
    unfold Level at *
    omega
  cases op with
  | and | or | other => cases hg
  | _ =>
    cases hg
    cases ht
    simp only [Guard.holds, Guard.negate, hup, hdown, ne_eq, decide_not, Int.ofNat_inj,
      Int.ofNat_le, Int.ofNat_lt]

theorem levelGuard?_holds (hW : W.Faithful R) {op : BinaryOp} {accessor level : Expr} {g : Guard}
    (hg : R.levelGuard? op accessor level = some g) {t : Bool}
    (ht : ∀ m n, W.Denotes R accessor m → W.Denotes R level n → compare? op m n = some t)
    (u : Leaves) : g.holds W.device u = t := by
  unfold levelGuard? at hg
  split at hg
  · rename_i hreads
    obtain ⟨v, hv, hg⟩ := Option.bind_eq_some_iff.mp hg
    exact comparisonGuard?_holds hW.level_pos hW.level_le hg
      (ht _ _ (.level hreads) (.constant hv)) u
  · cases hg

theorem permissionGuard?_holds {op : BinaryOp} {check status : Expr} {g : Guard}
    (hg : permissionGuard? op check status = some g) {t : Bool}
    (ht : ∀ m n, W.Denotes R check m → W.Denotes R status n → compare? op m n = some t)
    (u : Leaves) : g.holds W.device u = t := by
  unfold permissionGuard? at hg
  split at hg
  · rename_i s target name args
    split at hg
    · rename_i hname
      obtain ⟨permission, hpermission, hg⟩ := Option.bind_eq_some_iff.mp hg
      obtain ⟨granted, hgranted, hg⟩ := Option.bind_eq_some_iff.mp hg
      have hcompare := ht _ _ (.check hname hpermission) (.status hgranted)
      cases op <;> cases granted <;> cases hg <;> cases hcompare <;>
        simp [Guard.holds, Guard.negate, outcome_eq_iff]
    · cases hg
  · cases hg

/-- A permission check is compared for equality only, so the order does not matter. -/
theorem permissionGuard?_flipped (op : BinaryOp) (check status : Expr) :
    permissionGuard? op.flipped check status = permissionGuard? op check status := by
  cases op with
  | eq | ne | and | or | other => rfl
  | lt | le | gt | ge => simp [BinaryOp.flipped, permissionGuard?]

theorem recognize?_binary {op : BinaryOp} (hand : op ≠ .and) (hor : op ≠ .or) (s : Span)
    (lhs rhs : Expr) : R.recognize? (.binary s op lhs rhs) =
      ((R.levelGuard? op lhs rhs).or <| (R.levelGuard? op.flipped rhs lhs).or <|
        (permissionGuard? op lhs rhs).or (permissionGuard? op rhs lhs)) := by
  cases op with
  | and => exact absurd rfl hand
  | or => exact absurd rfl hor
  | _ => rfl

theorem combined?_eq {node : List Guard → Guard} {l r : Option Guard} {g : Guard}
    (h : combined? node l r = some g) : g = node [l.getD .unknown, r.getD .unknown] := by
  unfold combined? at h
  split at h
  · cases h
  · exact (Option.some.inj h).symm

/-- Induction over the conditions that are recognised. An operand of a connective need not be
recognised itself. -/
@[elab_as_elim]
theorem recognize?_induction {motive : Expr → Guard → Prop}
    (not : ∀ s e g, R.recognize? e = some g → motive e g → motive (.unary s .not e) g.negate)
    (and : ∀ s lhs rhs, (∀ g, R.recognize? lhs = some g → motive lhs g) →
      (∀ g, R.recognize? rhs = some g → motive rhs g) → motive (.binary s .and lhs rhs)
        (.and [(R.recognize? lhs).getD .unknown, (R.recognize? rhs).getD .unknown]))
    (or : ∀ s lhs rhs, (∀ g, R.recognize? lhs = some g → motive lhs g) →
      (∀ g, R.recognize? rhs = some g → motive rhs g) → motive (.binary s .or lhs rhs)
        (.or [(R.recognize? lhs).getD .unknown, (R.recognize? rhs).getD .unknown]))
    (comparison : ∀ s op lhs rhs g, op ≠ .and → op ≠ .or →
      R.recognize? (.binary s op lhs rhs) = some g → motive (.binary s op lhs rhs) g)
    (name : ∀ s n g, R.flags.get? n = some g → motive (.name s n) g)
    {e : Expr} {g : Guard} (h : R.recognize? e = some g) : motive e g := by
  fun_induction Recognizer.recognize? R e generalizing g with
  | case1 s operand ih =>
    obtain ⟨g', hg', rfl⟩ := Option.map_eq_some_iff.mp h
    exact not s operand g' hg' (ih hg')
  | case2 s lhs rhs ihl ihr =>
    rw [combined?_eq h]
    exact and s lhs rhs (fun _ => ihl) (fun _ => ihr)
  | case3 s lhs rhs ihl ihr =>
    rw [combined?_eq h]
    exact or s lhs rhs (fun _ => ihl) (fun _ => ihr)
  | case4 s op lhs rhs hand hor =>
    exact comparison s op lhs rhs g hand hor (by rwa [recognize?_binary hand hor])
  | case5 s n => exact name s n g h
  | case6 => cases h

theorem World.Truth.comparison (hW : W.Faithful R) {s : Span} {op : BinaryOp} {lhs rhs : Expr}
    (hand : op ≠ .and) (hor : op ≠ .or) {t : Bool} (ht : W.Truth R (.binary s op lhs rhs) t)
    {g : Guard} (hg : R.recognize? (.binary s op lhs rhs) = some g) :
    ∃ u, g.holds W.device u = t := by
  have hvalue : W.Value R (.binary s op lhs rhs) t := ht (by simp [hg])
  have hflipped : ∀ m n, W.Denotes R rhs m → W.Denotes R lhs n →
      compare? op.flipped m n = some t := by
    intro m n hm hn
    rw [compare?_flipped]
    exact hvalue n m hn hm
  refine ⟨fun _ => true, ?_⟩
  rw [recognize?_binary hand hor] at hg
  rcases Option.or_eq_some_iff.mp hg with hg | ⟨-, hg⟩
  · exact levelGuard?_holds hW hg hvalue _
  rcases Option.or_eq_some_iff.mp hg with hg | ⟨-, hg⟩
  · exact levelGuard?_holds hW hg hflipped _
  rcases Option.or_eq_some_iff.mp hg with hg | ⟨-, hg⟩
  · exact permissionGuard?_holds hg hvalue _
  · rw [← permissionGuard?_flipped] at hg
    exact permissionGuard?_holds hg hflipped _

theorem World.Truth.variable (hW : W.Faithful R) {s : Span} {n : String} {t : Bool}
    (ht : W.Truth R (.name s n) t) {g : Guard} (hg : R.recognize? (.name s n) = some g) :
    ∃ u, g.holds W.device u = t :=
  hW.truthful n g t hg (ht (by simp [hg]))

theorem someHolds_of_mem {d : Device} {u : Leaves} {g : Guard} {gs : List Guard} (hg : g ∈ gs)
    (h : ∀ u, g.holds d u = true) (position : Nat) : Guard.someHolds d u position gs = true := by
  induction gs generalizing position with
  | nil => cases hg
  | cons g' gs ih =>
    rw [Guard.someHolds, Bool.or_eq_true]
    rcases List.mem_cons.mp hg with rfl | hg
    · exact .inl (h _)
    · exact .inr (ih hg _)

theorem exactly_mem_of_mapM {labels : List Expr} {gs : List Guard}
    (h : (labels.mapM fun l => (levelConstant? l).map Guard.exactly) = some gs) {l : Expr}
    (hl : l ∈ labels) : ∃ v, levelConstant? l = some v ∧ Guard.exactly v ∈ gs := by
  induction labels generalizing gs with
  | nil => cases hl
  | cons l' labels ih =>
    rw [List.mapM_cons] at h
    obtain ⟨g, hg, h⟩ := Option.bind_eq_some_iff.mp h
    obtain ⟨gs', hgs', h⟩ := Option.bind_eq_some_iff.mp h
    cases h
    obtain ⟨v, hv, rfl⟩ := Option.map_eq_some_iff.mp hg
    rcases List.mem_cons.mp hl with rfl | hl
    · exact ⟨v, hv, List.mem_cons_self⟩
    · obtain ⟨w, hw, hmem⟩ := ih hgs' hl
      exact ⟨w, hw, List.mem_cons_of_mem _ hmem⟩

/-- Where the labels of a case are recognised, their guard holds if the case is selected. -/
theorem World.Selects.holds {selector : Expr} {labels : List Expr}
    (h : W.Selects R selector labels) {g : Guard} (hg : R.caseGuard? selector labels = some g) :
    ∃ u, g.holds W.device u = true := by
  obtain ⟨l, hl, heq⟩ := h (by simp [hg])
  refine ⟨fun _ => true, ?_⟩
  unfold caseGuard? at hg
  split at hg
  · rename_i hreads
    obtain ⟨gs, hgs, hg⟩ := Option.bind_eq_some_iff.mp hg
    obtain ⟨v, hv, hmem⟩ := exactly_mem_of_mapM hgs hl
    have hlevel : W.device.level = v := Int.ofNat_inj.mp (heq _ _ (.level hreads) (.constant hv))
    have hholds : ∀ u, (Guard.exactly v).holds W.device u = true := fun _ => by
      simp [Guard.holds, hlevel]
    split at hg
    · cases hg
    · cases hg
      rw [← List.mem_singleton.mp hmem]
      exact hholds _
    · cases hg
      exact someHolds_of_mem hmem hholds 0
  · cases hg

end LevelGuard.Flow
