/-!
# Results, folds and runs

General facts that many modules use: what a computation that succeeds is made of, what a fold
brings about, and how a list is cut behind a run of elements of one class.
-/
namespace LevelGuard

theorem exists_of_bind_eq_ok {ε α β : Type} {x : Except ε α} {f : α → Except ε β} {b : β}
    (h : x >>= f = .ok b) : ∃ a, x = .ok a ∧ f a = .ok b := by
  cases x with
  | error e => cases h
  | ok a => exact ⟨a, rfl, h⟩

theorem getD_map_eq_flatMap {α β : Type} (o : Option α) (f : α → List β) :
    (o.map f).getD [] = o.toList.flatMap f := by
  cases o <;> simp

/-- What holds after a run holds at the start or is brought about by one of the steps. -/
theorem foldl_iff_exists {α β : Type} {step : β → α → β} {P : β → Prop} {Q : α → Prop}
    (h : ∀ b a, P (step b a) ↔ Q a ∨ P b) (as : List α) (b : β) :
    P (as.foldl step b) ↔ (∃ a ∈ as, Q a) ∨ P b := by
  induction as generalizing b with
  | nil => simp
  | cons a as ih =>
    rw [List.foldl_cons, ih, h, ← or_assoc, or_comm (b := Q a)]
    simp

section Runs

variable {α : Type} {p : α → Bool} {seg rest : List α}

theorem takeWhile_append_eq (hseg : ∀ a ∈ seg, p a = true) (hrest : ∀ a ∈ rest.head?, p a = false) :
    (seg ++ rest).takeWhile p = seg := by
  rw [List.takeWhile_append_of_pos hseg]
  cases rest with
  | nil => rw [List.takeWhile_nil, List.append_nil]
  | cons a rest => simp [hrest a rfl]

theorem dropWhile_append_eq (hseg : ∀ a ∈ seg, p a = true) (hrest : ∀ a ∈ rest.head?, p a = false) :
    (seg ++ rest).dropWhile p = rest := by
  rw [List.dropWhile_append_of_pos hseg]
  cases rest with
  | nil => rfl
  | cons a rest => simp [hrest a rfl]

theorem exists_run (p : α → Bool) (l : List α) : ∃ seg rest, l = seg ++ rest ∧
    (∀ a ∈ seg, p a = true) ∧ ∀ a ∈ rest.head?, p a = false := by
  refine ⟨l.takeWhile p, l.dropWhile p, List.takeWhile_append_dropWhile.symm,
    List.all_eq_true.mp List.all_takeWhile, fun a ha => ?_⟩
  have hnot := List.head?_dropWhile_not p l
  rwa [ha] at hnot

end Runs

end LevelGuard
