/-!
# Finite sets in increasing order

A set is kept as the strictly increasing list of its members, so two sets with
the same members are equal and every listing of a set is sorted. The order of
the members is a `Key`: decidable, transitive, irreflexive and total.
-/
namespace LevelGuard

/-- A decidable strict total order. -/
class Key (α : Type) extends LT α where
  decideLt : ∀ a b : α, Decidable (a < b)
  lt_trans : ∀ {a b c : α}, a < b → b < c → a < c
  lt_irrefl : ∀ a : α, ¬ a < a
  eq_of_not_lt : ∀ {a b : α}, ¬ a < b → ¬ b < a → a = b

instance Key.decidableLt {α : Type} [Key α] (a b : α) : Decidable (a < b) := Key.decideLt a b

instance : Key String where
  decideLt := inferInstance
  lt_trans := String.lt_trans
  lt_irrefl := String.lt_irrefl
  eq_of_not_lt h₁ h₂ := String.le_antisymm (String.not_lt.mp h₂) (String.not_lt.mp h₁)

/-- A finite set as the increasing list of its members. -/
structure SortedSet (α : Type) [Key α] where
  toList : List α
  sorted : toList.Pairwise (· < ·)

namespace SortedSet

variable {α : Type} [Key α]

theorem ext {s t : SortedSet α} (h : s.toList = t.toList) : s = t := by
  cases s; cases t; cases h; rfl

instance [DecidableEq α] : DecidableEq (SortedSet α) := fun s t =>
  if h : s.toList = t.toList then isTrue (ext h) else isFalse fun e => h (e ▸ rfl)

instance : Membership α (SortedSet α) := ⟨fun s a => a ∈ s.toList⟩

theorem mem_def {a : α} {s : SortedSet α} : a ∈ s ↔ a ∈ s.toList := Iff.rfl

def empty : SortedSet α := ⟨[], .nil⟩

instance : EmptyCollection (SortedSet α) := ⟨empty⟩

instance : Inhabited (SortedSet α) := ⟨empty⟩

def place (a : α) : List α → List α
  | [] => [a]
  | b :: bs => if a < b then a :: b :: bs else if b < a then b :: place a bs else b :: bs

theorem mem_place {a x : α} {l : List α} : x ∈ place a l ↔ x = a ∨ x ∈ l := by
  induction l with
  | nil => simp [place]
  | cons b bs ih =>
    by_cases hab : a < b
    · simp [place, hab]
    · by_cases hba : b < a
      · simp only [place, hab, hba, if_true, if_false, List.mem_cons, ih]
        exact or_left_comm
      · obtain rfl := Key.eq_of_not_lt hab hba
        simp [place, hab]

theorem pairwise_place (a : α) {l : List α} (h : l.Pairwise (· < ·)) :
    (place a l).Pairwise (· < ·) := by
  induction l with
  | nil => simp [place]
  | cons b bs ih =>
    have hb := List.pairwise_cons.mp h
    by_cases hab : a < b
    · simp only [place, hab, if_true]
      refine List.pairwise_cons.mpr ⟨fun x hx => ?_, h⟩
      rcases List.mem_cons.mp hx with rfl | hx
      · exact hab
      · exact Key.lt_trans hab (hb.1 x hx)
    · by_cases hba : b < a
      · simp only [place, hab, hba, if_true, if_false]
        refine List.pairwise_cons.mpr ⟨fun x hx => ?_, ih hb.2⟩
        rcases mem_place.mp hx with rfl | hx
        · exact hba
        · exact hb.1 x hx
      · simpa only [place, hab, hba, if_false] using h

def insert (a : α) (s : SortedSet α) : SortedSet α :=
  ⟨place a s.toList, pairwise_place a s.sorted⟩

@[simp] theorem mem_insert {a x : α} {s : SortedSet α} : x ∈ s.insert a ↔ x = a ∨ x ∈ s :=
  mem_place

def insertAll (s : SortedSet α) (l : List α) : SortedSet α := l.foldl (fun s a => s.insert a) s

@[simp] theorem mem_insertAll {x : α} {l : List α} {s : SortedSet α} :
    x ∈ s.insertAll l ↔ x ∈ s ∨ x ∈ l := by
  induction l generalizing s with
  | nil => simp [insertAll]
  | cons a l ih =>
    have h := ih (s := s.insert a)
    simp only [insertAll, List.foldl_cons, List.mem_cons] at h ⊢
    rw [h, mem_insert]
    constructor
    · rintro ((h | h) | h)
      · exact .inr (.inl h)
      · exact .inl h
      · exact .inr (.inr h)
    · rintro (h | h | h)
      · exact .inl (.inr h)
      · exact .inl (.inl h)
      · exact .inr h

def ofList (l : List α) : SortedSet α := empty.insertAll l

@[simp] theorem mem_ofList {x : α} {l : List α} : x ∈ ofList l ↔ x ∈ l := by
  rw [ofList, mem_insertAll]
  exact ⟨fun h => h.resolve_left List.not_mem_nil, .inr⟩

def union (s t : SortedSet α) : SortedSet α := s.insertAll t.toList

@[simp] theorem mem_union {x : α} {s t : SortedSet α} : x ∈ s.union t ↔ x ∈ s ∨ x ∈ t :=
  mem_insertAll

def filter (p : α → Bool) (s : SortedSet α) : SortedSet α :=
  ⟨s.toList.filter p, s.sorted.filter p⟩

@[simp] theorem mem_filter {x : α} {p : α → Bool} {s : SortedSet α} :
    x ∈ s.filter p ↔ x ∈ s ∧ p x := List.mem_filter

variable [DecidableEq α]

def contains (s : SortedSet α) (a : α) : Bool := s.toList.contains a

@[simp] theorem contains_iff {a : α} {s : SortedSet α} : s.contains a = true ↔ a ∈ s := by
  simp [contains, mem_def]

instance (a : α) (s : SortedSet α) : Decidable (a ∈ s) := decidable_of_iff _ contains_iff

def inter (s t : SortedSet α) : SortedSet α := s.filter t.contains

@[simp] theorem mem_inter {x : α} {s t : SortedSet α} : x ∈ s.inter t ↔ x ∈ s ∧ x ∈ t := by
  simp [inter]

def isEmpty (s : SortedSet α) : Bool := s.toList.isEmpty

end SortedSet

abbrev NameSet := SortedSet String

end LevelGuard
