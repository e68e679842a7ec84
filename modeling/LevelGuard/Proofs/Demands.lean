import LevelGuard.Permission.Expr

/-!
# Demands and their parts

A demand is a tree, so what holds of it is proved from what holds of its parts. Here is that
induction, and beside it what each of the functions on demands says of a conjunction and of a
choice in terms of the parts: whether it is met, which names it has, and which parts.

Whether a demand is met depends on the names in it and on nothing else, and where no choice
is exclusive, more permissions never hurt.
-/
namespace LevelGuard.Permission.Expr

/-- Induction over a demand, with a hypothesis for each part of a conjunction or a choice. -/
@[elab_as_elim]
theorem parts_induction {motive : Expr → Prop} (single : ∀ name, motive (.single name))
    (allOf : ∀ parts, (∀ e ∈ parts, motive e) → motive (.allOf parts))
    (anyOf : ∀ parts, (∀ e ∈ parts, motive e) → motive (.anyOf parts))
    (xor : ∀ a b, motive a → motive b → motive (.xor a b))
    (conditional : ∀ inner, motive inner → motive (.conditional inner)) (e : Expr) : motive e :=
  @Expr.rec motive (fun parts => ∀ e ∈ parts, motive e) single allOf anyOf xor conditional nofun
    (fun _ _ he hparts => List.forall_mem_cons.mpr ⟨he, hparts⟩) e

variable {held sure held' sure' : NameSet}

attribute [local simp] satisfied allSatisfied anySatisfied namesOf missingNamesOf

theorem satisfied_single_iff {name : String} :
    (single name).satisfied held sure = true ↔ name ∈ held ∨ name ∈ sure := by
  simp

theorem allSatisfied_iff {parts : List Expr} :
    allSatisfied held sure parts = true ↔ ∀ e ∈ parts, e.satisfied held sure = true := by
  induction parts with
  | nil => simp
  | cons e parts ih => simp [ih]

theorem anySatisfied_iff {parts : List Expr} :
    anySatisfied held sure parts = true ↔ ∃ e ∈ parts, e.satisfied held sure = true := by
  induction parts with
  | nil => simp
  | cons e parts ih => simp [ih]

theorem allOf_satisfied_eq_false_iff {parts : List Expr} :
    (allOf parts).satisfied held sure = false ↔ ∃ e ∈ parts, e.satisfied held sure = false := by
  rw [← Bool.not_eq_true, satisfied, allSatisfied_iff]
  simp

theorem anyOf_satisfied_eq_false_iff {parts : List Expr} :
    (anyOf parts).satisfied held sure = false ↔ ∀ e ∈ parts, e.satisfied held sure = false := by
  rw [← Bool.not_eq_true, satisfied, anySatisfied_iff]
  simp

/-- A demand without an exclusive choice. -/
inductive Positive : Expr → Prop
  | single (name : String) : Positive (.single name)
  | allOf {parts : List Expr} : (∀ e ∈ parts, Positive e) → Positive (.allOf parts)
  | anyOf {parts : List Expr} : (∀ e ∈ parts, Positive e) → Positive (.anyOf parts)

/-- More permissions never hurt where no choice is exclusive. -/
theorem Positive.satisfied_mono {e : Expr} (h : e.Positive)
    (hmore : ∀ p, p ∈ held ∨ p ∈ sure → p ∈ held' ∨ p ∈ sure')
    (hmet : e.satisfied held sure = true) : e.satisfied held' sure' = true := by
  induction h with
  | single name => exact satisfied_single_iff.mpr (hmore name (satisfied_single_iff.mp hmet))
  | allOf _ ih =>
    refine allSatisfied_iff.mpr fun e he => ?_
    exact ih e he (allSatisfied_iff.mp hmet e he)
  | anyOf _ ih =>
    obtain ⟨e, he, hmet⟩ := anySatisfied_iff.mp hmet
    exact anySatisfied_iff.mpr ⟨e, he, ih e he hmet⟩

theorem namesOf_eq_flatMap (parts : List Expr) : namesOf parts = parts.flatMap names := by
  induction parts with
  | nil => simp
  | cons e parts ih => simp [ih]

theorem missingNamesOf_eq_flatMap (parts : List Expr) :
    missingNamesOf held sure parts = parts.flatMap (missingNames held sure) := by
  induction parts with
  | nil => simp
  | cons e parts ih => simp [ih]

mutual
/-- The demand and all parts of it, the outer ones first. -/
def nodes : Expr → List Expr
  | .single name => [.single name]
  | .allOf parts => .allOf parts :: nodesOf parts
  | .anyOf parts => .anyOf parts :: nodesOf parts
  | .xor a b => .xor a b :: (nodes a ++ nodes b)
  | .conditional inner => .conditional inner :: nodes inner

def nodesOf : List Expr → List Expr
  | [] => []
  | e :: es => nodes e ++ nodesOf es
end

theorem nodesOf_eq_flatMap (parts : List Expr) : nodesOf parts = parts.flatMap nodes := by
  induction parts with
  | nil => rfl
  | cons e parts ih => rw [nodesOf, ih, List.flatMap_cons]

section Parts

variable {parts : List Expr} {e s : Expr} {p : String}

theorem mem_names_allOf : p ∈ (allOf parts).names ↔ ∃ e ∈ parts, p ∈ e.names := by
  rw [names, namesOf_eq_flatMap, List.mem_flatMap]

theorem mem_names_anyOf : p ∈ (anyOf parts).names ↔ ∃ e ∈ parts, p ∈ e.names := by
  rw [names, namesOf_eq_flatMap, List.mem_flatMap]

theorem mem_nodes_allOf : s ∈ (allOf parts).nodes ↔ s = .allOf parts ∨ ∃ e ∈ parts, s ∈ e.nodes := by
  rw [nodes, nodesOf_eq_flatMap, List.mem_cons, List.mem_flatMap]

theorem mem_nodes_anyOf : s ∈ (anyOf parts).nodes ↔ s = .anyOf parts ∨ ∃ e ∈ parts, s ∈ e.nodes := by
  rw [nodes, nodesOf_eq_flatMap, List.mem_cons, List.mem_flatMap]

theorem self_mem_nodes (e : Expr) : e ∈ e.nodes := by
  cases e <;> exact List.mem_cons_self

theorem nodes_subset_allOf (he : e ∈ parts) : e.nodes ⊆ (allOf parts).nodes := fun _ hs =>
  mem_nodes_allOf.mpr (.inr ⟨e, he, hs⟩)

theorem nodes_subset_anyOf (he : e ∈ parts) : e.nodes ⊆ (anyOf parts).nodes := fun _ hs =>
  mem_nodes_anyOf.mpr (.inr ⟨e, he, hs⟩)

/-- Whether a demand is met depends on the names in it and on nothing else. -/
theorem satisfied_congr (e : Expr)
    (h : ∀ p ∈ e.names, p ∈ held ∨ p ∈ sure ↔ p ∈ held' ∨ p ∈ sure') :
    e.satisfied held sure = e.satisfied held' sure' := by
  induction e using parts_induction with
  | single p =>
    rw [Bool.eq_iff_iff, satisfied_single_iff, satisfied_single_iff]
    exact h p List.mem_cons_self
  | allOf parts ih =>
    rw [Bool.eq_iff_iff, satisfied, satisfied, allSatisfied_iff, allSatisfied_iff]
    refine forall₂_congr fun e he => ?_
    rw [ih e he fun p hp => h p (mem_names_allOf.mpr ⟨e, he, hp⟩)]
  | anyOf parts ih =>
    rw [Bool.eq_iff_iff, satisfied, satisfied, anySatisfied_iff, anySatisfied_iff]
    refine exists_congr fun e => and_congr_right fun he => ?_
    rw [ih e he fun p hp => h p (mem_names_anyOf.mpr ⟨e, he, hp⟩)]
  | xor a b iha ihb =>
    have ha := iha fun p hp => h p (List.mem_append_left _ hp)
    have hb := ihb fun p hp => h p (List.mem_append_right _ hp)
    simp only [satisfied, ha, hb]
  | conditional => rfl

end Parts

def isXor : Expr → Bool
  | .xor .. => true
  | _ => false

/-- No part of the demand is an exclusive choice. -/
def XorFree (e : Expr) : Prop := ∀ s ∈ e.nodes, s.isXor = false

instance (e : Expr) : Decidable e.XorFree :=
  inferInstanceAs (Decidable (∀ s ∈ e.nodes, s.isXor = false))

/-- No part of the demand is a choice among nothing. -/
def HasChoices (e : Expr) : Prop := .anyOf [] ∉ e.nodes

instance (e : Expr) : Decidable e.HasChoices := inferInstanceAs (Decidable (.anyOf [] ∉ e.nodes))

theorem HasChoices.ne_nil {parts : List Expr} (h : (anyOf parts).HasChoices) : parts ≠ [] := by
  rintro rfl
  exact h (self_mem_nodes _)

end LevelGuard.Permission.Expr
