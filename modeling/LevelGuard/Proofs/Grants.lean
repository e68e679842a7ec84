import LevelGuard.Proofs.Demands

/-!
# What meets a demand

A world is a pair of sets: what the module holds and what its code has made sure of. Two
functions say beforehand what the worlds that meet a demand have in common and what a world
lacks that does not meet it.

The implied names are in every world that meets the demand. Without exclusive choices they
are all names of this kind: for any other name, the world of all names of the demand but
this one meets it. The missing names are what a world lacks: none if the demand is met, and
else names of the demand that are not in the world and with which it is met.
-/
namespace LevelGuard.Permission.Expr

variable {held sure held' sure' : NameSet} {e : Expr} {parts : List Expr} {p : String}

attribute [local simp] implied impliedByAll impliedByAny

theorem mem_implied_allOf : p ∈ (allOf parts).implied ↔ ∃ e ∈ parts, p ∈ e.implied := by
  rw [implied]
  induction parts with
  | nil => exact ⟨nofun, nofun⟩
  | cons e parts ih => simp [ih]

theorem mem_impliedByAny {common : NameSet} :
    p ∈ impliedByAny common parts ↔ p ∈ common ∧ ∀ e ∈ parts, p ∈ e.implied := by
  induction parts generalizing common with
  | nil => simp
  | cons e parts ih =>
    rw [impliedByAny, ih, SortedSet.mem_inter, and_assoc, List.forall_mem_cons]

theorem mem_implied_anyOf :
    p ∈ (anyOf parts).implied ↔ parts ≠ [] ∧ ∀ e ∈ parts, p ∈ e.implied := by
  cases parts with
  | nil => exact ⟨nofun, fun h => absurd rfl h.1⟩
  | cons e parts =>
    rw [implied, mem_impliedByAny, List.forall_mem_cons]
    exact (and_iff_right (List.cons_ne_nil _ _)).symm

/-- What a demand implies is there wherever the demand is met. -/
theorem mem_of_mem_implied (hp : p ∈ e.implied) (hmet : e.satisfied held sure = true) :
    p ∈ held ∨ p ∈ sure := by
  induction e using parts_induction with
  | single name =>
    obtain rfl : p = name := by simpa using hp
    exact satisfied_single_iff.mp hmet
  | allOf parts ih =>
    obtain ⟨e, he, hp⟩ := mem_implied_allOf.mp hp
    exact ih e he hp (allSatisfied_iff.mp hmet e he)
  | anyOf parts ih =>
    obtain ⟨e, he, hmet⟩ := anySatisfied_iff.mp hmet
    exact ih e he ((mem_implied_anyOf.mp hp).2 e he) hmet
  | xor a b => exact absurd hp List.not_mem_nil
  | conditional inner => exact absurd hp List.not_mem_nil

/-- A demand that does not imply a name is met by all its other names. -/
theorem satisfied_of_not_mem_implied (hxor : e.XorFree) (hchoices : e.HasChoices)
    (hp : p ∉ e.implied) (hothers : ∀ q ∈ e.names, q ≠ p → q ∈ held ∨ q ∈ sure) :
    e.satisfied held sure = true := by
  induction e using parts_induction with
  | single name =>
    have hne : name ≠ p := by
      rintro rfl
      exact hp (by simp)
    exact satisfied_single_iff.mpr (hothers name List.mem_cons_self hne)
  | allOf parts ih =>
    refine allSatisfied_iff.mpr fun e he => ?_
    have hsub := nodes_subset_allOf he
    exact ih e he (fun s hs => hxor s (hsub hs)) (fun hs => hchoices (hsub hs))
      (fun h => hp (mem_implied_allOf.mpr ⟨e, he, h⟩))
      fun q hq => hothers q (mem_names_allOf.mpr ⟨e, he, hq⟩)
  | anyOf parts ih =>
    -- some part does not imply the name, for there is a part at all
    have hsome : ¬ ∀ e ∈ parts, p ∈ e.implied := fun hall =>
      hp (mem_implied_anyOf.mpr ⟨hchoices.ne_nil, hall⟩)
    obtain ⟨e, he, hp⟩ : ∃ e ∈ parts, p ∉ e.implied := by simpa using hsome
    have hsub := nodes_subset_anyOf he
    exact anySatisfied_iff.mpr ⟨e, he, ih e he (fun s hs => hxor s (hsub hs))
      (fun hs => hchoices (hsub hs)) hp fun q hq => hothers q (mem_names_anyOf.mpr ⟨e, he, hq⟩)⟩
  | xor a b => exact absurd (hxor _ (self_mem_nodes _)) (by simp [isXor])
  | conditional inner => rfl

/-- The names that a demand implies are in every world that meets it. Where no choice is
exclusive or empty, they are exactly the names that are in every world that meets it. -/
theorem implied_sound_exact (e : Expr) (p : String) :
    (p ∈ e.implied → ∀ held sure : NameSet, e.satisfied held sure = true → p ∈ held ∨ p ∈ sure) ∧
    (e.XorFree → e.HasChoices → (p ∈ e.implied ↔
      ∀ held sure : NameSet, e.satisfied held sure = true → p ∈ held ∨ p ∈ sure)) := by
  have hsound : p ∈ e.implied →
      ∀ held sure : NameSet, e.satisfied held sure = true → p ∈ held ∨ p ∈ sure :=
    fun hp _ _ hmet => mem_of_mem_implied hp hmet
  refine ⟨hsound, fun hxor hchoices => ⟨hsound, fun hevery => ?_⟩⟩
  refine Decidable.byContradiction fun hp => ?_
  -- a world that has everything but the name
  let others : NameSet := e.permissions.filter (· ≠ p)
  have hmet : e.satisfied others .empty = true := by
    refine satisfied_of_not_mem_implied hxor hchoices hp fun q hq hne => .inl ?_
    exact SortedSet.mem_filter.mpr ⟨SortedSet.mem_ofList.mpr hq, by simpa using hne⟩
  have hlacks : p ∉ others := by simp [others]
  exact (hevery others .empty hmet).elim hlacks List.not_mem_nil

/-- Two ways to meet a demand that share a name, and a part that is not always enforced. -/
def sharedName : Expr :=
  .allOf [.anyOf [.allOf [.single "A", .single "B"], .allOf [.single "C", .single "A"]],
    .conditional (.single "D")]

theorem implied_sound_exact_shared :
    (∀ held sure : NameSet, sharedName.satisfied held sure = true → "A" ∈ held ∨ "A" ∈ sure) ∧
      ¬ ∀ held sure : NameSet, sharedName.satisfied held sure = true → "B" ∈ held ∨ "B" ∈ sure := by
  have hxor : sharedName.XorFree := by decide +kernel
  have hchoices : sharedName.HasChoices := by decide +kernel
  refine ⟨(implied_sound_exact sharedName "A").1 (by decide +kernel), fun hevery => ?_⟩
  have hB := ((implied_sound_exact sharedName "B").2 hxor hchoices).mpr hevery
  exact absurd hB (by decide +kernel)

theorem mem_missingNames_single {name : String} : p ∈ (single name).missingNames held sure ↔
    (single name).satisfied held sure = false ∧ p = name := by
  rw [missingNames, satisfied]
  cases held.contains name || sure.contains name <;> simp

theorem mem_missingNames_allOf : p ∈ (allOf parts).missingNames held sure ↔
    (allOf parts).satisfied held sure = false ∧ ∃ e ∈ parts, p ∈ e.missingNames held sure := by
  rw [missingNames, missingNamesOf_eq_flatMap]
  cases (allOf parts).satisfied held sure <;> simp

theorem mem_missingNames_anyOf : p ∈ (anyOf parts).missingNames held sure ↔
    (anyOf parts).satisfied held sure = false ∧ ∃ e ∈ parts, p ∈ e.missingNames held sure := by
  rw [missingNames, missingNamesOf_eq_flatMap]
  cases (anyOf parts).satisfied held sure <;> simp

theorem mem_missingNames_xor {a b : Expr} : p ∈ (xor a b).missingNames held sure ↔
    (xor a b).satisfied held sure = false ∧
      (p ∈ a.missingNames held sure ∨ p ∈ b.missingNames held sure) := by
  rw [missingNames]
  cases (xor a b).satisfied held sure <;> simp

/-- What is missing is named in the demand and is not in the world. -/
theorem of_mem_missingNames (hp : p ∈ e.missingNames held sure) :
    p ∈ e.names ∧ p ∉ held ∧ p ∉ sure := by
  induction e using parts_induction with
  | single name =>
    obtain ⟨hfails, rfl⟩ := mem_missingNames_single.mp hp
    have hlacks : ¬ (p ∈ held ∨ p ∈ sure) := by
      rw [← satisfied_single_iff, hfails]
      exact Bool.false_ne_true
    exact ⟨List.mem_cons_self, not_or.mp hlacks⟩
  | allOf parts ih =>
    obtain ⟨-, e, he, hp⟩ := mem_missingNames_allOf.mp hp
    exact ⟨mem_names_allOf.mpr ⟨e, he, (ih e he hp).1⟩, (ih e he hp).2⟩
  | anyOf parts ih =>
    obtain ⟨-, e, he, hp⟩ := mem_missingNames_anyOf.mp hp
    exact ⟨mem_names_anyOf.mpr ⟨e, he, (ih e he hp).1⟩, (ih e he hp).2⟩
  | xor a b iha ihb =>
    rcases (mem_missingNames_xor.mp hp).2 with hp | hp
    · exact ⟨List.mem_append_left _ (iha hp).1, (iha hp).2⟩
    · exact ⟨List.mem_append_right _ (ihb hp).1, (ihb hp).2⟩
  | conditional inner ih => exact ih hp

/-- Nothing is missing where a demand is met. -/
theorem Positive.missingNames_eq_nil (h : e.Positive) (hmet : e.satisfied held sure = true) :
    e.missingNames held sure = [] := by
  cases h <;> exact if_pos hmet

/-- With what is missing a demand is met. -/
theorem Positive.satisfied_of_granted (h : e.Positive) (hchoices : e.HasChoices)
    (hmore : ∀ p, p ∈ held ∨ p ∈ sure → p ∈ held' ∨ p ∈ sure')
    (hgranted : ∀ p ∈ e.missingNames held sure, p ∈ held' ∨ p ∈ sure') :
    e.satisfied held' sure' = true := by
  induction h with
  | single name =>
    cases hfails : (Expr.single name).satisfied held sure with
    | true => exact satisfied_single_iff.mpr (hmore name (satisfied_single_iff.mp hfails))
    | false =>
      have hmissing := mem_missingNames_single.mpr ⟨hfails, rfl⟩
      exact satisfied_single_iff.mpr (hgranted name hmissing)
  | @allOf parts hparts ih =>
    cases hfails : (Expr.allOf parts).satisfied held sure with
    | true => exact (Positive.allOf hparts).satisfied_mono hmore hfails
    | false =>
      refine allSatisfied_iff.mpr fun e he => ih e he (fun hs => hchoices (nodes_subset_allOf he hs)) ?_
      exact fun p hp => hgranted p (mem_missingNames_allOf.mpr ⟨hfails, e, he, hp⟩)
  | @anyOf parts hparts ih =>
    cases hfails : (Expr.anyOf parts).satisfied held sure with
    | true => exact (Positive.anyOf hparts).satisfied_mono hmore hfails
    | false =>
      -- all parts fail, and what they lack is granted to each, so any part will do
      obtain ⟨e, he⟩ := List.exists_mem_of_ne_nil parts hchoices.ne_nil
      refine anySatisfied_iff.mpr ⟨e, he, ih e he (fun hs => hchoices (nodes_subset_anyOf he hs)) ?_⟩
      exact fun p hp => hgranted p (mem_missingNames_anyOf.mpr ⟨hfails, e, he, hp⟩)

/-- Of a demand without exclusive and empty choices nothing is missing exactly if it is met;
what is missing is named in it and is not there; and with what is missing it is met. -/
theorem missing_completes {e : Expr} (h : e.Positive) (hchoices : e.HasChoices)
    (held sure : NameSet) :
    ((e.missing held sure).isEmpty = true ↔ e.satisfied held sure = true) ∧
    (∀ p ∈ e.missing held sure, p ∉ held ∧ p ∉ sure ∧ p ∈ e.permissions) ∧
    e.satisfied (held.union (e.missing held sure)) sure = true := by
  have hmore : ∀ p, p ∈ held ∨ p ∈ sure → p ∈ held.union (e.missing held sure) ∨ p ∈ sure :=
    fun p hp => hp.imp_left fun hp => SortedSet.mem_union.mpr (.inl hp)
  have hgranted : e.satisfied (held.union (e.missing held sure)) sure = true := by
    refine h.satisfied_of_granted hchoices hmore fun p hp => .inl ?_
    exact SortedSet.mem_union.mpr (.inr (SortedSet.mem_ofList.mpr hp))
  refine ⟨⟨fun hnone => ?_, fun hmet => ?_⟩, fun p hp => ?_, hgranted⟩
  · have hsame : held.union (e.missing held sure) = held := by
      rw [SortedSet.union, List.isEmpty_iff.mp hnone]
      rfl
    rwa [hsame] at hgranted
  · rw [missing, h.missingNames_eq_nil hmet]
    rfl
  · obtain ⟨hname, hheld, hsure⟩ := of_mem_missingNames (SortedSet.mem_ofList.mp hp)
    exact ⟨hheld, hsure, SortedSet.mem_ofList.mpr hname⟩

/-- A demand of which one part is met where the other two are not, each in its own way. -/
def halfMet : Expr :=
  .allOf [.single "A", .anyOf [.allOf [.single "B", .single "C"], .single "D"],
    .anyOf [.single "A", .single "E"]]

theorem missing_completes_half :
    (halfMet.missing (.ofList ["B"]) (.ofList ["E"])).toList = ["A", "C", "D"] ∧
      halfMet.satisfied (.ofList ["B"]) (.ofList ["E"]) = false ∧
      halfMet.satisfied
        ((SortedSet.ofList ["B"]).union (halfMet.missing (.ofList ["B"]) (.ofList ["E"])))
        (.ofList ["E"]) = true := by
  have hpositive : halfMet.Positive :=
    .allOf (by simp [Positive.single, Positive.allOf, Positive.anyOf])
  have hchoices : halfMet.HasChoices := by decide +kernel
  exact ⟨by decide +kernel, by decide +kernel, (missing_completes hpositive hchoices _ _).2.2⟩

end LevelGuard.Permission.Expr
