import LevelGuard.Proofs.Grants

/-!
# The names in a message about missing permissions

The message for a demand that fails is made of names, of the words between them and of
parentheses. Which names it has is said twice: `Wording` takes the text apart by how it is
made, whatever the names look like, and `namesIn` reads its words. For names that are words
themselves the two agree.

Of a conjunction the message has the parts that fail, but a choice stands in it as a whole.
So the names in the message are the missing ones and, where a choice fails, also those of the
parts of it that are met. If no conjunction stands inside of a choice, there are no such
parts, and the message has exactly the missing names.
-/
namespace LevelGuard

namespace Text

theorem segments_append_cons {p : Char → Bool} {c : Char} (hc : p c = true) (a b : List Char) :
    segments p (a ++ c :: b) = segments p a ++ segments p b := by
  induction a with
  | nil => simp [segments, hc]
  | cons d a ih =>
    by_cases hd : p d = true
    · simp [segments, hd, ih]
    · cases ha : segments p a with
      | nil => exact absurd ha (segments_ne_nil p a)
      | cons s ss => simp [segments, hd, ih, ha]

theorem segments_eq_singleton {p : Char → Bool} {cs : List Char} (h : ∀ c ∈ cs, p c = false) :
    segments p cs = [cs] := by
  induction cs with
  | nil => rfl
  | cons c cs ih =>
    obtain ⟨hc, hcs⟩ := List.forall_mem_cons.mp h
    simp [segments, hc, ih hcs]

end Text

namespace Permission

/-- The characters around the words of a message. -/
def isMark (c : Char) : Bool := c == ' ' || c == '(' || c == ')'

/-- The words that are not names. -/
def connectives : List String := ["and", "or", "xor"]

def runs (cs : List Char) : List (List Char) := (Text.segments isMark cs).filter (!·.isEmpty)

def namesIn (message : String) : List String :=
  ((runs message.toList).map String.ofList).filter (!connectives.contains ·)

/-- Whether a name can be told from the rest of a message. -/
structure IsReadable (name : String) : Prop where
  ne_empty : name ≠ ""
  noMark : ∀ c ∈ name.toList, isMark c = false
  notConnective : name ∉ connectives

instance (name : String) : Decidable (IsReadable name) :=
  decidable_of_iff (name ≠ "" ∧ name.toList.all (!isMark ·) = true ∧ name ∉ connectives)
    ⟨fun h => ⟨h.1, by simpa using h.2.1, h.2.2⟩,
      fun h => ⟨h.ne_empty, by simpa using h.noMark, h.notConnective⟩⟩

theorem runs_append_cons {c : Char} (hc : isMark c = true) (a b : List Char) :
    runs (a ++ c :: b) = runs a ++ runs b := by
  rw [runs, Text.segments_append_cons hc, List.filter_append]
  rfl

theorem runs_eq_singleton {cs : List Char} (hne : cs ≠ []) (h : ∀ c ∈ cs, isMark c = false) :
    runs cs = [cs] := by
  rw [runs, Text.segments_eq_singleton h]
  simp [hne]

theorem IsReadable.namesIn_eq {name : String} (h : IsReadable name) : namesIn name = [name] := by
  have hne : name.toList ≠ [] := by simpa using h.ne_empty
  rw [namesIn, runs_eq_singleton hne h.noMark]
  simp [h.notConnective]

/-- What stands between two parts of a message. -/
def separators : List String := [" and ", " or ", " xor "]

theorem namesIn_joined {sep : String} (hsep : sep ∈ separators) (a b : String) :
    namesIn (a ++ sep ++ b) = namesIn a ++ namesIn b := by
  obtain ⟨word, hword, hmarks, hsep⟩ : ∃ word ∈ connectives,
      runs word.toList = [word.toList] ∧ sep.toList = ' ' :: (word.toList ++ [' ']) := by
    simp only [separators, List.mem_cons, List.not_mem_nil, or_false] at hsep
    rcases hsep with rfl | rfl | rfl
    · exact ⟨"and", by decide, by decide, by decide⟩
    · exact ⟨"or", by decide, by decide, by decide⟩
    · exact ⟨"xor", by decide, by decide, by decide⟩
  have hlist : (a ++ sep ++ b).toList = a.toList ++ ' ' :: (word.toList ++ ' ' :: b.toList) := by
    simp [hsep]
  have hblank : isMark ' ' = true := by decide
  rw [namesIn, hlist, runs_append_cons hblank, runs_append_cons hblank, hmarks]
  simp [namesIn, hword]

theorem namesIn_enclosed (a : String) : namesIn ("(" ++ a ++ ")") = namesIn a := by
  have hlist : ("(" ++ a ++ ")").toList = [] ++ '(' :: (a.toList ++ ')' :: []) := by simp
  rw [namesIn, hlist, runs_append_cons (by decide), runs_append_cons (by decide)]
  simp [namesIn, runs, Text.segments]

/-- A message is made of names, in this order. -/
inductive Wording : String → List String → Prop
  | nothing : Wording "" []
  | name (name : String) : Wording name [name]
  | joined {sep a b : String} {ns ms : List String} (hsep : sep ∈ separators) (ha : Wording a ns)
      (hb : Wording b ms) : Wording (a ++ sep ++ b) (ns ++ ms)
  | enclosed {a : String} {ns : List String} (ha : Wording a ns) : Wording ("(" ++ a ++ ")") ns

/-- The names of which a message is made are those that are read in it. -/
theorem Wording.namesIn_eq {message : String} {ns : List String} (h : Wording message ns)
    (hwords : ∀ n ∈ ns, IsReadable n) : namesIn message = ns := by
  induction h with
  | nothing => rfl
  | name name => exact (hwords name List.mem_cons_self).namesIn_eq
  | joined hsep _ _ iha ihb =>
    obtain ⟨hns, hms⟩ := List.forall_mem_append.mp hwords
    rw [namesIn_joined hsep, iha hns, ihb hms]
  | enclosed _ ih => rw [namesIn_enclosed, ih hwords]

theorem Wording.joinWith {α : Type} {sep : String} (hsep : sep ∈ separators) {text : α → String}
    {ns : α → List String} {l : List α} (h : ∀ a ∈ l, Wording (text a) (ns a)) :
    Wording (Text.joinWith sep (l.map text)) (l.flatMap ns) := by
  induction l with
  | nil => exact .nothing
  | cons a l ih =>
    obtain ⟨ha, hl⟩ := List.forall_mem_cons.mp h
    cases l with
    | nil => simpa [Text.joinWith] using ha
    | cons b l => exact .joined hsep ha (ih hl)

namespace Expr

variable {held sure : NameSet} {e s : Expr} {parts : List Expr} {p : String}

theorem partTexts_eq_map (parts : List Expr) :
    partTexts parts = parts.map fun e => e.enclose e.text := by
  induction parts with
  | nil => rfl
  | cons e parts ih => rw [partTexts, ih, List.map_cons]

theorem missingTexts_eq_map (parts : List Expr) :
    missingTexts held sure parts = (parts.filter (!·.satisfied held sure)).map
      fun e => e.enclose (e.describeMissing held sure) := by
  induction parts with
  | nil => rfl
  | cons e parts ih => cases he : e.satisfied held sure <;> simp [missingTexts, he, ih]

theorem wording_enclose {text : String} {ns : List String} (e : Expr) (h : Wording text ns) :
    Wording (e.enclose text) ns := by
  rw [enclose]
  split
  · exact h.enclosed
  · exact h

theorem wording_text (e : Expr) : Wording e.text e.names := by
  induction e using parts_induction with
  | single name => exact .name name
  | allOf parts ih =>
    rw [text, partTexts_eq_map, names, namesOf_eq_flatMap]
    exact .joinWith (by decide) fun e he => wording_enclose e (ih e he)
  | anyOf parts ih =>
    rw [text, partTexts_eq_map, names, namesOf_eq_flatMap]
    exact .joinWith (by decide) fun e he => wording_enclose e (ih e he)
  | xor a b iha ihb => exact .joined (by decide) (wording_enclose a iha) (wording_enclose b ihb)
  | conditional inner ih => exact ih

mutual
/-- The names that the message for a failing demand is made of. -/
def named (held sure : NameSet) : Expr → List String
  | .single name => [name]
  | .allOf parts => namedOf held sure parts
  | .anyOf parts => (Expr.anyOf parts).names
  | .xor a b => (Expr.xor a b).names
  | .conditional inner => named held sure inner

def namedOf (held sure : NameSet) : List Expr → List String
  | [] => []
  | e :: es =>
    if e.satisfied held sure then namedOf held sure es
    else named held sure e ++ namedOf held sure es
end

theorem namedOf_eq_flatMap (parts : List Expr) : namedOf held sure parts =
    (parts.filter (!·.satisfied held sure)).flatMap (named held sure) := by
  induction parts with
  | nil => rfl
  | cons e parts ih => cases he : e.satisfied held sure <;> simp [namedOf, he, ih]

theorem mem_named_allOf : p ∈ (allOf parts).named held sure ↔
    ∃ e ∈ parts, e.satisfied held sure = false ∧ p ∈ e.named held sure := by
  rw [named, namedOf_eq_flatMap]
  simp [and_assoc]

theorem wording_describeMissing (held sure : NameSet) (e : Expr) :
    Wording (e.describeMissing held sure) (e.named held sure) := by
  induction e using parts_induction with
  | single name => exact .name name
  | allOf parts ih =>
    rw [describeMissing, missingTexts_eq_map, named, namedOf_eq_flatMap]
    exact .joinWith (by decide) fun e he => wording_enclose e (ih e (List.mem_filter.mp he).1)
  | anyOf parts => exact wording_text (.anyOf parts)
  | xor a b => exact wording_text (.xor a b)
  | conditional inner ih => exact ih

/-- A part that must hold for the whole to hold, since only conjunctions stand around it. -/
inductive Conjunct (s : Expr) : Expr → Prop
  | self : Conjunct s s
  | part {parts : List Expr} {e : Expr} (he : e ∈ parts) (h : Conjunct s e) :
      Conjunct s (.allOf parts)

theorem Conjunct.satisfied_eq_false (h : Conjunct s e) (hfails : s.satisfied held sure = false) :
    e.satisfied held sure = false := by
  induction h with
  | self => exact hfails
  | part he _ ih => exact allOf_satisfied_eq_false_iff.mpr ⟨_, he, ih⟩

/-- The name stands in a part that is met, of a choice that fails and that must hold. -/
def InMetPart (held sure : NameSet) (e : Expr) (p : String) : Prop :=
  ∃ parts s, Conjunct (.anyOf parts) e ∧ (anyOf parts).satisfied held sure = false ∧
    s ∈ (anyOf parts).nodes ∧ s.satisfied held sure = true ∧ p ∈ s.names

theorem InMetPart.satisfied_eq_false (h : e.InMetPart held sure p) :
    e.satisfied held sure = false := by
  obtain ⟨parts, s, hconjunct, hfails, -⟩ := h
  exact hconjunct.satisfied_eq_false hfails

theorem inMetPart_allOf :
    (allOf parts).InMetPart held sure p ↔ ∃ e ∈ parts, e.InMetPart held sure p := by
  constructor
  · rintro ⟨choice, s, hconjunct, hs⟩
    cases hconjunct with
    | part he hconjunct => exact ⟨_, he, choice, s, hconjunct, hs⟩
  · rintro ⟨e, he, choice, s, hconjunct, hs⟩
    exact ⟨choice, s, .part he hconjunct, hs⟩

theorem inMetPart_anyOf (hfails : (anyOf parts).satisfied held sure = false) :
    (anyOf parts).InMetPart held sure p ↔
      ∃ s ∈ (anyOf parts).nodes, s.satisfied held sure = true ∧ p ∈ s.names := by
  constructor
  · rintro ⟨choice, s, hconjunct, -, hs⟩
    cases hconjunct with
    | self => exact ⟨s, hs⟩
  · rintro ⟨s, hs⟩
    exact ⟨parts, s, .self, hfails, hs⟩

theorem names_subset_of_mem_nodes (hs : s ∈ e.nodes) : s.names ⊆ e.names := by
  intro p hp
  induction e using parts_induction with
  | single name => exact List.mem_singleton.mp hs ▸ hp
  | allOf parts ih =>
    rcases mem_nodes_allOf.mp hs with rfl | ⟨e, he, hs⟩
    · exact hp
    · exact mem_names_allOf.mpr ⟨e, he, ih e he hs⟩
  | anyOf parts ih =>
    rcases mem_nodes_anyOf.mp hs with rfl | ⟨e, he, hs⟩
    · exact hp
    · exact mem_names_anyOf.mpr ⟨e, he, ih e he hs⟩
  | xor a b iha ihb =>
    rcases List.mem_cons.mp hs with rfl | hs
    · exact hp
    · rcases List.mem_append.mp hs with hs | hs
      · exact List.mem_append_left _ (iha hs)
      · exact List.mem_append_right _ (ihb hs)
  | conditional inner ih =>
    rcases List.mem_cons.mp hs with rfl | hs
    · exact hp
    · exact ih hs

/-- A name of a demand is missing or stands in a part that is met. -/
theorem Positive.mem_names_iff (h : e.Positive) : p ∈ e.names ↔
    p ∈ e.missingNames held sure ∨ ∃ s ∈ e.nodes, s.satisfied held sure = true ∧ p ∈ s.names := by
  constructor
  · intro hp
    induction h with
    | single name =>
      cases hname : (Expr.single name).satisfied held sure with
      | true => exact .inr ⟨_, self_mem_nodes _, hname, hp⟩
      | false => exact .inl (mem_missingNames_single.mpr ⟨hname, List.mem_singleton.mp hp⟩)
    | @allOf parts _ ih =>
      cases hall : (Expr.allOf parts).satisfied held sure with
      | true => exact .inr ⟨_, self_mem_nodes _, hall, hp⟩
      | false =>
        obtain ⟨e, he, hp⟩ := mem_names_allOf.mp hp
        rcases ih e he hp with hp | ⟨s, hs, hmet⟩
        · exact .inl (mem_missingNames_allOf.mpr ⟨hall, e, he, hp⟩)
        · exact .inr ⟨s, nodes_subset_allOf he hs, hmet⟩
    | @anyOf parts _ ih =>
      cases hany : (Expr.anyOf parts).satisfied held sure with
      | true => exact .inr ⟨_, self_mem_nodes _, hany, hp⟩
      | false =>
        obtain ⟨e, he, hp⟩ := mem_names_anyOf.mp hp
        rcases ih e he hp with hp | ⟨s, hs, hmet⟩
        · exact .inl (mem_missingNames_anyOf.mpr ⟨hany, e, he, hp⟩)
        · exact .inr ⟨s, nodes_subset_anyOf he hs, hmet⟩
  · rintro (hp | ⟨s, hs, -, hp⟩)
    · exact (of_mem_missingNames hp).1
    · exact names_subset_of_mem_nodes hs hp

theorem Positive.satisfied_eq_false_of_mem_missingNames (h : e.Positive)
    (hp : p ∈ e.missingNames held sure) : e.satisfied held sure = false := by
  refine Bool.eq_false_iff.mpr fun hmet => ?_
  rw [h.missingNames_eq_nil hmet] at hp
  exact absurd hp List.not_mem_nil

/-- The names in the message are the missing ones and those of parts that are met, of a
choice that fails. -/
theorem Positive.mem_named_iff (h : e.Positive) (hfails : e.satisfied held sure = false) :
    p ∈ e.named held sure ↔ p ∈ e.missingNames held sure ∨ e.InMetPart held sure p := by
  induction h with
  | single name =>
    have hnone : ¬ (Expr.single name).InMetPart held sure p := by
      rintro ⟨_, _, hconjunct, -⟩
      cases hconjunct
    rw [or_iff_left hnone, mem_missingNames_single, and_iff_right hfails, named, List.mem_singleton]
  | @allOf parts hparts ih =>
    rw [mem_named_allOf, mem_missingNames_allOf, and_iff_right hfails, inMetPart_allOf]
    -- the parts that are left out are met: they lack nothing, and no choice in them must hold
    -- and fails
    constructor
    · rintro ⟨e, he, hfails, hp⟩
      exact ((ih e he hfails).mp hp).imp (fun hp => ⟨e, he, hp⟩) fun hp => ⟨e, he, hp⟩
    · rintro (⟨e, he, hp⟩ | ⟨e, he, hp⟩)
      · have hfails := (hparts e he).satisfied_eq_false_of_mem_missingNames hp
        exact ⟨e, he, hfails, (ih e he hfails).mpr (.inl hp)⟩
      · exact ⟨e, he, hp.satisfied_eq_false, (ih e he hp.satisfied_eq_false).mpr (.inr hp)⟩
  | anyOf hparts =>
    rw [inMetPart_anyOf hfails, named]
    exact (Positive.anyOf hparts).mem_names_iff

theorem named_subset_names (e : Expr) : e.named held sure ⊆ e.names := by
  intro p hp
  induction e using parts_induction with
  | single name => exact hp
  | allOf parts ih =>
    obtain ⟨e, he, -, hp⟩ := mem_named_allOf.mp hp
    exact mem_names_allOf.mpr ⟨e, he, ih e he hp⟩
  | anyOf parts => exact hp
  | xor a b => exact hp
  | conditional inner ih => exact ih hp

theorem single_mem_nodes (hp : p ∈ e.names) : .single p ∈ e.nodes := by
  induction e using parts_induction with
  | single name => exact List.mem_singleton.mp hp ▸ self_mem_nodes _
  | allOf parts ih =>
    obtain ⟨e, he, hp⟩ := mem_names_allOf.mp hp
    exact nodes_subset_allOf he (ih e he hp)
  | anyOf parts ih =>
    obtain ⟨e, he, hp⟩ := mem_names_anyOf.mp hp
    exact nodes_subset_anyOf he (ih e he hp)
  | xor a b iha ihb =>
    refine List.mem_cons_of_mem _ (List.mem_append.mpr ?_)
    exact (List.mem_append.mp hp).imp iha ihb
  | conditional inner ih => exact List.mem_cons_of_mem _ (ih hp)

/-- A permission that is there stands in a part that is met wherever a choice fails. -/
theorem inMetPart_iff_of_mem (hp : p ∈ held ∨ p ∈ sure) : e.InMetPart held sure p ↔
    ∃ parts, Conjunct (.anyOf parts) e ∧ (anyOf parts).satisfied held sure = false ∧
      p ∈ (anyOf parts).names := by
  constructor
  · rintro ⟨parts, s, hconjunct, hfails, hs, -, hname⟩
    exact ⟨parts, hconjunct, hfails, names_subset_of_mem_nodes hs hname⟩
  · rintro ⟨parts, hconjunct, hfails, hname⟩
    exact ⟨parts, .single p, hconjunct, hfails, single_mem_nodes hname,
      satisfied_single_iff.mpr hp, List.mem_cons_self⟩

def isAllOf : Expr → Bool
  | .allOf _ => true
  | _ => false

def isAnyOf : Expr → Bool
  | .anyOf _ => true
  | _ => false

/-- No conjunction stands inside of a choice. -/
def FlatChoices (e : Expr) : Prop :=
  ∀ choice ∈ e.nodes, choice.isAnyOf = true → ∀ s ∈ choice.nodes, s.isAllOf = false

theorem Conjunct.mem_nodes (h : Conjunct s e) : s ∈ e.nodes := by
  induction h with
  | self => exact self_mem_nodes _
  | part he _ ih => exact nodes_subset_allOf he ih

theorem Positive.of_mem_nodes (h : e.Positive) (hs : s ∈ e.nodes) : s.Positive := by
  induction h with
  | single name => exact List.mem_singleton.mp hs ▸ .single name
  | allOf hparts ih =>
    rcases mem_nodes_allOf.mp hs with rfl | ⟨e, he, hs⟩
    · exact .allOf hparts
    · exact ih e he hs
  | anyOf hparts ih =>
    rcases mem_nodes_anyOf.mp hs with rfl | ⟨e, he, hs⟩
    · exact .anyOf hparts
    · exact ih e he hs

/-- Without conjunctions all parts of a demand that fails fail. -/
theorem Positive.satisfied_eq_false_of_mem_nodes (h : e.Positive)
    (hflat : ∀ s ∈ e.nodes, s.isAllOf = false) (hfails : e.satisfied held sure = false)
    (hs : s ∈ e.nodes) : s.satisfied held sure = false := by
  induction h with
  | single name => exact List.mem_singleton.mp hs ▸ hfails
  | allOf => exact absurd (hflat _ (self_mem_nodes _)) (by simp [isAllOf])
  | anyOf _ ih =>
    rcases mem_nodes_anyOf.mp hs with rfl | ⟨e, he, hs⟩
    · exact hfails
    · exact ih e he (fun s hs => hflat s (nodes_subset_anyOf he hs))
        (anyOf_satisfied_eq_false_iff.mp hfails e he) hs

theorem FlatChoices.not_inMetPart (hflat : e.FlatChoices) (h : e.Positive) :
    ¬ e.InMetPart held sure p := by
  rintro ⟨parts, s, hconjunct, hfails, hs, hmet, -⟩
  have hparts := hflat _ hconjunct.mem_nodes rfl
  have hnot := (h.of_mem_nodes hconjunct.mem_nodes).satisfied_eq_false_of_mem_nodes hparts hfails hs
  exact Bool.false_ne_true (hnot.symm.trans hmet)

/-- The message for a demand that fails is made of names, which are the words in it if they
are words. They are the missing names and those of parts that are met, of a choice that
fails. So a permission that is there is named exactly if it stands in a choice that fails,
and if no conjunction stands inside of a choice, the names are exactly the missing ones. -/
theorem names_in_message {e : Expr} (h : e.Positive) (held sure : NameSet)
    (hfails : e.satisfied held sure = false) :
    ∃ ns, Wording (e.describeMissing held sure) ns ∧
      ((∀ p ∈ e.permissions, IsReadable p) → namesIn (e.describeMissing held sure) = ns) ∧
      (∀ p, p ∈ ns ↔ p ∈ e.missing held sure ∨ e.InMetPart held sure p) ∧
      (∀ p, p ∈ held ∨ p ∈ sure → (p ∈ ns ↔ ∃ parts, Conjunct (.anyOf parts) e ∧
        (anyOf parts).satisfied held sure = false ∧ p ∈ (anyOf parts).names)) ∧
      (e.FlatChoices → ∀ p, p ∈ ns ↔ p ∈ e.missing held sure) := by
  have hnamed : ∀ p, p ∈ e.named held sure ↔ p ∈ e.missing held sure ∨ e.InMetPart held sure p := by
    intro p
    rw [missing, SortedSet.mem_ofList]
    exact h.mem_named_iff hfails
  have hwording := wording_describeMissing held sure e
  refine ⟨e.named held sure, hwording, fun hwords => ?_, hnamed, fun p hp => ?_, fun hflat p => ?_⟩
  · exact hwording.namesIn_eq fun p hp =>
      hwords p (SortedSet.mem_ofList.mpr (named_subset_names e hp))
  · have hthere : p ∉ e.missing held sure := fun hmissing =>
      not_or.mpr (of_mem_missingNames (SortedSet.mem_ofList.mp hmissing)).2 hp
    rw [hnamed, or_iff_right hthere, inMetPart_iff_of_mem hp]
  · rw [hnamed, or_iff_left (hflat.not_inMetPart h)]

/-- A demand with a choice of which one part is half met. -/
def halfChoice : Expr :=
  .allOf [.anyOf [.allOf [.single "A", .single "B"], .single "C"], .single "D", .single "E"]

theorem names_in_message_half :
    halfChoice.describeMissing (.ofList ["A"]) (.ofList ["E"]) = "((A and B) or C) and D" ∧
      namesIn "((A and B) or C) and D" = ["A", "B", "C", "D"] ∧
      halfChoice.InMetPart (.ofList ["A"]) (.ofList ["E"]) "A" := by
  have hmessage : halfChoice.describeMissing (.ofList ["A"]) (.ofList ["E"]) =
      "((A and B) or C) and D" := by decide +kernel
  have hread : namesIn "((A and B) or C) and D" = ["A", "B", "C", "D"] := by decide +kernel
  have hpositive : halfChoice.Positive :=
    .allOf (by simp [Positive.single, Positive.allOf, Positive.anyOf])
  have hwords : ∀ p ∈ halfChoice.permissions.toList, IsReadable p := by decide +kernel
  obtain ⟨ns, -, hns, hnamed, -⟩ := names_in_message hpositive (.ofList ["A"]) (.ofList ["E"])
    (by decide +kernel)
  have hA : "A" ∈ ns := by
    rw [← hns hwords, hmessage, hread]
    exact List.mem_cons_self
  exact ⟨hmessage, hread, ((hnamed "A").mp hA).resolve_left (by decide +kernel)⟩

/-- The part that needs `B` is half met, and the message names what is held of it. -/
theorem met_part_in_message :
    (anyOf [.allOf [.single "A", .single "B"], .single "C"]).describeMissing
        (.ofList ["A"]) .empty = "(A and B) or C" ∧
      namesIn "(A and B) or C" = ["A", "B", "C"] ∧
      ((anyOf [.allOf [.single "A", .single "B"], .single "C"]).missing
        (.ofList ["A"]) .empty).toList = ["B", "C"] := by
  decide +kernel

end Expr
end Permission
end LevelGuard
