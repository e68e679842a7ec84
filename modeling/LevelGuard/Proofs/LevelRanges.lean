import Mathlib.Algebra.Group.Nat.Defs
import LevelGuard.Baseline
import LevelGuard.Data.Basic
import LevelGuard.Permission.Requirement

/-!
# Ranges of levels as they are written

A range is written as one level or as two dots with a level before them, after them, on both
sides or on neither, and blanks may stand around each piece. These texts are read, and one
kind besides: two levels with blanks and no dots between them, of which the first counts.

A demand that is limited to a range applies to a module if one of the module's levels is in
the range. This fails for ranges whose end is before their start. No level is in them, but
they apply to a module whose levels reach from the end or below to the start or above.
-/
namespace LevelGuard.Permission.ApiRange

open Text

/-- A range as it is written, and nothing for a level that is left out. -/
inductive Form where
  | level (n : Level)
  | span (start stop : Option Level)

namespace Form

/-- The levels that are meant. A missing start is level 1, and without an end there is no
limit. -/
def Contains : Form → Level → Prop
  | .level n, v => v = n
  | .span start stop, v => start.getD 1 ≤ v ∧ ∀ m ∈ stop, v ≤ m

def range : Form → ApiRange
  | .level n => ⟨n, n⟩
  | .span start stop => ⟨start.getD 1, stop.getD Level.greatest⟩

end Form

/-- A nonempty run of decimal digits with a value of 32 bits. -/
structure SpellsLevel (ds : List Char) (n : Level) : Prop where
  ne_nil : ds ≠ []
  isDigit : ∀ c ∈ ds, c.isDigit = true
  value : Nat.ofDigitChars 10 ds 0 = n
  lt : n < 2 ^ 32

/-- A level, or nothing at all. -/
inductive SpellsBound : List Char → Option Level → Prop
  | omitted : SpellsBound [] none
  | level {ds : List Char} {n : Level} (h : SpellsLevel ds n) : SpellsBound ds (some n)

/-- The text is a written range. -/
inductive Spells : List Char → Form → Prop
  | level {a ds b : List Char} {n : Level} (ha : Blank a) (hds : SpellsLevel ds n) (hb : Blank b) :
      Spells (a ++ (ds ++ b)) (.level n)
  | span {a ds b c es d : List Char} {start stop : Option Level} (ha : Blank a)
      (hds : SpellsBound ds start) (hb : Blank b) (hc : Blank c) (hes : SpellsBound es stop)
      (hd : Blank d) :
      Spells (a ++ (ds ++ (b ++ '.' :: '.' :: (c ++ (es ++ d))))) (.span start stop)

/-- The text is two levels with blanks between them, the first of which is `n`. -/
inductive SideBySide : List Char → Level → Prop
  | mk {a ds b es c : List Char} {n m : Level} (ha : Blank a) (hds : SpellsLevel ds n)
      (hb : Blank b) (hne : b ≠ []) (hes : SpellsLevel es m) (hc : Blank c) :
      SideBySide (a ++ (ds ++ (b ++ (es ++ c)))) n

theorem SpellsBound.isDigit {ds : List Char} {bound : Option Level} (h : SpellsBound ds bound) :
    ∀ c ∈ ds, c.isDigit = true := by
  cases h with
  | omitted => exact nofun
  | level h => exact h.isDigit

/-- The digits at the front of a text and what follows them, without the blanks on both
sides. -/
def digitsAt (cs : List Char) : List Char × List Char :=
  ((trimStart cs).takeWhile isDigit, trimStart ((trimStart cs).dropWhile isDigit))

/-- Blanks, digits and blanks before a rest that begins with no blank, and with no digit
unless blanks separate it from digits. -/
structure IsCut (a ds b rest : List Char) : Prop where
  before : Blank a
  isDigit : ∀ c ∈ ds, c.isDigit = true
  after : Blank b
  stop : ∀ c ∈ rest.head?, isBlank c = false
  apart : ∀ c ∈ rest.head?, c.isDigit = true → ds ≠ [] ∧ b ≠ []

variable {cs a ds b es rest : List Char}

theorem IsCut.isDigit_head? (h : IsCut a ds b rest) :
    ∀ c ∈ (b ++ rest).head?, Text.isDigit c = false := by
  intro c hc
  rw [isDigit_eq]
  refine Bool.eq_false_iff.mpr fun hdigit => ?_
  cases b with
  | nil => exact absurd rfl (h.apart c hc hdigit).2
  | cons d b =>
    obtain rfl : d = c := Option.some.inj hc
    exact Bool.false_ne_true ((isBlank_of_isDigit hdigit).symm.trans (h.after d List.mem_cons_self))

theorem digitsAt_append (h : IsCut a ds b rest) :
    digitsAt (a ++ (ds ++ (b ++ rest))) = (ds, rest) := by
  have hdigits : ∀ c ∈ ds, Text.isDigit c = true := fun c hc => isDigit_eq c ▸ h.isDigit c hc
  have hrest : trimStart (b ++ rest) = rest := dropWhile_append_eq h.after h.stop
  cases ds with
  | nil =>
    have htrim : trimStart (a ++ ([] ++ (b ++ rest))) = rest := by
      rw [trimStart, List.dropWhile_append_of_pos h.before]
      exact hrest
    have hnone : ∀ c ∈ rest.head?, Text.isDigit c = false := by
      intro c hc
      rw [isDigit_eq]
      exact Bool.eq_false_iff.mpr fun hdigit => (h.apart c hc hdigit).1 rfl
    have htake : rest.takeWhile Text.isDigit = [] :=
      takeWhile_append_eq (List.forall_mem_nil _) hnone
    have hdrop : rest.dropWhile Text.isDigit = rest :=
      dropWhile_append_eq (List.forall_mem_nil _) hnone
    have hstop : trimStart rest = rest := dropWhile_append_eq (List.forall_mem_nil _) h.stop
    rw [digitsAt, htrim, htake, hdrop, hstop]
  | cons d ds =>
    have htrim : trimStart (a ++ (d :: ds ++ (b ++ rest))) = d :: ds ++ (b ++ rest) := by
      refine dropWhile_append_eq h.before ?_
      rintro _ ⟨⟩
      exact isBlank_of_isDigit (h.isDigit d List.mem_cons_self)
    rw [digitsAt, htrim, takeWhile_append_eq hdigits h.isDigit_head?,
      dropWhile_append_eq hdigits h.isDigit_head?, hrest]

/-- Every text is cut in this way. -/
theorem exists_isCut (h : digitsAt cs = (ds, rest)) :
    ∃ a b, IsCut a ds b rest ∧ cs = a ++ (ds ++ (b ++ rest)) := by
  obtain ⟨a, trimmed, rfl, ha, htrimmed⟩ := exists_run isBlank cs
  obtain ⟨ds', after, rfl, hds, hafter⟩ := exists_run Text.isDigit trimmed
  obtain ⟨b, rest', rfl, hb, hrest⟩ := exists_run isBlank after
  have hcut : IsCut a ds' b rest' := by
    refine ⟨ha, fun c hc => isDigit_eq c ▸ hds c hc, hb, hrest, fun c hc hdigit => ?_⟩
    have hne : b ≠ [] := by
      rintro rfl
      exact Bool.false_ne_true ((hafter c hc).symm.trans (isDigit_eq c ▸ hdigit))
    refine ⟨?_, hne⟩
    rintro rfl
    -- without digits the blanks after them would have been taken off with those before
    obtain ⟨d, b, rfl⟩ := List.exists_cons_of_ne_nil hne
    exact Bool.false_ne_true ((htrimmed d rfl).symm.trans (hb d List.mem_cons_self))
  obtain ⟨rfl, rfl⟩ := Prod.mk.inj ((digitsAt_append hcut).symm.trans h)
  exact ⟨a, b, hcut, rfl⟩

/-- The text is made of digits, possibly two dots, digits and blanks. Without dots the second
digits are there only after the first and after blanks. -/
inductive Pieces : List Char → List Char → Bool → List Char → Prop
  | one {a ds b : List Char} (ha : Blank a) (hds : ∀ c ∈ ds, c.isDigit = true) (hb : Blank b) :
      Pieces (a ++ (ds ++ b)) ds false []
  | two {a ds b es c : List Char} (ha : Blank a) (hds : ∀ c ∈ ds, c.isDigit = true) (hne : ds ≠ [])
      (hb : Blank b) (hapart : b ≠ []) (hes : ∀ c ∈ es, c.isDigit = true) (hne' : es ≠ [])
      (hc : Blank c) : Pieces (a ++ (ds ++ (b ++ (es ++ c)))) ds false es
  | dots {a ds b c es d : List Char} (ha : Blank a) (hds : ∀ c ∈ ds, c.isDigit = true) (hb : Blank b)
      (hc : Blank c) (hes : ∀ c ∈ es, c.isDigit = true) (hd : Blank d) :
      Pieces (a ++ (ds ++ (b ++ '.' :: '.' :: (c ++ (es ++ d))))) ds true es

section Reading

variable {ds' : List Char} {dots dots' : Bool}

theorem ite_eq_some_iff (next : List Char × List Char) :
    (if next.2.isEmpty = true then some (ds, dots, next.1) else none) = some (ds', dots', es) ↔
      ds = ds' ∧ dots = dots' ∧ next = (es, []) := by
  obtain ⟨es', rest⟩ := next
  cases rest <;> simp

theorem pieces?_eq_some_of_dots (h : digitsAt cs = (ds, '.' :: '.' :: rest)) :
    pieces? cs = some (ds', dots, es) ↔ ds = ds' ∧ true = dots ∧ digitsAt rest = (es, []) := by
  obtain ⟨hds, hrest⟩ := Prod.mk.inj h
  simp only [pieces?, hds, hrest]
  exact ite_eq_some_iff (digitsAt rest)

theorem pieces?_eq_some_of_not_dots (h : digitsAt cs = (ds, rest))
    (hdots : ∀ tail, rest ≠ '.' :: '.' :: tail) :
    pieces? cs = some (ds', dots, es) ↔ ds = ds' ∧ false = dots ∧ digitsAt rest = (es, []) := by
  obtain ⟨hds, hrest⟩ := Prod.mk.inj h
  simp only [pieces?, hds, hrest]
  exact ite_eq_some_iff (digitsAt rest)

theorem pieces_of_pieces? (h : pieces? cs = some (ds, dots, es)) : Pieces cs ds dots es := by
  obtain ⟨ds', rest, hcs⟩ : ∃ ds' rest, digitsAt cs = (ds', rest) := ⟨_, _, rfl⟩
  obtain ⟨a, b, hcut, rfl⟩ := exists_isCut hcs
  by_cases hdots : ∃ tail, rest = '.' :: '.' :: tail
  · obtain ⟨tail, rfl⟩ := hdots
    obtain ⟨rfl, rfl, htail⟩ := (pieces?_eq_some_of_dots hcs).mp h
    obtain ⟨c, d, hcut', rfl⟩ := exists_isCut htail
    rw [List.append_nil]
    exact .dots hcut.before hcut.isDigit hcut.after hcut'.before hcut'.isDigit hcut'.after
  · obtain ⟨rfl, rfl, htail⟩ :=
      (pieces?_eq_some_of_not_dots hcs fun tail htail => hdots ⟨tail, htail⟩).mp h
    obtain ⟨c, d, hcut', rfl⟩ := exists_isCut htail
    -- no blank is in front of the second digits, for those before were taken off
    obtain rfl : c = [] := by
      cases c with
      | nil => rfl
      | cons x c =>
        exact absurd (hcut'.before x List.mem_cons_self) (by simp [hcut.stop x rfl])
    rw [List.append_nil] at hcut ⊢
    cases es with
    | nil =>
      obtain rfl : d = [] := by
        cases d with
        | nil => rfl
        | cons x d => exact absurd (hcut'.after x List.mem_cons_self) (by simp [hcut.stop x rfl])
      rw [List.append_nil, List.append_nil, List.append_nil]
      exact .one hcut.before hcut.isDigit hcut.after
    | cons e es =>
      obtain ⟨hne, hapart⟩ := hcut.apart e rfl (hcut'.isDigit e List.mem_cons_self)
      exact .two hcut.before hcut.isDigit hne hcut.after hapart hcut'.isDigit nofun hcut'.after

end Reading

theorem digitsAt_blanks {c d : List Char} (hc : Blank c) (hes : ∀ c ∈ es, c.isDigit = true)
    (hd : Blank d) : digitsAt (c ++ (es ++ d)) = (es, []) := by
  have hcut : IsCut c es d [] := ⟨hc, hes, hd, nofun, nofun⟩
  have hread := digitsAt_append hcut
  rwa [List.append_nil] at hread

theorem Pieces.pieces?_eq {dots : Bool} (h : Pieces cs ds dots es) :
    pieces? cs = some (ds, dots, es) := by
  cases h with
  | one ha hds hb =>
    exact (pieces?_eq_some_of_not_dots (digitsAt_blanks ha hds hb) nofun).mpr ⟨rfl, rfl, rfl⟩
  | @two a ds b es c ha hds hne hb hapart hes hne' hc =>
    have hhead : ∀ d ∈ (es ++ c).head?, d.isDigit = true := by
      obtain ⟨d, es, rfl⟩ := List.exists_cons_of_ne_nil hne'
      rintro _ ⟨⟩
      exact hes d List.mem_cons_self
    have hcut := digitsAt_append
      ⟨ha, hds, hb, fun d hd => isBlank_of_isDigit (hhead d hd), fun _ _ _ => ⟨hne, hapart⟩⟩
    have hdots : ∀ tail, es ++ c ≠ '.' :: '.' :: tail := by
      intro tail htail
      exact absurd (hhead '.' (by rw [htail]; rfl)) (by decide)
    exact (pieces?_eq_some_of_not_dots hcut hdots).mpr
      ⟨rfl, rfl, digitsAt_blanks (List.forall_mem_nil _) hes hc⟩
  | @dots a ds b c es d ha hds hb hc hes hd =>
    have hcut : IsCut a ds b ('.' :: '.' :: (c ++ (es ++ d))) := by
      refine ⟨ha, hds, hb, ?_, ?_⟩
      · rintro _ ⟨⟩
        decide
      · rintro _ ⟨⟩ hdigit
        exact absurd hdigit (by decide)
    exact (pieces?_eq_some_of_dots (digitsAt_append hcut)).mpr
      ⟨rfl, rfl, digitsAt_blanks hc hes hd⟩

theorem le_greatest_iff {n : Nat} : n ≤ Level.greatest ↔ n < 2 ^ 32 := by
  rw [Level.greatest]
  omega

theorem level?_eq_some_iff (hds : ∀ c ∈ ds, c.isDigit = true) {bound : Option Level} :
    level? ds = some bound ↔ SpellsBound ds bound := by
  cases ds with
  | nil =>
    constructor
    · rintro ⟨⟩
      exact .omitted
    · rintro (_ | h)
      · rfl
      · exact absurd rfl h.ne_nil
  | cons c cs =>
    have hread : numeral? 10 (c :: cs) = some (Nat.ofDigitChars 10 (c :: cs) 0) :=
      digitsFrom?_of_isDigit hds 0
    rw [level?, hread]
    change (if Nat.ofDigitChars 10 (c :: cs) 0 ≤ Level.greatest then _ else _) = _ ↔ _
    rw [Option.ite_none_right_eq_some]
    constructor
    · rintro ⟨hle, ⟨⟩⟩
      exact .level ⟨nofun, hds, rfl, le_greatest_iff.mp hle⟩
    · rintro (_ | ⟨-, -, rfl, hlt⟩)
      exact ⟨le_greatest_iff.mpr hlt, rfl⟩

theorem Pieces.isDigit {dots : Bool} (h : Pieces cs ds dots es) :
    (∀ c ∈ ds, c.isDigit = true) ∧ ∀ c ∈ es, c.isDigit = true := by
  cases h with
  | one _ hds _ => exact ⟨hds, nofun⟩
  | two _ hds _ _ _ hes => exact ⟨hds, hes⟩
  | dots _ hds _ _ hes _ => exact ⟨hds, hes⟩

theorem parse?_eq_some_iff {s : String} {r : ApiRange} :
    parse? s = some r ↔ ∃ ds dots es start stop, Pieces s.toList ds dots es ∧
      SpellsBound ds start ∧ SpellsBound es stop ∧
      (dots = true ∧ r = (Form.span start stop).range ∨
        dots = false ∧ ∃ n, start = some n ∧ r = (Form.level n).range) := by
  constructor
  · intro h
    obtain ⟨⟨ds, dots, es⟩, hpieces, h⟩ := Option.bind_eq_some_iff.mp h
    obtain ⟨start, hstart, h⟩ := Option.bind_eq_some_iff.mp h
    obtain ⟨stop, hstop, h⟩ := Option.bind_eq_some_iff.mp h
    have hpieces := pieces_of_pieces? hpieces
    refine ⟨ds, dots, es, start, stop, hpieces, (level?_eq_some_iff hpieces.isDigit.1).mp hstart,
      (level?_eq_some_iff hpieces.isDigit.2).mp hstop, ?_⟩
    cases dots with
    | true => exact .inl ⟨rfl, (Option.some.inj h).symm⟩
    | false =>
      obtain ⟨n, rfl, h⟩ := Option.bind_eq_some_iff.mp h
      exact .inr ⟨rfl, n, rfl, (Option.some.inj h).symm⟩
  · rintro ⟨ds, dots, es, start, stop, hpieces, hstart, hstop, h⟩
    refine Option.bind_eq_some_iff.mpr ⟨_, hpieces.pieces?_eq, ?_⟩
    refine Option.bind_eq_some_iff.mpr ⟨_, (level?_eq_some_iff hpieces.isDigit.1).mpr hstart, ?_⟩
    refine Option.bind_eq_some_iff.mpr ⟨_, (level?_eq_some_iff hpieces.isDigit.2).mpr hstop, ?_⟩
    rcases h with ⟨rfl, rfl⟩ | ⟨rfl, n, rfl, rfl⟩
    · rfl
    · rfl

theorem parse_eq_ok_iff_parse? {s : String} {r : ApiRange} : parse s = .ok r ↔ parse? s = some r := by
  rw [parse]
  cases parse? s <;> simp

/-- A range is read from what is written, and from two levels side by side the first. -/
theorem parse_eq_ok_iff {s : String} {r : ApiRange} : parse s = .ok r ↔
    (∃ f, Spells s.toList f ∧ r = f.range) ∨ ∃ n, SideBySide s.toList n ∧ r = (Form.level n).range := by
  rw [parse_eq_ok_iff_parse?, parse?_eq_some_iff]
  generalize s.toList = cs
  constructor
  · rintro ⟨ds, dots, es, start, stop, hpieces, hstart, hstop, h⟩
    cases hpieces with
    | one ha _ hb =>
      obtain ⟨-, n, rfl, rfl⟩ := h.resolve_left nofun
      cases hstart with
      | level hn => exact .inl ⟨_, .level ha hn hb, rfl⟩
    | two ha _ _ hb hapart _ hne hc =>
      obtain ⟨-, n, rfl, rfl⟩ := h.resolve_left nofun
      cases hstart with
      | level hn =>
        cases hstop with
        | omitted => exact absurd rfl hne
        | level hm => exact .inr ⟨n, ⟨ha, hn, hb, hapart, hm, hc⟩, rfl⟩
    | dots ha _ hb hc _ hd =>
      obtain ⟨-, rfl⟩ := h.resolve_right nofun
      exact .inl ⟨_, .span ha hstart hb hc hstop hd, rfl⟩
  · rintro (⟨f, hf, rfl⟩ | ⟨n, hn, rfl⟩)
    · cases hf with
      | level ha hds hb =>
        exact ⟨_, _, _, _, _, .one ha hds.isDigit hb, .level hds, .omitted, .inr ⟨rfl, _, rfl, rfl⟩⟩
      | span ha hds hb hc hes hd =>
        exact ⟨_, _, _, _, _, .dots ha hds.isDigit hb hc hes.isDigit hd, hds, hes, .inl ⟨rfl, rfl⟩⟩
    · cases hn with
      | mk ha hds hb hne hes hc =>
        exact ⟨_, _, _, _, _, .two ha hds.isDigit hds.ne_nil hb hne hes.isDigit hes.ne_nil hc,
          .level hds, .level hes, .inr ⟨rfl, _, rfl, rfl⟩⟩

variable {min target : Level}

theorem overlaps_iff {r : ApiRange} : r.overlaps min target = true ↔ min ≤ r.stop ∧ r.start ≤ target := by
  simp [overlaps]

theorem overlaps_iff_of_le {r : ApiRange} (hrange : r.start ≤ r.stop) (hmodule : min ≤ target) :
    r.overlaps min target = true ↔ ∃ v, min ≤ v ∧ v ≤ target ∧ r.start ≤ v ∧ v ≤ r.stop := by
  rw [overlaps_iff]
  constructor
  · rintro ⟨hstop, hstart⟩
    exact ⟨max min r.start, Nat.le_max_left .., Nat.max_le.mpr ⟨hmodule, hstart⟩,
      Nat.le_max_right .., Nat.max_le.mpr ⟨hstop, hrange⟩⟩
  · rintro ⟨v, hmin, htarget, hstart, hstop⟩
    exact ⟨Nat.le_trans hmin hstop, Nat.le_trans hstart htarget⟩

/-- The range ends before it starts, and the levels from `min` to `target` reach from its end
to its start. -/
def Form.ReversedWithin : Form → Level → Level → Prop
  | .level _, _, _ => False
  | .span _ none, _, _ => False
  | .span start (some stop), min, target => stop < start.getD 1 ∧ min ≤ stop ∧ start.getD 1 ≤ target

/-- A range applies to levels of which one is in it, and to those that hold both ends of it
in reverse. -/
theorem Form.overlaps_range_iff (f : Form) (hmodule : min ≤ target) (hlevels : target < 2 ^ 32) :
    f.range.overlaps min target = true ↔
      (∃ v, min ≤ v ∧ v ≤ target ∧ f.Contains v) ∨ f.ReversedWithin min target := by
  match f with
  | .level n =>
    rw [overlaps_iff_of_le (Nat.le_refl n) hmodule, ReversedWithin, or_false]
    refine exists_congr fun v => and_congr_right' (and_congr_right' ?_)
    exact ⟨fun h => Nat.le_antisymm h.2 h.1, fun h => ⟨Nat.le_of_eq h.symm, Nat.le_of_eq h⟩⟩
  | .span start none =>
    rw [overlaps_iff, ReversedWithin, or_false]
    constructor
    · rintro ⟨-, hstart⟩
      exact ⟨target, hmodule, Nat.le_refl _, hstart, nofun⟩
    · rintro ⟨v, -, htarget, hstart, -⟩
      exact ⟨Nat.le_trans hmodule (le_greatest_iff.mpr hlevels), Nat.le_trans hstart htarget⟩
  | .span start (some stop) =>
    rcases Nat.lt_or_ge stop (start.getD 1) with hreversed | hordered
    · -- the two comparisons are made all the same, and now they do not meet in one level
      have hnone : ¬ ∃ v, min ≤ v ∧ v ≤ target ∧ (Form.span start (some stop)).Contains v := by
        rintro ⟨v, -, -, hstart, hstop⟩
        exact Nat.not_le_of_lt hreversed (Nat.le_trans hstart (hstop stop rfl))
      rw [overlaps_iff, or_iff_right hnone]
      exact (and_iff_right hreversed).symm
    · have hnot : ¬ (Form.span start (some stop)).ReversedWithin min target := fun h =>
        Nat.not_le_of_lt h.1 hordered
      rw [overlaps_iff_of_le hordered hmodule, or_iff_left hnot]
      refine exists_congr fun v => and_congr_right' (and_congr_right' (and_congr_right' ?_))
      exact ⟨fun h m hm => Option.some.inj hm ▸ h, fun h => h stop rfl⟩

/-- A text is read as a range exactly if it is a written range or two levels side by side, of
which the second has no effect. A demand that is limited to a written range applies to a
module exactly if one of the module's levels is in the range or the range is reversed and
the module's levels hold both ends of it. -/
theorem written_range_applies (s : String) :
    ((∃ r, parse s = .ok r) ↔ (∃ f, Spells s.toList f) ∨ ∃ n, SideBySide s.toList n) ∧
    (∀ n, SideBySide s.toList n → parse s = .ok ⟨n, n⟩) ∧
    ∀ f, Spells s.toList f → parse s = .ok f.range ∧
      ∀ (e : Expr) (B : Baseline), B.target < 2 ^ 32 →
        (Requirement.appliesTo ⟨e, some f.range⟩ B.min B.target = true ↔
          (∃ v, B.min ≤ v ∧ v ≤ B.target ∧ f.Contains v) ∨ f.ReversedWithin B.min B.target) := by
  refine ⟨⟨?_, ?_⟩, fun n hn => parse_eq_ok_iff.mpr (.inr ⟨n, hn, rfl⟩), fun f hf => ⟨?_, ?_⟩⟩
  · rintro ⟨r, hr⟩
    exact (parse_eq_ok_iff.mp hr).imp (fun ⟨f, hf, _⟩ => ⟨f, hf⟩) fun ⟨n, hn, _⟩ => ⟨n, hn⟩
  · rintro (⟨f, hf⟩ | ⟨n, hn⟩)
    · exact ⟨_, parse_eq_ok_iff.mpr (.inl ⟨f, hf, rfl⟩)⟩
    · exact ⟨_, parse_eq_ok_iff.mpr (.inr ⟨n, hn, rfl⟩)⟩
  · exact parse_eq_ok_iff.mpr (.inl ⟨f, hf, rfl⟩)
  · intro e B hlevels
    exact f.overlaps_range_iff B.min_le_target hlevels

theorem written_range_applies_spaced :
    parse " 14 .. 18\t" = .ok ⟨14, 18⟩ ∧
      Requirement.appliesTo ⟨.single "P", some ⟨14, 18⟩⟩ 15 23 = true ∧
      ∃ v, 15 ≤ v ∧ v ≤ 23 ∧ (Form.span (some 14) (some 18)).Contains v := by
  have h14 : SpellsLevel ['1', '4'] 14 :=
    ⟨by decide, List.all_eq_true.mp (by decide), by decide, by decide⟩
  have h18 : SpellsLevel ['1', '8'] 18 :=
    ⟨by decide, List.all_eq_true.mp (by decide), by decide, by decide⟩
  have hblank : Blank [' '] := by decide
  have hspells : Spells " 14 .. 18\t".toList (.span (some 14) (some 18)) :=
    .span hblank (.level h14) hblank hblank (.level h18) (show Blank ['\t'] by decide)
  obtain ⟨hread, hiff⟩ := (written_range_applies " 14 .. 18\t").2.2 _ hspells
  have happlies : Requirement.appliesTo ⟨.single "P", some ⟨14, 18⟩⟩ 15 23 = true := by decide
  refine ⟨hread, happlies, ?_⟩
  have hlevel := (hiff (.single "P") (.ofRange 15 23) (by decide)).mp happlies
  exact hlevel.resolve_right fun hreversed => absurd hreversed.1 (by decide)

/-- No level is in a range that ends before it starts, and yet it applies. Two levels without
dots between them are read. -/
theorem reversed_range_applies :
    parse "18..14" = .ok ⟨18, 14⟩ ∧ (∀ v, ¬ (Form.span (some 18) (some 14)).Contains v) ∧
      Requirement.appliesTo ⟨.single "P", some ⟨18, 14⟩⟩ 1 22 = true ∧
      parse "14 18" = .ok ⟨14, 14⟩ := by
  refine ⟨by rfl, fun v hv => ?_, by decide, by rfl⟩
  exact absurd (Nat.le_trans hv.1 (hv.2 14 rfl)) (by decide)

end LevelGuard.Permission.ApiRange
