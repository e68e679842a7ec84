import LevelGuard.Data.Basic
import LevelGuard.Java.Parser.Expressions
import Mathlib.Data.Nat.Digits.Defs

/-!
# Integer literals

An integer literal is a numeral and perhaps the mark of a long one. The numeral is a zero, a run
of decimal digits that does not begin with one, or a run of octal, hexadecimal or binary digits
behind its lead, and any number of underscores may stand between two digits.

Reading drops the underscores and the mark, tells the base by the lead and adds the digits up by
place. So a literal has its positional value if that is a number of 64 bits with a sign, and none
otherwise. As no literal is below zero, minus signs never lead to the least number, the only one
whose negation overflows.
-/
namespace LevelGuard.Java

/-- A digit, written as a figure or as a letter of either case. -/
structure Digit (base : Nat) where
  value : Nat
  capital : Bool
  lt : value < base

def Digit.char {base : Nat} (d : Digit base) : Char :=
  if d.capital then d.value.digitChar.toUpper else d.value.digitChar

/-- Digits, each but the first behind a number of underscores. -/
structure DigitRun (base : Nat) where
  first : Digit base
  rest : List (Nat × Digit base)

namespace DigitRun

variable {base : Nat}

def digits (r : DigitRun base) : List (Digit base) := r.first :: r.rest.map Prod.snd

def text (r : DigitRun base) : List Char :=
  r.first.char :: r.rest.flatMap fun p => List.replicate p.1 '_' ++ [p.2.char]

/-- The positional value. -/
def value (r : DigitRun base) : Nat := Nat.ofDigits base (r.digits.map Digit.value).reverse

end DigitRun

/-- An integer literal without the mark of a long one. -/
inductive Numeral where
  | zero
  | decimal (run : DigitRun 10) (first_ne_zero : run.first.value ≠ 0)
  | octal (underscores : Nat) (run : DigitRun 8)
  | hexadecimal (capital : Bool) (run : DigitRun 16)
  | binary (capital : Bool) (run : DigitRun 2)

namespace Numeral

def text : Numeral → List Char
  | zero => ['0']
  | decimal run _ => run.text
  | octal underscores run => '0' :: (List.replicate underscores '_' ++ run.text)
  | hexadecimal capital run => '0' :: (if capital then 'X' else 'x') :: run.text
  | binary capital run => '0' :: (if capital then 'B' else 'b') :: run.text

def value : Numeral → Nat
  | zero => 0
  | decimal run _ => run.value
  | octal _ run => run.value
  | hexadecimal _ run => run.value
  | binary _ run => run.value

end Numeral

structure IntegerLiteral where
  numeral : Numeral
  /-- The mark of a long literal. -/
  mark : List Char
  isMark : mark = [] ∨ mark = ['l'] ∨ mark = ['L']

namespace IntegerLiteral

def text (l : IntegerLiteral) : List Char := l.numeral.text ++ l.mark

def value (l : IntegerLiteral) : Nat := l.numeral.value

end IntegerLiteral

namespace Digit

variable {base : Nat}

/-- A digit has its value in every base that it is a digit of. -/
theorem digitValue?_char (hbase : base ≤ 16) (d : Digit base) :
    Text.digitValue? base d.char = some d.value := by
  have hlt := d.lt
  have hall : ∀ v < 16, Text.digitValue? 16 (Nat.digitChar v) = some v ∧
      Text.digitValue? 16 (Nat.digitChar v).toUpper = some v := by decide
  have hsixteen : Text.digitValue? 16 d.char = some d.value := by
    rw [char]
    split
    · exact (hall d.value (by omega)).2
    · exact (hall d.value (by omega)).1
  unfold Text.digitValue? at hsixteen ⊢
  grind

/-- No digit is written as a character that has no value. -/
theorem char_ne (hbase : base ≤ 16) (d : Digit base) {c : Char}
    (hc : Text.digitValue? base c = none) : d.char ≠ c := by
  intro h
  rw [← h, d.digitValue?_char hbase] at hc
  cases hc

theorem char_ne_underscore (hbase : base ≤ 16) (d : Digit base) : d.char ≠ '_' :=
  d.char_ne hbase (by simp [Text.digitValue?])

end Digit

namespace DigitRun

variable {base : Nat}

/-- Without underscores, a run is its digits. -/
theorem filter_text (hbase : base ≤ 16) (r : DigitRun base) :
    r.text.filter (· ≠ '_') = r.digits.map Digit.char := by
  have hkeep (d : Digit base) : [d.char].filter (· ≠ '_') = [d.char] :=
    List.filter_cons_of_pos (by simpa using d.char_ne_underscore hbase)
  have hpart (p : Nat × Digit base) :
      (List.replicate p.1 '_' ++ [p.2.char]).filter (· ≠ '_') = [p.2.char] := by
    rw [List.filter_append, List.filter_replicate_of_neg (by simp), hkeep, List.nil_append]
  calc r.text.filter (· ≠ '_')
    _ = [r.first.char] ++ r.rest.flatMap fun p => [p.2.char] := by
      rw [text, ← List.singleton_append, List.filter_append, hkeep, List.filter_flatMap]
      simp only [hpart]
    _ = r.digits.map Digit.char := by
      rw [← List.map_eq_flatMap, digits, List.map_cons, List.map_map, List.singleton_append]
      rfl

theorem digitsFrom?_map_char (hbase : base ≤ 16) (ds : List (Digit base)) (n : Nat) :
    Text.digitsFrom? base n (ds.map Digit.char) =
      some (n * base ^ ds.length + Nat.ofDigits base (ds.map Digit.value).reverse) := by
  induction ds generalizing n with
  | nil => simp [Text.digitsFrom?]
  | cons d ds ih =>
    rw [List.map_cons, Text.digitsFrom?, d.digitValue?_char hbase, Option.bind_some, ih,
      List.map_cons, Nat.ofDigits_reverse_cons, List.length_map, List.length_cons]
    congr 1
    ring

theorem numeral?_digits (hbase : base ≤ 16) (r : DigitRun base) :
    Text.numeral? base (r.digits.map Digit.char) = some r.value := by
  have hread := digitsFrom?_map_char hbase r.digits 0
  rw [Nat.zero_mul, Nat.zero_add] at hread
  exact hread

end DigitRun

theorem dropEnd_append {p : Char → Bool} {cs ds : List Char} (hds : ∀ c ∈ ds, p c = true)
    (hcs : ∀ c ∈ cs.getLast?, p c = false) : dropEnd p (cs ++ ds) = cs := by
  rw [dropEnd, List.reverse_append, dropWhile_append_eq, List.reverse_reverse]
  · intro c hc
    exact hds c (List.mem_reverse.mp hc)
  · intro c hc
    rw [List.head?_reverse] at hc
    exact hcs c hc

namespace Numeral

/-- The base and the digits that are read. -/
def reading : Numeral → Nat × List Char
  | zero => (10, ['0'])
  | decimal run _ => (10, run.digits.map Digit.char)
  | octal _ run => (8, run.digits.map Digit.char)
  | hexadecimal _ run => (16, run.digits.map Digit.char)
  | binary _ run => (2, run.digits.map Digit.char)

/-- What tells the base. -/
def lead : Numeral → List Char
  | zero | decimal _ _ => []
  | octal _ _ => ['0']
  | hexadecimal capital _ => ['0', if capital then 'X' else 'x']
  | binary capital _ => ['0', if capital then 'B' else 'b']

theorem filter_text (n : Numeral) : n.text.filter (· ≠ '_') = n.lead ++ n.reading.2 := by
  cases n with
  | zero => rfl
  | decimal run _ => exact run.filter_text (by decide)
  | octal underscores run =>
    rw [text, List.filter_cons_of_pos (by decide), List.filter_append,
      List.filter_replicate_of_neg (by simp), List.nil_append, run.filter_text (by decide)]
    rfl
  | hexadecimal capital run | binary capital run =>
    rw [text, List.filter_cons_of_pos (by decide), List.filter_cons_of_pos (by split <;> decide),
      run.filter_text (by decide)]
    rfl

theorem integerDigits_lead (n : Numeral) : integerDigits (n.lead ++ n.reading.2) = n.reading := by
  cases n with
  | zero => rfl
  | decimal run hfirst =>
    -- a first digit other than zero begins no lead
    have hne : run.first.char ≠ '0' := by
      intro h
      have hvalue := run.first.digitValue?_char (by decide)
      rw [h] at hvalue
      exact hfirst (Option.some.inj hvalue).symm
    rw [lead, reading, DigitRun.digits, List.map_cons, List.nil_append, integerDigits]
    all_goals simp [hne]
  | octal underscores run =>
    -- an octal digit is no letter, so that no other lead is met
    have hx := run.first.char_ne (c := 'x') (by decide) (by decide)
    have hX := run.first.char_ne (c := 'X') (by decide) (by decide)
    have hb := run.first.char_ne (c := 'b') (by decide) (by decide)
    have hB := run.first.char_ne (c := 'B') (by decide) (by decide)
    rw [lead, reading, DigitRun.digits, List.map_cons, List.singleton_append, integerDigits]
    all_goals simp [hx, hX, hb, hB]
  | hexadecimal capital run | binary capital run => cases capital <;> rfl

theorem numeral?_reading (n : Numeral) :
    Text.numeral? n.reading.1 n.reading.2 = some n.value := by
  cases n with
  | zero => rfl
  | decimal run _ | octal _ run | hexadecimal _ run | binary _ run =>
    exact run.numeral?_digits (by decide)

/-- The mark of a long literal is none of the characters that are read. -/
theorem not_isMark_of_mem (n : Numeral) {c : Char} (hc : c ∈ n.lead ++ n.reading.2) :
    (c = 'l' || c = 'L') = false := by
  have hdigits {base : Nat} (hbase : base ≤ 16) (run : DigitRun base)
      (hc : c ∈ run.digits.map Digit.char) : (c = 'l' || c = 'L') = false := by
    obtain ⟨d, -, rfl⟩ := List.mem_map.mp hc
    have hsmall := d.char_ne (c := 'l') hbase (by simp [Text.digitValue?])
    have hcapital := d.char_ne (c := 'L') hbase (by simp [Text.digitValue?])
    simp [hsmall, hcapital]
  rcases List.mem_append.mp hc with hc | hc
  · cases n with
    | zero | decimal _ _ => cases hc
    | octal _ _ => rw [List.mem_singleton.mp hc]; rfl
    | hexadecimal capital _ | binary capital _ =>
      simp only [lead, List.mem_cons, List.not_mem_nil, or_false] at hc
      rcases hc with rfl | rfl <;> cases capital <;> rfl
  · cases n with
    | zero => rw [List.mem_singleton.mp hc]; rfl
    | decimal run _ | octal _ run | hexadecimal _ run | binary _ run =>
      exact hdigits (by decide) run hc

end Numeral

namespace IntegerLiteral

theorem dropEnd_filter_text (l : IntegerLiteral) :
    dropEnd (fun c => c = 'l' || c = 'L') (l.text.filter (· ≠ '_')) =
      l.numeral.lead ++ l.numeral.reading.2 := by
  have hmark : l.mark.filter (· ≠ '_') = l.mark ∧
      ∀ c ∈ l.mark, (c = 'l' || c = 'L') = true := by
    rcases l.isMark with h | h | h <;> simp [h]
  rw [text, List.filter_append, hmark.1, l.numeral.filter_text]
  exact dropEnd_append hmark.2 fun c hc =>
    l.numeral.not_isMark_of_mem (List.mem_of_getLast? hc)

/-- A literal has its positional value, if that is not too great. -/
theorem integerValue?_text (l : IntegerLiteral) :
    integerValue? l.text = if l.value ≤ greatestInt then some l.value else none := by
  rw [integerValue?, l.dropEnd_filter_text, l.numeral.integerDigits_lead]
  dsimp only
  rw [l.numeral.numeral?_reading, Option.bind_some]
  rfl

end IntegerLiteral

/-- An expression under minus signs, the outermost first. -/
def underMinus (signs : List Span) (e : Expr) : Expr :=
  signs.foldr (fun span e => .unary span .neg e) e

/-- The value in 64-bit arithmetic, in which the least number has no negation. -/
def Expr.intWord : Expr → Except Unit (Option Int64)
  | .literal _ (.int n) => .ok (some (Int64.ofNat n))
  | .unary _ .neg operand => do
    match ← operand.intWord with
    | none => return none
    | some v => if v = Int64.minValue then throw () else return some (-v)
  | _ => .ok none

/-- A number that is not the least one is negated without overflow. -/
theorem toInt_neg_of_bounds {w : Int64} (h : -greatestInt ≤ w.toInt) :
    w ≠ Int64.minValue ∧ (-w).toInt = -w.toInt := by
  have hne : w ≠ Int64.minValue := by
    rintro rfl
    exact absurd h (by decide)
  have hlt := w.toInt_lt
  rw [greatestInt] at h
  refine ⟨hne, ?_⟩
  rw [Int64.toInt_neg, Int.bmod_eq_of_le (by omega) (by omega)]

/-- One more minus sign: what is negated stays between the greatest number and its negation. -/
theorem intWord_neg {e : Expr} {w : Int64} (span : Span) (h : e.intWord = .ok (some w))
    (hlow : -greatestInt ≤ w.toInt) :
    (Expr.unary span .neg e).intWord = .ok (some (-w)) := by
  have hne := (toInt_neg_of_bounds hlow).1
  rw [Expr.intWord, h]
  exact if_neg hne

theorem intLiteral?_neg {e : Expr} {v : Int} (span : Span) (h : e.intLiteral? = some v) :
    (Expr.unary span .neg e).intLiteral? = some (-v) := by
  rw [Expr.intLiteral?, h, Option.map_some]

/-- Minus signs over a number change its sign each time, and 64 bits are enough for it. -/
theorem underMinus_literal {v : Nat} (hv : v ≤ greatestInt) (span : Span) (signs : List Span) :
    ∃ w : Int64, (underMinus signs (.literal span (.int v))).intWord = .ok (some w) ∧
      (underMinus signs (.literal span (.int v))).intLiteral? = some w.toInt ∧
      w.toInt = (-1) ^ signs.length * v ∧
      -greatestInt ≤ w.toInt ∧ w.toInt ≤ greatestInt := by
  induction signs with
  | nil =>
    have hword : (Int64.ofNat v).toInt = v := by
      apply Int64.toInt_ofNat_of_lt
      rw [greatestInt] at hv
      omega
    refine ⟨Int64.ofNat v, rfl, ?_, ?_, ?_, ?_⟩
    · rw [hword]
      rfl
    · simpa using hword
    · omega
    · omega
  | cons sign signs ih =>
    obtain ⟨w, hword, hliteral, hvalue, hlow, hhigh⟩ := ih
    obtain ⟨-, hneg⟩ := toInt_neg_of_bounds hlow
    refine ⟨-w, intWord_neg sign hword hlow, ?_, ?_, ?_, ?_⟩
    · rw [hneg]
      exact intLiteral?_neg sign hliteral
    · rw [hneg, hvalue, List.length_cons, pow_succ]
      ring
    · omega
    · omega

theorem underMinus_unknown (span : Span) (signs : List Span) :
    (underMinus signs (.unknown span [])).intWord = .ok none ∧
      (underMinus signs (.unknown span [])).intLiteral? = none := by
  induction signs with
  | nil => exact ⟨rfl, rfl⟩
  | cons sign signs ih =>
    refine ⟨?_, ?_⟩
    · change (Expr.unary sign .neg (underMinus signs _)).intWord = _
      rw [Expr.intWord, ih.1]
      rfl
    · change (Expr.unary sign .neg (underMinus signs _)).intLiteral? = _
      rw [Expr.intLiteral?, ih.2, Option.map_none]

/-- The expression of an integer token; one without a value has no parts either. -/
def integerExpr (span : Span) (text : List Char) : Expr :=
  (integerValue? text).elim (.unknown span []) fun n => .literal span (.int n)

theorem literalRule_integer (g : Grammar) (text : List Char) (start stop last : Mark)
    (ts : List Token) (left : Nat) :
    literalRule g ⟨⟨.integer, String.ofList text, start, stop⟩ :: ts, left, last⟩ =
      some (integerExpr (start.spanTo stop) text, ⟨ts, left - 1, stop⟩) := by
  change (literalRule g).run _ = _
  rw [integerExpr]
  cases hvalue : integerValue? text <;>
    simp [literalRule, Rule.isAhead, Rule.ahead, Rule.take, hvalue, Token.span]

namespace IntegerLiteral

/-- The value of a literal, and of the expression of its token under any number of minus signs.
In 64-bit arithmetic nothing overflows. -/
theorem literal_value_exact (l : IntegerLiteral) :
    integerValue? l.text = (if l.value ≤ 2 ^ 63 - 1 then some l.value else none) ∧
      ∀ (g : Grammar) (start stop last : Mark) (ts : List Token) (left : Nat),
        ∃ e, literalRule g ⟨⟨.integer, String.ofList l.text, start, stop⟩ :: ts, left, last⟩ =
            some (e, ⟨ts, left - 1, stop⟩) ∧
          ∀ signs : List Span,
            (underMinus signs e).intLiteral? =
                (if l.value ≤ 2 ^ 63 - 1 then some ((-1) ^ signs.length * (l.value : Int))
                  else none) ∧
              ∃ w, (underMinus signs e).intWord = .ok w ∧
                w.map Int64.toInt = (underMinus signs e).intLiteral? := by
  have hgreatest : greatestInt = 2 ^ 63 - 1 := rfl
  have hvalue := l.integerValue?_text
  rw [hgreatest] at hvalue
  refine ⟨hvalue, fun g start stop last ts left =>
    ⟨_, literalRule_integer g l.text start stop last ts left, fun signs => ?_⟩⟩
  rw [integerExpr, hvalue]
  by_cases hle : l.value ≤ 2 ^ 63 - 1
  · rw [if_pos hle, if_pos hle, Option.elim_some]
    obtain ⟨w, hword, hliteral, hsigned, -, -⟩ := underMinus_literal hle (start.spanTo stop) signs
    rw [hliteral, hsigned]
    exact ⟨rfl, some w, hword, congrArg some hsigned⟩
  · rw [if_neg hle, if_neg hle, Option.elim_none]
    obtain ⟨hword, hliteral⟩ := underMinus_unknown (start.spanTo stop) signs
    rw [hliteral]
    exact ⟨rfl, none, hword, rfl⟩

/-- An octal literal for a long number, with underscores. -/
def octalFifteen : IntegerLiteral :=
  ⟨.octal 1 ⟨⟨1, false, by decide⟩, [(2, ⟨7, false, by decide⟩)]⟩, ['L'], .inr (.inr rfl)⟩

theorem literal_value_exact_octal :
    octalFifteen.text = "0_1__7L".toList ∧ integerValue? octalFifteen.text = some 15 :=
  ⟨by decide, (literal_value_exact octalFifteen).1⟩

/-- The least number that is too great, `0x8000_0000_0000_0000`. -/
def tooGreat : IntegerLiteral where
  numeral := .hexadecimal false ⟨⟨8, false, by decide⟩,
    (List.range 15).map fun i => (if i % 4 = 3 then 1 else 0, ⟨0, false, by decide⟩)⟩
  mark := []
  isMark := .inl rfl

example : tooGreat.text = "0x8000_0000_0000_0000".toList ∧ tooGreat.value = 2 ^ 63 ∧
    integerValue? tooGreat.text = none := by
  decide

end IntegerLiteral

end LevelGuard.Java
