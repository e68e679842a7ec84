/-!
# Characters, cuts and numerals

One set of blank characters serves every reader of the library, the Unicode property
`White_Space`; the ASCII notion of a blank is a proper part of it. The decimal digits of all
scripts are runs of ten, one for each script, and a few longer runs of styled digits.

Names, paths and small formats are taken apart at a separator: `cutFirst?` and `cutLast?`
return the two sides of one separator, `segments` all maximal runs between separators.

Digits are read positionally into natural numbers, and a platform level is a numeral that fits
32 bits. A level may carry a plus sign and nothing else: no blanks, no separators and no other
digits than the ten ASCII ones.
-/
namespace LevelGuard.Text

/-- The characters with the Unicode property `White_Space`. -/
def isBlank (c : Char) : Bool :=
  let n := c.toNat
  (9 ≤ n && n ≤ 13) || n == 0x20 || n == 0x85 || n == 0xA0 || n == 0x1680
    || (0x2000 ≤ n && n ≤ 0x200A) || n == 0x2028 || n == 0x2029 || n == 0x202F
    || n == 0x205F || n == 0x3000

def trimStart (cs : List Char) : List Char := cs.dropWhile isBlank

def trimEnd (cs : List Char) : List Char := (cs.reverse.dropWhile isBlank).reverse

def trim (cs : List Char) : List Char := trimEnd (trimStart cs)

def trimmed (s : String) : String := String.ofList (trim s.toList)

/-- First digits of the runs of ten. -/
def digitZeros : List Nat :=
  [0x30, 0x660, 0x6F0, 0x7C0, 0x966, 0x9E6, 0xA66, 0xAE6, 0xB66, 0xBE6, 0xC66, 0xCE6, 0xD66,
    0xDE6, 0xE50, 0xED0, 0xF20, 0x1040, 0x1090, 0x17E0, 0x1810, 0x1946, 0x19D0, 0x1A80, 0x1A90,
    0x1B50, 0x1BB0, 0x1C40, 0x1C50, 0xA620, 0xA8D0, 0xA900, 0xA9D0, 0xA9F0, 0xAA50, 0xABF0,
    0xFF10, 0x104A0, 0x10D30, 0x10D40, 0x11066, 0x110F0, 0x11136, 0x111D0, 0x112F0, 0x11450,
    0x114D0, 0x11650, 0x116C0, 0x11730, 0x118E0, 0x11950, 0x11BF0, 0x11C50, 0x11D50, 0x11DA0,
    0x11F50, 0x16A60, 0x16AC0, 0x16B50, 0x16D70, 0x1CCF0, 0x1E140, 0x1E2F0, 0x1E4F0, 0x1E5F1,
    0x1E950, 0x1FBF0]

def digitRuns : List (Nat × Nat) :=
  digitZeros.map (fun n => (n, 10)) ++ [(0x116D0, 20), (0x1D7CE, 50)]

def isDecimalDigit (c : Char) : Bool :=
  digitRuns.any fun (first, length) => first ≤ c.toNat && c.toNat < first + length

def cutFirst? (p : Char → Bool) : List Char → Option (List Char × List Char)
  | [] => none
  | c :: cs => if p c then some ([], cs) else (cutFirst? p cs).map fun (a, b) => (c :: a, b)

def cutLast? (p : Char → Bool) : List Char → Option (List Char × List Char)
  | [] => none
  | c :: cs =>
    match cutLast? p cs with
    | some (a, b) => some (c :: a, b)
    | none => if p c then some ([], cs) else none

/-- The runs between the characters that satisfy `p`; there is always one run. -/
def segments {α : Type} (p : α → Bool) : List α → List (List α)
  | [] => [[]]
  | c :: cs =>
    if p c then [] :: segments p cs
    else
      match segments p cs with
      | [] => [[c]]
      | s :: ss => (c :: s) :: ss

theorem segments_ne_nil {α : Type} (p : α → Bool) (cs : List α) : segments p cs ≠ [] := by
  induction cs with
  | nil => simp [segments]
  | cons c cs ih =>
    by_cases h : p c
    · simp [segments, h]
    · cases hs : segments p cs <;> simp [segments, h, hs]

def stripStart? : List Char → List Char → Option (List Char)
  | [], cs => some cs
  | _ :: _, [] => none
  | l :: ls, c :: cs => if l = c then stripStart? ls cs else none

theorem stripStart?_eq_some {lead cs rest : List Char} :
    stripStart? lead cs = some rest ↔ cs = lead ++ rest := by
  induction lead generalizing cs with
  | nil => simp [stripStart?, eq_comm]
  | cons l lead ih =>
    cases cs with
    | nil => simp [stripStart?]
    | cons c cs =>
      by_cases hc : l = c
      · simp [stripStart?, hc, ih]
      · simp [stripStart?, hc, Ne.symm hc]

def stripEnd? (tail cs : List Char) : Option (List Char) :=
  (stripStart? tail.reverse cs.reverse).map List.reverse

def cutAt? (mark : List Char) : List Char → Option (List Char × List Char)
  | [] => if mark.isEmpty then some ([], []) else none
  | c :: cs =>
    match stripStart? mark (c :: cs) with
    | some rest => some ([], rest)
    | none => (cutAt? mark cs).map fun (a, b) => (c :: a, b)

theorem toList_append_eq {s t : String} {cs ds : List Char} (hs : s.toList = cs)
    (ht : t.toList = ds) : (s ++ t).toList = cs ++ ds := by
  rw [String.toList_append, hs, ht]

def startsWith (s lead : String) : Bool := (stripStart? lead.toList s.toList).isSome

def endsWith (s tail : String) : Bool := (stripEnd? tail.toList s.toList).isSome

def afterStart? (lead s : String) : Option String :=
  (stripStart? lead.toList s.toList).map String.ofList

def splitFirst? (c : Char) (s : String) : Option (String × String) :=
  (cutFirst? (· == c) s.toList).map fun (a, b) => (String.ofList a, String.ofList b)

def splitAll (c : Char) (s : String) : List String :=
  (segments (· == c) s.toList).map String.ofList

def lastSegment (c : Char) (s : String) : String :=
  match cutLast? (· == c) s.toList with
  | some (_, b) => String.ofList b
  | none => s

def replaceAll (p : Char → Bool) (d : Char) (s : String) : String :=
  String.ofList (s.toList.map fun c => if p c then d else c)

def joinWith (sep : String) : List String → String
  | [] => ""
  | [s] => s
  | s :: t :: ss => s ++ sep ++ joinWith sep (t :: ss)

end LevelGuard.Text

namespace LevelGuard

/-- A platform level, `SDK_INT` of a device. Levels in inputs fit 32 bits. -/
abbrev Level := Nat

namespace Level

def greatest : Level := 4294967295

/-- The next level, or the greatest. -/
def up (v : Level) : Level := min (v + 1) greatest

end Level

namespace Text

def digitValue? (base : Nat) (c : Char) : Option Nat :=
  let n := c.toNat
  let v :=
    if 48 ≤ n ∧ n ≤ 57 then n - 48
    else if 97 ≤ n ∧ n ≤ 102 then n - 87
    else if 65 ≤ n ∧ n ≤ 70 then n - 55
    else base
  if v < base then some v else none

def digitsFrom? (base acc : Nat) : List Char → Option Nat
  | [] => some acc
  | c :: cs => (digitValue? base c).bind fun v => digitsFrom? base (acc * base + v) cs

/-- The positional value of a nonempty run of digits. -/
def numeral? (base : Nat) : List Char → Option Nat
  | [] => none
  | c :: cs => digitsFrom? base 0 (c :: cs)

def isDigit (c : Char) : Bool := (digitValue? 10 c).isSome

def Blank (cs : List Char) : Prop := ∀ c ∈ cs, isBlank c = true

instance (cs : List Char) : Decidable (Blank cs) :=
  decidable_of_iff (cs.all isBlank = true) List.all_eq_true

theorem toNat_of_isDigit {c : Char} (h : c.isDigit = true) : 48 ≤ c.toNat ∧ c.toNat ≤ 57 := by
  simpa [Char.isDigit, UInt32.le_iff_toNat_le] using h

theorem isBlank_of_isDigit {c : Char} (h : c.isDigit = true) : isBlank c = false := by
  have hrange := toNat_of_isDigit h
  simp only [isBlank, Bool.or_eq_false_iff, Bool.and_eq_false_iff, beq_eq_false_iff_ne,
    decide_eq_false_iff_not]
  omega

theorem digitValue?_of_isDigit {c : Char} (h : c.isDigit = true) :
    digitValue? 10 c = some (c.toNat - 48) := by
  have hrange := toNat_of_isDigit h
  have hlt : c.toNat - 48 < 10 := by omega
  simp [digitValue?, hrange, hlt]

theorem isDigit_eq (c : Char) : isDigit c = c.isDigit := by
  rw [Bool.eq_iff_iff]
  constructor
  · intro h
    simp only [isDigit, digitValue?, Option.isSome_ite] at h
    simp only [Char.isDigit, Bool.and_eq_true, decide_eq_true_eq, ge_iff_le,
      UInt32.le_iff_toNat_le]
    change 48 ≤ c.toNat ∧ c.toNat ≤ 57
    split at h
    · assumption
    · split at h
      · omega
      · split at h <;> omega
  · intro h
    rw [isDigit, digitValue?_of_isDigit h]
    rfl

theorem digitsFrom?_of_isDigit {cs : List Char} (h : ∀ c ∈ cs, c.isDigit = true) (n : Nat) :
    digitsFrom? 10 n cs = some (Nat.ofDigitChars 10 cs n) := by
  induction cs generalizing n with
  | nil => rfl
  | cons c cs ih =>
    obtain ⟨hc, hcs⟩ := List.forall_mem_cons.mp h
    rw [digitsFrom?, digitValue?_of_isDigit hc, Option.bind_some, ih hcs, Nat.ofDigitChars_cons,
      Nat.mul_comm]
    rfl

end Text

open Text in
def Level.ofText? (s : String) : Option Level :=
  let digits :=
    match s.toList with
    | '+' :: cs => cs
    | cs => cs
  (numeral? 10 digits).bind fun n => if n ≤ Level.greatest then some n else none

end LevelGuard
