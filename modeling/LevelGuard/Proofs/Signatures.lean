import LevelGuard.Data.Basic
import LevelGuard.Proofs.ClassElements

/-!
# Signatures

In a database the names of classes have slashes in place of dots, and the name of a method
is followed by its types in the notation of class files: a letter for a primitive type, a
name between `L` and `;` for a class, a bracket before the type of the elements for an
array. Reading the types gives back how many parameters there are and the class of the
result. Levels are read back from their digits.
-/
namespace LevelGuard

namespace Text

theorem cutFirst?_append_cons {p : Char → Bool} {c : Char} (hc : p c = true) (b : List Char) :
    ∀ {a : List Char}, (∀ d ∈ a, p d = false) → cutFirst? p (a ++ c :: b) = some (a, b) := by
  intro a ha
  induction a with
  | nil => simp [cutFirst?, hc]
  | cons d a ih =>
    obtain ⟨hd, ha⟩ := List.forall_mem_cons.mp ha
    simp [cutFirst?, hd, ih ha]

end Text

/-- A level that an input can name is read back from its digits. -/
theorem Level.ofText?_toString {level : Level} (h : level ≤ greatest) :
    ofText? (toString level) = some level := by
  have hdigits : ∀ c ∈ Nat.toDigits 10 level, c.isDigit = true := fun c hc =>
    Nat.isDigit_of_mem_toDigits (by decide) (by decide) hc
  rw [ofText?, Nat.toString_eq_ofList_toDigits, String.toList_ofList]
  cases hcs : Nat.toDigits 10 level with
  | nil => exact absurd hcs Nat.toDigits_ne_nil
  | cons c cs =>
    rw [hcs] at hdigits
    have hvalue : Nat.ofDigitChars 10 (c :: cs) 0 = level := hcs ▸ Nat.ofDigitChars_ten_toDigits
    split
    · next hplus =>
      rw [(List.cons.inj hplus).1] at hdigits
      exact absurd (hdigits _ List.mem_cons_self) (by decide)
    · rw [Text.numeral?, Text.digitsFrom?_of_isDigit hdigits, hvalue]
      simp [h]

namespace Platform

open Markup

/-- Whether no sign of class files stands in a dotted name. -/
def isPlain (name : String) : Bool := name.toList.all fun c => !(['/', '$', ';', '(', ')'].contains c)

/-- A class by the dotted text of its name. -/
structure ClassName where
  dotted : String
  plain : isPlain dotted = true

namespace ClassName

/-- The name with slashes in place of dots. -/
def internal (n : ClassName) : List Char := n.dotted.toList.map fun c => if c = '.' then '/' else c

theorem not_mem_dotted (n : ClassName) {c : Char} (hc : c ∈ n.dotted.toList) :
    c ∉ ['/', '$', ';', '(', ')'] := by
  have hplain := List.all_eq_true.mp n.plain c hc
  simpa using hplain

theorem not_mem_internal (n : ClassName) {c : Char} (hc : c ∈ [';', '(', ')']) : c ∉ n.internal := by
  intro hmem
  obtain ⟨d, hd, rfl⟩ := List.mem_map.mp hmem
  have hplain := n.not_mem_dotted hd
  split at hc
  · exact absurd hc (by decide)
  · exact hplain (List.mem_cons_of_mem _ (List.mem_cons_of_mem _ hc))

theorem dottedName_internal (n : ClassName) : dottedName (String.ofList n.internal) = n.dotted := by
  have hchars : ∀ c ∈ n.dotted.toList,
      (if decide ((if c = '.' then '/' else c) = '/') || decide ((if c = '.' then '/' else c) = '$')
        then '.' else if c = '.' then '/' else c) = c := by
    intro c hc
    have hplain := n.not_mem_dotted hc
    by_cases hdot : c = '.'
    · simp [hdot]
    · simp_all
  rw [dottedName, Text.replaceAll, String.toList_ofList, internal, List.map_map]
  refine (congrArg String.ofList (List.map_congr_left hchars)).trans ?_
  rw [List.map_id', String.ofList_toList]

end ClassName

/-- The types that are no classes and no arrays. -/
inductive Primitive where
  | byte
  | char
  | double
  | float
  | int
  | long
  | short
  | boolean
  deriving DecidableEq, Repr

def Primitive.letter : Primitive → Char
  | byte => 'B'
  | char => 'C'
  | double => 'D'
  | float => 'F'
  | int => 'I'
  | long => 'J'
  | short => 'S'
  | boolean => 'Z'

/-- The types of parameters and results. -/
inductive FieldType where
  | primitive (p : Primitive)
  | object (n : ClassName)
  | array (element : FieldType)

namespace FieldType

def text : FieldType → List Char
  | primitive p => [p.letter]
  | object n => 'L' :: (n.internal ++ [';'])
  | array element => '[' :: element.text

theorem not_mem_text (t : FieldType) : ')' ∉ t.text := by
  induction t with
  | primitive p => cases p <;> decide
  | object n =>
    have hn := n.not_mem_internal (c := ')') (by decide)
    simp [text, hn]
  | array element ih => simp [text, ih]

end FieldType

theorem paramCount_inClass {cs : List Char} (h : ';' ∉ cs) (rest : List Char) :
    paramCount true (cs ++ ';' :: rest) = paramCount false rest := by
  induction cs with
  | nil => rfl
  | cons c cs ih =>
    have hc : ';' ≠ c := List.ne_of_not_mem_cons h
    have hstep : paramCount true (c :: (cs ++ ';' :: rest)) =
        paramCount true (cs ++ ';' :: rest) := by
      simp [paramCount, hc.symm]
    exact hstep.trans (ih (List.not_mem_of_not_mem_cons h))

/-- A type counts once, whatever its text. -/
theorem paramCount_text (t : FieldType) (rest : List Char) :
    paramCount false (t.text ++ rest) = paramCount false rest + 1 := by
  induction t with
  | primitive p => cases p <;> rfl
  | object n =>
    have hclass := paramCount_inClass (n.not_mem_internal (c := ';') (by decide)) rest
    simp [FieldType.text, paramCount, hclass]
  | array element ih => simpa [FieldType.text, paramCount] using ih

theorem paramCount_texts (params : List FieldType) :
    paramCount false (params.flatMap FieldType.text) = params.length := by
  induction params with
  | nil => rfl
  | cons t params ih => rw [List.flatMap_cons, paramCount_text, ih, List.length_cons]

def resultText : Option FieldType → List Char
  | none => ['V']
  | some t => t.text

def resultName? : Option FieldType → Option String
  | some (.object n) => some n.dotted
  | _ => none

theorem resultClass?_text (result : Option FieldType) :
    resultClass? (resultText result) = resultName? result := by
  match result with
  | none => rfl
  | some (.primitive p) => cases p <;> rfl
  | some (.object n) =>
    have hend : Text.stripEnd? [';'] (n.internal ++ [';']) = some n.internal := by
      simp [Text.stripEnd?, Text.stripStart?]
    have hstart : Text.stripStart? ['L'] (resultText (some (.object n))) =
        some (n.internal ++ [';']) := by
      simp [resultText, FieldType.text, Text.stripStart?]
    rw [resultClass?, hstart]
    simp [hend, resultName?, n.dottedName_internal]
  | some (.array element) => rfl

/-- A descriptor is read as the number of its parameters and the class of its result. -/
theorem descriptor_text (params : List FieldType) (result : Option FieldType) :
    descriptor (params.flatMap FieldType.text ++ ')' :: resultText result) =
      (params.length, resultName? result) := by
  have hparams : ∀ c ∈ params.flatMap FieldType.text, decide (c = ')') = false := by
    intro c hc
    obtain ⟨t, -, ht⟩ := List.mem_flatMap.mp hc
    exact decide_eq_false fun heq => t.not_mem_text (heq ▸ ht)
  rw [descriptor, Text.cutFirst?_append_cons (by decide) _ hparams]
  simp only [paramCount_texts, resultClass?_text]

end Platform

end LevelGuard
