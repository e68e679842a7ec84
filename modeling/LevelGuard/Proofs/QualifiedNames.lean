import LevelGuard.Data.Basic
import LevelGuard.Project.Scope

/-!
# Segments of qualified names

A qualified name is a sequence of segments with a dot or a dollar sign before each but the
first. The name of a type is that of the type around it with one more segment, so what is
around a type is found by cutting at the last separator, and two names that go on
differently after the same beginning are different.

The segment of a class without a name of its own begins with a number. A simple name has no
separator and begins with no digit, so the number can be told from the name after it.
-/
namespace LevelGuard

open Project

namespace Java

/-- The characters that end a segment of a qualified name. -/
def isSeparator (c : Char) : Bool := c == '$' || c == '.'

/-- Whether a text has no separator. -/
def IsSegment (seg : List Char) : Prop := ∀ c ∈ seg, isSeparator c = false

/-- Whether a text can be the simple name of a type. -/
structure IsSimpleName (name : String) : Prop where
  isSegment : IsSegment name.toList
  noDigit : ∀ c ∈ name.toList.head?, c.isDigit = false

/-- The name goes on with the segment after a lead: it ends there, or a separator follows. -/
def Continues (lead seg : List Char) (name : String) : Prop :=
  ∃ rest, name.toList = lead ++ (seg ++ rest) ∧ ∀ c ∈ rest.head?, isSeparator c = true

namespace Continues

variable {lead lead' seg seg' : List Char} {name : String}

/-- A name goes on in one way only. -/
theorem unique (hseg : IsSegment seg) (hseg' : IsSegment seg') (h : Continues lead seg name)
    (h' : Continues lead seg' name) : seg = seg' := by
  obtain ⟨rest, hname, hrest⟩ := h
  obtain ⟨rest', hname', hrest'⟩ := h'
  have heq : seg ++ rest = seg' ++ rest' := List.append_cancel_left (hname.symm.trans hname')
  have hcut : ∀ {s r : List Char}, IsSegment s → (∀ c ∈ r.head?, isSeparator c = true) →
      (s ++ r).takeWhile (fun c => !isSeparator c) = s := fun hs hr =>
    takeWhile_append_eq (fun c hc => by rw [hs c hc, Bool.not_false])
      fun c hc => by rw [hr c hc, Bool.not_true]
  rw [← hcut hseg hrest, heq, hcut hseg' hrest']

theorem false_of_ne {c d : Char} (hne : c ≠ d) (h : Continues (lead ++ [c]) seg name)
    (h' : Continues (lead ++ [d]) seg' name) : False := by
  obtain ⟨rest, hname, -⟩ := h
  obtain ⟨rest', hname', -⟩ := h'
  rw [List.append_assoc] at hname hname'
  have heq := List.append_cancel_left (hname.symm.trans hname')
  exact hne (List.cons.inj heq).1

theorem refl (hname : name.toList = lead ++ seg) : Continues lead seg name :=
  ⟨[], by rw [List.append_nil, hname], nofun⟩

theorem trans {name' : String} {c : Char} (hname : name.toList = lead ++ seg)
    (hc : isSeparator c = true) (h : Continues (name.toList ++ [c]) seg' name') :
    Continues lead seg name' := by
  obtain ⟨rest, hname', -⟩ := h
  refine ⟨c :: (seg' ++ rest), ?_, fun d hd => ?_⟩
  · rw [hname', hname]
    simp
  · rw [← Option.some.inj hd]
    exact hc

theorem ne {c : Char} {name' : String} (h : Continues (name.toList ++ [c]) seg' name') :
    name' ≠ name := by
  rintro rfl
  obtain ⟨rest, hname, -⟩ := h
  have hlength := congrArg List.length hname
  simp at hlength

end Continues

def numberedSegment (k : Nat) (simple : String) : List Char := (toString k).toList ++ simple.toList

theorem isDigit_of_mem_toString {k : Nat} {c : Char} (h : c ∈ (toString k).toList) : c.isDigit = true := by
  rw [Nat.toString_eq_ofList_toDigits, String.toList_ofList] at h
  exact Nat.isDigit_of_mem_toDigits (by decide) (by decide) h

theorem isSeparator_of_isDigit {c : Char} (h : c.isDigit = true) : isSeparator c = false := by
  have hdollar : c ≠ '$' := fun hc => absurd (hc ▸ h) (by decide)
  have hdot : c ≠ '.' := fun hc => absurd (hc ▸ h) (by decide)
  simp [isSeparator, hdollar, hdot]

theorem isSegment_numbered (k : Nat) {simple : String} (h : IsSimpleName simple) :
    IsSegment (numberedSegment k simple) := by
  intro c hc
  rcases List.mem_append.mp hc with hc | hc
  · exact isSeparator_of_isDigit (isDigit_of_mem_toString hc)
  · exact h.isSegment c hc

/-- The number can be read off its segment. -/
theorem numberedSegment_inj {k k' : Nat} {simple simple' : String} (h : IsSimpleName simple)
    (h' : IsSimpleName simple') (heq : numberedSegment k simple = numberedSegment k' simple') :
    k = k' := by
  have hcut : ∀ {k : Nat} {s : String}, IsSimpleName s →
      (numberedSegment k s).takeWhile Char.isDigit = (toString k).toList := fun hs =>
    takeWhile_append_eq (fun c hc => isDigit_of_mem_toString hc) hs.noDigit
  have hdigits : Nat.toDigits 10 k = Nat.toDigits 10 k' := by
    have htexts : (toString k).toList = (toString k').toList := by rw [← hcut h, heq, hcut h']
    simpa [Nat.toString_eq_ofList_toDigits] using htexts
  rw [← Nat.ofDigitChars_ten_toDigits (n := k), hdigits, Nat.ofDigitChars_ten_toDigits]

end Java

namespace Project

open Java

theorem leads_of_isSegment {seg : List Char} (h : IsSegment seg) :
    leads (fun c => c == '$' || c == '.') seg = [] := by
  induction seg with
  | nil => rfl
  | cons c seg ih =>
    obtain ⟨hc, hseg⟩ := List.forall_mem_cons.mp h
    have hc' : (c == '$' || c == '.') = false := hc
    simp [leads, hc', ih hseg]

theorem leads_append {seg : List Char} (h : IsSegment seg) {c : Char} (hc : isSeparator c = true)
    (lead : List Char) : leads (fun c => c == '$' || c == '.') (lead ++ c :: seg) =
      leads (fun c => c == '$' || c == '.') lead ++ [lead] := by
  induction lead with
  | nil =>
    have hc' : (c == '$' || c == '.') = true := hc
    simp [leads, hc', leads_of_isSegment h]
  | cons d lead ih =>
    by_cases hd : (d == '$' || d == '.') = true
    · simp [leads, hd, ih]
    · simp [leads, hd, ih]

theorem outwards_of_isSegment {name : String} (h : IsSegment name.toList) : outwards name = [name] := by
  rw [outwards, leads_of_isSegment h]
  rfl

/-- Around a name stands what is left without its last segment, and what is around that. -/
theorem outwards_of_eq_append {name outer : String} {c : Char} {seg : List Char}
    (hseg : IsSegment seg) (hc : isSeparator c = true) (hname : name.toList = outer.toList ++ c :: seg) :
    outwards name = name :: outwards outer := by
  rw [outwards, hname, leads_append hseg hc]
  simp [outwards]

end Project

end LevelGuard
