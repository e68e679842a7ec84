import LevelGuard.Text.Position
import Mathlib.Data.List.Induction
import Mathlib.Data.Prod.Lex

/-!
# Lines and columns of byte offsets

The UTF-8 encoding of a text has a line end exactly where the text has one, since no other
character is encoded with that byte. The lines of a text therefore begin at its first byte and
after each line end among its bytes.

An offset cuts these beginnings in two: those in the bytes before it, one more than the line ends
there, and those behind it. A search by halving finds the cut, and the last beginning before it is
as far from the offset as the last line end. So a position is read off the bytes before an offset,
inside of a character too, and a later offset has a later position.
-/
namespace LevelGuard.Text

/-- The UTF-8 encoding of a text. -/
def bytes (cs : List Char) : List UInt8 := cs.flatMap String.utf8EncodeChar

/-- The byte that ends a line. -/
def lineEnd : UInt8 := 10

theorem bytes_cons (c : Char) (cs : List Char) :
    bytes (c :: cs) = String.utf8EncodeChar c ++ bytes cs := List.flatMap_cons

theorem bytes_eq_toByteArray (text : String) :
    bytes text.toList = text.toByteArray.data.toList := by
  have hencode : text.toList.utf8Encode = text.toByteArray := by
    rw [← String.toByteArray_ofList, String.ofList_toList]
  rw [← hencode, List.utf8Encode, List.toList_data_toByteArray]
  rfl

theorem utf8EncodeChar_newline : String.utf8EncodeChar '\n' = [lineEnd] := by decide

/-- The bytes of a character of several bytes are no ASCII codes. -/
theorem lineEnd_notMem_utf8EncodeChar {c : Char} (hc : c ≠ '\n') :
    lineEnd ∉ String.utf8EncodeChar c := by
  have hcode : c.val.toNat ≠ 10 := fun h => hc (Char.ext (UInt32.toNat_inj.mp h))
  have hbyte (n : Nat) (hlt : n < 256) (hne : n ≠ 10) : lineEnd ≠ UInt8.ofNat n := by
    intro h
    have hnat := congrArg UInt8.toNat h
    rw [UInt8.toNat_ofNat_of_lt' hlt] at hnat
    exact hne hnat.symm
  simp only [String.utf8EncodeChar]
  split
  · simp only [List.mem_singleton]
    exact hbyte _ (by omega) hcode
  · split
    · simp only [List.mem_cons, List.not_mem_nil, or_false, not_or]
      exact ⟨hbyte _ (by omega) (by omega), hbyte _ (by omega) (by omega)⟩
    · split
      · simp only [List.mem_cons, List.not_mem_nil, or_false, not_or]
        exact ⟨hbyte _ (by omega) (by omega), hbyte _ (by omega) (by omega),
          hbyte _ (by omega) (by omega)⟩
      · simp only [List.mem_cons, List.not_mem_nil, or_false, not_or]
        exact ⟨hbyte _ (by omega) (by omega), hbyte _ (by omega) (by omega),
          hbyte _ (by omega) (by omega), hbyte _ (by omega) (by omega)⟩

/-- The offsets after each line end of bytes that begin at `offset`. -/
def lineStarts (offset : Nat) : List UInt8 → List Nat
  | [] => []
  | b :: bs =>
    if b = lineEnd then (offset + 1) :: lineStarts (offset + 1) bs else lineStarts (offset + 1) bs

theorem lineStarts_append (offset : Nat) (as bs : List UInt8) :
    lineStarts offset (as ++ bs) = lineStarts offset as ++ lineStarts (offset + as.length) bs := by
  induction as generalizing offset with
  | nil => rfl
  | cons a as ih =>
    have hoffset : offset + 1 + as.length = offset + (a :: as).length := by
      rw [List.length_cons]
      omega
    rw [List.cons_append, lineStarts, lineStarts, ih, hoffset]
    split <;> rfl

theorem lineStarts_of_notMem {bs : List UInt8} (h : lineEnd ∉ bs) (offset : Nat) :
    lineStarts offset bs = [] := by
  induction bs generalizing offset with
  | nil => rfl
  | cons b bs ih =>
    obtain ⟨hb, hbs⟩ := not_or.mp (mt List.mem_cons.mpr h)
    rw [lineStarts, if_neg (Ne.symm hb), ih hbs]

theorem startsFrom_eq_lineStarts (cs : List Char) (offset : Nat) :
    LineIndex.startsFrom offset cs = lineStarts offset (bytes cs) := by
  induction cs generalizing offset with
  | nil => rfl
  | cons c cs ih =>
    rw [bytes_cons, lineStarts_append, String.length_utf8EncodeChar, ← ih, LineIndex.startsFrom]
    by_cases hc : c = '\n'
    · rw [if_pos hc, hc, utf8EncodeChar_newline]
      rfl
    · rw [if_neg hc, lineStarts_of_notMem (lineEnd_notMem_utf8EncodeChar hc), List.nil_append]

theorem starts_ofText (cs : List Char) :
    (LineIndex.ofText cs).starts.toList = 0 :: lineStarts 0 (bytes cs) := by
  rw [LineIndex.ofText, startsFrom_eq_lineStarts]

theorem mem_lineStarts {bs : List UInt8} {offset start : Nat} (h : start ∈ lineStarts offset bs) :
    offset < start ∧ start ≤ offset + bs.length := by
  induction bs generalizing offset with
  | nil => cases h
  | cons b bs ih =>
    rw [List.length_cons]
    have hlater (h : start ∈ lineStarts (offset + 1) bs) :
        offset < start ∧ start ≤ offset + (bs.length + 1) := by
      have := ih h
      omega
    rw [lineStarts] at h
    split at h
    · rcases List.mem_cons.mp h with rfl | h
      · omega
      · exact hlater h
    · exact hlater h

theorem length_lineStarts (offset : Nat) (bs : List UInt8) :
    (lineStarts offset bs).length = bs.count lineEnd := by
  induction bs generalizing offset with
  | nil => rfl
  | cons b bs ih =>
    rw [lineStarts]
    by_cases hb : b = lineEnd
    · rw [if_pos hb, hb, List.count_cons_self, List.length_cons, ih]
    · rw [if_neg hb, List.count_cons_of_ne hb, ih]

/-- How many bytes follow the last line end. -/
def sinceLineEnd (bs : List UInt8) : Nat := (bs.reverse.takeWhile (· != lineEnd)).length

theorem sinceLineEnd_append_lineEnd (bs : List UInt8) : sinceLineEnd (bs ++ [lineEnd]) = 0 := by
  simp [sinceLineEnd]

theorem sinceLineEnd_append_of_ne (bs : List UInt8) {b : UInt8} (hb : b ≠ lineEnd) :
    sinceLineEnd (bs ++ [b]) = sinceLineEnd bs + 1 := by
  simp [sinceLineEnd, hb]

/-- The last line begins behind the last line end. -/
theorem getLastD_lineStarts (offset : Nat) (bs : List UInt8) :
    (lineStarts offset bs).getLastD offset + sinceLineEnd bs = offset + bs.length := by
  induction bs using List.reverseRecOn with
  | nil => rfl
  | append_singleton bs b ih =>
    rw [lineStarts_append, List.length_append, List.length_singleton]
    by_cases hb : b = lineEnd
    · subst hb
      rw [sinceLineEnd_append_lineEnd]
      have hsingle : lineStarts (offset + bs.length) [lineEnd] = [offset + bs.length + 1] := rfl
      rw [hsingle, List.getLastD_concat]
      omega
    · have hsingle : lineStarts (offset + bs.length) [b] = [] :=
        lineStarts_of_notMem (by simpa using Ne.symm hb) _
      rw [sinceLineEnd_append_of_ne bs hb, hsingle, List.append_nil]
      omega

/-- Halving finds the cut between the entries that satisfy `p` and those that do not. -/
theorem partitionPoint_eq {p : Nat → Bool} {entries : Array Nat} {cut low high : Nat}
    (hlow : low ≤ cut) (hhigh : cut ≤ high) (hsize : high ≤ entries.size)
    (hp : ∀ i < entries.size, p (entries.getD i 0) = true ↔ i < cut) :
    partitionPoint p entries low high = cut := by
  fun_induction partitionPoint p entries low high with
  | case1 low high hlt middle hmiddle ih =>
    have hcut : middle < cut := (hp middle (by omega)).mp hmiddle
    exact ih hcut hhigh hsize
  | case2 low high hlt middle hmiddle ih =>
    have hcut : ¬middle < cut := fun h => hmiddle ((hp middle (by omega)).mpr h)
    exact ih hlow (by omega) (by omega)
  | case3 low high hlt => omega

/-- The bytes of a text before an offset. -/
def bytesBefore (text : String) (o : Nat) : List UInt8 := text.toByteArray.data.toList.take o

namespace LineIndex

/-- The line of an offset is the last that begins in the bytes before it. -/
theorem starts_split (text : String) (o : Nat) :
    ∃ behind, (ofText text.toList).starts.toList =
        (0 :: lineStarts 0 (bytesBefore text o)) ++ behind ∧
      ∀ start ∈ behind, (bytesBefore text o).length < start := by
  refine ⟨lineStarts (bytesBefore text o).length (text.toByteArray.data.toList.drop o), ?_,
    fun start h => (mem_lineStarts h).1⟩
  rw [starts_ofText, bytes_eq_toByteArray, List.cons_append]
  congr 1
  rw [← Nat.zero_add (bytesBefore text o).length, ← lineStarts_append, bytesBefore,
    List.take_append_drop]

theorem length_bytesBefore {text : String} {o : Nat} (ho : o ≤ text.utf8ByteSize) :
    (bytesBefore text o).length = o := by
  rw [bytesBefore, List.length_take, Array.length_toList, ByteArray.size_data,
    String.size_toByteArray, Nat.min_eq_left ho]

/-- An entry is a beginning at or before the offset exactly if it is one of the first. -/
theorem le_iff_lt_of_starts {text : String} {o : Nat} (ho : o ≤ text.utf8ByteSize) {i start : Nat}
    (h : (ofText text.toList).starts[i]? = some start) :
    start ≤ o ↔ i < (bytesBefore text o).count lineEnd + 1 := by
  obtain ⟨behind, hsplit, hbehind⟩ := starts_split text o
  have hlength : (0 :: lineStarts 0 (bytesBefore text o)).length =
      (bytesBefore text o).count lineEnd + 1 := by
    rw [List.length_cons, length_lineStarts]
  rw [← Array.getElem?_toList, hsplit] at h
  rw [← hlength]
  by_cases hi : i < (0 :: lineStarts 0 (bytesBefore text o)).length
  · rw [List.getElem?_append_left hi] at h
    refine iff_of_true ?_ hi
    rcases List.mem_cons.mp (List.mem_of_getElem? h) with rfl | hmem
    · exact Nat.zero_le o
    · have hle := (mem_lineStarts hmem).2
      rwa [Nat.zero_add, length_bytesBefore ho] at hle
  · rw [List.getElem?_append_right (Nat.le_of_not_lt hi)] at h
    have hlt := hbehind start (List.mem_of_getElem? h)
    rw [length_bytesBefore ho] at hlt
    exact iff_of_false (Nat.not_le_of_lt hlt) hi

/-- The beginning of the line of an offset is as far from it as the last line end. -/
theorem exists_start {text : String} {o : Nat} (ho : o ≤ text.utf8ByteSize) :
    ∃ start, (ofText text.toList).starts[(bytesBefore text o).count lineEnd]? = some start ∧
      start + sinceLineEnd (bytesBefore text o) = o := by
  obtain ⟨behind, hsplit, -⟩ := starts_split text o
  refine ⟨(lineStarts 0 (bytesBefore text o)).getLastD 0, ?_, ?_⟩
  · rw [← Array.getElem?_toList, hsplit, ← length_lineStarts 0,
      List.getElem?_append_left (by rw [List.length_cons]; omega), List.getLastD_eq_getLast?,
      ← List.getLast?_cons, List.getLast?_eq_getElem?]
    rfl
  · rw [getLastD_lineStarts, Nat.zero_add, length_bytesBefore ho]

theorem partitionPoint_starts {text : String} {o : Nat} (ho : o ≤ text.utf8ByteSize) :
    partitionPoint (· ≤ o) (ofText text.toList).starts 0 (ofText text.toList).starts.size =
      (bytesBefore text o).count lineEnd + 1 := by
  obtain ⟨start, hstart, -⟩ := exists_start ho
  have hsize := (Array.getElem?_eq_some_iff.mp hstart).choose
  refine partitionPoint_eq (Nat.zero_le _) hsize le_rfl fun i hi => ?_
  rw [decide_eq_true_iff]
  apply le_iff_lt_of_starts ho
  rw [Array.getD_eq_getD_getElem?, Array.getElem?_eq_getElem hi, Option.getD_some]

theorem position_eq {text : String} {o : Nat} (ho : o ≤ text.utf8ByteSize) :
    (ofText text.toList).position o =
      ((bytesBefore text o).count lineEnd + 1, sinceLineEnd (bytesBefore text o) + 1) := by
  obtain ⟨start, hstart, hsum⟩ := exists_start ho
  have hline : max (partitionPoint (· ≤ o) (ofText text.toList).starts 0
      (ofText text.toList).starts.size) 1 = (bytesBefore text o).count lineEnd + 1 := by
    rw [partitionPoint_starts ho]
    omega
  have hentry : (ofText text.toList).starts.getD ((bytesBefore text o).count lineEnd) 0 = start := by
    rw [Array.getD_eq_getD_getElem?, hstart, Option.getD_some]
  rw [position, hline, Nat.add_sub_cancel, hentry]
  congr 2
  omega

/-- A later offset has a later position. -/
theorem position_lt {text : String} {o o' : Nat} (ho' : o' ≤ text.utf8ByteSize) (hlt : o < o') :
    toLex ((ofText text.toList).position o) < toLex ((ofText text.toList).position o') := by
  have ho : o ≤ text.utf8ByteSize := by omega
  obtain ⟨start, hstart, hsum⟩ := exists_start ho
  obtain ⟨start', hstart', hsum'⟩ := exists_start ho'
  have hcount : (bytesBefore text o).count lineEnd ≤ (bytesBefore text o').count lineEnd :=
    (List.take_prefix_take_left (by omega)).sublist.count_le lineEnd
  rw [position_eq ho, position_eq ho', Prod.Lex.toLex_lt_toLex]
  rcases Nat.lt_or_eq_of_le hcount with hless | heq
  · exact .inl (Nat.add_lt_add_right hless 1)
  · -- on one line the beginning is the same, so the columns are apart as the offsets are
    have hsame : start = start' := Option.some.inj (by rw [← hstart, ← hstart', heq])
    exact .inr ⟨by rw [heq], by dsimp only; omega⟩

theorem position_exact (text : String) {o : Nat} (ho : o ≤ text.utf8ByteSize) :
    (ofText text.toList).position o =
        ((bytesBefore text o).count lineEnd + 1, sinceLineEnd (bytesBefore text o) + 1) ∧
      (∃ start, (ofText text.toList).starts[((ofText text.toList).position o).1 - 1]? = some start ∧
        start ≤ o ∧ start + (((ofText text.toList).position o).2 - 1) = o) ∧
      ∀ o' ≤ text.utf8ByteSize, o < o' →
        toLex ((ofText text.toList).position o) < toLex ((ofText text.toList).position o') := by
  obtain ⟨start, hstart, hsum⟩ := exists_start ho
  refine ⟨position_eq ho, ⟨start, ?_, by omega, ?_⟩, fun o' ho' hlt => position_lt ho' hlt⟩
  · rw [position_eq ho]
    exact hstart
  · rw [position_eq ho]
    exact hsum

/-- The offset lies inside of a character on the third line, behind an empty one. -/
theorem position_exact_insideCharacter :
    4 ≤ "a\n\né\n".utf8ByteSize ∧ (ofText "a\n\né\n".toList).position 4 = (3, 2) ∧
      toLex ((ofText "a\n\né\n".toList).position 4) <
        toLex ((ofText "a\n\né\n".toList).position 6) := by
  have hsize : "a\n\né\n".utf8ByteSize = 6 := by decide
  have hle : 4 ≤ "a\n\né\n".utf8ByteSize := by omega
  obtain ⟨hposition, -, hlater⟩ := position_exact "a\n\né\n" hle
  exact ⟨hle, hposition.trans (by decide +kernel), hlater 6 (by omega) (by omega)⟩

end LineIndex
end LevelGuard.Text
