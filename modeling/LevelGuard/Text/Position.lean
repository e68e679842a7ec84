/-!
# Positions in a text

A span names a stretch of source text twice: by lines and columns, which are
one-based and count bytes of the UTF-8 encoding, and by zero-based byte offsets
with an exclusive end. A line index keeps the offsets at which lines begin and gives
the line and column of an offset: the line is the last one that begins at it or
before it, and it is searched for by halving.
-/
namespace LevelGuard

structure Span where
  line : Nat := 0
  column : Nat := 0
  endLine : Nat := 0
  endColumn : Nat := 0
  startByte : Nat := 0
  endByte : Nat := 0
  deriving DecidableEq, Repr, Inhabited

namespace Text

def byteLength : List Char → Nat
  | [] => 0
  | c :: cs => c.utf8Size + byteLength cs

theorem byteLength_append (cs ds : List Char) :
    byteLength (cs ++ ds) = byteLength cs + byteLength ds := by
  induction cs with
  | nil => simp [byteLength]
  | cons c cs ih => simp [byteLength, ih, Nat.add_assoc]

/-- The characters from byte `n` on, or `none` if `n` lies inside a character
or beyond the end. -/
def dropBytes? : Nat → List Char → Option (List Char)
  | 0, cs => some cs
  | _ + 1, [] => none
  | n + 1, c :: cs => if c.utf8Size ≤ n + 1 then dropBytes? (n + 1 - c.utf8Size) cs else none
termination_by _ cs => cs.length

/-- The characters before byte `n`, or `none` if `n` lies inside a character or
beyond the end. -/
def takeBytes? : Nat → List Char → Option (List Char)
  | 0, _ => some []
  | _ + 1, [] => none
  | n + 1, c :: cs =>
    if c.utf8Size ≤ n + 1 then (takeBytes? (n + 1 - c.utf8Size) cs).map (c :: ·) else none
termination_by _ cs => cs.length

/-- The stretch between two byte offsets, if both fall between characters. -/
def slice? (start stop : Nat) (cs : List Char) : Option (List Char) :=
  if start ≤ stop then (dropBytes? start cs).bind (takeBytes? (stop - start)) else none

/-- The place between two others of the first entry that fails `p`, where the entries that
satisfy `p` come first. -/
def partitionPoint (p : Nat → Bool) (entries : Array Nat) (low high : Nat) : Nat :=
  if low < high then
    let middle := (low + high) / 2
    if p (entries.getD middle 0) then partitionPoint p entries (middle + 1) high
    else partitionPoint p entries low middle
  else low
termination_by high - low

/-- The byte offsets at which lines begin, in increasing order. -/
structure LineIndex where
  starts : Array Nat

namespace LineIndex

def startsFrom (offset : Nat) : List Char → List Nat
  | [] => []
  | c :: cs =>
    let next := offset + c.utf8Size
    if c = '\n' then next :: startsFrom next cs else startsFrom next cs

def ofText (cs : List Char) : LineIndex := ⟨(0 :: startsFrom 0 cs).toArray⟩

def position (index : LineIndex) (offset : Nat) : Nat × Nat :=
  let line := max (partitionPoint (· ≤ offset) index.starts 0 index.starts.size) 1
  (line, offset - index.starts.getD (line - 1) 0 + 1)

def span (index : LineIndex) (start stop : Nat) : Span :=
  let (line, column) := index.position start
  let (endLine, endColumn) := index.position stop
  ⟨line, column, endLine, endColumn, start, stop⟩

end LineIndex
end Text
end LevelGuard
