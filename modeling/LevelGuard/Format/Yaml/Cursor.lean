import LevelGuard.Text.Basic

/-!
# Places in a YAML text

A text is read from the front; the cursor knows the line and the column it is at,
since both decide what the characters mean. Five kinds of line break are known, of
which all but the two of Unicode stand for a line feed.
-/
namespace LevelGuard.Format.Yaml

def isAllowed (c : Char) : Bool :=
  let n := c.toNat
  n = 0x09 || n = 0x0A || n = 0x0D || (0x20 ≤ n && n ≤ 0x7E) || n = 0x85
    || (0xA0 ≤ n && n ≤ 0xFFFD) || 0x10000 ≤ n

def isBlank (c : Char) : Bool := c = ' ' || c = '\t'

def isBreak (c : Char) : Bool :=
  c = '\n' || c = '\r' || c = '\u0085' || c = '\u2028' || c = '\u2029'

/-- Whether a blank, a line break or the end of the text comes first. -/
def gapAhead (cs : List Char) : Bool := cs.head?.all fun c => isBlank c || isBreak c

/-- The characters of names: letters and digits of ASCII, hyphens and underscores. -/
def isWordChar (c : Char) : Bool := c.isAlphanum || c = '_' || c = '-'

/-- The characters that separate the parts of collections in brackets. -/
def isFlowMark (c : Char) : Bool := [',', '[', ']', '\x7b', '\x7d'].contains c

structure Cursor where
  rest : List Char
  index : Nat := 0
  line : Nat := 0
  column : Nat := 0
  deriving Repr

namespace Cursor

/-- The place after `n` characters of the same line. -/
def skip (n : Nat) (c : Cursor) : Cursor :=
  { c with rest := c.rest.drop n, index := c.index + n, column := c.column + n }

def skipBreak (n : Nat) (c : Cursor) : Cursor :=
  { rest := c.rest.drop n, index := c.index + n, line := c.line + 1 }

/-- Whether a line starts here with three such characters that stand alone. -/
def atMarker (mark : Char) (c : Cursor) : Bool :=
  c.column = 0 && c.rest.take 3 = [mark, mark, mark] && gapAhead (c.rest.drop 3)

end Cursor

abbrev Reader (α : Type) := StateT Cursor Option α

namespace Reader

def rest : Reader (List Char) := do return (← get).rest

def peek? : Reader (Option Char) := do return (← rest).head?

def isAhead (p : Char → Bool) : Reader Bool := do return (← peek?).any p

def skip (n : Nat) : Reader Unit := modify (·.skip n)

/-- The longest run of characters that satisfy `p`, none of which is a line break. -/
def run (p : Char → Bool) : Reader (List Char) := do
  let cs := (← rest).takeWhile fun c => p c && !isBreak c
  skip cs.length
  return cs

def tryChar (c : Char) : Reader Bool := do
  if ← isAhead (· = c) then
    skip 1
    return true
  else return false

def char (c : Char) : Reader Unit := do
  unless ← tryChar c do failure

def lineBreak : Reader (List Char) := do
  match ← rest with
  | '\r' :: '\n' :: _ =>
    modify (·.skipBreak 2)
    return ['\n']
  | c :: _ =>
    if isBreak c then
      modify (·.skipBreak 1)
      return [if c = '\u2028' || c = '\u2029' then c else '\n']
    else return []
  | [] => return []

/-- The rest of a line on which only blanks and a comment may follow. -/
def lineEnd : Reader Unit := do
  let _ ← run isBlank
  if ← isAhead (· = '#') then
    let _ ← run fun _ => true
  unless (← peek?).all isBreak do failure
  let _ ← lineBreak

end Reader
end LevelGuard.Format.Yaml
