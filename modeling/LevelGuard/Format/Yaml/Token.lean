import LevelGuard.Format.Yaml.Scalar
import LevelGuard.Format.Yaml.Tag

/-!
# Tokens of YAML

A text is cut into tokens from left to right. Outside brackets the indentation counts:
a column further right than all before opens a block, and a column further left closes
the blocks that it leaves.

What stands before a colon is a key, which shows only when the colon is reached. So a
place where a key can start is remembered, one for each pair of brackets that is open,
and the token that marks a key is put there when its colon comes. A key has to end
on its line and within 1024 characters.
-/
namespace LevelGuard.Format.Yaml

open Reader

inductive Token where
  | directive (d : Directive)
  | documentStart
  | documentEnd
  | listStart
  | mapStart
  /-- The end of a block that indentation opened. -/
  | blockEnd
  | bracket (c : Char)
  /-- The mark of an item of a list by indentation. -/
  | item
  | comma
  | key
  | value
  | alias (name : String)
  | anchor (name : String)
  | tag (t : TagText)
  | scalar (s : Scalar)
  deriving DecidableEq, Repr

/-- A place where a key may have started. -/
structure Candidate where
  position : Nat
  place : Cursor
  /-- Whether nothing but a key can stand there. -/
  required : Bool

structure Scanner where
  cursor : Cursor
  tokens : List Token := []
  count : Nat := 0
  /-- The columns of the open blocks, innermost first. -/
  indents : List Nat := []
  /-- The key that may have started inside the innermost brackets. -/
  candidate : Option Candidate := none
  /-- The same for the brackets around them and, last, for what is outside of all. -/
  outer : List (Option Candidate) := []
  keyAllowed : Bool := true

namespace Scanner

def flow (s : Scanner) : Bool := !s.outer.isEmpty

/-- The least column of what belongs into the innermost block. -/
def column (s : Scanner) : Nat :=
  match s.indents with
  | [] => 0
  | i :: _ => i + 1

def push (t : Token) (s : Scanner) : Scanner :=
  { s with tokens := t :: s.tokens, count := s.count + 1 }

def insert (position : Nat) (t : Token) (s : Scanner) : Scanner :=
  let later := s.count - position
  { s with
    tokens := s.tokens.take later ++ t :: s.tokens.drop later
    count := s.count + 1 }

def read {α : Type} (p : Reader α) (s : Scanner) : Option (α × Scanner) :=
  (StateT.run p s.cursor).map fun (a, cursor) => (a, { s with cursor })

def skip (n : Nat) (s : Scanner) : Scanner := { s with cursor := s.cursor.skip n }

/-! ### Blocks -/

/-- Close blocks, from the inside, as long as their column is right of the given one. -/
def closeTo (column : Nat) : List Nat → Scanner → Scanner
  | [], s => { s with indents := [] }
  | i :: is, s =>
    if column < i then closeTo column is (s.push .blockEnd) else { s with indents := i :: is }

def unindent (column : Nat) (s : Scanner) : Scanner :=
  if s.flow then s else closeTo column s.indents s

def closeBlocks (s : Scanner) : Scanner :=
  if s.flow then s
  else { s.indents.foldl (fun s _ => s.push .blockEnd) s with indents := [] }

/-- Open a block before the token at a position, if its column is further right. -/
def indent (column position : Nat) (start : Token) (s : Scanner) : Scanner :=
  if s.flow || column < s.column then s
  else { s.insert position start with indents := column :: s.indents }

/-! ### Keys -/

def isStale (s : Scanner) (k : Candidate) : Bool :=
  k.place.line < s.cursor.line || k.place.index + 1024 < s.cursor.index

/-- What is left of a candidate, unless a key is missing. -/
def refresh? (s : Scanner) : Option Candidate → Option (Option Candidate)
  | none => some none
  | some k => if !s.isStale k then some (some k) else if k.required then none else some none

def dropStale (s : Scanner) : Option Scanner := do
  return { s with candidate := ← s.refresh? s.candidate, outer := ← s.outer.mapM s.refresh? }

def dropKey (s : Scanner) : Option Scanner :=
  if s.candidate.any (·.required) then none else some { s with candidate := none }

def saveKey (s : Scanner) : Option Scanner := do
  if !s.keyAllowed then return s
  let s ← s.dropKey
  let required := !s.flow && s.indents.head? = some s.cursor.column
  return { s with candidate := some ⟨s.count, s.cursor, required⟩ }

/-! ### Tokens -/

/-- Skip blanks, comments and line breaks. A tab is a blank only where no key can start.
After a line break a key can start outside brackets. -/
def skipGap : (bound : Nat) → Scanner → Scanner
  | 0, s => s
  | bound + 1, s =>
    let bom := s.cursor.index = 0 && s.cursor.rest.head? = some '\uFEFF'
    let s := if bom then s.skip 1 else s
    let isGap (c : Char) : Bool := c = ' ' || (c = '\t' && (s.flow || !s.keyAllowed))
    let s := s.skip (s.cursor.rest.takeWhile isGap).length
    let s :=
      if s.cursor.rest.head? = some '#' then
        s.skip (s.cursor.rest.takeWhile fun c => !isBreak c).length
      else s
    if s.cursor.rest.head?.any isBreak then
      match s.read lineBreak with
      | none => s
      | some (_, s) => skipGap bound { s with keyAllowed := s.keyAllowed || !s.flow }
    else s

/-- A directive or the mark of a document, which closes all blocks. -/
def fetchTopLevel (p : Reader Token) (s : Scanner) : Option Scanner := do
  let s ← s.closeBlocks.dropKey
  let (t, s) ← s.read p
  return { s.push t with keyAllowed := false }

def fetchOpen (c : Char) (s : Scanner) : Option Scanner := do
  let s ← s.saveKey
  return { s.push (.bracket c) with
    outer := s.candidate :: s.outer, candidate := none, keyAllowed := true,
    cursor := s.cursor.skip 1 }

def fetchClose (c : Char) (s : Scanner) : Option Scanner := do
  let s ← s.dropKey
  let s := { s.push (.bracket c) with keyAllowed := false, cursor := s.cursor.skip 1 }
  match s.outer with
  | k :: outer => return { s with candidate := k, outer }
  | [] => return s

def fetchComma (s : Scanner) : Option Scanner := do
  let s ← s.dropKey
  return { s.push .comma with keyAllowed := true, cursor := s.cursor.skip 1 }

def fetchItem (s : Scanner) : Option Scanner := do
  if !s.flow && !s.keyAllowed then none
  let s ← (s.indent s.cursor.column s.count .listStart).dropKey
  return { s.push .item with keyAllowed := true, cursor := s.cursor.skip 1 }

/-- The mark of a key that is more than a scalar. -/
def fetchKey (s : Scanner) : Option Scanner := do
  if !s.flow && !s.keyAllowed then none
  let s ← (s.indent s.cursor.column s.count .mapStart).dropKey
  return { s.push .key with keyAllowed := !s.flow, cursor := s.cursor.skip 1 }

/-- The mark of a value, before which a key may have ended. -/
def fetchValue (s : Scanner) : Option Scanner := do
  let s ←
    match s.candidate with
    | some k =>
      let s := (s.insert k.position .key).indent k.place.column k.position .mapStart
      pure { s with candidate := none, keyAllowed := false }
    | none =>
      if !s.flow && !s.keyAllowed then none
      let s := s.indent s.cursor.column s.count .mapStart
      pure { s with keyAllowed := !s.flow }
  return { s.push .value with cursor := s.cursor.skip 1 }

def fetchStart (p : Reader Token) (s : Scanner) : Option Scanner := do
  let (t, s) ← (← s.saveKey).read p
  return { s.push t with keyAllowed := false }

def fetchBlock (style : ScalarStyle) (s : Scanner) : Option Scanner := do
  let (v, s) ← (← s.dropKey).read (block style s.column)
  return { s.push (.scalar v) with keyAllowed := true }

/-- A scalar without quotes; a key can start after it if it ended with its line. -/
def fetchPlain (s : Scanner) : Option Scanner := do
  let ((v, broken), s) ← (← s.saveKey).read (plain s.flow s.column)
  return { s.push (.scalar v) with keyAllowed := broken }

def startsPlain (flow : Bool) (c : Char) (cs : List Char) : Bool :=
  if c = '-' then !cs.head?.any isBlank
  else if c = '?' || c = ':' then !flow && !gapAhead cs
  else !isFlowMark c && !(['#', '&', '*', '!', '|', '>', '\'', '"', '%', '@', '\x60'].contains c)
    && !isBlank c && !isBreak c

/-- The tokens that begin with the character at hand, `cs` being what follows it. -/
def fetch (c : Char) (cs : List Char) (s : Scanner) : Option Scanner :=
  let marked := gapAhead cs
  if s.cursor.column = 0 && c = '%' then s.fetchTopLevel (Token.directive <$> directive)
  else if s.cursor.atMarker '-' then
    s.fetchTopLevel do
      Reader.skip 3
      return .documentStart
  else if s.cursor.atMarker '.' then
    s.fetchTopLevel do
      Reader.skip 3
      return .documentEnd
  else if c = '[' || c = '\x7b' then s.fetchOpen c
  else if c = ']' || c = '\x7d' then s.fetchClose c
  else if c = ',' then s.fetchComma
  else if c = '-' && marked then s.fetchItem
  else if c = '?' && (s.flow || marked) then s.fetchKey
  else if c = ':' && (s.flow || marked) then s.fetchValue
  else if c = '*' then s.fetchStart (Token.alias <$> anchorName)
  else if c = '&' then s.fetchStart (Token.anchor <$> anchorName)
  else if c = '!' then s.fetchStart (Token.tag <$> Yaml.tag s.flow)
  else if c = '|' && !s.flow then s.fetchBlock .literal
  else if c = '>' && !s.flow then s.fetchBlock .quoted
  else if c = '\'' || c = '"' then s.fetchStart (Token.scalar <$> quoted c)
  else if startsPlain s.flow c cs then s.fetchPlain
  else none

def scanFrom : (bound : Nat) → Scanner → Option (List Token)
  | 0, _ => none
  | bound + 1, s => do
    let s ← (s.skipGap (s.cursor.rest.length + 1)).dropStale
    let s := s.unindent s.cursor.column
    match s.cursor.rest with
    | [] =>
      let s ← s.closeBlocks.dropKey
      return s.tokens.reverse
    | c :: cs => scanFrom bound (← s.fetch c cs)

end Scanner

def Token.scan? (cs : List Char) : Option (List Token) :=
  Scanner.scanFrom (cs.length + 1) { cursor := { rest := cs } }

end LevelGuard.Format.Yaml
