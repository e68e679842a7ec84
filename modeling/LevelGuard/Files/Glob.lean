import LevelGuard.Text.Basic

/-!
# Patterns for paths

A pattern is read in two steps. Its characters are first taken as signs, where a
backslash makes the next character plain and a bracket opens a class; the signs
then give pieces. Two stars between slashes, or at either end, stand for any
number of folders, and elsewhere for two single stars. Braces list alternatives,
which may hold braces again; empty ones do not count.

Pieces are matched against the bytes of a path, so a question mark stands for
one byte. A single star and a question mark never cross a slash; a class may.
-/
namespace LevelGuard
namespace Glob

def bytesOf (cs : List Char) : List UInt8 := cs.flatMap String.utf8EncodeChar

def slash : UInt8 := 47

def point : UInt8 := 46

abbrev ByteRange := UInt8 × UInt8

inductive Sign where
  | plain (c : Char)
  | escaped (c : Char)
  | one
  | star
  | members (isNegated : Bool) (ranges : List (Char × Char))
  | opening
  | closing
  | comma
  deriving DecidableEq, Repr

/-- A class as far as it is read, the last range first. -/
structure OpenClass where
  isNegated : Bool
  ranges : List (Char × Char)
  isFirst : Bool
  inRange : Bool
  deriving DecidableEq, Repr

namespace OpenClass

def start (isNegated : Bool) : OpenClass := ⟨isNegated, [], true, false⟩

/-- The class with one more character. A range must not run backwards. -/
def add? (k : OpenClass) (c : Char) : Option OpenClass :=
  if k.inRange then
    match k.ranges with
    | (lo, _) :: rest =>
      if lo ≤ c then some ⟨k.isNegated, (lo, c) :: rest, false, false⟩ else none
    | [] => none
  else if c = '-' ∧ ¬k.isFirst then some { k with inRange := true }
  else some ⟨k.isNegated, (c, c) :: k.ranges, false, false⟩

/-- The finished class; a dash before the closing bracket is a member. -/
def close (k : OpenClass) : Sign :=
  .members k.isNegated (if k.inRange then ('-', '-') :: k.ranges else k.ranges).reverse

end OpenClass

inductive Fault where
  | unclosedClass
  | malformed
  deriving DecidableEq, Repr

/-- What is read: signs, the members of a class, or signs where brackets are plain. -/
inductive Mode where
  | signs
  | inside (k : OpenClass)
  | plainBrackets

/-- The signs of a pattern. If `lenient`, a bracket that opens a class which is never
closed is plain, and so are all after it. -/
def signsFrom (lenient : Bool) : Mode → List Char → Except Fault (List Sign)
  | .inside _, [] => .error .unclosedClass
  | _, [] => .ok []
  | .inside k, c :: cs =>
    if c = ']' && !k.isFirst then (signsFrom lenient .signs cs).map (k.close :: ·)
    else
      match k.add? c with
      | some k => signsFrom lenient (.inside k) cs
      | none => .error .malformed
  | _, ['\\'] => .error .malformed
  | mode, '\\' :: c :: cs => (signsFrom lenient mode cs).map (.escaped c :: ·)
  | .signs, '[' :: cs =>
    let members :=
      match cs with
      | '!' :: cs | '^' :: cs => signsFrom lenient (.inside (.start true)) cs
      | cs => signsFrom lenient (.inside (.start false)) cs
    match members with
    | .error .unclosedClass =>
      if lenient then (signsFrom lenient .plainBrackets cs).map (.plain '[' :: ·)
      else .error .unclosedClass
    | other => other
  | mode, c :: cs =>
    let sign : Sign :=
      match c with
      | '?' => .one
      | '*' => .star
      | '\x7b' => .opening
      | '\x7d' => .closing
      | ',' => .comma
      | c => .plain c
    (signsFrom lenient mode cs).map (sign :: ·)

def signs? (lenient : Bool) (cs : List Char) : Option (List Sign) :=
  (signsFrom lenient .signs cs).toOption

inductive Piece where
  | byte (b : UInt8)
  /-- One byte that is no slash. -/
  | one
  /-- Any bytes but slashes. -/
  | run
  | members (isNegated : Bool) (ranges : List ByteRange)
  /-- Any folders at the start, or none. -/
  | foldersFirst
  /-- A slash, or two slashes with any folders between them. -/
  | foldersBetween
  /-- A slash and all after it. -/
  | foldersLast
  /-- One of some sequences; without any it stands for nothing. -/
  | choice (branches : List (List Piece))
  deriving Repr

namespace Piece

def isByte : Piece → Bool
  | byte _ => true
  | _ => false

def isSlash : Piece → Bool
  | byte b => b = slash
  | _ => false

def isVoid : Piece → Bool
  | choice [] => true
  | _ => false

end Piece

/-- The bytes a range of characters covers. Of characters written in several
bytes each byte counts by itself, and the range joins the neighbouring two. -/
def byteRanges (lo hi : Char) : List ByteRange :=
  let single (b : UInt8) : ByteRange := (b, b)
  if lo = hi then (bytesOf [lo]).map single
  else
    let first := bytesOf [lo]
    let last := bytesOf [hi]
    first.dropLast.map single ++ [(first.getLastD 0, last.headD 0)] ++ last.tail.map single

/-- Alternatives that are open: the branches so far, last first, and the pieces before
the brace, backwards. -/
structure OpenChoice where
  branches : List (List Piece)
  before : List Piece
  deriving Repr

/-- A pattern as far as it is read: the pieces of the branch at hand, backwards, and
the open alternatives, innermost first. -/
structure Draft where
  current : List Piece := []
  choices : List OpenChoice := []
  deriving Repr

namespace Draft

def push (d : Draft) (p : Piece) : Draft := { d with current := p :: d.current }

def pushBytes (d : Draft) (c : Char) : Draft := (bytesOf [c]).foldl (fun d b => d.push (.byte b)) d

def begin (d : Draft) : Draft := ⟨[], ⟨[], d.current⟩ :: d.choices⟩

/-- Begin the next alternative. Outside braces a comma is plain. -/
def comma (d : Draft) : Draft :=
  match d.choices with
  | k :: rest => ⟨[], { k with branches := d.current :: k.branches } :: rest⟩
  | [] => d.pushBytes ','

/-- End the innermost alternatives. Those that say nothing are dropped. -/
def close? (d : Draft) : Option Draft :=
  match d.choices with
  | k :: rest =>
    let branches := (d.current :: k.branches).reverse.filter fun b => !b.all Piece.isVoid
    some ⟨.choice (branches.map List.reverse) :: k.before, rest⟩
  | [] => none

/-- Two stars that stand for no folders. -/
def twoRuns (d : Draft) : Draft := (d.push .run).push .run

/-- Two stars after a slash, which is part of the piece that they make. -/
def folders (d : Draft) (p : Piece) : Draft :=
  match d.current with
  | .foldersFirst :: _ | .foldersLast :: _ => d
  | ps => { d with current := p :: ps.tail }

end Draft

/-- The draft after the signs; `last` is the character before them. -/
def draft? : (last : Option Char) → Draft → List Sign → Option Draft
  | _, d, [] => if d.choices.isEmpty then some d else none
  | last, d, .star :: .star :: rest =>
    let inChoice := !d.choices.isEmpty
    if d.current.isEmpty then
      match rest with
      | .plain '/' :: rest => draft? (some '/') (d.push .foldersFirst) rest
      | rest => draft? (some '*') (if rest.isEmpty then d.push .foldersFirst else d.twoRuns) rest
    else if last = some '/' || (inChoice && (last = some ',' || last = some '\x7b')) then
      match rest with
      | .plain '/' :: rest => draft? (some '/') (d.folders .foldersBetween) rest
      | rest =>
        let branchEnds := rest.head? = some .comma || rest.head? = some .closing
        let ends := rest.isEmpty || (inChoice && branchEnds)
        draft? (some '*') (if ends then d.folders .foldersLast else d.twoRuns) rest
    else draft? (some '*') d.twoRuns rest
  | _, d, .star :: rest => draft? (some '*') (d.push .run) rest
  | _, d, .one :: rest => draft? (some '?') (d.push .one) rest
  | _, d, .plain c :: rest => draft? (some c) (d.pushBytes c) rest
  | _, d, .escaped c :: rest => draft? (some c) (d.pushBytes c) rest
  | _, d, .members isNegated ranges :: rest =>
    draft? (some ']') (d.push (.members isNegated (ranges.flatMap fun (lo, hi) => byteRanges lo hi))) rest
  | _, d, .opening :: rest => draft? (some '\x7b') d.begin rest
  | _, d, .closing :: rest => d.close?.bind fun d => draft? (some '\x7d') d rest
  | _, d, .comma :: rest => draft? (some ',') d.comma rest

def afterSlashes : List UInt8 → List (List UInt8)
  | [] => []
  | b :: bs => if b = slash then bs :: afterSlashes bs else afterSlashes bs

/-- The text and all its rests as long as the bytes before them satisfy `p`. -/
def restsWhile (p : UInt8 → Bool) : List UInt8 → List (List UInt8)
  | [] => [[]]
  | b :: bs => if p b then (b :: bs) :: restsWhile p bs else [b :: bs]

mutual

def Piece.rests : Piece → List UInt8 → List (List UInt8)
  | .byte b, cs =>
    match cs with
    | c :: cs => if b = c then [cs] else []
    | [] => []
  | .one, cs =>
    match cs with
    | c :: cs => if c = slash then [] else [cs]
    | [] => []
  | .run, cs => restsWhile (· ≠ slash) cs
  | .members isNegated ranges, cs =>
    match cs with
    | c :: cs => if (ranges.any fun (lo, hi) => lo ≤ c && c ≤ hi) = isNegated then [] else [cs]
    | [] => []
  | .foldersFirst, cs => cs :: afterSlashes cs
  | .foldersBetween, cs =>
    match cs with
    | c :: cs => if c = slash then cs :: afterSlashes cs else []
    | [] => []
  | .foldersLast, cs =>
    match cs with
    | c :: cs => if c = slash then restsWhile (fun _ => true) cs else []
    | [] => []
  | .choice branches, cs => if branches.isEmpty then [cs] else branchRests branches cs

def branchRests : List (List Piece) → List UInt8 → List (List UInt8)
  | [], _ => []
  | b :: bs, cs => sequenceRests b cs ++ branchRests bs cs

def sequenceRests : List Piece → List UInt8 → List (List UInt8)
  | [], cs => [cs]
  | p :: ps, cs => (p.rests cs).flatMap (sequenceRests ps)

end

def spells : List Piece → List UInt8 → Bool
  | [], bs => bs.isEmpty
  | p :: ps, bs => (p.rests bs).any (spells ps)

/-- Whether a pattern asks for a name that ends in a point, which no name is taken to
do unless the pattern spells out a whole path or its last names. -/
def isVain (ps : List Piece) : Bool :=
  let endsInPoint :=
    match ps.getLast? with
    | some (.byte b) => b = point
    | _ => false
  let spelledOut :=
    match ps with
    | .foldersFirst :: ps => ps.all Piece.isByte && ps.any Piece.isSlash
    | ps => ps.all Piece.isByte
  endsInPoint && !spelledOut

end Glob

structure Glob where
  pieces : List Glob.Piece
  deriving Repr

namespace Glob

/-- The pattern that is written so; `lenient` is about classes that are not closed. -/
def ofText? (lenient : Bool) (s : List Char) : Option Glob :=
  ((signs? lenient s).bind (draft? none {})).map fun d => ⟨d.current.reverse⟩

/-- Whether a path, as its names joined by slashes, matches. Two stars alone match
every path. -/
def accepts (g : Glob) (names : List String) : Bool :=
  match g.pieces with
  | [.foldersFirst] => true
  | ps => !isVain ps && spells ps (bytesOf (Text.joinWith "/" names).toList)

end Glob
end LevelGuard
