import LevelGuard.Format.Value
import LevelGuard.Format.Yaml.Cursor
import LevelGuard.Text.Basic

/-!
# Scalars of YAML

A scalar is written without quotes, in single or double quotes, or as a block of
indented lines. Where a scalar runs over several lines they are folded: one line
break stands for a space and each further one for itself.
-/
namespace LevelGuard.Format.Yaml

open Reader

structure Gap where
  blanks : List Char := []
  first : Option (List Char) := none
  further : List Char := []

namespace Gap

def text (g : Gap) : List Char :=
  match g.first with
  | none => g.blanks
  | some ['\n'] => if g.further.isEmpty then [' '] else g.further
  | some first => first ++ g.further

def add (g : Gap) (lineBreak : List Char) : Gap :=
  match g.first with
  | none => { g with first := some lineBreak }
  | some _ => { g with further := g.further ++ lineBreak }

/-- White space from here on. In a further line no tab may stand left of the column. -/
def readFrom (column : Nat) : (bound : Nat) → Gap → Reader Gap
  | 0, g => return g
  | bound + 1, g => do
    match ← peek? with
    | none => return g
    | some c =>
      if isBreak c then readFrom column bound (g.add (← lineBreak))
      else if !isBlank c then return g
      else if g.first.isNone then readFrom column bound { g with blanks := ← run isBlank }
      else if c = '\t' && (← get).column < column then failure
      else
        skip 1
        readFrom column bound g

def read (column : Nat) (g : Gap) : Reader Gap := do
  readFrom column ((← rest).length + 1) g

end Gap

/-! ### Scalars without quotes -/

/-- The characters of a word; in brackets the marks of collections end it, and none of
them may follow a colon. -/
def plainWord? (flow : Bool) : List Char → Option (List Char)
  | [] => some []
  | c :: cs =>
    if isBlank c || isBreak c then some []
    else if flow && c = ':' && cs.head?.any fun d => d = '?' || isFlowMark d then none
    else if (c = ':' && gapAhead cs) || (flow && isFlowMark c) then some []
    else (plainWord? flow cs).map (c :: ·)

/-- The words of a scalar from here on, and whether it ended after a line break. -/
def plainFrom (flow : Bool) (column : Nat) : (bound : Nat) → Gap → Reader (List Char × Bool)
  | 0, g => return ([], g.first.isSome)
  | bound + 1, g => do
    let here ← get
    if here.atMarker '-' || here.atMarker '.' || here.rest.head? = some '#' then
      return ([], g.first.isSome)
    match plainWord? flow here.rest with
    | none => failure
    | some [] => return ([], g.first.isSome)
    | some word =>
      skip word.length
      let next ← Gap.read column {}
      let text := g.text ++ word
      if (next.blanks.isEmpty && next.first.isNone) || (!flow && (← get).column < column) then
        return (text, next.first.isSome)
      else
        let (more, broken) ← plainFrom flow column bound next
        return (text ++ more, broken)

/-- A scalar without quotes and whether it ended after a line break. Outside brackets
its further lines are indented at least to the column. -/
def plain (flow : Bool) (column : Nat) : Reader (Scalar × Bool) := do
  let (text, broken) ← plainFrom flow column ((← rest).length + 1) {}
  return ({ text := String.ofList text }, broken)

/-! ### Scalars in quotes -/

def codePoint (n : Nat) : Reader Char := do
  let digits := (← rest).take n
  if digits.length < n then failure
  match Text.numeral? 16 digits with
  | none => failure
  | some code =>
    if h : code.isValidChar then
      skip n
      return .ofNatAux code h
    else failure

def escaped : Reader Char := do
  let c ← peek?
  skip 1
  match c with
  | some '0' => return '\x00'
  | some 'a' => return '\x07'
  | some 'b' => return '\x08'
  | some 't' | some '\t' => return '\t'
  | some 'n' => return '\n'
  | some 'v' => return '\x0b'
  | some 'f' => return '\x0c'
  | some 'r' => return '\r'
  | some 'e' => return '\x1b'
  | some ' ' => return ' '
  | some '"' => return '"'
  | some '/' => return '/'
  | some '\\' => return '\\'
  | some 'N' => return '\u0085'
  | some '_' => return '\u00A0'
  | some 'L' => return '\u2028'
  | some 'P' => return '\u2029'
  | some 'x' => codePoint 2
  | some 'u' => codePoint 4
  | some 'U' => codePoint 8
  | _ => failure

/-- The characters up to white space or the closing quote, and whether a line break
after a backslash ended them. -/
def quotedWord (quote : Char) : (bound : Nat) → Reader (List Char × Bool)
  | 0 => return ([], false)
  | bound + 1 => do
    let followedBy (c : Char) : Reader (List Char × Bool) := do
      let (cs, broken) ← quotedWord quote bound
      return (c :: cs, broken)
    match ← rest with
    | [] => return ([], false)
    | c :: cs =>
      if isBlank c || isBreak c then return ([], false)
      else if c = quote then
        if quote = '\'' && cs.head? = some '\'' then
          skip 2
          followedBy '\''
        else return ([], false)
      else if quote = '"' && c = '\\' then
        skip 1
        if cs.head?.any isBreak then
          let _ ← lineBreak
          return ([], true)
        else followedBy (← escaped)
      else
        skip 1
        followedBy c

def quotedFrom (quote : Char) : (bound : Nat) → Reader (List Char)
  | 0 => failure
  | bound + 1 => do
    let here ← get
    if here.atMarker '-' || here.atMarker '.' || here.rest.isEmpty then failure
    let (word, broken) ← quotedWord quote (here.rest.length + 1)
    if ← tryChar quote then return word
    let gap ← Gap.read 0 { first := if broken then some [] else none }
    return word ++ gap.text ++ (← quotedFrom quote bound)

def quoted (quote : Char) : Reader Scalar := do
  skip 1
  return { text := String.ofList (← quotedFrom quote ((← rest).length + 1)), style := .quoted }

/-! ### Blocks of lines -/

/-- What becomes of the line breaks after the last line: none is kept, the first one,
or all. -/
inductive Chomping where
  | strip
  | clip
  | keep
  deriving DecidableEq, Repr

/-- The sign that says what becomes of the last line breaks, if there is one. -/
def chomping? : Reader (Option Chomping) := do
  if ← tryChar '+' then return some .keep
  else if ← tryChar '-' then return some .strip
  else return none

/-- The digit that says how far the lines are indented, if there is one. -/
def increment? : Reader (Option Nat) := do
  match (← peek?).bind (Text.digitValue? 10) with
  | some 0 => failure
  | some n =>
    skip 1
    return some n
  | none => return none

/-- The signs after the mark of a block, in either order. -/
def blockHeader : Reader (Chomping × Option Nat) := do
  match ← chomping? with
  | some chomping => return (chomping, ← increment?)
  | none =>
    let increment ← increment?
    let chomping ← if increment.isSome then chomping? else pure none
    return (chomping.getD .clip, increment)

/-- Empty lines and the indentation of the line after them: what the line breaks stand
for, and the greatest indentation, starting with `widest`. An unknown indentation is
taken as far as it goes. -/
def emptyLines (indent : Option Nat) : (bound : Nat) → (widest : Nat) → Reader (List Char × Nat)
  | 0, widest => return ([], widest)
  | bound + 1, widest => do
    let spaces := ((← rest).takeWhile (· = ' ')).length
    let column := (← get).column
    skip (indent.elim spaces fun n => min spaces (n - column))
    let column := (← get).column
    let widest := max widest column
    if (← isAhead (· = '\t')) && indent.all (column < ·) then failure
    if ← isAhead isBreak then
      let first ← lineBreak
      let (more, widest) ← emptyLines indent bound widest
      return (first ++ more, widest)
    else return ([], widest)

/-- The lines of a block and the line breaks after the last one. `lead` is the line
break before the line at hand, `empty` those of the empty lines after it, and
`indented` tells whether the line before starts with a blank. -/
def blockLines (style : ScalarStyle) (indent : Nat) : (bound : Nat) → (lead empty : List Char) →
    (indented : Bool) → Reader (List Char × List Char × List Char)
  | 0, lead, empty, _ => return ([], lead, empty)
  | bound + 1, lead, empty, indented => do
    let here ← get
    if here.column ≠ indent || here.rest.isEmpty then return ([], lead, empty)
    let blank := here.rest.head?.any isBlank
    let join :=
      if style = .literal || lead ≠ ['\n'] || indented || blank then lead
      else if empty.isEmpty then [' ']
      else []
    let line ← run fun _ => true
    let next ← lineBreak
    let (further, _) ← emptyLines (some indent) ((← rest).length + 1) 0
    let (lines, lead, last) ← blockLines style indent bound next further blank
    return (join ++ empty ++ line ++ lines, lead, last)

/-- A block of lines after its mark. It is indented to the least column at least, which
is that of the first line that is not empty unless a digit gives it. -/
def block (style : ScalarStyle) (column : Nat) : Reader Scalar := do
  skip 1
  let (chomping, increment) ← blockHeader
  lineEnd
  let bound := (← rest).length + 1
  let indent := increment.map fun n => column - 1 + n
  let (empty, widest) ← emptyLines indent bound 0
  let (text, lead, last) ←
    blockLines style (indent.getD (max widest (max column 1))) bound [] empty false
  let text :=
    match chomping with
    | .strip => text
    | .clip => text ++ lead
    | .keep => text ++ lead ++ last
  return { text := String.ofList text, style }

end LevelGuard.Format.Yaml
