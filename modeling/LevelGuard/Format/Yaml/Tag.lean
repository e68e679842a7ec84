import LevelGuard.Format.Yaml.Cursor
import LevelGuard.Text.Basic

/-!
# Anchors, tags and directives

An anchor names a node, and a tag says of what kind it is. A tag is given in full
in angle brackets or as a handle with a suffix; directives before a document declare
what the handles stand for.
-/
namespace LevelGuard.Format.Yaml

open Reader

def anchorName : Reader String := do
  skip 1
  let name ← run isWordChar
  let closed := gapAhead (← rest)
    || (← isAhead fun c => ['?', ':', ',', ']', '\x7d', '%', '@', '\x60'].contains c)
  if name.isEmpty || !closed then failure
  return String.ofList name

/-- The characters of a tag; commas and square brackets only in one given in full. -/
def isTagChar (full : Bool) (c : Char) : Bool :=
  isWordChar c || ";/?:@&=+$.%!~*'()".toList.contains c || (full && [',', '[', ']'].contains c)

def percentByte : Reader Nat := do
  char '%'
  let digits := (← rest).take 2
  skip 2
  match digits with
  | [a, b] => (Text.numeral? 16 [a, b] : Option Nat)
  | _ => failure

def percentBits : (count : Nat) → (bits : Nat) → Reader Nat
  | 0, bits => return bits
  | count + 1, bits => do
    let byte ← percentByte
    if byte / 64 ≠ 2 then failure
    percentBits count (bits * 64 + byte % 64)

def percentChar : Reader Char := do
  let byte ← percentByte
  let code ←
    if byte < 0x80 then pure byte
    else if byte / 32 = 6 then percentBits 1 (byte % 32)
    else if byte / 16 = 14 then percentBits 2 (byte % 16)
    else if byte / 8 = 30 then percentBits 3 (byte % 8)
    else failure
  if h : code.isValidChar then return .ofNatAux code h else failure

def tagCharsFrom (full : Bool) : (bound : Nat) → Reader (List Char)
  | 0 => return []
  | bound + 1 => do
    match ← peek? with
    | none => return []
    | some c =>
      if !isTagChar full c then return []
      let c ← if c = '%' then percentChar else do
        skip 1
        pure c
      return c :: (← tagCharsFrom full bound)

def tagChars (full : Bool) : Reader (List Char) := do
  tagCharsFrom full ((← rest).length + 1)

def someTagChars (full : Bool) : Reader (List Char) := do
  match ← tagChars full with
  | [] => failure
  | cs => return cs

/-- An exclamation mark, a word, and the exclamation mark that makes it a handle, if
there is one. -/
def handle : Reader (List Char × Bool) := do
  char '!'
  let word ← run isWordChar
  let closed ← tryChar '!'
  return ('!' :: word ++ (if closed then ['!'] else []), closed)

/-- A tag as a handle and a suffix; the handle is empty if the suffix is all of it. -/
structure TagText where
  handle : String
  suffix : String
  deriving DecidableEq, Repr

def tagText : Reader TagText := do
  if (← rest).take 2 = ['!', '<'] then
    skip 2
    let cs ← someTagChars true
    char '>'
    return ⟨"", String.ofList cs⟩
  let (lead, closed) ← handle
  if closed then return ⟨String.ofList lead, String.ofList (← someTagChars false)⟩
  match lead.drop 1 ++ (← tagChars false) with
  | [] => return ⟨"", "!"⟩
  | cs => return ⟨"!", String.ofList cs⟩

/-- A tag; in brackets a comma may follow it. -/
def tag (flow : Bool) : Reader TagText := do
  let t ← tagText
  unless gapAhead (← rest) || (flow && (← isAhead (· = ','))) do failure
  return t

inductive Directive where
  | version (major minor : Nat)
  | handle (handle meaning : String)
  deriving DecidableEq, Repr

def versionNumber : Reader Nat := do
  let digits ← run Text.isDigit
  if 9 < digits.length then failure
  (Text.numeral? 10 digits : Option Nat)

def directive : Reader Directive := do
  char '%'
  let name ← run isWordChar
  unless gapAhead (← rest) do failure
  let _ ← run isBlank
  let d ←
    match String.ofList name with
    | "YAML" => do
      let major ← versionNumber
      char '.'
      pure (.version major (← versionNumber))
    | "TAG" => do
      let (lead, closed) ← handle
      unless (closed || lead = ['!']) && (← isAhead isBlank) do failure
      let _ ← run isBlank
      let meaning ← someTagChars true
      unless gapAhead (← rest) do failure
      pure (.handle (String.ofList lead) (String.ofList meaning))
    | _ => failure
  lineEnd
  return d

end LevelGuard.Format.Yaml
