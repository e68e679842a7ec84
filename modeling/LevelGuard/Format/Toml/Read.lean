import LevelGuard.Format.Toml.Scalar
import LevelGuard.Format.Toml.Table

/-!
# TOML

A file is a sequence of lines: headers that choose a table, and keys with values
that go into the chosen one. Values are strings in four notations, flags, numbers and
dates, lists that may run over lines, and inline tables.
-/
namespace LevelGuard.Format.Toml

open Scan

def isBlank (c : Char) : Bool := c = ' ' || c = '\t'

def blanks : Scan Unit := do let _ ← while_ isBlank

/-- Characters that may not stand in comments and strings. -/
def isControl (c : Char) : Bool := (c.toNat < 0x20 && c ≠ '\t') || c.toNat = 0x7F

def comment : Scan Unit := do
  if ← tryText "#" then
    let _ ← while_ fun c => !isControl c

def newline : Scan Bool := do
  if ← tryText "\r\n" then return true
  tryText "\n"

def gap : (bound : Nat) → Scan Unit
  | 0 => return ()
  | bound + 1 => do
    blanks
    comment
    if ← newline then gap bound

def gaps : Scan Unit := do gap ((← rest).length + 1)

def lineEnd : Scan Unit := do
  blanks
  comment
  unless ← newline do
    unless ← atEnd do failure

def codePoint (digits : Nat) : Scan Char := do
  match codePoint? (← take digits) with
  | some c => return c
  | none => failure

def escaped : Scan Char := do
  match ← char with
  | 'b' => return '\x08'
  | 't' => return '\t'
  | 'n' => return '\n'
  | 'f' => return '\x0c'
  | 'r' => return '\r'
  | '"' => return '"'
  | '\\' => return '\\'
  | 'u' => codePoint 4
  | 'U' => codePoint 8
  | _ => failure

def basicChars : (bound : Nat) → Scan (List Char)
  | 0 => failure
  | bound + 1 => do
    match ← char with
    | '"' => return []
    | '\\' =>
      let c ← escaped
      return c :: (← basicChars bound)
    | c => if isControl c then failure else return c :: (← basicChars bound)

def literalChars : Scan (List Char) := do
  let cs ← while_ fun c => c ≠ '\'' && !isControl c
  text "'"
  return cs

/-- The end of a string in triple quotes: up to two quotes before the closing ones
belong to it. -/
def closing? (quote : Char) (cs : List Char) : Option (List Char × List Char) :=
  let run := cs.takeWhile (· = quote)
  if run.length < 3 then none
  else if 5 < run.length then some ([], cs.drop 3)
  else some (run.drop 3, cs.drop run.length)

/-- Whether a backslash here joins lines: only blanks stand before the line's end. -/
def joinsLines (cs : List Char) : Bool :=
  match cs.dropWhile isBlank with
  | '\n' :: _ => true
  | '\r' :: '\n' :: _ => true
  | _ => false

def emptyLines : (bound : Nat) → Scan Unit
  | 0 => return ()
  | bound + 1 => do
    blanks
    if ← newline then emptyLines bound

def multiChars (quote : Char) (escapes : Bool) : (bound : Nat) → Scan (List Char)
  | 0 => failure
  | bound + 1 => do
    match closing? quote (← rest) with
    | some (last, after) =>
      set after
      return last
    | none =>
      match ← char with
      | '\\' =>
        if !escapes then return '\\' :: (← multiChars quote escapes bound)
        else if joinsLines (← rest) then
          emptyLines bound
          multiChars quote escapes bound
        else
          let c ← escaped
          return c :: (← multiChars quote escapes bound)
      | '\r' =>
        text "\n"
        return '\n' :: (← multiChars quote escapes bound)
      | c =>
        if isControl c && c ≠ '\n' then failure
        else return c :: (← multiChars quote escapes bound)

def string (quote : Char) : Scan String := do
  let bound := (← rest).length + 1
  if ← tryText (String.ofList [quote, quote]) then
    let _ ← newline
    return String.ofList (← multiChars quote (quote = '"') bound)
  else if quote = '"' then return String.ofList (← basicChars bound)
  else return String.ofList (← literalChars)

def isBareKey (c : Char) : Bool := c.isAlphanum || c = '_' || c = '-'

def simpleKey : Scan String := do
  if ← tryText "\"" then return String.ofList (← basicChars ((← rest).length + 1))
  else if ← tryText "'" then return String.ofList (← literalChars)
  else
    match ← while_ isBareKey with
    | [] => failure
    | cs => return String.ofList cs

def keyParts : (bound : Nat) → Scan (List String)
  | 0 => failure
  | bound + 1 => do
    let k ← simpleKey
    blanks
    if ← tryText "." then
      blanks
      return k :: (← keyParts bound)
    else return [k]

/-- How deep values may be nested, and one more than the parts a key may have. -/
def depthLimit : Nat := 80

def key : Scan (List String) := do
  let parts ← keyParts ((← rest).length + 1)
  if parts.length < depthLimit then return parts else failure

mutual

def value (depth : Nat) : (bound : Nat) → Scan Value
  | 0 => failure
  | bound + 1 => do
    match ← peek? with
    | some '"' => do
      let _ ← char
      return .text (← string '"')
    | some '\'' => do
      let _ ← char
      return .text (← string '\'')
    | some '[' => do
      let _ ← char
      if depthLimit ≤ depth then failure
      return .list (← items (depth + 1) bound)
    | some '\x7b' => do
      let _ ← char
      if depthLimit ≤ depth then failure
      blanks
      if ← tryText "\x7d" then return .map []
      return .map (entryValues (← inlineEntries (depth + 1) bound []))
    | _ => scalar

def items (depth : Nat) : (bound : Nat) → Scan (List Value)
  | 0 => failure
  | bound + 1 => do
    gaps
    if ← tryText "]" then return []
    let v ← value depth bound
    gaps
    if ← tryText "," then return v :: (← items depth bound)
    text "]"
    return [v]

def inlineEntries (depth : Nat) : (bound : Nat) → Entries → Scan Entries
  | 0, _ => failure
  | bound + 1, es => do
    blanks
    let k ← key
    text "="
    blanks
    let v ← value depth bound
    blanks
    match es.put v true k with
    | none => failure
    | some es =>
      if ← tryText "," then inlineEntries depth bound es
      else
        text "\x7d"
        return es

end

/-- What has been read of a file: its tables, and the path of the chosen one. -/
structure Draft where
  root : Entries := []
  path : List String := []

/-- Apply a header, single or double. -/
def Draft.choose (d : Draft) (path : List String) (change : String → Entries → Option Entries) :
    Option Draft :=
  match path.getLast? with
  | none => none
  | some last => (d.root.alter (change last) path.dropLast).map fun root => ⟨root, path⟩

def Draft.put (d : Draft) (k : List String) (v : Value) : Option Draft :=
  (d.root.alter (Entries.put v true k) d.path).map fun root => { d with root }

def line (d : Draft) : Scan Draft := do
  let next ←
    if ← tryText "[[" then
      blanks
      let k ← key
      text "]]"
      pure (d.choose k fun k es => es.extend k)
    else if ← tryText "[" then
      blanks
      let k ← key
      text "]"
      pure (d.choose k fun k es => es.define k)
    else
      let k ← key
      text "="
      blanks
      let v ← value 0 ((← rest).length + 1)
      pure (d.put k v)
  lineEnd
  match next with
  | some d => return d
  | none => failure

def lines : (bound : Nat) → Draft → Scan Draft
  | 0, _ => failure
  | bound + 1, d => do
    gaps
    if ← atEnd then return d
    lines bound (← line d)

def document : Scan Value := do
  let _ ← tryText "\uFEFF"
  return .map (entryValues (← lines ((← rest).length + 1) {}).root)

def read? (s : String) : Option Value := runAll document s.toList

end LevelGuard.Format.Toml
