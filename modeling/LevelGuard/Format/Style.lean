import LevelGuard.Format.Scan
import LevelGuard.Format.Toml.Read
import LevelGuard.Format.Value
import LevelGuard.Format.Yaml.Read

/-!
# JSON and the styles of data files

Reading JSON follows the standard grammar: one value with blanks around it, strings
with escapes and surrogate pairs, numbers without leading zeros. A number with a
fraction or an exponent, or beyond 64 bits, is not whole. Half of a surrogate pair is
a fault only where the string is asked for.

It is one of three styles of data files. They differ in how values are written, in whether a
list may give the fields of a record by position, and in what may stand beside a name that is
given as the key of a map.
-/
namespace LevelGuard.Format.Json

open Scan

def isBlank (c : Char) : Bool := c = ' ' || c = '\t' || c = '\n' || c = '\r'

def blanks : Scan Unit := do let _ ← while_ isBlank

def unit : Scan Nat := do
  match Text.numeral? 16 (← take 4) with
  | some n => return n
  | none => failure

/-- A part of a string: a character, or one code unit of UTF-16 from an escape. -/
inductive Piece where
  | char (c : Char)
  | unit (n : Nat)

/-- The characters that pieces make up; half of a pair makes up none. -/
def characters? : List Piece → Option (List Char)
  | [] => some []
  | .char c :: rest => (characters? rest).map (c :: ·)
  | [.unit n] => if n.isValidChar then some [Char.ofNat n] else none
  | .unit high :: .unit low :: rest =>
    if 0xD800 ≤ high && high ≤ 0xDBFF then
      if 0xDC00 ≤ low && low ≤ 0xDFFF then
        (characters? rest).map (Char.ofNat (0x10000 + (high - 0xD800) * 0x400 + (low - 0xDC00)) :: ·)
      else none
    else if 0xDC00 ≤ high && high ≤ 0xDFFF then none
    else (characters? (.unit low :: rest)).map (Char.ofNat high :: ·)
  | .unit n :: rest =>
    if n.isValidChar then (characters? rest).map (Char.ofNat n :: ·) else none

def escaped : Scan Piece := do
  match ← char with
  | '"' => return .char '"'
  | '\\' => return .char '\\'
  | '/' => return .char '/'
  | 'b' => return .char '\x08'
  | 'f' => return .char '\x0c'
  | 'n' => return .char '\n'
  | 'r' => return .char '\r'
  | 't' => return .char '\t'
  | 'u' => return .unit (← unit)
  | _ => failure

def stringPieces : (bound : Nat) → Scan (List Piece)
  | 0 => failure
  | bound + 1 => do
    match ← char with
    | '"' => return []
    | '\\' =>
      let p ← escaped
      return p :: (← stringPieces bound)
    | c => if c.toNat < 0x20 then failure else return .char c :: (← stringPieces bound)

/-- A string after its opening quote; one with half of a pair has no characters. -/
def string? : Scan (Option String) := do
  return (characters? (← stringPieces ((← rest).length + 1))).map String.ofList

/-- A map, which is no record if a key has no characters. -/
def mapOf (entries : List (Option String × Value)) : Value :=
  match entries.mapM fun (key?, v) => key?.map fun key => (key, v) with
  | some entries => .map entries
  | none => .other

def digits1 : Scan (List Char) := do
  match ← while_ Text.isDigit with
  | [] => failure
  | ds => return ds

def wholeDigits : Scan (List Char) := do
  match ← digits1 with
  | '0' :: _ :: _ => failure
  | ds => return ds

/-- A whole number as long as it fits the widest integers. -/
def wholeValue (negative : Bool) (digits : List Char) : Value :=
  let n := (Text.numeral? 10 digits).getD 0
  if negative then (if n ≤ Nat.pow 2 63 then .int (-n) else .other)
  else if n < Nat.pow 2 64 then .int n else .other

def number : Scan Value := do
  let negative ← tryText "-"
  let whole ← wholeDigits
  let fraction ← tryText "."
  if fraction then let _ ← digits1
  let exponent := (← peek?).any fun c => c = 'e' || c = 'E'
  if exponent then
    let _ ← char
    unless ← tryText "+" do let _ ← tryText "-"
    let _ ← digits1
  return if fraction || exponent then .other else wholeValue negative whole

mutual

def value : (bound : Nat) → Scan Value
  | 0 => failure
  | bound + 1 => do
    match ← peek? with
    | some '\x7b' =>
      let _ ← char
      blanks
      if ← tryText "\x7d" then return .map []
      return mapOf (← entries bound)
    | some '[' =>
      let _ ← char
      blanks
      if ← tryText "]" then return .list []
      return .list (← items bound)
    | some '"' =>
      let _ ← char
      return ((← string?).map Value.text).getD .other
    | some 't' => do text "true"; return .bool true
    | some 'f' => do text "false"; return .bool false
    | some 'n' => do text "null"; return .null
    | _ => number

def items : (bound : Nat) → Scan (List Value)
  | 0 => failure
  | bound + 1 => do
    blanks
    let v ← value bound
    blanks
    match ← char with
    | ',' => return v :: (← items bound)
    | ']' => return [v]
    | _ => failure

def entries : (bound : Nat) → Scan (List (Option String × Value))
  | 0 => failure
  | bound + 1 => do
    blanks
    text "\""
    let key ← string?
    blanks
    text ":"
    blanks
    let v ← value bound
    blanks
    match ← char with
    | ',' => return (key, v) :: (← entries bound)
    | '\x7d' => return [(key, v)]
    | _ => failure

end

def document : Scan Value := do
  blanks
  let v ← value ((← rest).length + 1)
  blanks
  return v

def read? (s : String) : Option Value := runAll document s.toList

end LevelGuard.Format.Json

namespace LevelGuard.Format

inductive Style where
  | json
  | toml
  | yaml
  deriving DecidableEq, Repr

namespace Style

def read? : Style → String → Option Value
  | json => Json.read?
  | toml => Toml.read?
  | yaml => Yaml.read?

/-- Whether a list of so many values may stand for a record of so many fields; values
beyond the last field are refused or left out. -/
def byPosition : Style → (values fields : Nat) → Bool
  | json, values, fields => values ≤ fields
  | toml, _, _ => true
  | yaml, _, _ => false

def saysNothing : Style → Value → Bool
  | json, .null => true
  | toml, .map [] | toml, .list [] => true
  | _, _ => false

end Style
end LevelGuard.Format
