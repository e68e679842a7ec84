import LevelGuard.Format.Scan
import LevelGuard.Format.Value
import LevelGuard.Number.Binary64

/-!
# Flags, numbers and dates of TOML

Whole numbers are written in four bases and fit 64 bits. A fraction may not be so
great that it counts as infinite; below zero it may. Dates are those of the calendar,
and no setting has a date: it is a record with a field that no other record has.
-/
namespace LevelGuard.Format.Toml

open Scan

/-! ### Numbers -/

def digits? (base : Nat) (cs : List Char) : Option Nat :=
  let runs := Text.segments (· = '_') cs
  if runs.any List.isEmpty then none else Text.numeral? base runs.flatten

/-- Digits of a decimal whole part, which has no needless zero in front. -/
def decimal? (cs : List Char) : Option Nat :=
  match cs with
  | '0' :: _ :: _ => none
  | _ => digits? 10 cs

def unsigned (cs : List Char) : Bool × List Char :=
  match cs with
  | '+' :: ds => (false, ds)
  | '-' :: ds => (true, ds)
  | ds => (false, ds)

def int? (cs : List Char) : Option Int :=
  let n? : Option Int :=
    match cs with
    | '0' :: 'x' :: ds => (digits? 16 ds).map Int.ofNat
    | '0' :: 'o' :: ds => (digits? 8 ds).map Int.ofNat
    | '0' :: 'b' :: ds => (digits? 2 ds).map Int.ofNat
    | _ =>
      let (negative, ds) := unsigned cs
      (decimal? ds).map fun n => if negative then -(n : Int) else n
  n?.bind fun n =>
    let bound : Int := .ofNat (Nat.pow 2 63)
    if -bound ≤ n ∧ n < bound then some n else none

def hasFractionForm (cs : List Char) : Bool :=
  let (mantissa, exponent) :=
    match Text.cutFirst? (fun c => c = 'e' || c = 'E') cs with
    | some (m, e) => (m, some (unsigned e).2)
    | none => (cs, none)
  let (whole, fraction) :=
    match Text.cutFirst? (· = '.') mantissa with
    | some (w, f) => (w, some f)
    | none => (mantissa, none)
  (decimal? whole).isSome && (fraction.isSome || exponent.isSome)
    && (fraction.elim true fun f => (digits? 10 f).isSome)
    && (exponent.elim true fun e => (digits? 10 e).isSome)

/-- Whether a text is a fraction, a number with an exponent, infinite or not a number. -/
def isFraction (cs : List Char) : Bool :=
  let (negative, ds) := unsigned cs
  if ds = "inf".toList || ds = "nan".toList then true
  else
    hasFractionForm ds
      && (negative || Number.decimalBits? (ds.filter (· ≠ '_')) ≠ some Number.infinityBits)

/-! ### Dates -/

/-- A number of exactly so many digits, within bounds. -/
def digitsIn (count low high : Nat) : Scan Nat := do
  match Text.numeral? 10 (← take count) with
  | some n => if low ≤ n && n ≤ high then return n else failure
  | none => failure

def daysIn (year month : Nat) : Nat :=
  if month = 2 then
    if year % 4 = 0 && (year % 100 ≠ 0 || year % 400 = 0) then 29 else 28
  else if [4, 6, 9, 11].contains month then 30
  else 31

def fullDate : Scan Unit := do
  let year ← digitsIn 4 0 9999
  text "-"
  let month ← digitsIn 2 1 12
  text "-"
  let _ ← digitsIn 2 1 (daysIn year month)

/-- A time of day; its last minute may have one more second. -/
def timeOfDay : Scan Unit := do
  let _ ← digitsIn 2 0 23
  text ":"
  let _ ← digitsIn 2 0 59
  text ":"
  let _ ← digitsIn 2 0 60
  if ← tryText "." then
    if (← while_ Text.isDigit).isEmpty then failure

def zone : Scan Unit := do
  let sign ← peek?
  if sign.any fun c => c = 'Z' || c = 'z' then
    let _ ← char
  else if sign.any fun c => c = '+' || c = '-' then
    let _ ← char
    let _ ← digitsIn 2 0 23
    text ":"
    let _ ← digitsIn 2 0 59

def timeAfterDate : Scan Unit := do
  match ← char with
  | 'T' | 't' | ' ' =>
    timeOfDay
    zone
  | _ => failure

/-- A date with or without a time, or a time. -/
def date : Scan Unit :=
  (do
    fullDate
    timeAfterDate <|> pure ())
  <|> timeOfDay

def dateValue : Value := .map [("date", .other)]

/-! ### Scalars -/

def isScalarChar (c : Char) : Bool := c.isAlphanum || "+-_.".toList.contains c

def flagOrNumber : Scan Value := do
  let cs ← while_ isScalarChar
  if cs = "true".toList then return .bool true
  else if cs = "false".toList then return .bool false
  else
    match int? cs with
    | some n => return .int n
    | none => if isFraction cs then return .other else failure

def scalar : Scan Value :=
  (do
    date
    return dateValue)
  <|> flagOrNumber

end LevelGuard.Format.Toml
