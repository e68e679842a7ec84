import LevelGuard.Text.Basic

/-!
# Scanning text

A scanner takes characters from the front of a text or fails. Loops recurse on a
bound that the callers take from the length of the text.
-/
namespace LevelGuard.Format

abbrev Scan (α : Type) := StateT (List Char) Option α

namespace Scan

def rest : Scan (List Char) := get

def peek? : Scan (Option Char) := do return (← rest).head?

def char : Scan Char := do
  match ← rest with
  | [] => failure
  | c :: cs =>
    set cs
    return c

def while_ (p : Char → Bool) : Scan (List Char) := do
  let cs ← rest
  set (cs.dropWhile p)
  return cs.takeWhile p

def tryText (s : String) : Scan Bool := do
  match Text.stripStart? s.toList (← rest) with
  | some cs =>
    set cs
    return true
  | none => return false

def text (s : String) : Scan Unit := do
  unless ← tryText s do failure

def take (n : Nat) : Scan (List Char) := do
  let cs ← rest
  if cs.length < n then failure
  set (cs.drop n)
  return cs.take n

def codePoint? (digits : List Char) : Option Char :=
  (Text.numeral? 16 digits).bind fun n =>
    if h : n.isValidChar then some (Char.ofNatAux n h) else none

def atEnd : Scan Bool := do return (← rest).isEmpty

def runAll {α : Type} (p : Scan α) (s : List Char) : Option α :=
  match p.run s with
  | some (a, []) => some a
  | _ => none

end Scan
end LevelGuard.Format
