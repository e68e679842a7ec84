import LevelGuard.Permission.Parse
import LevelGuard.Text.Basic

/-!
# Requirements and the levels they apply to

A requirement is a permission expression, possibly limited to a range of platform
levels. A range is written as a single level, or as two levels around `..` of
which either may be left out: a missing start is level 1 and a missing end is the
greatest level.
-/
namespace LevelGuard.Permission

structure ApiRange where
  start : Level
  stop : Level
  deriving DecidableEq, Repr

namespace ApiRange

def all : ApiRange := ⟨1, Level.greatest⟩

/-- Whether some level of a module's range from `min` to `target` lies in the range. -/
def overlaps (r : ApiRange) (min target : Level) : Bool := min ≤ r.stop && r.start ≤ target

/-- The pieces of a written range: digits, whether `..` stands after them, digits. -/
def pieces? (cs : List Char) : Option (List Char × Bool × List Char) :=
  let cs := Text.trimStart cs
  let first := cs.takeWhile Text.isDigit
  let cs := Text.trimStart (cs.dropWhile Text.isDigit)
  let (dots, cs) :=
    match cs with
    | '.' :: '.' :: rest => (true, rest)
    | _ => (false, cs)
  let cs := Text.trimStart cs
  let second := cs.takeWhile Text.isDigit
  if (Text.trimStart (cs.dropWhile Text.isDigit)).isEmpty then some (first, dots, second) else none

/-- A run of digits as a level: nothing if it is empty, an error if it is too great. -/
def level? (digits : List Char) : Option (Option Level) :=
  match Text.numeral? 10 digits with
  | none => some none
  | some n => if n ≤ Level.greatest then some (some n) else none

def parse? (text : String) : Option ApiRange := do
  let (first, dots, second) ← pieces? text.toList
  let start ← level? first
  let stop ← level? second
  if dots then return ⟨start.getD 1, stop.getD Level.greatest⟩
  else
    let level ← start
    return ⟨level, level⟩

def parse (text : String) : Except ParseError ApiRange :=
  match parse? text with
  | some r => .ok r
  | none => .error (.invalidRange text)

end ApiRange

structure Requirement where
  expr : Expr
  apis : Option ApiRange := none
  deriving DecidableEq, Inhabited, Repr

namespace Requirement

def asConditional (r : Requirement) : Requirement := { r with expr := .conditional r.expr }

/-- Whether the demand is made of a module with this range of levels. -/
def appliesTo (r : Requirement) (min target : Level) : Bool :=
  match r.apis with
  | none => true
  | some range => range.overlaps min target

end Requirement
end LevelGuard.Permission
