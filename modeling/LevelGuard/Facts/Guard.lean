import LevelGuard.Text.Basic

/-!
# Guards

A guard is a run-time condition about the device: its level, a granted permission,
or a handler for an exception type, combined by conjunction, disjunction and
negation. `unknown` stands for a condition nothing is known about, so a guard with
an unknown part still says something through its other parts.
-/
namespace LevelGuard

inductive Guard where
  | atLeast (level : Level)
  | atMost (level : Level)
  | exactly (level : Level)
  | held (permission : String)
  /-- An enclosing handler catches exceptions of the type. -/
  | excluded (type : String)
  | and (parts : List Guard)
  | or (parts : List Guard)
  | not (inner : Guard)
  | unknown
  deriving Inhabited, Repr

namespace Guard

/-- The opposite condition; two negations cancel and the unknown stays unknown. -/
def negate : Guard → Guard
  | .not inner => inner
  | .unknown => .unknown
  | g => .not g

mutual
def text : Guard → String
  | .atLeast v => "SDK_INT >= " ++ toString v
  | .atMost v => "SDK_INT <= " ++ toString v
  | .exactly v => "SDK_INT == " ++ toString v
  | .held p => "granted(" ++ p ++ ")"
  | .excluded t => "catches(" ++ t ++ ")"
  | .and parts => "(" ++ Text.joinWith " && " (texts parts) ++ ")"
  | .or parts => "(" ++ Text.joinWith " || " (texts parts) ++ ")"
  | .not inner => "!" ++ inner.text
  | .unknown => "?"

def texts : List Guard → List String
  | [] => []
  | g :: gs => g.text :: texts gs
end

end Guard
end LevelGuard
