import LevelGuard.Diagnostic
import LevelGuard.Facts.Guard
import LevelGuard.Permission.Requirement

/-!
# Facts at a program point

A set of facts holds on every path that reaches a point: bounds on the device's
level, permissions checked at run time, exception types an enclosing handler
catches, silenced categories and the requirements the enclosing method declares.
Nothing known is `top`; a contradictory set is bottom and describes no device.

`assume` refines facts by the outcome of a guard and `meet` keeps what two paths
have in common. An `or` that came true is the meet of its branches, so it keeps
what every branch would establish.
-/
namespace LevelGuard

structure Facts where
  /-- The device's level is at least this. -/
  floor : Option Level := none
  /-- The part of the floor that enclosing annotations declare. -/
  annotationFloor : Option Level := none
  /-- The device's level is at most this. -/
  ceiling : Option Level := none
  held : NameSet := .empty
  /-- Exception types a handler catches or the method declares. -/
  excluded : NameSet := .empty
  suppressed : SortedSet Category := .empty
  /-- Requirements declared by the enclosing method, each once. -/
  requirements : List Permission.Requirement := []
  /-- No device reaches the point. -/
  bottom : Bool := false
  deriving DecidableEq, Inhabited

namespace Facts

def top : Facts := {}

def raised (old : Option Level) (level : Level) : Level :=
  match old with
  | none => level
  | some f => max f level

def lowered (old : Option Level) (level : Level) : Level :=
  match old with
  | none => level
  | some c => min c level

def contradictory (F : Facts) : Bool :=
  match F.floor, F.ceiling with
  | some f, some c => f > c
  | _, _ => false

/-- Become bottom if the bounds contradict each other. -/
def settle (F : Facts) : Facts := { F with bottom := F.bottom || F.contradictory }

def raiseFloor (F : Facts) (level : Level) : Facts :=
  { F with floor := some (raised F.floor level) }.settle

def raiseAnnotationFloor (F : Facts) (level : Level) : Facts :=
  { F with annotationFloor := some (raised F.annotationFloor level) }.raiseFloor level

def lowerCeiling (F : Facts) (level : Level) : Facts :=
  { F with ceiling := some (lowered F.ceiling level) }.settle

def suppress (F : Facts) (categories : List Category) : Facts :=
  { F with suppressed := F.suppressed.insertAll categories }

def isSuppressed (F : Facts) (c : Category) : Bool := F.suppressed.contains c

def declareRequirement (F : Facts) (r : Permission.Requirement) : Facts :=
  if F.requirements.contains r then F else { F with requirements := F.requirements ++ [r] }

/-- The least level of a device that reaches the point in a module with this minimum. -/
def effectiveFloor (F : Facts) (min : Level) : Level := raised F.floor min

/-- The minimum cited in messages: raised by annotations, never by run-time checks. -/
def reportedMin (F : Facts) (min : Level) : Level := raised F.annotationFloor min

/-- Permissions that hold because the enclosing method demands them of its callers. -/
def impliedPermissions (F : Facts) : NameSet :=
  .ofList (F.requirements.flatMap fun r => r.expr.implied.toList)

/-- What both sides know of a bound. -/
def common (pick : Level → Level → Level) : Option Level → Option Level → Option Level
  | some a, some b => some (pick a b)
  | _, _ => none

def meet (F G : Facts) : Facts :=
  if F.bottom then G
  else if G.bottom then F
  else
    { floor := common min F.floor G.floor
      annotationFloor := common min F.annotationFloor G.annotationFloor
      ceiling := common max F.ceiling G.ceiling
      held := F.held.inter G.held
      excluded := F.excluded.inter G.excluded
      suppressed := F.suppressed.inter G.suppressed
      requirements := F.requirements.filter G.requirements.contains
      bottom := false }

mutual
def assume (F : Facts) (guard : Guard) (truth : Bool) : Facts :=
  if F.bottom then F
  else
    match guard, truth with
    | .atLeast v, true => F.raiseFloor v
    | .atLeast 0, false => { F with bottom := true }
    | .atLeast (v + 1), false => F.lowerCeiling v
    | .atMost v, true => F.lowerCeiling v
    | .atMost v, false => F.raiseFloor (Level.up v)
    | .exactly v, true => (F.raiseFloor v).lowerCeiling v
    | .exactly _, false => F
    | .held p, true => { F with held := F.held.insert p }
    | .held _, false => F
    | .excluded t, true => { F with excluded := F.excluded.insert t }
    | .excluded _, false => F
    | .and parts, true => F.assumeAll parts true
    | .or parts, false => F.assumeAll parts false
    | .or [], true => F
    | .or (g :: gs), true => F.assumeSome (F.assume g true) gs true
    | .and [], false => F
    | .and (g :: gs), false => F.assumeSome (F.assume g false) gs false
    | .not inner, t => F.assume inner (!t)
    | .unknown, _ => F

def assumeAll (F : Facts) (guards : List Guard) (truth : Bool) : Facts :=
  match guards with
  | [] => F
  | g :: gs => (F.assume g truth).assumeAll gs truth

/-- What `merged` and the assumption of each further part have in common. -/
def assumeSome (F merged : Facts) (guards : List Guard) (truth : Bool) : Facts :=
  match guards with
  | [] => merged
  | g :: gs => F.assumeSome (merged.meet (F.assume g truth)) gs truth
end

end Facts
end LevelGuard
