import LevelGuard.Data.SortedSet
import LevelGuard.Data.Table
import LevelGuard.Facts.Guard
import LevelGuard.Flow.Assigned
import LevelGuard.Java.Annotations

/-!
# Recognising guards

A condition is recognised as a guard if it compares the device's level with a
constant, compares the outcome of a permission check with the two possible ones,
names a boolean variable that holds such a condition, or combines conditions. An
operand of `&&` or `||` that is not recognised is unknown, as long as the other
one is.
-/
namespace LevelGuard.Flow

open Java

structure Recognizer where
  /-- Whether the level of the device is imported under its simple name. -/
  levelImported : Bool := false
  flags : Table String Guard := .empty
  assigned : List String := []
  deriving Inhabited

namespace Recognizer

def ofUnit (u : CompilationUnit) : Recognizer where
  levelImported := u.imports.any fun i =>
    i.isStatic &&
      ((i.onDemand && Text.endsWith i.path "Build.VERSION")
        || Text.endsWith i.path "Build.VERSION.SDK_INT")
  assigned := u.types.flatMap declAssigned

def withVariables (R : Recognizer) (flags : Table String Guard) : Recognizer :=
  { R with flags := R.flags.insertAll flags.entries }

/-- The recogniser where other variables hide those with the given names. -/
def without (R : Recognizer) (names : List String) : Recognizer :=
  { R with flags := names.foldl (fun t n => t.erase n) R.flags }

def readsLevel (R : Recognizer) (e : Expr) : Bool :=
  match e.dottedName? with
  | none => false
  | some "SDK_INT" => R.levelImported
  | some name => name = "VERSION.SDK_INT" || Text.endsWith name ".VERSION.SDK_INT"

/-- A level that a condition compares with: a number or a constant of the version codes. -/
def levelConstant? (e : Expr) : Option Level :=
  match e.intLiteral? with
  | some n => if 0 ≤ n ∧ n ≤ Level.greatest then some n.toNat else none
  | none =>
    match e with
    | .name _ n => Platform.codenameLevel? n
    | .fieldAccess _ target n =>
      target.dottedName?.bind fun owner =>
        if owner = "VERSION_CODES" || Text.endsWith owner ".VERSION_CODES" then
          Platform.codenameLevel? n
        else none
    | _ => none

def comparisonGuard? (op : BinaryOp) (v : Level) : Option Guard :=
  match op with
  | .ge => some (.atLeast v)
  | .gt => some (.atLeast (Level.up v))
  | .le => some (.atMost v)
  | .lt => some (.atMost (v - 1))
  | .eq => some (.exactly v)
  | .ne => some (Guard.exactly v).negate
  | .and | .or | .other => none

def levelGuard? (R : Recognizer) (op : BinaryOp) (accessor level : Expr) : Option Guard :=
  if R.readsLevel accessor then (levelConstant? level).bind (comparisonGuard? op) else none

def permissionChecks : List String :=
  ["checkPermission", "checkSelfPermission", "checkCallingPermission",
    "checkCallingOrSelfPermission"]

/-- Whether an outcome of a permission check says that the permission is granted. -/
def grants? (status : Expr) : Option Bool :=
  match status.lastName? with
  | some "PERMISSION_GRANTED" => some true
  | some "PERMISSION_DENIED" => some false
  | _ =>
    match status.intLiteral? with
    | some 0 => some true
    | some (-1) => some false
    | _ => none

def permissionGuard? (op : BinaryOp) (check status : Expr) : Option Guard :=
  match check with
  | .call _ _ name args =>
    if permissionChecks.contains name then do
      let permission ← args.findSome? permissionName?
      let granted ← grants? status
      match op, granted with
      | .eq, true | .ne, false => some (.held permission)
      | .ne, true | .eq, false => some (Guard.held permission).negate
      | _, _ => none
    else none
  | _ => none

/-- The guard of two conditions of which at least one is recognised. -/
def combined? (node : List Guard → Guard) (l r : Option Guard) : Option Guard :=
  match l, r with
  | none, none => none
  | l, r => some (node [l.getD .unknown, r.getD .unknown])

def recognize? (R : Recognizer) : Expr → Option Guard
  | .unary _ .not operand => (R.recognize? operand).map Guard.negate
  | .binary _ .and lhs rhs => combined? .and (R.recognize? lhs) (R.recognize? rhs)
  | .binary _ .or lhs rhs => combined? .or (R.recognize? lhs) (R.recognize? rhs)
  | .binary _ op lhs rhs =>
    (R.levelGuard? op lhs rhs).or <| (R.levelGuard? op.flipped rhs lhs).or <|
      (permissionGuard? op lhs rhs).or (permissionGuard? op rhs lhs)
  | .name _ n => R.flags.get? n
  | _ => none

def caseGuard? (R : Recognizer) (selector : Expr) (labels : List Expr) : Option Guard :=
  if R.readsLevel selector then do
    match ← labels.mapM fun l => (levelConstant? l).map Guard.exactly with
    | [] => none
    | [g] => some g
    | gs => some (.or gs)
  else none

/-- Bind the candidates that hold a guard and are not assigned to; earlier ones are
in scope of later ones. -/
def bindUnassigned (R : Recognizer) (assigned : List String) (candidates : List (String × Expr)) :
    Table String Guard :=
  candidates.foldl
    (fun bound (name, init) =>
      if assigned.contains name then bound
      else
        match (R.withVariables bound).recognize? init with
        | some g => bound.insert name g
        | none => bound)
    .empty

def localVariables (R : Recognizer) (body : Block) : Table String Guard :=
  R.bindUnassigned (stmtsAssigned body.stmts) (stmtsBooleans body.stmts)

/-- The boolean fields of a type that hold a guard: final and private ones and the
constants of an interface, since no other file can assign to them. -/
def fieldVariables (R : Recognizer) (d : TypeDecl) : Table String Guard :=
  R.bindUnassigned R.assigned <| d.fields.filterMap fun f =>
    if isBoolean f.type && (f.isFinal || f.isPrivate || d.kind = .interfaceType) then
      f.init.map fun e => (f.name, e)
    else none

end Recognizer
end LevelGuard.Flow
