import LevelGuard.Platform.Symbol

/-!
# Permission tables

A permission table attaches requirements to symbols of the platform and names
further permissions that the user can revoke. An entry gives its permissions in
one of four ways; an expression wins over a single value, that over a list of
which all are needed, and that over a list of which one is.
-/
namespace LevelGuard.Platform

inductive LoadError where
  | databaseNotFound
  | unreadable (path reason : String)
  | malformed (what : String)
  | invalidPermission (symbol reason : String)
  deriving DecidableEq, Repr

def LoadError.message : LoadError → String
  | .databaseNotFound => "Can't find API database; API check not performed"
  | .unreadable path reason => "Failed to read " ++ path ++ ": " ++ reason
  | .malformed what => "Malformed " ++ what
  | .invalidPermission symbol reason =>
    "Invalid permission table entry for " ++ symbol ++ ": " ++ reason

structure PermissionEntry where
  /-- Owner and member with `#` between them. -/
  symbol : String := ""
  kind : Option SymbolKind := none
  value : Option String := none
  anyOf : List String := []
  allOf : List String := []
  expression : Option String := none
  conditional : Bool := false
  /-- The levels that the requirement is limited to. -/
  apis : Option String := none
  deriving Repr, Inhabited

namespace PermissionEntry

open Permission

def expr (e : PermissionEntry) : Except String Expr :=
  match e.expression, e.value with
  | some text, _ =>
    match Expr.parse text with
    | .ok x => .ok x
    | .error err => .error err.message
  | none, some name => .ok (.single name)
  | none, none =>
    if !e.allOf.isEmpty then .ok (.allOfNames e.allOf)
    else if !e.anyOf.isEmpty then .ok (.anyOfNames e.anyOf)
    else .error "no permission given"

def range (e : PermissionEntry) : Except String (Option ApiRange) :=
  match e.apis with
  | none => .ok none
  | some text =>
    match ApiRange.parse text with
    | .ok r => .ok (some r)
    | .error err => .error err.message

/-- The symbol of the entry; without a kind it is a constructor or a method. -/
def target (e : PermissionEntry) : Except String Symbol :=
  match Text.splitFirst? '#' e.symbol with
  | none => .error "expected `owner#member`"
  | some (owner, member) =>
    let kind := e.kind.getD (if member = constructorName then .constructor else .method)
    .ok ⟨owner, member, kind⟩

def requirement (e : PermissionEntry) : Except String (Symbol × Requirement) := do
  let symbol ← e.target
  let expr ← e.expr
  let apis ← e.range
  let r : Requirement := ⟨expr, apis⟩
  return (symbol, if e.conditional then r.asConditional else r)

def toRequirement (e : PermissionEntry) : Except LoadError (Symbol × Requirement) :=
  e.requirement.mapError (.invalidPermission e.symbol)

end PermissionEntry

structure PermissionTable where
  permissions : List PermissionEntry := []
  /-- Permissions the user can revoke beyond those the platform lists. -/
  revocable : List String := []
  deriving Repr, Inhabited

end LevelGuard.Platform
