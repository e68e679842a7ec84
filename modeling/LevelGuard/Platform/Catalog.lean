import LevelGuard.Data.SortedSet
import LevelGuard.Platform.Class
import LevelGuard.Platform.PermissionTable

/-!
# The catalog of the platform

The catalog answers what a symbol of the platform demands of its caller: the
level that introduced it and the permissions a table attaches to it. It knows
nothing of inheritance; a question is about members a class declares itself.
-/
namespace LevelGuard.Platform

structure Catalog where
  classes : Table String ApiClass := .empty
  permissions : Table Symbol Permission.Requirement := .empty
  revocable : NameSet := .empty
  deriving Inhabited

namespace Catalog

def empty : Catalog := {}

def addClass (K : Catalog) (c : ApiClass) : Catalog :=
  { K with classes := K.classes.insert c.name c }

def ofClasses (cs : List ApiClass) : Catalog := cs.foldl addClass empty

def addEntries (K : Catalog) : List PermissionEntry → Except LoadError Catalog
  | [] => .ok K
  | e :: es => do
    let (symbol, r) ← e.toRequirement
    addEntries { K with permissions := K.permissions.insert symbol r } es

/-- Add a table; the last entry for a symbol counts. -/
def addTable (K : Catalog) (t : PermissionTable) : Except LoadError Catalog := do
  let K ← K.addEntries t.permissions
  return { K with revocable := K.revocable.insertAll t.revocable }

def class? (K : Catalog) (name : String) : Option ApiClass := K.classes.get? name

/-- Whether the owner itself declares the member, or a table names it. -/
def declares (K : Catalog) (s : Symbol) : Bool :=
  K.permissions.contains s ||
    match K.class? s.owner with
    | none => false
    | some c =>
      match s.kind with
      | .type => true
      | .method => c.methods.contains s.member
      | .constructor => c.methods.contains constructorName
      | .field | .enumCase => c.fields.contains s.member

def since? (c : ApiClass) (s : Symbol) (arity : Option Nat) : Option Level :=
  match s.kind with
  | .type => some c.since
  | .method => (c.findMethod? s.member arity).map (·.since)
  | .constructor => (c.findMethod? constructorName arity).map (·.since)
  | .field | .enumCase => (c.fields.get? s.member).map (·.since)

/-- The symbol under which a table is asked; an enum case is asked for as a field. -/
def permissionKey (s : Symbol) : Symbol :=
  match s.kind with
  | .enumCase => .field s.owner s.member
  | _ => s

/-- The demands of a symbol used with a number of arguments, if that is known. -/
def demands (K : Catalog) (s : Symbol) (arity : Option Nat) : List Demand :=
  let version := (K.class? s.owner).bind (since? · s arity)
  let permission := K.permissions.get? (permissionKey s)
  (version.map .version).toList ++ (permission.map .permission).toList

def returnType? (K : Catalog) (owner method : String) (arity : Option Nat) : Option String :=
  (K.class? owner).bind fun c => (c.findMethod? method arity).bind (·.returns)

/-- Classes with fields in upper case that are read from the running device. -/
def deviceValueHolders : List String := ["android.os.Build", "android.os.Build.VERSION"]

/-- Only values of these types are copied into callers. -/
def inlinableTypes : List String :=
  ["int", "long", "short", "byte", "char", "boolean", "float", "double", "String",
    "java.lang.String"]

/-- Upper case letters, digits and underscores with at least one letter. -/
def looksConstant (name : String) : Bool :=
  name.toList.any Char.isUpper &&
    name.toList.all fun c => c.isUpper || c.isDigit || c == '_'

/-- Whether compilers copy the value of a field into callers. What the database
says wins; otherwise the name, and the type where it is known, decide. -/
def isConstantField (K : Catalog) (owner field : String) : Bool :=
  match K.class? owner with
  | none => false
  | some c =>
    if c.isEnum then false
    else
      match c.fields.get? field with
      | none => false
      | some f =>
        match f.constant, f.type with
        | some constant, _ => constant
        | none, some type => looksConstant field && inlinableTypes.contains type
        | none, none => looksConstant field && !deviceValueHolders.contains owner

def isEnum (K : Catalog) (owner : String) : Bool :=
  match K.class? owner with
  | none => false
  | some c => c.isEnum

end Catalog
end LevelGuard.Platform
