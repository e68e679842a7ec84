import LevelGuard.Project.Assemble
import LevelGuard.Project.Locals

/-!
# Resolving references

A reference is resolved to the nearest type that declares the member, starting
from the static type of its receiver. Types come from declarations, imports and
recorded result types alone; where they do not tell, the reference stays
unresolved.

What an expression denotes is computed in one recursion: the receiver it makes
for a member access, and its static type. A type declared in source hides the
platform type of the same name.
-/
namespace LevelGuard.Project

open Java Platform

structure Resolved where
  /-- The symbol named in messages: the static receiver, if the platform has it. -/
  display : Symbol
  declaring : Symbol
  demands : List Demand
  /-- Whether compilers copy the value into the caller. -/
  inlined : Bool := false
  deriving DecidableEq

namespace Resolved

def plain (s : Symbol) (demands : List Demand) : Resolved := ⟨s, s, demands, false⟩

def level? (r : Resolved) : Option Level :=
  r.demands.findSome? fun
    | .version v => some v
    | .permission _ => none

end Resolved

inductive Receiver where
  | type (name : String)
  | value (type : String)
  | unknown
  deriving DecidableEq, Repr, Inhabited

namespace Receiver

def owner? : Receiver → Option String
  | .type t | .value t => some t
  | .unknown => none

def valueType? : Receiver → Option String
  | .value t => some t
  | _ => none

end Receiver

structure Denotation where
  receiver : Receiver
  type : Option String
  deriving Inhabited

def sourceDemands (level : Option Level) (permission : Option Permission.Requirement) :
    List Demand :=
  (level.map .version).toList ++ (permission.map .permission).toList

structure Resolver where
  catalog : Catalog
  scope : Scope
  staticMembers : Table String String := .empty
  staticOwners : List String := []

namespace Resolver

def staticMember? (S : Scope) (path : String) : Option (String × String) := do
  let (owner, member) ← Text.cutLast? (· == '.') path.toList
  let owner ← S.resolve? (String.ofList owner)
  return (String.ofList member, owner)

def ofScope (K : Catalog) (S : Scope) : Resolver :=
  let imports := S.unit.imports.filter (·.isStatic)
  { catalog := K
    scope := S
    staticMembers := .ofList
      ((imports.filter fun i => !i.onDemand).filterMap fun i => staticMember? S i.path)
    staticOwners := (imports.filter (·.onDemand)).filterMap fun i => S.resolve? i.path }

def thisType? (R : Resolver) : Option String := R.scope.enclosing.head?

def superType? (R : Resolver) : Option String :=
  R.thisType?.bind R.scope.index.hierarchy.superClass?

def sourceMember? (t : SourceType) (s : Symbol) (arity : Option Nat) : Option (List Demand) :=
  match s.kind with
  | .method | .constructor =>
    (t.findMethod? s.member arity).map fun m => sourceDemands m.level m.permission
  | .field | .enumCase => (t.fields.get? s.member).map fun f => sourceDemands f.level none
  | .type => none

def declaredIn? (R : Resolver) (start owner member : String) (kind : SymbolKind)
    (arity : Option Nat) : Option Resolved :=
  let s : Symbol := ⟨owner, member, kind⟩
  match R.scope.index.sourceType? owner with
  | some t => (sourceMember? t s arity).map (.plain s)
  | none =>
    if R.catalog.declares s then
      some
        { display := if (R.catalog.class? start).isSome then ⟨start, member, kind⟩ else s
          declaring := s
          demands := R.catalog.demands s arity
          inlined := kind = .field && R.catalog.isConstantField owner member }
    else none

/-- The member as the nearest of a type and its ancestors declares it. -/
def findMember? (R : Resolver) (start member : String) (kind : SymbolKind) (arity : Option Nat) :
    Option Resolved :=
  (R.scope.index.lineage start).findSome? fun owner => R.declaredIn? start owner member kind arity

/-- A member named without a receiver: one of the enclosing types, innermost
first, or one that is imported. -/
def implicitMember? (R : Resolver) (member : String) (kind : SymbolKind) (arity : Option Nat) :
    Option Resolved :=
  R.scope.enclosing.findSome? (fun outer => R.findMember? outer member kind arity) <|>
    match R.staticMembers.get? member with
    | some owner => R.findMember? owner member kind arity
    | none => R.staticOwners.findSome? fun owner => R.findMember? owner member kind arity

/-- A constructor. A class that records none demands its own level. -/
def constructor? (R : Resolver) (owner : String) (arity : Option Nat) : Option Resolved :=
  let s := Symbol.constructor owner
  match R.scope.index.sourceType? owner with
  | some t =>
    match t.findMethod? constructorName arity with
    | some m => some (.plain s (sourceDemands m.level m.permission))
    | none => some (.plain s (sourceDemands t.level none))
  | none =>
    (R.catalog.class? owner).map fun c =>
      let demands := R.catalog.demands s arity
      let levelled := demands.any fun
        | .version _ => true
        | .permission _ => false
      .plain s (if levelled then demands else .version c.since :: demands)

def fieldIn? (R : Resolver) (name owner : String) : Option (Option String) :=
  match R.scope.index.sourceType? owner with
  | some t => (t.fields.get? name).map (·.type)
  | none => if R.catalog.declares (.field owner name) then some none else none

def importsField (R : Resolver) (name : String) : Bool :=
  R.staticMembers.contains name ||
    R.staticOwners.any fun owner => R.catalog.declares (.field owner name)

/-- The type, where known, of the field a simple name means, if it means one. -/
def fieldType? (R : Resolver) (name : String) : Option (Option String) :=
  R.scope.enclosing.findSome? (fun outer =>
      (R.scope.index.lineage outer).findSome? (R.fieldIn? name)) <|>
    if R.importsField name then some none else none

def valueOf (R : Resolver) (type : Option String) : Receiver :=
  match type.bind R.scope.resolve? with
  | some t => .value t
  | none => .unknown

/-- The type of a field accessed through `owner`. A constant of a platform enum
has the type of the enum. -/
def memberFieldType? (R : Resolver) (owner name : String) : Option String :=
  ((R.scope.index.lineage owner).findSome? fun t =>
    match (R.scope.index.sourceType? t).bind fun s => s.fields.get? name with
    | some f => some f.type
    | none =>
      if R.catalog.isEnum t && R.catalog.declares (.field t name) then some (some t)
      else none).join

/-- The result type of the method as `owner` itself declares it. -/
def returnIn? (R : Resolver) (name : String) (arity : Nat) (owner : String) :
    Option (Option String) :=
  match R.scope.index.sourceType? owner with
  | some t => (t.findMethod? name (some arity)).map (·.returns)
  | none =>
    if R.catalog.declares (.method owner name) then
      some (R.catalog.returnType? owner name (some arity))
    else none

def returnType? (R : Resolver) (owner name : String) (arity : Nat) : Option String :=
  ((R.scope.index.lineage owner).findSome? (R.returnIn? name arity)).join

def implicitReturnType? (R : Resolver) (name : String) (arity : Nat) : Option String :=
  R.scope.enclosing.findSome? fun outer => R.returnType? outer name arity

/-- What a simple name denotes: a variable, a field or a type. -/
def nameReceiver (R : Resolver) (L : Locals) (name : String) : Receiver :=
  match (L.get? name).or (R.fieldType? name) with
  | some type => R.valueOf type
  | none =>
    match R.scope.resolve? name with
    | some t => .type t
    | none => .unknown

def qualifiedType? (R : Resolver) (L : Locals) (e : Expr) : Option String := do
  let dotted ← e.dottedName?
  let head := (Text.splitAll '.' dotted).headD ""
  if L.contains head || (R.fieldType? head).isSome then none
  else R.scope.resolve? dotted

def memberReceiver (R : Resolver) (receiver : Receiver) (name : String) : Receiver :=
  match receiver.owner? with
  | some owner => R.valueOf (R.memberFieldType? owner name)
  | none => .unknown

/-- The denotation of a name or of a field: only a value has a static type. -/
def ofReceiver (r : Receiver) : Denotation := ⟨r, r.valueType?⟩

def ofType (R : Resolver) (type : Option String) : Denotation := ⟨R.valueOf type, type⟩

/-- What an expression denotes where the given variables are visible. -/
def denote (R : Resolver) (L : Locals) : Expr → Denotation
  | .name _ n => ofReceiver (R.nameReceiver L n)
  | .fieldAccess s target n =>
    let inner := R.denote L target
    match R.qualifiedType? L (.fieldAccess s target n) with
    | some t => ofReceiver (.type t)
    | none => ofReceiver (R.memberReceiver inner.receiver n)
  | .call _ none n args => R.ofType (R.implicitReturnType? n args.length)
  | .call _ (some (.super _)) n args =>
    R.ofType (R.superType?.bind fun owner => R.returnType? owner n args.length)
  | .call _ (some target) n args =>
    R.ofType ((R.denote L target).receiver.owner?.bind fun owner =>
      R.returnType? owner n args.length)
  | .new _ type _ _ | .cast _ type _ => R.ofType (R.scope.resolve? type.name)
  | .literal _ (.str _) => R.ofType (some "java.lang.String")
  | .this _ => R.ofType R.thisType?
  | .super _ => R.ofType R.superType?
  | .conditional _ _ yes _ => R.ofType (R.denote L yes).type
  | .assign _ target _ => R.ofType (R.denote L target).type
  | _ => R.ofType none

def typeOf? (R : Resolver) (L : Locals) (e : Expr) : Option String := (R.denote L e).type

/-- The type whose members an access through the expression can reach. -/
def ownerOf? (R : Resolver) (L : Locals) (e : Expr) : Option String :=
  (R.denote L e).receiver.owner?

/-- Resolve a name, a field access, a call, an object creation or a method reference. -/
def reference? (R : Resolver) (L : Locals) : Expr → Option Resolved
  | .name _ n => if L.contains n then none else R.implicitMember? n .field none
  | .fieldAccess _ target n =>
    (R.ownerOf? L target).bind fun owner => R.findMember? owner n .field none
  | .call _ target n args =>
    let arity := some args.length
    match target with
    | some (.super _) =>
      R.superType?.bind fun owner =>
        if n = constructorName then R.constructor? owner arity
        else R.findMember? owner n .method arity
    | some e =>
      if n = constructorName then none
      else (R.ownerOf? L e).bind fun owner => R.findMember? owner n .method arity
    | none => if n = constructorName then none else R.implicitMember? n .method arity
  | .new _ type args _ =>
    (R.scope.resolve? type.name).bind fun owner => R.constructor? owner (some args.length)
  | .methodRef _ target n =>
    (R.ownerOf? L target).bind fun owner =>
      if n = "new" then R.constructor? owner none else R.findMember? owner n .method none
  | _ => none

def typeUse? (R : Resolver) (t : TypeRef) : Option Resolved :=
  if t.isPrimitive then none
  else
    (R.scope.resolve? t.name).map fun name =>
      let s := Symbol.type name
      .plain s <|
        match R.scope.index.sourceType? name with
        | some source => sourceDemands source.level none
        | none => R.catalog.demands s none

def caseLabel? (R : Resolver) (L : Locals) (label selector : Expr) : Option Resolved := do
  let name ← label.lastName?
  let owner ← R.typeOf? L selector
  R.findMember? owner name .enumCase none

end Resolver
end LevelGuard.Project
