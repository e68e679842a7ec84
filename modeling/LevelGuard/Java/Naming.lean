import LevelGuard.Java.Syntax

/-!
# Names of types within a project

A member type is named after the type around it, `Outer.Inner`. A class local to a
body is named after the type whose body it is and a number, `Outer$1Local`, and an
anonymous one has the number alone, `Outer$1`. Numbers run from one within each
type, in the order in which the tree is walked, and types inside a nested type
have a numbering of their own.

The walk takes any tree and changes names only; the anonymous class of an enum
constant also gets the name of its enum as superclass.
-/
namespace LevelGuard.Java

/-- A step of the walk, which counts the nested classes named so far. -/
abbrev Numbering (α : Type) := StateM Nat α

def nestedName (owner : Option String) (simple : String) : Numbering String :=
  match owner with
  | none => return "$" ++ simple
  | some q => do
    modify (· + 1)
    return q ++ "$" ++ toString (← get) ++ simple

/-- What a step yields with a numbering of its own. -/
def Numbering.fresh {α : Type} (n : Numbering α) : α := (n.run 0).1

mutual

def nameExpr (owner : Option String) : Expr → Numbering Expr
  | .name s n => return .name s n
  | .fieldAccess s target n => return .fieldAccess s (← nameExpr owner target) n
  | .call s target n args => do
    let target ← nameExpr? owner target
    return .call s target n (← nameExprs owner args)
  | .new s type args body => do
    let args ← nameExprs owner args
    match body with
    | none => return .new s type args none
    | some ⟨n, _, kind, annotations, superClass, interfaces, members, span⟩ =>
      let q ← nestedName owner n
      let members := (nameMembers q none members).fresh
      return .new s type args
        (some ⟨n, q, kind, annotations, superClass, interfaces, members, span⟩)
  | .newArray s type dims init => do
    let dims ← nameExprs owner dims
    return .newArray s type dims (← nameExprs owner init)
  | .arrayInit s items => return .arrayInit s (← nameExprs owner items)
  | .binary s op lhs rhs => do
    let lhs ← nameExpr owner lhs
    return .binary s op lhs (← nameExpr owner rhs)
  | .unary s op operand => return .unary s op (← nameExpr owner operand)
  | .conditional s cond yes no => do
    let cond ← nameExpr owner cond
    let yes ← nameExpr owner yes
    return .conditional s cond yes (← nameExpr owner no)
  | .assign s target value => do
    let target ← nameExpr owner target
    return .assign s target (← nameExpr owner value)
  | .cast s type operand => return .cast s type (← nameExpr owner operand)
  | .instanceOf s operand type => return .instanceOf s (← nameExpr owner operand) type
  | .lambda s params (.expr e) => return .lambda s params (.expr (← nameExpr owner e))
  | .lambda s params (.block b) => return .lambda s params (.block (← nameBlock owner b))
  | .methodRef s target n => return .methodRef s (← nameExpr owner target) n
  | .arrayAccess s array index => do
    let array ← nameExpr owner array
    return .arrayAccess s array (← nameExpr owner index)
  | .switch s selector cases => do
    let selector ← nameExpr owner selector
    return .switch s selector (← nameCases owner cases)
  | .literal s value => return .literal s value
  | .classLit s type => return .classLit s type
  | .this s => return .this s
  | .super s => return .super s
  | .unknown s parts => return .unknown s (← nameExprs owner parts)

def nameExpr? (owner : Option String) : Option Expr → Numbering (Option Expr)
  | none => return none
  | some e => return some (← nameExpr owner e)

def nameExprs (owner : Option String) : List Expr → Numbering (List Expr)
  | [] => return []
  | e :: es => do
    let e ← nameExpr owner e
    return e :: (← nameExprs owner es)

def nameBlock (owner : Option String) : Block → Numbering Block
  | ⟨stmts, span⟩ => return ⟨← nameStmts owner stmts, span⟩

def nameBlock? (owner : Option String) : Option Block → Numbering (Option Block)
  | none => return none
  | some b => return some (← nameBlock owner b)

def nameVar (owner : Option String) : LocalVar → Numbering LocalVar
  | ⟨n, type, isFinal, init, span, annotations⟩ => do
    let annotations ← nameAnnotations owner annotations
    return ⟨n, type, isFinal, ← nameExpr? owner init, span, annotations⟩

def nameVars (owner : Option String) : List LocalVar → Numbering (List LocalVar)
  | [] => return []
  | v :: rest => do
    let v ← nameVar owner v
    return v :: (← nameVars owner rest)

def nameStmt (owner : Option String) : Stmt → Numbering Stmt
  | .block s b => return .block s (← nameBlock owner b)
  | .vars s decls => return .vars s (← nameVars owner decls)
  | .expr s e => return .expr s (← nameExpr owner e)
  | .ifElse s cond yes no => do
    let cond ← nameExpr owner cond
    let yes ← nameStmt owner yes
    return .ifElse s cond yes (← nameStmt? owner no)
  | .whileLoop s cond body => do
    let cond ← nameExpr owner cond
    return .whileLoop s cond (← nameStmt owner body)
  | .doWhile s body cond => do
    let body ← nameStmt owner body
    return .doWhile s body (← nameExpr owner cond)
  | .forLoop s init cond update body => do
    let init ← nameStmts owner init
    let cond ← nameExpr? owner cond
    let update ← nameExprs owner update
    return .forLoop s init cond update (← nameStmt owner body)
  | .forEach s item iterable body => do
    let item ← nameVar owner item
    let iterable ← nameExpr owner iterable
    return .forEach s item iterable (← nameStmt owner body)
  | .switch s selector cases => do
    let selector ← nameExpr owner selector
    return .switch s selector (← nameCases owner cases)
  | .tryCatch s withResources resources body catches always => do
    let resources ← nameStmts owner resources
    let body ← nameBlock owner body
    let catches ← nameCatches owner catches
    return .tryCatch s withResources resources body catches (← nameBlock? owner always)
  | .returns s value => return .returns s (← nameExpr? owner value)
  | .throws s value => return .throws s (← nameExpr owner value)
  | .breaks s label => return .breaks s label
  | .continues s label => return .continues s label
  | .yields s value => return .yields s (← nameExpr owner value)
  | .labeled s label body => return .labeled s label (← nameStmt owner body)
  | .synchronized s lock body => do
    let lock ← nameExpr owner lock
    return .synchronized s lock (← nameBlock owner body)
  | .localClass s ⟨n, _, kind, annotations, superClass, interfaces, members, span⟩ => do
    let q ← nestedName owner n
    let annotations ← nameAnnotations owner annotations
    let members := (nameMembers q none members).fresh
    return .localClass s ⟨n, q, kind, annotations, superClass, interfaces, members, span⟩
  | .asserts s cond message => do
    let cond ← nameExpr owner cond
    return .asserts s cond (← nameExpr? owner message)
  | .empty s => return .empty s

def nameStmt? (owner : Option String) : Option Stmt → Numbering (Option Stmt)
  | none => return none
  | some st => return some (← nameStmt owner st)

def nameStmts (owner : Option String) : List Stmt → Numbering (List Stmt)
  | [] => return []
  | st :: rest => do
    let st ← nameStmt owner st
    return st :: (← nameStmts owner rest)

def nameCases (owner : Option String) : List SwitchCase → Numbering (List SwitchCase)
  | [] => return []
  | ⟨labels, isDefault, isRule, body, span⟩ :: rest => do
    let labels ← nameExprs owner labels
    let body ← nameStmts owner body
    return ⟨labels, isDefault, isRule, body, span⟩ :: (← nameCases owner rest)

def nameCatches (owner : Option String) : List CatchClause → Numbering (List CatchClause)
  | [] => return []
  | ⟨types, n, body, span⟩ :: rest => do
    let body ← nameBlock owner body
    return ⟨types, n, body, span⟩ :: (← nameCatches owner rest)

def nameArgs (owner : Option String) : List AnnotationArg → Numbering (List AnnotationArg)
  | [] => return []
  | ⟨key, value⟩ :: rest => do
    let value ← nameExpr owner value
    return ⟨key, value⟩ :: (← nameArgs owner rest)

def nameAnnotations (owner : Option String) : List Annotation → Numbering (List Annotation)
  | [] => return []
  | ⟨n, args, span⟩ :: rest => do
    let args ← nameArgs owner args
    return ⟨n, args, span⟩ :: (← nameAnnotations owner rest)

/-- Members of the type `owner`. Fields of one declaration have one type range in
common and share its annotations, which are walked once. -/
def nameMembers (owner : String) (shared : Option (Span × List Annotation)) :
    List Member → Numbering (List Member)
  | [] => return []
  | .method ⟨n, isConstructor, isStatic, annotations, params, isVarargs, returnType, throwsTypes,
      body, span, nameSpan⟩ :: rest => do
    let annotations ← nameAnnotations (some owner) annotations
    let body ← nameBlock? (some owner) body
    let m : MethodDecl := ⟨n, isConstructor, isStatic, annotations, params, isVarargs, returnType,
      throwsTypes, body, span, nameSpan⟩
    return .method m :: (← nameMembers owner none rest)
  | .field ⟨n, type, isStatic, isFinal, isPrivate, annotations, init, span⟩ :: rest => do
    let own := nameAnnotations (some owner) annotations
    let annotations ←
      match shared with
      | some (s, before) => if s = type.span then pure before else own
      | none => own
    let init ← nameExpr? (some owner) init
    let f : FieldDecl := ⟨n, type, isStatic, isFinal, isPrivate, annotations, init, span⟩
    return .field f :: (← nameMembers owner (some (type.span, annotations)) rest)
  | .type ⟨n, _, kind, annotations, superClass, interfaces, members, span⟩ :: rest => do
    let annotations ← nameAnnotations (some owner) annotations
    let q := owner ++ "." ++ n
    let members := (nameMembers q none members).fresh
    let d : TypeDecl := ⟨n, q, kind, annotations, superClass, interfaces, members, span⟩
    return .type d :: (← nameMembers owner none rest)
  | .initializer isStatic body :: rest => do
    let body ← nameBlock (some owner) body
    return .initializer isStatic body :: (← nameMembers owner none rest)
  | .constant ⟨n, annotations, args, body, span⟩ :: rest => do
    let annotations ← nameAnnotations (some owner) annotations
    let args ← nameExprs (some owner) args
    match body with
    | none =>
      return .constant ⟨n, annotations, args, none, span⟩ :: (← nameMembers owner none rest)
    | some ⟨bn, _, kind, ban, _, interfaces, members, bodySpan⟩ =>
      let q ← nestedName (some owner) bn
      let members := (nameMembers q none members).fresh
      let enum : TypeRef := ⟨Text.lastSegment '.' owner, span⟩
      let d : TypeDecl := ⟨bn, q, kind, ban, some enum, interfaces, members, bodySpan⟩
      return .constant ⟨n, annotations, args, some d, span⟩ :: (← nameMembers owner none rest)

end

def nameTopType (package : Option String) (d : TypeDecl) : TypeDecl :=
  let q :=
    match package with
    | some p => p ++ "." ++ d.name
    | none => d.name
  { d with
    qualified := q
    annotations := (nameAnnotations none d.annotations).fresh
    members := (nameMembers q none d.members).fresh }

end LevelGuard.Java
