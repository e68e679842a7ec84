import LevelGuard.Diagnostic
import LevelGuard.Java.Syntax
import LevelGuard.Permission.Requirement
import LevelGuard.Platform.Symbol

/-!
# What annotations declare

An annotation may require a level of the caller, promise one to the annotated
code, silence categories of findings, or demand permissions of the caller. A
declaration with several annotations of one kind gets the greatest of their
levels and the union of what they silence; of several permission annotations the
first counts.
-/
namespace LevelGuard.Java

def levelOf? (e : Expr) : Option Level :=
  match e.intLiteral? with
  | some n => if 0 ≤ n ∧ n ≤ Level.greatest then some n.toNat else none
  | none => e.lastName?.bind Platform.codenameLevel?

/-- A permission given as text or as a constant of the manifest class. -/
def permissionName? (e : Expr) : Option String :=
  match e.stringLiteral? with
  | some s => some s
  | none => do
    let dotted ← e.dottedName?
    let (owner, name) ← Text.cutLast? (· == '.') dotted.toList
    let owner := String.ofList owner
    if owner = "permission" || Text.endsWith owner "Manifest.permission" then
      some ("android.permission." ++ String.ofList name)
    else none

def valuesOf {α : Type} (value? : Expr → Option α) : Expr → List α
  | .arrayInit _ items => items.filterMap value?
  | e => (value? e).toList

def annotationsNamed (annotations : List Annotation) (name : String) : List Annotation :=
  annotations.filter fun a => a.simpleName = name

def requiredLevel? (annotations : List Annotation) : Option Level :=
  ((annotationsNamed annotations "RequiresApi").filterMap fun a =>
    ((a.arg? "api").or (a.arg? "value")).bind levelOf?).max?

def targetLevel? (annotations : List Annotation) : Option Level :=
  ((annotationsNamed annotations "TargetApi").filterMap fun a => (a.arg? "value").bind levelOf?).max?

def laterOf : Option Level → Option Level → Option Level
  | some a, some b => some (max a b)
  | some a, none => some a
  | none, b => b

def floorLevel? (annotations : List Annotation) : Option Level :=
  laterOf (requiredLevel? annotations) (targetLevel? annotations)

def categoriesOf (id : String) : List Category :=
  if id = "all" then Category.suppressible else (Category.ofId? id).toList

def silenced (annotations : List Annotation) : SortedSet Category :=
  .ofList <| annotations.flatMap fun a =>
    if a.simpleName = "SuppressLint" || a.simpleName = "SuppressWarnings" then
      match a.arg? "value" with
      | some value => (valuesOf Expr.stringLiteral? value).flatMap categoriesOf
      | none => []
    else []

def demandedExpr? (a : Annotation) : Option Permission.Expr :=
  match a.arg? "value", a.arg? "allOf", a.arg? "anyOf" with
  | some value, _, _ =>
    match valuesOf permissionName? value with
    | [] => none
    | [p] => some (.single p)
    | ps => some (.allOfNames ps)
  | none, some all, _ => some (.allOfNames (valuesOf permissionName? all))
  | none, none, some any => some (.anyOfNames (valuesOf permissionName? any))
  | none, none, none => none

def isTrue (a : Annotation) (key : String) : Bool :=
  match a.arg? key with
  | some (.literal _ (.bool b)) => b
  | _ => false

def requiredPermission? (annotations : List Annotation) : Option Permission.Requirement := do
  let a ← (annotationsNamed annotations "RequiresPermission").head?
  let expr ← demandedExpr? a
  let apis := ((a.arg? "apis").bind Expr.stringLiteral?).bind Permission.ApiRange.parse?
  let r : Permission.Requirement := ⟨expr, apis⟩
  return if isTrue a "conditional" then r.asConditional else r

end LevelGuard.Java
