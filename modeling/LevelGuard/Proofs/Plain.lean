import Mathlib.Data.List.Basic
import LevelGuard.Project.Code
import LevelGuard.Project.Resolve

/-!
# Syntax without annotations

The plain form of a piece of syntax has no annotations on its types and members and is
the same otherwise. What code means to a check does not depend on them: which names are
assigned to, which variables there are, which conditions are guards, and what names
refer to are all the same for the plain form.
-/
namespace LevelGuard

theorem append_congr {α : Type} {l l' m m' : List α} (h : l = l') (h' : m = m') :
    l ++ m = l' ++ m' :=
  h ▸ h' ▸ rfl

theorem append_eq_map {α β : Type} {f : α → β} {l m : List β} {l' m' : List α} (h : l = l'.map f)
    (h' : m = m'.map f) : l ++ m = (l' ++ m').map f := by
  rw [List.map_append, h, h']

theorem map_append_congr {α β : Type} {f : α → β} {l l' m m' : List α} (h : l.map f = l'.map f)
    (h' : m.map f = m'.map f) : (l ++ m).map f = (l' ++ m').map f := by
  rw [List.map_append, List.map_append, h, h']

namespace Java

mutual

def plainExpr : Expr → Expr
  | .name s n => .name s n
  | .literal s v => .literal s v
  | .classLit s type => .classLit s type
  | .this s => .this s
  | .super s => .super s
  | .fieldAccess s target n => .fieldAccess s (plainExpr target) n
  | .call s target n args => .call s (plainExpr? target) n (plainExprs args)
  | .new s type args body => .new s type (plainExprs args) (plainDecl? body)
  | .newArray s type dims init => .newArray s type (plainExprs dims) (plainExprs init)
  | .arrayInit s items => .arrayInit s (plainExprs items)
  | .binary s op lhs rhs => .binary s op (plainExpr lhs) (plainExpr rhs)
  | .unary s op operand => .unary s op (plainExpr operand)
  | .conditional s cond yes no => .conditional s (plainExpr cond) (plainExpr yes) (plainExpr no)
  | .assign s target value => .assign s (plainExpr target) (plainExpr value)
  | .cast s type operand => .cast s type (plainExpr operand)
  | .instanceOf s operand type => .instanceOf s (plainExpr operand) type
  | .lambda s params body => .lambda s params (plainLambda body)
  | .methodRef s target n => .methodRef s (plainExpr target) n
  | .arrayAccess s array index => .arrayAccess s (plainExpr array) (plainExpr index)
  | .switch s selector cases => .switch s (plainExpr selector) (plainCases cases)
  | .unknown s parts => .unknown s (plainExprs parts)

def plainExpr? : Option Expr → Option Expr
  | none => none
  | some e => some (plainExpr e)

def plainExprs : List Expr → List Expr
  | [] => []
  | e :: es => plainExpr e :: plainExprs es

def plainLambda : LambdaBody → LambdaBody
  | .expr e => .expr (plainExpr e)
  | .block b => .block (plainBlock b)

def plainBlock : Block → Block
  | ⟨stmts, s⟩ => ⟨plainStmts stmts, s⟩

def plainBlock? : Option Block → Option Block
  | none => none
  | some b => some (plainBlock b)

/-- The annotations of variables stay. -/
def plainVars : List LocalVar → List LocalVar
  | [] => []
  | ⟨n, type, isFinal, init, s, annotations⟩ :: rest =>
    ⟨n, type, isFinal, plainExpr? init, s, annotations⟩ :: plainVars rest

def plainStmt : Stmt → Stmt
  | .block s b => .block s (plainBlock b)
  | .vars s decls => .vars s (plainVars decls)
  | .expr s e => .expr s (plainExpr e)
  | .ifElse s cond yes no => .ifElse s (plainExpr cond) (plainStmt yes) (plainStmt? no)
  | .whileLoop s cond body => .whileLoop s (plainExpr cond) (plainStmt body)
  | .doWhile s body cond => .doWhile s (plainStmt body) (plainExpr cond)
  | .forLoop s init cond update body =>
    .forLoop s (plainStmts init) (plainExpr? cond) (plainExprs update) (plainStmt body)
  | .forEach s item iterable body => .forEach s item (plainExpr iterable) (plainStmt body)
  | .switch s selector cases => .switch s (plainExpr selector) (plainCases cases)
  | .tryCatch s withResources resources body catches always =>
    .tryCatch s withResources (plainStmts resources) (plainBlock body) (plainCatches catches)
      (plainBlock? always)
  | .returns s value => .returns s (plainExpr? value)
  | .throws s value => .throws s (plainExpr value)
  | .breaks s label => .breaks s label
  | .continues s label => .continues s label
  | .yields s value => .yields s (plainExpr value)
  | .labeled s label body => .labeled s label (plainStmt body)
  | .synchronized s lock body => .synchronized s (plainExpr lock) (plainBlock body)
  | .localClass s d => .localClass s (plainDecl d)
  | .asserts s cond message => .asserts s (plainExpr cond) (plainExpr? message)
  | .empty s => .empty s

def plainStmt? : Option Stmt → Option Stmt
  | none => none
  | some st => some (plainStmt st)

def plainStmts : List Stmt → List Stmt
  | [] => []
  | st :: rest => plainStmt st :: plainStmts rest

def plainCases : List SwitchCase → List SwitchCase
  | [] => []
  | ⟨labels, isDefault, isRule, body, s⟩ :: rest =>
    ⟨plainExprs labels, isDefault, isRule, plainStmts body, s⟩ :: plainCases rest

def plainCatches : List CatchClause → List CatchClause
  | [] => []
  | ⟨types, n, body, s⟩ :: rest => ⟨types, n, plainBlock body, s⟩ :: plainCatches rest

def plainDecl : TypeDecl → TypeDecl
  | ⟨n, q, kind, _, superClass, interfaces, members, s⟩ =>
    ⟨n, q, kind, [], superClass, interfaces, plainMembers members, s⟩

def plainDecl? : Option TypeDecl → Option TypeDecl
  | none => none
  | some d => some (plainDecl d)

def plainMember : Member → Member
  | .method ⟨n, isConstructor, isStatic, _, params, isVarargs, returnType, throwsTypes, body, s, ns⟩ =>
    .method ⟨n, isConstructor, isStatic, [], params, isVarargs, returnType, throwsTypes,
      plainBlock? body, s, ns⟩
  | .field ⟨n, type, isStatic, isFinal, isPrivate, _, init, s⟩ =>
    .field ⟨n, type, isStatic, isFinal, isPrivate, [], plainExpr? init, s⟩
  | .type d => .type (plainDecl d)
  | .initializer isStatic body => .initializer isStatic (plainBlock body)
  | .constant ⟨n, _, args, body, s⟩ => .constant ⟨n, [], plainExprs args, plainDecl? body, s⟩

def plainMembers : List Member → List Member
  | [] => []
  | m :: rest => plainMember m :: plainMembers rest

end

/-- The file without the annotations of its types and members. -/
def CompilationUnit.plain (u : CompilationUnit) : CompilationUnit :=
  { u with types := u.types.map plainDecl }

def plainField (f : FieldDecl) : FieldDecl :=
  { f with annotations := [], init := plainExpr? f.init }

section Maps

theorem plainExprs_eq_map (es : List Expr) : plainExprs es = es.map plainExpr := by
  induction es with
  | nil => rfl
  | cons e es ih => rw [plainExprs, ih, List.map_cons]

theorem plainMembers_eq_map (members : List Member) :
    plainMembers members = members.map plainMember := by
  induction members with
  | nil => rfl
  | cons m members ih => rw [plainMembers, ih, List.map_cons]

@[simp] theorem length_plainExprs (es : List Expr) : (plainExprs es).length = es.length := by
  rw [plainExprs_eq_map, List.length_map]

theorem fields_plain (d : TypeDecl) : (plainDecl d).fields = d.fields.map plainField := by
  obtain ⟨n, q, kind, annotations, superClass, interfaces, members, s⟩ := d
  unfold TypeDecl.fields plainDecl
  induction members with
  | nil => rfl
  | cons m members ih =>
    rw [plainMembers, List.filterMap_cons, List.filterMap_cons, ih]
    rcases m with ⟨⟨⟩⟩ | ⟨⟨⟩⟩ | _ | _ | ⟨⟨⟩⟩ <;> rfl

end Maps

namespace Expr

@[simp] theorem span_plain (e : Expr) : (plainExpr e).span = e.span := by
  cases e <;> rfl

@[simp] theorem lastName?_plain (e : Expr) : (plainExpr e).lastName? = e.lastName? := by
  cases e <;> rfl

@[simp] theorem stringLiteral?_plain (e : Expr) : (plainExpr e).stringLiteral? = e.stringLiteral? := by
  cases e <;> rfl

@[simp] theorem dottedName?_plain : (e : Expr) → (plainExpr e).dottedName? = e.dottedName?
  | .fieldAccess _ target _ => by rw [plainExpr, dottedName?, dottedName?, dottedName?_plain target]
  | .name .. | .call .. | .new .. | .newArray .. | .arrayInit .. | .binary .. | .unary ..
  | .conditional .. | .assign .. | .cast .. | .instanceOf .. | .lambda .. | .methodRef ..
  | .arrayAccess .. | .switch .. | .literal .. | .classLit .. | .this _ | .super _ | .unknown .. =>
    rfl

@[simp] theorem intLiteral?_plain : (e : Expr) → (plainExpr e).intLiteral? = e.intLiteral?
  | .unary _ op operand => by
    cases op with
    | neg => rw [plainExpr, intLiteral?, intLiteral?, intLiteral?_plain operand]
    | _ => rfl
  | .name .. | .fieldAccess .. | .call .. | .new .. | .newArray .. | .arrayInit .. | .binary ..
  | .conditional .. | .assign .. | .cast .. | .instanceOf .. | .lambda .. | .methodRef ..
  | .arrayAccess .. | .switch .. | .literal .. | .classLit .. | .this _ | .super _ | .unknown .. =>
    rfl

end Expr

@[simp] theorem permissionName?_plain (e : Expr) : permissionName? (plainExpr e) = permissionName? e := by
  unfold permissionName?
  simp only [Expr.stringLiteral?_plain, Expr.dottedName?_plain]

end Java

namespace Flow.Recognizer

open Java

variable (R : Recognizer)

@[simp] theorem readsLevel_plain (e : Expr) : R.readsLevel (plainExpr e) = R.readsLevel e := by
  unfold readsLevel
  rw [Expr.dottedName?_plain]

@[simp] theorem levelConstant?_plain (e : Expr) :
    levelConstant? (plainExpr e) = levelConstant? e := by
  unfold levelConstant?
  rw [Expr.intLiteral?_plain]
  cases e with
  | fieldAccess s target n => simp [plainExpr]
  | _ => rfl

@[simp] theorem levelGuard?_plain (op : BinaryOp) (accessor level : Expr) :
    R.levelGuard? op (plainExpr accessor) (plainExpr level) = R.levelGuard? op accessor level := by
  simp [levelGuard?]

@[simp] theorem permissionGuard?_plain (op : BinaryOp) (check status : Expr) :
    permissionGuard? op (plainExpr check) (plainExpr status) = permissionGuard? op check status := by
  have hgrants : grants? (plainExpr status) = grants? status := by simp [grants?]
  cases check with
  | call s target n args =>
    have hargs : (plainExprs args).findSome? permissionName? = args.findSome? permissionName? := by
      rw [plainExprs_eq_map, List.findSome?_map]
      exact congrArg (args.findSome? ·) (funext permissionName?_plain)
    simp only [plainExpr, permissionGuard?, hargs, hgrants]
  | _ => rfl

theorem recognize?_plain : (e : Expr) → R.recognize? (plainExpr e) = R.recognize? e
  | .unary _ op operand => by
    cases op with
    | not => rw [plainExpr, recognize?, recognize?, recognize?_plain operand]
    | _ => rfl
  | .binary _ op lhs rhs => by
    cases op with
    | and => rw [plainExpr, recognize?, recognize?, recognize?_plain lhs, recognize?_plain rhs]
    | or => rw [plainExpr, recognize?, recognize?, recognize?_plain lhs, recognize?_plain rhs]
    | _ => simp [plainExpr, recognize?]
  | .name .. | .fieldAccess .. | .call .. | .new .. | .newArray .. | .arrayInit ..
  | .conditional .. | .assign .. | .cast .. | .instanceOf .. | .lambda .. | .methodRef ..
  | .arrayAccess .. | .switch .. | .literal .. | .classLit .. | .this _ | .super _ | .unknown .. =>
    rfl

theorem caseGuard?_plain (selector : Expr) (labels : List Expr) :
    R.caseGuard? (plainExpr selector) (plainExprs labels) = R.caseGuard? selector labels := by
  unfold caseGuard?
  rw [readsLevel_plain, plainExprs_eq_map, List.mapM_map]
  simp only [Function.comp_def, levelConstant?_plain]

end Flow.Recognizer

/-- What a file says to others of a type it declares. -/
def Project.typeNames (d : Java.TypeDecl) : String × String := (d.name, d.qualified)

namespace Flow

open Java

/-- The names assigned to in some code and the types declared in it are those of its plain form. -/
structure Kept (names names' : List String) (types types' : List TypeDecl) : Prop where
  assigned : names = names'
  declared : types.map Project.typeNames = types'.map Project.typeNames

namespace Kept

variable {as as' bs bs' : List String} {ts ts' us us' : List TypeDecl}

theorem nil : Kept [] [] [] [] := ⟨rfl, rfl⟩

theorem both (h : Kept as as' ts ts') (h' : Kept bs bs' us us') :
    Kept (as ++ bs) (as' ++ bs') (ts ++ us) (ts' ++ us') where
  assigned := append_congr h.assigned h'.assigned
  declared := map_append_congr h.declared h'.declared

/-- The names of the second part are listed first. -/
theorem swapped (h : Kept as as' ts ts') (h' : Kept bs bs' us us') :
    Kept (bs ++ as) (bs' ++ as') (ts ++ us) (ts' ++ us') :=
  ⟨(h'.both h).assigned, (h.both h').declared⟩

end Kept

mutual

theorem kept_expr : (e : Expr) →
    Kept (exprAssigned (plainExpr e)) (exprAssigned e) (exprTypes (plainExpr e)) (exprTypes e)
  | .name .. | .literal .. | .classLit .. | .this _ | .super _ => .nil
  | .fieldAccess _ target _ => kept_expr target
  | .call _ target _ args => (kept_expr? target).both (kept_exprs args)
  | .new _ _ args body => (kept_exprs args).swapped (kept_decl? body)
  | .newArray _ _ dims init => (kept_exprs dims).both (kept_exprs init)
  | .arrayInit _ items => kept_exprs items
  | .binary _ _ lhs rhs => (kept_expr lhs).both (kept_expr rhs)
  | .unary _ _ operand => kept_expr operand
  | .conditional _ cond yes no => ((kept_expr cond).both (kept_expr yes)).both (kept_expr no)
  | .assign _ target value =>
    have hname : Kept _ _ [] [] := ⟨congrArg Option.toList (Expr.lastName?_plain target), rfl⟩
    (hname.both (kept_expr target)).both (kept_expr value)
  | .cast _ _ operand => kept_expr operand
  | .instanceOf _ operand _ => kept_expr operand
  | .lambda _ _ (.expr e) => kept_expr e
  | .lambda _ _ (.block ⟨stmts, _⟩) => kept_stmts stmts
  | .methodRef _ target _ => kept_expr target
  | .arrayAccess _ array index => (kept_expr array).both (kept_expr index)
  | .switch _ selector cases => (kept_expr selector).swapped (kept_cases cases)
  | .unknown _ parts => kept_exprs parts

theorem kept_expr? : (e : Option Expr) →
    Kept (exprAssigned? (plainExpr? e)) (exprAssigned? e) (exprTypes? (plainExpr? e)) (exprTypes? e)
  | none => .nil
  | some e => kept_expr e

theorem kept_exprs : (es : List Expr) → Kept (exprsAssigned (plainExprs es)) (exprsAssigned es)
    (exprsTypes (plainExprs es)) (exprsTypes es)
  | [] => .nil
  | e :: es => (kept_expr e).both (kept_exprs es)

theorem kept_block? : (b : Option Block) → Kept (blockAssigned? (plainBlock? b)) (blockAssigned? b)
    (blockTypes? (plainBlock? b)) (blockTypes? b)
  | none => .nil
  | some ⟨stmts, _⟩ => kept_stmts stmts

theorem kept_vars : (decls : List LocalVar) → Kept (varsAssigned (plainVars decls))
    (varsAssigned decls) (varsTypes (plainVars decls)) (varsTypes decls)
  | [] => .nil
  | ⟨_, _, _, init, _, _⟩ :: rest => (kept_expr? init).both (kept_vars rest)

theorem kept_stmt : (st : Stmt) →
    Kept (stmtAssigned (plainStmt st)) (stmtAssigned st) (stmtTypes (plainStmt st)) (stmtTypes st)
  | .block _ ⟨stmts, _⟩ => kept_stmts stmts
  | .vars _ decls => kept_vars decls
  | .expr _ e | .throws _ e | .yields _ e => kept_expr e
  | .returns _ e => kept_expr? e
  | .ifElse _ cond yes no => ((kept_expr cond).both (kept_stmt yes)).both (kept_stmt? no)
  | .whileLoop _ cond body | .doWhile _ body cond => (kept_expr cond).both (kept_stmt body)
  | .forLoop _ init cond update body =>
    have hinit := kept_stmts init
    have hcond := kept_expr? cond
    have hupdate := kept_exprs update
    have hbody := kept_stmt body
    ⟨(((hcond.both hupdate).both hinit).both hbody).assigned,
      (((hinit.both hcond).both hupdate).both hbody).declared⟩
  | .forEach _ _ iterable body => (kept_expr iterable).both (kept_stmt body)
  | .switch _ selector cases => (kept_expr selector).both (kept_cases cases)
  | .tryCatch _ _ resources ⟨stmts, _⟩ catches always =>
    (((kept_stmts resources).both (kept_stmts stmts)).both (kept_catches catches)).both
      (kept_block? always)
  | .labeled _ _ body => kept_stmt body
  | .synchronized _ lock ⟨stmts, _⟩ => (kept_expr lock).both (kept_stmts stmts)
  | .localClass _ d => kept_decl d
  | .asserts _ cond message => (kept_expr cond).both (kept_expr? message)
  | .breaks .. | .continues .. | .empty _ => .nil

theorem kept_stmt? : (st : Option Stmt) →
    Kept (stmtAssigned? (plainStmt? st)) (stmtAssigned? st) (stmtTypes? (plainStmt? st)) (stmtTypes? st)
  | none => .nil
  | some st => kept_stmt st

theorem kept_stmts : (sts : List Stmt) → Kept (stmtsAssigned (plainStmts sts)) (stmtsAssigned sts)
    (stmtsTypes (plainStmts sts)) (stmtsTypes sts)
  | [] => .nil
  | st :: rest => (kept_stmt st).both (kept_stmts rest)

theorem kept_cases : (cases : List SwitchCase) → Kept (casesAssigned (plainCases cases))
    (casesAssigned cases) (casesTypes (plainCases cases)) (casesTypes cases)
  | [] => .nil
  | ⟨_, _, _, body, _⟩ :: rest => (kept_stmts body).both (kept_cases rest)

theorem kept_catches : (catches : List CatchClause) → Kept (catchesAssigned (plainCatches catches))
    (catchesAssigned catches) (catchesTypes (plainCatches catches)) (catchesTypes catches)
  | [] => .nil
  | ⟨_, _, ⟨stmts, _⟩, _⟩ :: rest => (kept_stmts stmts).both (kept_catches rest)

theorem kept_decl : (d : TypeDecl) →
    Kept (declAssigned (plainDecl d)) (declAssigned d) (declTypes (plainDecl d)) (declTypes d)
  | ⟨_, _, _, _, _, _, members, _⟩ =>
    ⟨(kept_members members).assigned, congrArg (_ :: ·) (kept_members members).declared⟩

theorem kept_decl? : (d : Option TypeDecl) →
    Kept (declAssigned? (plainDecl? d)) (declAssigned? d) (declTypes? (plainDecl? d)) (declTypes? d)
  | none => .nil
  | some d => kept_decl d

theorem kept_members : (members : List Member) → Kept (membersAssigned (plainMembers members))
    (membersAssigned members) (membersTypes (plainMembers members)) (membersTypes members)
  | [] => .nil
  | .method ⟨_, _, _, _, _, _, _, _, body, _, _⟩ :: rest => (kept_block? body).both (kept_members rest)
  | .field ⟨_, _, _, _, _, _, init, _⟩ :: rest => (kept_expr? init).both (kept_members rest)
  | .type d :: rest => (kept_decl d).both (kept_members rest)
  | .initializer _ ⟨stmts, _⟩ :: rest => (kept_stmts stmts).both (kept_members rest)
  | .constant ⟨_, _, args, body, _⟩ :: rest =>
    ((kept_exprs args).both (kept_decl? body)).both (kept_members rest)

end

/-- A variable with the plain form of its value. -/
def plainBinding (binding : String × Expr) : String × Expr := (binding.1, plainExpr binding.2)

theorem booleanVars_plain (decls : List LocalVar) :
    booleanVars (plainVars decls) = (booleanVars decls).map plainBinding := by
  induction decls with
  | nil => rfl
  | cons v rest ih =>
    obtain ⟨n, type, isFinal, init, s, annotations⟩ := v
    unfold booleanVars at ih ⊢
    rw [plainVars, List.filterMap_cons, List.filterMap_cons, ih]
    cases init <;> by_cases h : isBoolean type || type.isInferred <;>
      simp [h, plainExpr?, plainBinding]

mutual

theorem stmtBooleans_plain :
    (st : Stmt) → stmtBooleans (plainStmt st) = (stmtBooleans st).map plainBinding
  | .block _ ⟨stmts, _⟩ => stmtsBooleans_plain stmts
  | .vars _ decls => booleanVars_plain decls
  | .ifElse _ _ yes no => append_eq_map (stmtBooleans_plain yes) (stmtBooleans?_plain no)
  | .whileLoop _ _ body | .doWhile _ body _ | .forEach _ _ _ body | .labeled _ _ body =>
    stmtBooleans_plain body
  | .forLoop _ init _ _ body => append_eq_map (stmtsBooleans_plain init) (stmtBooleans_plain body)
  | .switch _ _ cases => casesBooleans_plain cases
  | .tryCatch _ _ resources ⟨stmts, _⟩ catches always =>
    append_eq_map (append_eq_map (append_eq_map (stmtsBooleans_plain resources)
      (stmtsBooleans_plain stmts)) (catchesBooleans_plain catches)) (blockBooleans?_plain always)
  | .synchronized _ _ ⟨stmts, _⟩ => stmtsBooleans_plain stmts
  | .expr .. | .throws .. | .yields .. | .returns .. | .localClass .. | .asserts .. | .breaks ..
  | .continues .. | .empty _ => rfl

theorem stmtBooleans?_plain :
    (st : Option Stmt) → stmtBooleans? (plainStmt? st) = (stmtBooleans? st).map plainBinding
  | none => rfl
  | some st => stmtBooleans_plain st

theorem stmtsBooleans_plain :
    (sts : List Stmt) → stmtsBooleans (plainStmts sts) = (stmtsBooleans sts).map plainBinding
  | [] => rfl
  | st :: rest => append_eq_map (stmtBooleans_plain st) (stmtsBooleans_plain rest)

theorem casesBooleans_plain : (cases : List SwitchCase) →
    casesBooleans (plainCases cases) = (casesBooleans cases).map plainBinding
  | [] => rfl
  | ⟨_, _, _, body, _⟩ :: rest =>
    append_eq_map (stmtsBooleans_plain body) (casesBooleans_plain rest)

theorem catchesBooleans_plain : (catches : List CatchClause) →
    catchesBooleans (plainCatches catches) = (catchesBooleans catches).map plainBinding
  | [] => rfl
  | ⟨_, _, ⟨stmts, _⟩, _⟩ :: rest =>
    append_eq_map (stmtsBooleans_plain stmts) (catchesBooleans_plain rest)

theorem blockBooleans?_plain :
    (b : Option Block) → blockBooleans? (plainBlock? b) = (blockBooleans? b).map plainBinding
  | none => rfl
  | some ⟨stmts, _⟩ => stmtsBooleans_plain stmts

end

namespace Recognizer

variable (R : Recognizer)

theorem bindUnassigned_plain (assigned : List String) (candidates : List (String × Expr)) :
    R.bindUnassigned assigned (candidates.map plainBinding) =
      R.bindUnassigned assigned candidates := by
  unfold bindUnassigned
  rw [List.foldl_map]
  simp only [plainBinding, recognize?_plain]

theorem localVariables_plain (b : Block) : R.localVariables (plainBlock b) = R.localVariables b := by
  obtain ⟨stmts, s⟩ := b
  simp only [localVariables, plainBlock, (kept_stmts stmts).assigned, stmtsBooleans_plain,
    bindUnassigned_plain]

theorem fieldVariables_plain (d : TypeDecl) : R.fieldVariables (plainDecl d) = R.fieldVariables d := by
  have hkind : (plainDecl d).kind = d.kind := by
    cases d
    rfl
  unfold fieldVariables
  rw [← bindUnassigned_plain R R.assigned (d.fields.filterMap _), fields_plain, hkind]
  congr 1
  rw [List.filterMap_map, List.map_filterMap]
  refine List.filterMap_congr fun f _ => ?_
  have hinit : (plainExpr? f.init).map (fun e => (f.name, e)) =
      (f.init.map fun e => (f.name, e)).map plainBinding := by
    cases f.init <;> rfl
  simp only [Function.comp_apply, plainField, hinit, apply_ite (Option.map plainBinding),
    Option.map_none]

theorem ofUnit_plain (u : CompilationUnit) : ofUnit u.plain = ofUnit u := by
  unfold ofUnit CompilationUnit.plain
  simp only [List.flatMap_map, (kept_decl _).assigned]

end Recognizer

end Flow

namespace Project

open Java

theorem declared_plainVars : (decls : List LocalVar) →
    (plainVars decls).map (fun v => (v.name, classNameOf? v.type)) =
      decls.map fun v => (v.name, classNameOf? v.type)
  | [] => rfl
  | ⟨_, _, _, _, _, _⟩ :: rest => congrArg (_ :: ·) (declared_plainVars rest)

mutual

theorem stmtVars_plain : (st : Stmt) → stmtVars (plainStmt st) = stmtVars st
  | .block _ ⟨stmts, _⟩ => stmtsVars_plain stmts
  | .vars _ decls => declared_plainVars decls
  | .ifElse _ _ yes none => stmtVars_plain yes
  | .ifElse _ _ yes (some no) => append_congr (stmtVars_plain yes) (stmtVars_plain no)
  | .whileLoop _ _ body | .doWhile _ body _ | .labeled _ _ body => stmtVars_plain body
  | .forLoop _ init _ _ body => append_congr (stmtsVars_plain init) (stmtVars_plain body)
  | .forEach _ _ _ body => congrArg (_ :: ·) (stmtVars_plain body)
  | .switch _ _ cases => casesVars_plain cases
  | .tryCatch _ _ resources ⟨stmts, _⟩ catches none =>
    append_congr (append_congr (stmtsVars_plain resources) (stmtsVars_plain stmts))
      (catchesVars_plain catches)
  | .tryCatch _ _ resources ⟨stmts, _⟩ catches (some ⟨always, _⟩) =>
    append_congr (append_congr (append_congr (stmtsVars_plain resources)
      (stmtsVars_plain stmts)) (catchesVars_plain catches)) (stmtsVars_plain always)
  | .synchronized _ _ ⟨stmts, _⟩ => stmtsVars_plain stmts
  | .expr .. | .returns .. | .throws .. | .breaks .. | .continues .. | .yields ..
  | .localClass .. | .asserts .. | .empty _ => rfl

theorem stmtsVars_plain : (sts : List Stmt) → stmtsVars (plainStmts sts) = stmtsVars sts
  | [] => rfl
  | st :: rest => append_congr (stmtVars_plain st) (stmtsVars_plain rest)

theorem casesVars_plain : (cases : List SwitchCase) → casesVars (plainCases cases) = casesVars cases
  | [] => rfl
  | ⟨_, _, _, body, _⟩ :: rest => append_congr (stmtsVars_plain body) (casesVars_plain rest)

theorem catchesVars_plain :
    (catches : List CatchClause) → catchesVars (plainCatches catches) = catchesVars catches
  | [] => rfl
  | ⟨_, _, ⟨stmts, _⟩, _⟩ :: rest =>
    append_congr (congrArg (_ :: ·) (stmtsVars_plain stmts)) (catchesVars_plain rest)

end

namespace Scope

def plain (S : Scope) : Scope := { S with unit := S.unit.plain }

theorem unitType?_plain (S : Scope) : S.plain.unitType? = S.unitType? := by
  funext name
  have hfind : ∀ types : List TypeDecl, (types.find? fun d => d.name = name).map (·.qualified) =
      ((types.map typeNames).find? fun p => p.1 = name).map Prod.snd := by
    intro types
    rw [List.find?_map, Option.map_map]
    rfl
  unfold unitType?
  rw [hfind, hfind]
  have hall : (S.plain.unit.allTypes).map typeNames = S.unit.allTypes.map typeNames := by
    change (List.flatMap declTypes (S.unit.types.map plainDecl)).map typeNames = _
    unfold CompilationUnit.allTypes
    rw [List.flatMap_map, List.map_flatMap, List.map_flatMap]
    simp only [(Flow.kept_decl _).declared]
  rw [hall]

theorem resolve?_plain (S : Scope) : S.plain.resolve? = S.resolve? := by
  funext name
  have hsimple : ∀ name, S.plain.resolveSimple? name = S.resolveSimple? name := by
    intro name
    unfold resolveSimple?
    rw [unitType?_plain]
    rfl
  unfold resolve?
  simp only [hsimple]
  rfl

end Scope

namespace Resolver

def plain (R : Resolver) : Resolver := { R with scope := R.scope.plain }

theorem ofScope_plain (K : Platform.Catalog) (S : Scope) :
    ofScope K S.plain = (ofScope K S).plain := by
  unfold ofScope plain staticMember?
  simp only [Scope.resolve?_plain]
  rfl

variable (R : Resolver) (L : Locals)

theorem scope_plain : R.plain.scope.resolve? = R.scope.resolve? := Scope.resolve?_plain _

theorem valueOf_plain : R.plain.valueOf = R.valueOf := by
  funext type
  unfold valueOf
  rw [scope_plain]

theorem nameReceiver_plain : R.plain.nameReceiver L = R.nameReceiver L := by
  funext name
  unfold nameReceiver
  rw [scope_plain, valueOf_plain]
  rfl

theorem qualifiedType?_plain (e : Expr) :
    R.plain.qualifiedType? L (plainExpr e) = R.qualifiedType? L e := by
  unfold qualifiedType?
  rw [scope_plain, Expr.dottedName?_plain]
  rfl

theorem memberReceiver_plain : R.plain.memberReceiver = R.memberReceiver := by
  funext receiver name
  unfold memberReceiver
  rw [valueOf_plain]
  rfl

theorem ofType_plain : R.plain.ofType = R.ofType := by
  funext type
  unfold ofType
  rw [valueOf_plain]

theorem plainExpr_ne_super {e : Expr} (h : ∀ s, e ≠ .super s) (s : Span) :
    plainExpr e ≠ .super s := by
  cases e with
  | super s' => exact absurd rfl (h s')
  | _ => rintro ⟨⟩

theorem denote_call {target : Expr} (hsuper : ∀ s, target ≠ .super s) (s : Span) (n : String)
    (args : List Expr) : R.denote L (.call s (some target) n args) =
      R.ofType ((R.denote L target).receiver.owner?.bind fun owner =>
        R.returnType? owner n args.length) := by
  cases target with
  | super s' => exact absurd rfl (hsuper s')
  | _ => rfl

theorem reference?_call {target : Expr} (hsuper : ∀ s, target ≠ .super s) (s : Span) (n : String)
    (args : List Expr) : R.reference? L (.call s (some target) n args) =
      if n = constructorName then none
      else (R.ownerOf? L target).bind fun owner =>
        R.findMember? owner n .method (some args.length) := by
  cases target with
  | super s' => exact absurd rfl (hsuper s')
  | _ => rfl

theorem denote_plain : (e : Expr) → R.plain.denote L (plainExpr e) = R.denote L e
  | .name s n => by
    rw [plainExpr, denote, denote, nameReceiver_plain]
  | .fieldAccess s target n => by
    have htype := R.qualifiedType?_plain L (.fieldAccess s target n)
    rw [plainExpr] at htype ⊢
    rw [denote, denote, denote_plain target, memberReceiver_plain, htype]
  | .call s none n args => by
    simp only [plainExpr, plainExpr?, denote, ofType_plain, length_plainExprs]
    rfl
  | .call s (some target) n args => by
    by_cases hsuper : ∃ s', target = .super s'
    · obtain ⟨s', rfl⟩ := hsuper
      simp only [plainExpr, plainExpr?, denote, ofType_plain, length_plainExprs]
      rfl
    · have hother : ∀ s, target ≠ .super s := fun s h => hsuper ⟨s, h⟩
      rw [plainExpr, plainExpr?, denote_call _ _ hother, denote_call _ _ (plainExpr_ne_super hother),
        ofType_plain, denote_plain target, length_plainExprs]
      rfl
  | .new _ type _ _ | .cast _ type _ => by
    simp only [plainExpr, denote, ofType_plain, scope_plain]
  | .literal _ l => by
    cases l <;> simp only [plainExpr, denote, ofType_plain]
  | .this _ | .super _ => by
    simp only [plainExpr, denote, ofType_plain]
    rfl
  | .conditional _ _ yes _ => by
    simp only [plainExpr, denote, ofType_plain, denote_plain yes]
  | .assign _ target _ => by
    simp only [plainExpr, denote, ofType_plain, denote_plain target]
  | .newArray .. | .arrayInit .. | .binary .. | .unary .. | .instanceOf .. | .lambda ..
  | .methodRef .. | .arrayAccess .. | .switch .. | .classLit .. | .unknown .. => by
    simp only [plainExpr, denote, ofType_plain]

theorem ownerOf?_plain (e : Expr) : R.plain.ownerOf? L (plainExpr e) = R.ownerOf? L e := by
  unfold ownerOf?
  rw [denote_plain]

theorem reference?_plain (e : Expr) : R.plain.reference? L (plainExpr e) = R.reference? L e := by
  cases e with
  | fieldAccess s target n =>
    simp only [plainExpr, reference?, ownerOf?_plain]
    rfl
  | call s target n args =>
    cases target with
    | none =>
      simp only [plainExpr, plainExpr?, reference?, length_plainExprs]
      rfl
    | some target =>
      by_cases hsuper : ∃ s', target = .super s'
      · obtain ⟨s', rfl⟩ := hsuper
        simp only [plainExpr, plainExpr?, reference?, length_plainExprs]
        rfl
      · have hother : ∀ s, target ≠ .super s := fun s h => hsuper ⟨s, h⟩
        rw [plainExpr, plainExpr?, reference?_call _ _ hother,
          reference?_call _ _ (plainExpr_ne_super hother), ownerOf?_plain, length_plainExprs]
        rfl
  | new s type args body =>
    simp only [plainExpr, reference?, scope_plain, length_plainExprs]
    rfl
  | methodRef s target n =>
    simp only [plainExpr, reference?, ownerOf?_plain]
    rfl
  | name s n => rfl
  | _ => rfl

theorem typeUse?_plain (t : TypeRef) : R.plain.typeUse? t = R.typeUse? t := by
  unfold typeUse?
  rw [scope_plain]
  rfl

theorem caseLabel?_plain (label selector : Expr) :
    R.plain.caseLabel? L (plainExpr label) (plainExpr selector) = R.caseLabel? L label selector := by
  unfold caseLabel? typeOf?
  rw [Expr.lastName?_plain, denote_plain]
  rfl

end Resolver

namespace Code

def plain (c : Code) : Code where
  params := c.params
  steps :=
    match c.steps with
    | .block b => .block (plainBlock b)
    | .exprs es => .exprs (plainExprs es)

theorem locals_plain (c : Code) : c.plain.locals = c.locals := by
  obtain ⟨params, ⟨stmts, s⟩ | es⟩ := c
  · have hvars : paramVars params ++ stmtsVars (plainStmts stmts) =
        paramVars params ++ stmtsVars stmts := by
      rw [stmtsVars_plain]
    exact congrArg Table.ofList hvars
  · rfl

theorem recognizer_plain (c : Code) (R : Flow.Recognizer) :
    c.plain.recognizer R = c.recognizer R := by
  have houter : c.plain.outerRecognizer R = c.outerRecognizer R := by
    unfold outerRecognizer
    rw [locals_plain]
  unfold recognizer
  rw [houter]
  congr 1
  unfold guards
  rw [houter]
  obtain ⟨params, b | es⟩ := c
  · exact Flow.Recognizer.localVariables_plain _ b
  · rfl

theorem ofLambda_plain (params : List Param) (body : LambdaBody) :
    ofLambda params (plainLambda body) = (ofLambda params body).plain := by
  cases body <;> rfl

theorem ofMember?_plain (m : Member) : ofMember? (plainMember m) = (ofMember? m).map plain := by
  rcases m with ⟨⟨_, _, _, _, _, _, _, _, _ | _, _, _⟩⟩ | ⟨⟨_, _, _, _, _, _, _ | _, _⟩⟩ | _ | _ | ⟨⟨⟩⟩ <;>
    rfl

end Code

end Project

end LevelGuard
