import LevelGuard.Java.Words
import LevelGuard.Text.Position

/-!
# Syntax trees of Java

The tree keeps what the checks look at: declarations with their annotations and
supertypes, statements with their control structure, and expressions, each with
its source range. Generic arguments and array dimensions of types are left out,
and syntax that no check cares about is kept as `unknown` with its parts.
-/
namespace LevelGuard.Java

/-- A type as written, without generic arguments and array dimensions. -/
structure TypeRef where
  name : String
  span : Span
  deriving DecidableEq, Repr, Inhabited

namespace TypeRef

def isPrimitive (t : TypeRef) : Bool :=
  ["int", "long", "short", "byte", "char", "boolean", "float", "double", "void"].contains t.name

def isInferred (t : TypeRef) : Bool := t.name = "var"

end TypeRef

structure Param where
  name : String
  type : Option TypeRef
  deriving DecidableEq, Repr, Inhabited

inductive BinaryOp where
  | and
  | or
  | eq
  | ne
  | lt
  | le
  | gt
  | ge
  | other
  deriving DecidableEq, Repr, Inhabited

def BinaryOp.name : BinaryOp → String
  | .and => "And"
  | .or => "Or"
  | .eq => "Eq"
  | .ne => "Ne"
  | .lt => "Lt"
  | .le => "Le"
  | .gt => "Gt"
  | .ge => "Ge"
  | .other => "Other"

def BinaryOp.flipped : BinaryOp → BinaryOp
  | .lt => .gt
  | .le => .ge
  | .gt => .lt
  | .ge => .le
  | op => op

inductive UnaryOp where
  | not
  | neg
  | other
  deriving DecidableEq, Repr, Inhabited

def UnaryOp.name : UnaryOp → String
  | .not => "Not"
  | .neg => "Neg"
  | .other => "Other"

inductive TypeKind where
  | classType
  | interfaceType
  | enumType
  | recordType
  | annotationType
  | anonymous
  deriving DecidableEq, Repr, Inhabited

def TypeKind.name : TypeKind → String
  | .classType => "Class"
  | .interfaceType => "Interface"
  | .enumType => "Enum"
  | .recordType => "Record"
  | .annotationType => "AnnotationType"
  | .anonymous => "Anonymous"

mutual

inductive Expr where
  | name (span : Span) (name : String)
  | fieldAccess (span : Span) (target : Expr) (name : String)
  /-- A method call; constructor calls have the name of constructors. -/
  | call (span : Span) (target : Option Expr) (name : String) (args : List Expr)
  | new (span : Span) (type : TypeRef) (args : List Expr) (body : Option TypeDecl)
  | newArray (span : Span) (type : TypeRef) (dims init : List Expr)
  | arrayInit (span : Span) (items : List Expr)
  | binary (span : Span) (op : BinaryOp) (lhs rhs : Expr)
  | unary (span : Span) (op : UnaryOp) (operand : Expr)
  | conditional (span : Span) (cond yes no : Expr)
  | assign (span : Span) (target value : Expr)
  | cast (span : Span) (type : TypeRef) (operand : Expr)
  | instanceOf (span : Span) (operand : Expr) (type : TypeRef)
  | lambda (span : Span) (params : List Param) (body : LambdaBody)
  | methodRef (span : Span) (target : Expr) (name : String)
  | arrayAccess (span : Span) (array index : Expr)
  | switch (span : Span) (selector : Expr) (cases : List SwitchCase)
  | literal (span : Span) (value : Literal)
  | classLit (span : Span) (type : TypeRef)
  | this (span : Span)
  | super (span : Span)
  /-- Syntax of no interest; its parts are still looked at. -/
  | unknown (span : Span) (parts : List Expr)

inductive LambdaBody where
  | expr (value : Expr)
  | block (body : Block)

structure Block where
  stmts : List Stmt
  span : Span

structure LocalVar where
  name : String
  type : TypeRef
  isFinal : Bool
  init : Option Expr
  span : Span
  /-- The annotations before it; of several variables declared together the first has
  them. -/
  annotations : List Annotation

inductive Stmt where
  | block (span : Span) (body : Block)
  | vars (span : Span) (decls : List LocalVar)
  | expr (span : Span) (value : Expr)
  | ifElse (span : Span) (cond : Expr) (yes : Stmt) (no : Option Stmt)
  | whileLoop (span : Span) (cond : Expr) (body : Stmt)
  | doWhile (span : Span) (body : Stmt) (cond : Expr)
  | forLoop (span : Span) (init : List Stmt) (cond : Option Expr) (update : List Expr)
      (body : Stmt)
  | forEach (span : Span) (item : LocalVar) (iterable : Expr) (body : Stmt)
  | switch (span : Span) (selector : Expr) (cases : List SwitchCase)
  | tryCatch (span : Span) (withResources : Bool) (resources : List Stmt) (body : Block)
      (catches : List CatchClause) (always : Option Block)
  | returns (span : Span) (value : Option Expr)
  | throws (span : Span) (value : Expr)
  | breaks (span : Span) (label : Option String)
  | continues (span : Span) (label : Option String)
  | yields (span : Span) (value : Expr)
  | labeled (span : Span) (label : String) (body : Stmt)
  | synchronized (span : Span) (lock : Expr) (body : Block)
  | localClass (span : Span) (decl : TypeDecl)
  | asserts (span : Span) (cond : Expr) (message : Option Expr)
  | empty (span : Span)

structure SwitchCase where
  /-- The labels; none for the default case. -/
  labels : List Expr
  isDefault : Bool
  /-- Written with an arrow, so that it never falls through. -/
  isRule : Bool
  body : List Stmt
  span : Span

structure CatchClause where
  types : List TypeRef
  name : String
  body : Block
  span : Span

structure Annotation where
  /-- The name as written, possibly qualified. -/
  name : String
  args : List AnnotationArg
  span : Span

structure AnnotationArg where
  /-- The name of the element; a single unnamed argument is called `value`. -/
  key : String
  value : Expr

structure MethodDecl where
  name : String
  isConstructor : Bool
  isStatic : Bool
  annotations : List Annotation
  params : List Param
  isVarargs : Bool
  returnType : Option TypeRef
  throwsTypes : List TypeRef
  body : Option Block
  span : Span
  nameSpan : Span

structure FieldDecl where
  name : String
  type : TypeRef
  isStatic : Bool
  isFinal : Bool
  isPrivate : Bool
  annotations : List Annotation
  init : Option Expr
  span : Span

structure EnumConstant where
  name : String
  annotations : List Annotation
  args : List Expr
  body : Option TypeDecl
  span : Span

inductive Member where
  | method (decl : MethodDecl)
  | field (decl : FieldDecl)
  | type (decl : TypeDecl)
  | initializer (isStatic : Bool) (body : Block)
  | constant (decl : EnumConstant)

structure TypeDecl where
  /-- The simple name, empty for an anonymous class. -/
  name : String
  /-- The name within the project: `pkg.Outer.Inner`, `pkg.Outer$1`. -/
  qualified : String
  kind : TypeKind
  annotations : List Annotation
  superClass : Option TypeRef
  interfaces : List TypeRef
  members : List Member
  span : Span

end

instance : Inhabited Expr := ⟨.this {}⟩
instance : Inhabited Stmt := ⟨.empty {}⟩
instance : Inhabited Block := ⟨⟨[], {}⟩⟩

structure Import where
  /-- The dotted path without a closing asterisk. -/
  path : String
  isStatic : Bool
  onDemand : Bool
  deriving DecidableEq, Repr, Inhabited

structure CompilationUnit where
  path : String
  package : Option String
  imports : List Import
  types : List TypeDecl

namespace Expr

def span : Expr → Span
  | .name s _ | .fieldAccess s _ _ | .call s _ _ _ | .new s _ _ _ | .newArray s _ _ _
  | .arrayInit s _ | .binary s _ _ _ | .unary s _ _ | .conditional s _ _ _ | .assign s _ _
  | .cast s _ _ | .instanceOf s _ _ | .lambda s _ _ | .methodRef s _ _ | .arrayAccess s _ _
  | .switch s _ _ | .literal s _ | .classLit s _ | .this s | .super s | .unknown s _ => s

def dottedName? : Expr → Option String
  | .name _ n => some n
  | .fieldAccess _ target n => target.dottedName?.map fun lead => lead ++ "." ++ n
  | _ => none

def lastName? : Expr → Option String
  | .name _ n => some n
  | .fieldAccess _ _ n => some n
  | _ => none

/-- The value of an integer literal under any number of minus signs. -/
def intLiteral? : Expr → Option Int
  | .literal _ (.int n) => some n
  | .unary _ .neg operand => operand.intLiteral?.map fun v => -v
  | _ => none

def stringLiteral? : Expr → Option String
  | .literal _ (.str s) => some s
  | _ => none

/-- The direct parts of an expression in the order of evaluation, without the
bodies of lambdas, anonymous classes and switch cases. -/
def children : Expr → List Expr
  | .fieldAccess _ target _ => [target]
  | .call _ target _ args => target.toList ++ args
  | .new _ _ args _ => args
  | .newArray _ _ dims init => dims ++ init
  | .arrayInit _ items | .unknown _ items => items
  | .binary _ _ lhs rhs => [lhs, rhs]
  | .unary _ _ operand => [operand]
  | .conditional _ cond yes no => [cond, yes, no]
  | .assign _ target value => [target, value]
  | .cast _ _ operand | .instanceOf _ operand _ => [operand]
  | .methodRef _ target _ => [target]
  | .arrayAccess _ array index => [array, index]
  | .switch _ selector _ => [selector]
  | .name .. | .lambda .. | .literal .. | .classLit .. | .this _ | .super _ => []

end Expr

def Stmt.span : Stmt → Span
  | .block s _ | .vars s _ | .expr s _ | .ifElse s _ _ _ | .whileLoop s _ _ | .doWhile s _ _
  | .forLoop s _ _ _ _ | .forEach s _ _ _ | .switch s _ _ | .tryCatch s _ _ _ _ _ | .returns s _
  | .throws s _ | .breaks s _ | .continues s _ | .yields s _ | .labeled s _ _
  | .synchronized s _ _ | .localClass s _ | .asserts s _ _ | .empty s => s

def Import.simpleName (i : Import) : String := Text.lastSegment '.' i.path

namespace Annotation

def simpleName (a : Annotation) : String := Text.lastSegment '.' a.name

def arg? (a : Annotation) (key : String) : Option Expr :=
  (a.args.find? fun arg => arg.key = key).map (·.value)

end Annotation

def MethodDecl.accepts (m : MethodDecl) (arity : Nat) : Bool :=
  if m.isVarargs then m.params.length ≤ arity + 1 else arity = m.params.length

namespace TypeDecl

def methods (d : TypeDecl) : List MethodDecl :=
  d.members.filterMap fun
    | .method m => some m
    | _ => none

def fields (d : TypeDecl) : List FieldDecl :=
  d.members.filterMap fun
    | .field f => some f
    | _ => none

def supertypes (d : TypeDecl) : List TypeRef := d.superClass.toList ++ d.interfaces

end TypeDecl
end LevelGuard.Java
