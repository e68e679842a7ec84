import LevelGuard.Java.Nested

/-!
# Types and the types around them

Every type declared in a file is listed with the types in whose bodies it stands, the
innermost first. Nothing is left out: labels of switch cases and arguments of annotations
are looked into as well. An annotation does not stand in the body of the type that it
belongs to, so the types in its arguments have the same types around them as that type,
and an annotation that several fields share is looked into once. An anonymous class has no
annotations.
-/
namespace LevelGuard.Java

/-- A type and the types around it, innermost first. -/
abbrev Enclosed := TypeDecl × List TypeDecl

def Enclosed.within (d : TypeDecl) (p : Enclosed) : Enclosed := (p.1, p.2 ++ [d])

mutual

def exprNested : Expr → List Enclosed
  | .name .. | .literal .. | .classLit .. | .this _ | .super _ => []
  | .fieldAccess _ target _ => exprNested target
  | .call _ target _ args => exprNested? target ++ exprsNested args
  | .new _ _ args body => exprsNested args ++ bodyNested? body
  | .newArray _ _ dims init => exprsNested dims ++ exprsNested init
  | .arrayInit _ items => exprsNested items
  | .binary _ _ lhs rhs => exprNested lhs ++ exprNested rhs
  | .unary _ _ operand => exprNested operand
  | .conditional _ cond yes no => exprNested cond ++ exprNested yes ++ exprNested no
  | .assign _ target value => exprNested target ++ exprNested value
  | .cast _ _ operand => exprNested operand
  | .instanceOf _ operand _ => exprNested operand
  | .lambda _ _ (.expr e) => exprNested e
  | .lambda _ _ (.block b) => blockNested b
  | .methodRef _ target _ => exprNested target
  | .arrayAccess _ array index => exprNested array ++ exprNested index
  | .switch _ selector cases => exprNested selector ++ casesNested cases
  | .unknown _ parts => exprsNested parts

def exprNested? : Option Expr → List Enclosed
  | none => []
  | some e => exprNested e

def exprsNested : List Expr → List Enclosed
  | [] => []
  | e :: es => exprNested e ++ exprsNested es

def blockNested : Block → List Enclosed
  | ⟨stmts, _⟩ => stmtsNested stmts

def blockNested? : Option Block → List Enclosed
  | none => []
  | some b => blockNested b

def varNested : LocalVar → List Enclosed
  | ⟨_, _, _, init, _, annotations⟩ => annotationsNested annotations ++ exprNested? init

def varsNested : List LocalVar → List Enclosed
  | [] => []
  | v :: rest => varNested v ++ varsNested rest

def stmtNested : Stmt → List Enclosed
  | .block _ b => blockNested b
  | .vars _ decls => varsNested decls
  | .expr _ e | .throws _ e | .yields _ e => exprNested e
  | .returns _ e => exprNested? e
  | .ifElse _ cond yes no => exprNested cond ++ stmtNested yes ++ stmtNested? no
  | .whileLoop _ cond body => exprNested cond ++ stmtNested body
  | .doWhile _ body cond => stmtNested body ++ exprNested cond
  | .forLoop _ init cond update body =>
    stmtsNested init ++ exprNested? cond ++ exprsNested update ++ stmtNested body
  | .forEach _ item iterable body => varNested item ++ exprNested iterable ++ stmtNested body
  | .switch _ selector cases => exprNested selector ++ casesNested cases
  | .tryCatch _ _ resources body catches always =>
    stmtsNested resources ++ blockNested body ++ catchesNested catches ++ blockNested? always
  | .labeled _ _ body => stmtNested body
  | .synchronized _ lock body => exprNested lock ++ blockNested body
  | .localClass _ d => declNested d
  | .asserts _ cond message => exprNested cond ++ exprNested? message
  | .breaks .. | .continues .. | .empty _ => []

def stmtNested? : Option Stmt → List Enclosed
  | none => []
  | some st => stmtNested st

def stmtsNested : List Stmt → List Enclosed
  | [] => []
  | st :: rest => stmtNested st ++ stmtsNested rest

def casesNested : List SwitchCase → List Enclosed
  | [] => []
  | ⟨labels, _, _, body, _⟩ :: rest => exprsNested labels ++ stmtsNested body ++ casesNested rest

def catchesNested : List CatchClause → List Enclosed
  | [] => []
  | ⟨_, _, body, _⟩ :: rest => blockNested body ++ catchesNested rest

def argsNested : List AnnotationArg → List Enclosed
  | [] => []
  | ⟨_, value⟩ :: rest => exprNested value ++ argsNested rest

def annotationsNested : List Annotation → List Enclosed
  | [] => []
  | ⟨_, args, _⟩ :: rest => argsNested args ++ annotationsNested rest

def bodyNested : TypeDecl → List Enclosed
  | ⟨n, q, kind, annotations, superClass, interfaces, members, span⟩ =>
    let d : TypeDecl := ⟨n, q, kind, annotations, superClass, interfaces, members, span⟩
    (d, []) :: (membersNested none members).map (·.within d)

def bodyNested? : Option TypeDecl → List Enclosed
  | none => []
  | some d => bodyNested d

/-- A type, the types in its body and those in its annotations. -/
def declNested : TypeDecl → List Enclosed
  | ⟨n, q, kind, annotations, superClass, interfaces, members, span⟩ =>
    let d : TypeDecl := ⟨n, q, kind, annotations, superClass, interfaces, members, span⟩
    (d, []) :: (membersNested none members).map (·.within d) ++ annotationsNested annotations

/-- The types of members; `shared` is the range of the type that the field before them
has, if there is one. -/
def membersNested (shared : Option Span) : List Member → List Enclosed
  | [] => []
  | .method ⟨_, _, _, annotations, _, _, _, _, body, _, _⟩ :: rest =>
    annotationsNested annotations ++ blockNested? body ++ membersNested none rest
  | .field ⟨_, type, _, _, _, annotations, init, _⟩ :: rest =>
    (if shared = some type.span then [] else annotationsNested annotations) ++ exprNested? init ++
      membersNested (some type.span) rest
  | .type d :: rest => declNested d ++ membersNested none rest
  | .initializer _ body :: rest => blockNested body ++ membersNested none rest
  | .constant ⟨_, annotations, args, body, _⟩ :: rest =>
    annotationsNested annotations ++ exprsNested args ++ bodyNested? body ++ membersNested none rest

end

def typeNames (members : List Member) : List String :=
  members.filterMap fun
    | .type d => some d.name
    | _ => none

theorem bodyNested_eq (d : TypeDecl) :
    bodyNested d = (d, []) :: (membersNested none d.members).map (·.within d) := by
  cases d
  rfl

theorem declNested_eq (d : TypeDecl) :
    declNested d = bodyNested d ++ annotationsNested d.annotations := by
  cases d
  rfl

namespace CompilationUnit

def nested (u : CompilationUnit) : List Enclosed := u.types.flatMap declNested

/-- The types of a file with the types in their bodies. -/
def bodyTypes (u : CompilationUnit) : List Enclosed := u.types.flatMap bodyNested

def annotationTypes (u : CompilationUnit) : List Enclosed :=
  u.types.flatMap fun d => annotationsNested d.annotations

end CompilationUnit

end LevelGuard.Java
