import LevelGuard.Project.Code

/-!
# The nodes of a syntax tree

Everything that is written in a file, however deep it is nested: in bodies, in the
arguments of enum constants, in lambdas, in anonymous, local and member classes and in
the labels of cases. What annotations say is left out, and so is the initial value of the
variable of a loop over a collection, which has none.
-/
namespace LevelGuard.Java

/-- A type or a member of a type. -/
inductive Declaration where
  | type (decl : TypeDecl)
  | member (member : Member)

/-- The annotations of the declaration itself. A member type has them as a type. -/
def Declaration.annotations : Declaration → List Annotation
  | .type d => d.annotations
  | .member (.method m) => m.annotations
  | .member (.field f) => f.annotations
  | .member (.constant c) => c.annotations
  | .member (.initializer ..) | .member (.type _) => []

inductive Node where
  | expr (e : Expr)
  /-- A name as the label of a case, in a switch over the selector. -/
  | label (name selector : Expr)
  | stmt (st : Stmt)
  | switchCase (c : SwitchCase)
  | clause (c : CatchClause)
  | declaration (d : Declaration)

mutual

/-- An expression comes after its parts, except for the body of a class or a lambda. -/
def exprNodes : Expr → List Node
  | e@(.name ..) | e@(.literal ..) | e@(.classLit ..) | e@(.this _) | e@(.super _) => [.expr e]
  | e@(.fieldAccess _ target _) => exprNodes target ++ [.expr e]
  | e@(.call _ target _ args) => exprNodes? target ++ exprsNodes args ++ [.expr e]
  | e@(.new _ _ args body) => exprsNodes args ++ .expr e :: declNodes? body
  | e@(.newArray _ _ dims init) => exprsNodes dims ++ exprsNodes init ++ [.expr e]
  | e@(.arrayInit _ items) => exprsNodes items ++ [.expr e]
  | e@(.binary _ _ lhs rhs) => exprNodes lhs ++ exprNodes rhs ++ [.expr e]
  | e@(.unary _ _ operand) => exprNodes operand ++ [.expr e]
  | e@(.conditional _ cond yes no) => exprNodes cond ++ exprNodes yes ++ exprNodes no ++ [.expr e]
  | e@(.assign _ target value) => exprNodes target ++ exprNodes value ++ [.expr e]
  | e@(.cast _ _ operand) => exprNodes operand ++ [.expr e]
  | e@(.instanceOf _ operand _) => exprNodes operand ++ [.expr e]
  | e@(.lambda _ _ (.expr body)) => .expr e :: exprNodes body
  | e@(.lambda _ _ (.block ⟨stmts, _⟩)) => .expr e :: stmtsNodes stmts
  | e@(.methodRef _ target _) => exprNodes target ++ [.expr e]
  | e@(.arrayAccess _ array index) => exprNodes array ++ exprNodes index ++ [.expr e]
  | e@(.switch _ selector cases) => exprNodes selector ++ casesNodes selector cases ++ [.expr e]
  | e@(.unknown _ parts) => exprsNodes parts ++ [.expr e]

def exprNodes? : Option Expr → List Node
  | none => []
  | some e => exprNodes e

def exprsNodes : List Expr → List Node
  | [] => []
  | e :: es => exprNodes e ++ exprsNodes es

def labelsNodes (selector : Expr) : List Expr → List Node
  | [] => []
  | .name s n :: rest => .label (.name s n) selector :: labelsNodes selector rest
  | e :: rest => exprNodes e ++ labelsNodes selector rest

def casesNodes (selector : Expr) : List SwitchCase → List Node
  | [] => []
  | ⟨labels, isDefault, isRule, body, span⟩ :: rest =>
    .switchCase ⟨labels, isDefault, isRule, body, span⟩ ::
      (labelsNodes selector labels ++ stmtsNodes body ++ casesNodes selector rest)

def varsNodes : List LocalVar → List Node
  | [] => []
  | ⟨_, _, _, init, _, _⟩ :: rest => exprNodes? init ++ varsNodes rest

def stmtNodes : Stmt → List Node
  | st@(.block _ ⟨stmts, _⟩) => .stmt st :: stmtsNodes stmts
  | st@(.vars _ decls) => .stmt st :: varsNodes decls
  | st@(.expr _ e) | st@(.throws _ e) | st@(.yields _ e) => .stmt st :: exprNodes e
  | st@(.returns _ e) => .stmt st :: exprNodes? e
  | st@(.ifElse _ cond yes no) => .stmt st :: (exprNodes cond ++ stmtNodes yes ++ stmtNodes? no)
  | st@(.whileLoop _ cond body) => .stmt st :: (exprNodes cond ++ stmtNodes body)
  | st@(.doWhile _ body cond) => .stmt st :: (stmtNodes body ++ exprNodes cond)
  | st@(.forLoop _ init cond update body) =>
    .stmt st :: (stmtsNodes init ++ exprNodes? cond ++ stmtNodes body ++ exprsNodes update)
  | st@(.forEach _ _ iterable body) => .stmt st :: (exprNodes iterable ++ stmtNodes body)
  | st@(.switch _ selector cases) => .stmt st :: (exprNodes selector ++ casesNodes selector cases)
  | st@(.tryCatch _ _ resources ⟨stmts, _⟩ catches always) =>
    .stmt st ::
      (stmtsNodes resources ++ stmtsNodes stmts ++ catchesNodes catches ++ blockNodes? always)
  | st@(.labeled _ _ body) => .stmt st :: stmtNodes body
  | st@(.synchronized _ lock ⟨stmts, _⟩) => .stmt st :: (exprNodes lock ++ stmtsNodes stmts)
  | st@(.localClass _ d) => .stmt st :: declNodes d
  | st@(.asserts _ cond message) => .stmt st :: (exprNodes cond ++ exprNodes? message)
  | st@(.breaks ..) | st@(.continues ..) | st@(.empty _) => [.stmt st]

def stmtNodes? : Option Stmt → List Node
  | none => []
  | some st => stmtNodes st

def stmtsNodes : List Stmt → List Node
  | [] => []
  | st :: rest => stmtNodes st ++ stmtsNodes rest

def catchesNodes : List CatchClause → List Node
  | [] => []
  | ⟨types, n, ⟨stmts, blockSpan⟩, span⟩ :: rest =>
    .clause ⟨types, n, ⟨stmts, blockSpan⟩, span⟩ :: (stmtsNodes stmts ++ catchesNodes rest)

def blockNodes? : Option Block → List Node
  | none => []
  | some ⟨stmts, _⟩ => stmtsNodes stmts

def declNodes : TypeDecl → List Node
  | ⟨n, q, kind, annotations, superClass, interfaces, members, span⟩ =>
    .declaration (.type ⟨n, q, kind, annotations, superClass, interfaces, members, span⟩) ::
      membersNodes members

def declNodes? : Option TypeDecl → List Node
  | none => []
  | some d => declNodes d

def membersNodes : List Member → List Node
  | [] => []
  | m@(.method ⟨_, _, _, _, _, _, _, _, body, _, _⟩) :: rest =>
    .declaration (.member m) :: (blockNodes? body ++ membersNodes rest)
  | m@(.field ⟨_, _, _, _, _, _, init, _⟩) :: rest =>
    .declaration (.member m) :: (exprNodes? init ++ membersNodes rest)
  | m@(.type d) :: rest => .declaration (.member m) :: (declNodes d ++ membersNodes rest)
  | m@(.initializer _ ⟨stmts, _⟩) :: rest =>
    .declaration (.member m) :: (stmtsNodes stmts ++ membersNodes rest)
  | m@(.constant ⟨_, _, args, body, _⟩) :: rest =>
    .declaration (.member m) :: (exprsNodes args ++ declNodes? body ++ membersNodes rest)

end

def CompilationUnit.nodes (u : CompilationUnit) : List Node := u.types.flatMap declNodes

end LevelGuard.Java

namespace LevelGuard.Project.Code

open Java

def nodes (c : Code) : List Node :=
  match c.steps with
  | .block b => stmtsNodes b.stmts
  | .exprs es => exprsNodes es

end LevelGuard.Project.Code
