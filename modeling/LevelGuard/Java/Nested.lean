import LevelGuard.Java.Syntax

/-!
# The types of a file

Every type declared in a file is listed, member, local and anonymous ones
included, each before the types inside it. Labels of switch cases and arguments
of annotations are not looked into, and a loop's condition comes before its body.
-/
namespace LevelGuard.Java

mutual

def exprTypes : Expr → List TypeDecl
  | .name .. | .literal .. | .classLit .. | .this _ | .super _ => []
  | .fieldAccess _ target _ => exprTypes target
  | .call _ target _ args => exprTypes? target ++ exprsTypes args
  | .new _ _ args body => exprsTypes args ++ declTypes? body
  | .newArray _ _ dims init => exprsTypes dims ++ exprsTypes init
  | .arrayInit _ items => exprsTypes items
  | .binary _ _ lhs rhs => exprTypes lhs ++ exprTypes rhs
  | .unary _ _ operand => exprTypes operand
  | .conditional _ cond yes no => exprTypes cond ++ exprTypes yes ++ exprTypes no
  | .assign _ target value => exprTypes target ++ exprTypes value
  | .cast _ _ operand => exprTypes operand
  | .instanceOf _ operand _ => exprTypes operand
  | .lambda _ _ (.expr e) => exprTypes e
  | .lambda _ _ (.block b) => blockTypes b
  | .methodRef _ target _ => exprTypes target
  | .arrayAccess _ array index => exprTypes array ++ exprTypes index
  | .switch _ selector cases => exprTypes selector ++ casesTypes cases
  | .unknown _ parts => exprsTypes parts

def exprTypes? : Option Expr → List TypeDecl
  | none => []
  | some e => exprTypes e

def exprsTypes : List Expr → List TypeDecl
  | [] => []
  | e :: es => exprTypes e ++ exprsTypes es

def blockTypes : Block → List TypeDecl
  | ⟨stmts, _⟩ => stmtsTypes stmts

def blockTypes? : Option Block → List TypeDecl
  | none => []
  | some b => blockTypes b

def varsTypes : List LocalVar → List TypeDecl
  | [] => []
  | ⟨_, _, _, init, _, _⟩ :: rest => exprTypes? init ++ varsTypes rest

def stmtTypes : Stmt → List TypeDecl
  | .block _ b => blockTypes b
  | .vars _ decls => varsTypes decls
  | .expr _ e | .throws _ e | .yields _ e => exprTypes e
  | .returns _ e => exprTypes? e
  | .ifElse _ cond yes no => exprTypes cond ++ stmtTypes yes ++ stmtTypes? no
  | .whileLoop _ cond body | .doWhile _ body cond => exprTypes cond ++ stmtTypes body
  | .forLoop _ init cond update body =>
    stmtsTypes init ++ exprTypes? cond ++ exprsTypes update ++ stmtTypes body
  | .forEach _ _ iterable body => exprTypes iterable ++ stmtTypes body
  | .switch _ selector cases => exprTypes selector ++ casesTypes cases
  | .tryCatch _ _ resources body catches always =>
    stmtsTypes resources ++ blockTypes body ++ catchesTypes catches ++ blockTypes? always
  | .labeled _ _ body => stmtTypes body
  | .synchronized _ lock body => exprTypes lock ++ blockTypes body
  | .localClass _ d => declTypes d
  | .asserts _ cond message => exprTypes cond ++ exprTypes? message
  | .breaks .. | .continues .. | .empty _ => []

def stmtTypes? : Option Stmt → List TypeDecl
  | none => []
  | some st => stmtTypes st

def stmtsTypes : List Stmt → List TypeDecl
  | [] => []
  | st :: rest => stmtTypes st ++ stmtsTypes rest

def casesTypes : List SwitchCase → List TypeDecl
  | [] => []
  | ⟨_, _, _, body, _⟩ :: rest => stmtsTypes body ++ casesTypes rest

def catchesTypes : List CatchClause → List TypeDecl
  | [] => []
  | ⟨_, _, body, _⟩ :: rest => blockTypes body ++ catchesTypes rest

def declTypes : TypeDecl → List TypeDecl
  | ⟨n, q, kind, annotations, superClass, interfaces, members, span⟩ =>
    ⟨n, q, kind, annotations, superClass, interfaces, members, span⟩ :: membersTypes members

def declTypes? : Option TypeDecl → List TypeDecl
  | none => []
  | some d => declTypes d

def membersTypes : List Member → List TypeDecl
  | [] => []
  | .method ⟨_, _, _, _, _, _, _, _, body, _, _⟩ :: rest => blockTypes? body ++ membersTypes rest
  | .field ⟨_, _, _, _, _, _, init, _⟩ :: rest => exprTypes? init ++ membersTypes rest
  | .type d :: rest => declTypes d ++ membersTypes rest
  | .initializer _ body :: rest => blockTypes body ++ membersTypes rest
  | .constant ⟨_, _, args, body, _⟩ :: rest =>
    exprsTypes args ++ declTypes? body ++ membersTypes rest

end

namespace CompilationUnit

/-- The types of a file in the order in which it is walked: the condition of a loop comes before
its body, and labels and annotations are left out. -/
def allTypes (u : CompilationUnit) : List TypeDecl := u.types.flatMap declTypes

def methodCount (u : CompilationUnit) : Nat :=
  (u.allTypes.flatMap fun d => d.methods).length

end CompilationUnit
end LevelGuard.Java
