import LevelGuard.Java.Syntax

/-!
# Nesting of code

The depth of a piece of syntax is how deep lambdas and classes are nested in it:
code that runs later, or elsewhere, than the code around it. It bounds how often
a check that starts anew for each of them descends.
-/
namespace LevelGuard.Java

mutual

def exprDepth : Expr → Nat
  | .name .. | .literal .. | .classLit .. | .this _ | .super _ => 0
  | .fieldAccess _ target _ => exprDepth target
  | .call _ target _ args => max (exprDepth? target) (exprsDepth args)
  | .new _ _ args body => max (exprsDepth args) (declDepth? body)
  | .newArray _ _ dims init => max (exprsDepth dims) (exprsDepth init)
  | .arrayInit _ items => exprsDepth items
  | .binary _ _ lhs rhs => max (exprDepth lhs) (exprDepth rhs)
  | .unary _ _ operand => exprDepth operand
  | .conditional _ cond yes no => max (exprDepth cond) (max (exprDepth yes) (exprDepth no))
  | .assign _ target value => max (exprDepth target) (exprDepth value)
  | .cast _ _ operand => exprDepth operand
  | .instanceOf _ operand _ => exprDepth operand
  | .lambda _ _ (.expr e) => exprDepth e + 1
  | .lambda _ _ (.block b) => blockDepth b + 1
  | .methodRef _ target _ => exprDepth target
  | .arrayAccess _ array index => max (exprDepth array) (exprDepth index)
  | .switch _ selector cases => max (exprDepth selector) (casesDepth cases)
  | .unknown _ parts => exprsDepth parts

def exprDepth? : Option Expr → Nat
  | none => 0
  | some e => exprDepth e

def exprsDepth : List Expr → Nat
  | [] => 0
  | e :: es => max (exprDepth e) (exprsDepth es)

def blockDepth : Block → Nat
  | ⟨stmts, _⟩ => stmtsDepth stmts

def blockDepth? : Option Block → Nat
  | none => 0
  | some b => blockDepth b

def varsDepth : List LocalVar → Nat
  | [] => 0
  | ⟨_, _, _, init, _, _⟩ :: rest => max (exprDepth? init) (varsDepth rest)

def stmtDepth : Stmt → Nat
  | .block _ b => blockDepth b
  | .vars _ decls => varsDepth decls
  | .expr _ e | .throws _ e | .yields _ e => exprDepth e
  | .returns _ e => exprDepth? e
  | .ifElse _ cond yes no => max (exprDepth cond) (max (stmtDepth yes) (stmtDepth? no))
  | .whileLoop _ cond body | .doWhile _ body cond => max (exprDepth cond) (stmtDepth body)
  | .forLoop _ init cond update body =>
    max (max (stmtsDepth init) (exprDepth? cond)) (max (exprsDepth update) (stmtDepth body))
  | .forEach _ ⟨_, _, _, init, _, _⟩ iterable body =>
    max (exprDepth? init) (max (exprDepth iterable) (stmtDepth body))
  | .switch _ selector cases => max (exprDepth selector) (casesDepth cases)
  | .tryCatch _ _ resources body catches always =>
    max (max (stmtsDepth resources) (blockDepth body)) (max (catchesDepth catches) (blockDepth? always))
  | .labeled _ _ body => stmtDepth body
  | .synchronized _ lock body => max (exprDepth lock) (blockDepth body)
  | .localClass _ d => declDepth d
  | .asserts _ cond message => max (exprDepth cond) (exprDepth? message)
  | .breaks .. | .continues .. | .empty _ => 0

def stmtDepth? : Option Stmt → Nat
  | none => 0
  | some st => stmtDepth st

def stmtsDepth : List Stmt → Nat
  | [] => 0
  | st :: rest => max (stmtDepth st) (stmtsDepth rest)

def casesDepth : List SwitchCase → Nat
  | [] => 0
  | ⟨labels, _, _, body, _⟩ :: rest =>
    max (exprsDepth labels) (max (stmtsDepth body) (casesDepth rest))

def catchesDepth : List CatchClause → Nat
  | [] => 0
  | ⟨_, _, body, _⟩ :: rest => max (blockDepth body) (catchesDepth rest)

/-- A type counts itself. -/
def declDepth : TypeDecl → Nat
  | ⟨_, _, _, _, _, _, members, _⟩ => membersDepth members + 1

def declDepth? : Option TypeDecl → Nat
  | none => 0
  | some d => declDepth d

def membersDepth : List Member → Nat
  | [] => 0
  | .method ⟨_, _, _, _, _, _, _, _, body, _, _⟩ :: rest => max (blockDepth? body) (membersDepth rest)
  | .field ⟨_, _, _, _, _, _, init, _⟩ :: rest => max (exprDepth? init) (membersDepth rest)
  | .type d :: rest => max (declDepth d) (membersDepth rest)
  | .initializer _ body :: rest => max (blockDepth body) (membersDepth rest)
  | .constant ⟨_, _, args, body, _⟩ :: rest =>
    max (max (exprsDepth args) (declDepth? body)) (membersDepth rest)

end

def CompilationUnit.depth (u : CompilationUnit) : Nat :=
  (u.types.map declDepth).foldr max 0

end LevelGuard.Java
