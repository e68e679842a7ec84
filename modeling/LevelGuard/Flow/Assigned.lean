import LevelGuard.Java.Syntax

/-!
# Assigned names and guard locals

A boolean variable can stand for the condition it was initialised with only if it
is never assigned to. Assignments are looked for everywhere, in lambdas and in
nested classes too, and an assignment to a field counts for its last name. The
candidates among local variables are those of the body itself.
-/
namespace LevelGuard.Flow

open Java

mutual

def exprAssigned : Expr → List String
  | .name .. | .literal .. | .classLit .. | .this _ | .super _ => []
  | .fieldAccess _ target _ => exprAssigned target
  | .call _ target _ args => exprAssigned? target ++ exprsAssigned args
  | .new _ _ args body => declAssigned? body ++ exprsAssigned args
  | .newArray _ _ dims init => exprsAssigned dims ++ exprsAssigned init
  | .arrayInit _ items => exprsAssigned items
  | .binary _ _ lhs rhs => exprAssigned lhs ++ exprAssigned rhs
  | .unary _ _ operand => exprAssigned operand
  | .conditional _ cond yes no => exprAssigned cond ++ exprAssigned yes ++ exprAssigned no
  | .assign _ target value =>
    target.lastName?.toList ++ exprAssigned target ++ exprAssigned value
  | .cast _ _ operand => exprAssigned operand
  | .instanceOf _ operand _ => exprAssigned operand
  | .lambda _ _ (.expr e) => exprAssigned e
  | .lambda _ _ (.block b) => blockAssigned b
  | .methodRef _ target _ => exprAssigned target
  | .arrayAccess _ array index => exprAssigned array ++ exprAssigned index
  | .switch _ selector cases => casesAssigned cases ++ exprAssigned selector
  | .unknown _ parts => exprsAssigned parts

def exprAssigned? : Option Expr → List String
  | none => []
  | some e => exprAssigned e

def exprsAssigned : List Expr → List String
  | [] => []
  | e :: es => exprAssigned e ++ exprsAssigned es

def blockAssigned : Block → List String
  | ⟨stmts, _⟩ => stmtsAssigned stmts

def blockAssigned? : Option Block → List String
  | none => []
  | some b => blockAssigned b

def varsAssigned : List LocalVar → List String
  | [] => []
  | ⟨_, _, _, init, _, _⟩ :: rest => exprAssigned? init ++ varsAssigned rest

def stmtAssigned : Stmt → List String
  | .block _ b => blockAssigned b
  | .vars _ decls => varsAssigned decls
  | .expr _ e | .throws _ e | .yields _ e => exprAssigned e
  | .returns _ e => exprAssigned? e
  | .ifElse _ cond yes no => exprAssigned cond ++ stmtAssigned yes ++ stmtAssigned? no
  | .whileLoop _ cond body | .doWhile _ body cond => exprAssigned cond ++ stmtAssigned body
  | .forLoop _ init cond update body =>
    exprAssigned? cond ++ exprsAssigned update ++ stmtsAssigned init ++ stmtAssigned body
  | .forEach _ _ iterable body => exprAssigned iterable ++ stmtAssigned body
  | .switch _ selector cases => exprAssigned selector ++ casesAssigned cases
  | .tryCatch _ _ resources body catches always =>
    stmtsAssigned resources ++ blockAssigned body ++ catchesAssigned catches
      ++ blockAssigned? always
  | .labeled _ _ body => stmtAssigned body
  | .synchronized _ lock body => exprAssigned lock ++ blockAssigned body
  | .localClass _ d => declAssigned d
  | .asserts _ cond message => exprAssigned cond ++ exprAssigned? message
  | .breaks .. | .continues .. | .empty _ => []

def stmtAssigned? : Option Stmt → List String
  | none => []
  | some st => stmtAssigned st

def stmtsAssigned : List Stmt → List String
  | [] => []
  | st :: rest => stmtAssigned st ++ stmtsAssigned rest

def casesAssigned : List SwitchCase → List String
  | [] => []
  | ⟨_, _, _, body, _⟩ :: rest => stmtsAssigned body ++ casesAssigned rest

def catchesAssigned : List CatchClause → List String
  | [] => []
  | ⟨_, _, body, _⟩ :: rest => blockAssigned body ++ catchesAssigned rest

def declAssigned : TypeDecl → List String
  | ⟨_, _, _, _, _, _, members, _⟩ => membersAssigned members

def declAssigned? : Option TypeDecl → List String
  | none => []
  | some d => declAssigned d

def membersAssigned : List Member → List String
  | [] => []
  | .method ⟨_, _, _, _, _, _, _, _, body, _, _⟩ :: rest =>
    blockAssigned? body ++ membersAssigned rest
  | .field ⟨_, _, _, _, _, _, init, _⟩ :: rest => exprAssigned? init ++ membersAssigned rest
  | .type d :: rest => declAssigned d ++ membersAssigned rest
  | .initializer _ body :: rest => blockAssigned body ++ membersAssigned rest
  | .constant ⟨_, _, args, body, _⟩ :: rest =>
    exprsAssigned args ++ declAssigned? body ++ membersAssigned rest

end

def isBoolean (t : TypeRef) : Bool := ["boolean", "Boolean", "java.lang.Boolean"].contains t.name

/-- The variables of a declaration that may hold a condition, with their values. -/
def booleanVars (decls : List LocalVar) : List (String × Expr) :=
  decls.filterMap fun v =>
    if isBoolean v.type || v.type.isInferred then v.init.map fun e => (v.name, e) else none

mutual

/-- The boolean locals of a statement in the order of their declaration. -/
def stmtBooleans : Stmt → List (String × Expr)
  | .block _ ⟨stmts, _⟩ => stmtsBooleans stmts
  | .vars _ decls => booleanVars decls
  | .ifElse _ _ yes no => stmtBooleans yes ++ stmtBooleans? no
  | .whileLoop _ _ body | .doWhile _ body _ | .forEach _ _ _ body | .labeled _ _ body =>
    stmtBooleans body
  | .forLoop _ init _ _ body => stmtsBooleans init ++ stmtBooleans body
  | .switch _ _ cases => casesBooleans cases
  | .tryCatch _ _ resources ⟨stmts, _⟩ catches always =>
    stmtsBooleans resources ++ stmtsBooleans stmts ++ catchesBooleans catches
      ++ blockBooleans? always
  | .synchronized _ _ ⟨stmts, _⟩ => stmtsBooleans stmts
  | .expr .. | .throws .. | .yields .. | .returns .. | .localClass .. | .asserts .. | .breaks ..
  | .continues .. | .empty _ => []

def stmtBooleans? : Option Stmt → List (String × Expr)
  | none => []
  | some st => stmtBooleans st

def stmtsBooleans : List Stmt → List (String × Expr)
  | [] => []
  | st :: rest => stmtBooleans st ++ stmtsBooleans rest

def casesBooleans : List SwitchCase → List (String × Expr)
  | [] => []
  | ⟨_, _, _, body, _⟩ :: rest => stmtsBooleans body ++ casesBooleans rest

def catchesBooleans : List CatchClause → List (String × Expr)
  | [] => []
  | ⟨_, _, ⟨stmts, _⟩, _⟩ :: rest => stmtsBooleans stmts ++ catchesBooleans rest

def blockBooleans? : Option Block → List (String × Expr)
  | none => []
  | some ⟨stmts, _⟩ => stmtsBooleans stmts

end

end LevelGuard.Flow
