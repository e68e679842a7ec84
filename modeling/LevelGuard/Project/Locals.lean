import LevelGuard.Data.Table
import LevelGuard.Java.Syntax

/-!
# The variables of a body

Parameters, local variables and the variables of handlers are collected in the
order of the source into one table; a name declared twice keeps its last
declaration. Bodies of lambdas and of nested classes have tables of their own.
-/
namespace LevelGuard.Project

open Java

/-- The variables of a body with their types as written; a primitive type, and
one that is left to be inferred, is none. -/
abbrev Locals := Table String (Option String)

def classNameOf? (t : TypeRef) : Option String :=
  if t.isPrimitive || t.isInferred then none else some t.name

/-- The type of a handler's variable, if the handler is for one type only. -/
def caughtType? : List TypeRef → Option String
  | [t] => classNameOf? t
  | _ => none

abbrev Declared := List (String × Option String)

def paramVars (params : List Param) : Declared :=
  params.map fun p => (p.name, p.type.bind classNameOf?)

mutual

def stmtVars : Stmt → Declared
  | .block _ ⟨stmts, _⟩ => stmtsVars stmts
  | .vars _ decls => decls.map fun v => (v.name, classNameOf? v.type)
  | .ifElse _ _ yes none => stmtVars yes
  | .ifElse _ _ yes (some no) => stmtVars yes ++ stmtVars no
  | .whileLoop _ _ body | .doWhile _ body _ | .labeled _ _ body => stmtVars body
  | .forLoop _ init _ _ body => stmtsVars init ++ stmtVars body
  | .forEach _ item _ body => (item.name, classNameOf? item.type) :: stmtVars body
  | .switch _ _ cases => casesVars cases
  | .tryCatch _ _ resources ⟨stmts, _⟩ catches none =>
    stmtsVars resources ++ stmtsVars stmts ++ catchesVars catches
  | .tryCatch _ _ resources ⟨stmts, _⟩ catches (some ⟨always, _⟩) =>
    stmtsVars resources ++ stmtsVars stmts ++ catchesVars catches ++ stmtsVars always
  | .synchronized _ _ ⟨stmts, _⟩ => stmtsVars stmts
  | .expr .. | .returns .. | .throws .. | .breaks .. | .continues .. | .yields ..
  | .localClass .. | .asserts .. | .empty _ => []

def stmtsVars : List Stmt → Declared
  | [] => []
  | s :: ss => stmtVars s ++ stmtsVars ss

def casesVars : List SwitchCase → Declared
  | [] => []
  | ⟨_, _, _, body, _⟩ :: rest => stmtsVars body ++ casesVars rest

def catchesVars : List CatchClause → Declared
  | [] => []
  | ⟨types, n, ⟨stmts, _⟩, _⟩ :: rest =>
    (n, caughtType? types) :: stmtsVars stmts ++ catchesVars rest

end

namespace Locals

def ofBody (params : List Param) (body : Option Block) : Locals :=
  .ofList (paramVars params ++ stmtsVars (body.elim [] (·.stmts)))

end Locals
end LevelGuard.Project
