import LevelGuard.Project.Code

/-!
# The sites of code

Lowering records what code comes by in an order that the syntax alone fixes, whatever
the conditions are recognised as and however the code is spread over blocks. Here the
sites are listed by the syntax, and the graph of a piece of code is shown to have just
these sites.
-/
namespace LevelGuard.Flow

open Java Build

def caughtGuards (catches : List CatchClause) : List Guard :=
  catches.flatMap fun c => c.types.map fun t => Guard.excluded t.name

mutual

def exprSites (H : List Guard) : Expr → List Site
  | .literal .. | .this _ | .super _ => []
  | .name s n => [⟨.reference (.name s n), H⟩]
  | .fieldAccess s target n => exprSites H target ++ [⟨.reference (.fieldAccess s target n), H⟩]
  | .call s target n args =>
    exprSites? H target ++ exprsSites H args ++ [⟨.reference (.call s target n args), H⟩]
  | .methodRef s target n => exprSites H target ++ [⟨.reference (.methodRef s target n), H⟩]
  | .new s type args body =>
    exprsSites H args ++ ⟨.reference (.new s type args body), H⟩ ::
      body.toList.map fun d => ⟨.classBody d, H⟩
  | .newArray _ _ dims init => exprsSites H dims ++ exprsSites H init
  | .arrayInit _ items => exprsSites H items
  | .binary _ _ lhs rhs => exprSites H lhs ++ exprSites H rhs
  | .unary _ _ operand => exprSites H operand
  | .conditional _ cond yes no => exprSites H cond ++ exprSites H yes ++ exprSites H no
  | .assign _ target value => exprSites H target ++ exprSites H value
  | .cast _ _ operand => exprSites H operand
  | .instanceOf _ operand type => exprSites H operand ++ [⟨.typeUse type, H⟩]
  | .lambda _ params body => [⟨.lambda params body, H⟩]
  | .arrayAccess _ array index => exprSites H array ++ exprSites H index
  | .switch _ selector cases => exprSites H selector ++ casesSites H selector cases
  | .classLit _ type => [⟨.typeUse type, H⟩]
  | .unknown _ parts => exprsSites H parts

def exprSites? (H : List Guard) : Option Expr → List Site
  | none => []
  | some e => exprSites H e

def exprsSites (H : List Guard) : List Expr → List Site
  | [] => []
  | e :: es => exprSites H e ++ exprsSites H es

def labelsSites (H : List Guard) (selector : Expr) : List Expr → List Site
  | [] => []
  | .name s n :: rest => ⟨.caseLabel (.name s n) selector, H⟩ :: labelsSites H selector rest
  | e :: rest => exprSites H e ++ labelsSites H selector rest

def casesSites (H : List Guard) (selector : Expr) : List SwitchCase → List Site
  | [] => []
  | ⟨labels, _, _, body, _⟩ :: rest =>
    labelsSites H selector labels ++ stmtsSites H body ++ casesSites H selector rest

def varsSites (H : List Guard) : List LocalVar → List Site
  | [] => []
  | ⟨_, _, _, init, _, _⟩ :: rest => exprSites? H init ++ varsSites H rest

def stmtSites (H : List Guard) : Stmt → List Site
  | .block _ ⟨stmts, _⟩ => stmtsSites H stmts
  | .vars _ decls => varsSites H decls
  | .expr _ e | .throws _ e | .yields _ e => exprSites H e
  | .returns _ e => exprSites? H e
  | .ifElse _ cond yes no => exprSites H cond ++ stmtSites H yes ++ stmtSites? H no
  | .whileLoop _ cond body => exprSites H cond ++ stmtSites H body
  | .doWhile _ body cond => stmtSites H body ++ exprSites H cond
  | .forLoop _ init cond update body =>
    stmtsSites H init ++ exprSites? H cond ++ stmtSites H body ++ exprsSites H update
  | .forEach _ _ iterable body => exprSites H iterable ++ stmtSites H body
  | .switch _ selector cases => exprSites H selector ++ casesSites H selector cases
  | .tryCatch s withResources resources ⟨stmts, _⟩ catches always =>
    (if withResources then [⟨.tryWithResources s, H⟩] else []) ++
      stmtsSites (caughtGuards catches ++ H) resources ++
      stmtsSites (caughtGuards catches ++ H) stmts ++ catchesSites H catches ++
      blockSites? H always
  | .labeled _ _ body => stmtSites H body
  | .synchronized _ lock ⟨stmts, _⟩ => exprSites H lock ++ stmtsSites H stmts
  | .localClass _ d => [⟨.classBody d, H⟩]
  | .asserts _ cond message => exprSites H cond ++ exprSites? H message
  | .breaks .. | .continues .. | .empty _ => []

def stmtSites? (H : List Guard) : Option Stmt → List Site
  | none => []
  | some st => stmtSites H st

def stmtsSites (H : List Guard) : List Stmt → List Site
  | [] => []
  | st :: rest => stmtSites H st ++ stmtsSites H rest

def catchesSites (H : List Guard) : List CatchClause → List Site
  | [] => []
  | ⟨types, _, ⟨stmts, _⟩, _⟩ :: rest =>
    types.map (fun t => ⟨.typeUse t, H⟩) ++ stmtsSites H stmts ++ catchesSites H rest

def blockSites? (H : List Guard) : Option Block → List Site
  | none => []
  | some ⟨stmts, _⟩ => stmtsSites H stmts

end

theorem labelsSites_cons (H : List Guard) (selector : Expr) {e : Expr}
    (hname : ∀ s n, e ≠ .name s n) (rest : List Expr) :
    labelsSites H selector (e :: rest) = exprSites H e ++ labelsSites H selector rest := by
  cases e with
  | name s n => exact absurd rfl (hname s n)
  | _ => rfl

end LevelGuard.Flow

namespace LevelGuard.Project.Code

open LevelGuard.Flow

def sites (c : Code) : List Site :=
  match c.steps with
  | .block b => stmtsSites [] b.stmts
  | .exprs es => exprsSites [] es

end LevelGuard.Project.Code
