import LevelGuard.Flow.Build
import LevelGuard.Proofs.Conditions

/-!
# Runs of a program

What a program can do on a device: the places it comes by, in order, and how it ends.
A run may end anywhere, because it is looked at only so far or because an exception is
thrown there. Conditions that are recognised have their value on the device; how often
a loop is repeated and which case an open switch selects is left open.

An assertion may be disabled, and its message is needed only if it fails. The labels of a
switch are tested in turn before a case is selected, and none is where the case before falls
through. A run records the operands of assertions and the labels that it leaves out.
-/
namespace LevelGuard.Flow

open Java

/-- What a run comes by. -/
inductive Step where
  | event (event : Event)
  /-- An operand of an assertion or a label of a case that is not evaluated. -/
  | skipped (operand : Expr)

/-- How a part of a program ends. -/
inductive Ending where
  /-- At its end; a condition has this value. -/
  | done (truth : Bool)
  | breaks (label : Option String)
  | continues (label : Option String)
  | yields
  | returns
  | throws
  /-- The rest of the run is not looked at. -/
  | stopped

namespace Ending

/-- The endings that are possible everywhere. -/
inductive Cut : Ending → Prop where
  | throws : Cut .throws
  | stopped : Cut .stopped

def negated : Ending → Ending
  | .done t => .done !t
  | o => o

/-- The ending of a round of a loop, by that of its body: whether the loop goes on. -/
def ofLoop (label : Option String) : Ending → Ending
  | .done _ => .done true
  | .continues l => if l = none ∨ l = label then .done true else .continues l
  | .breaks l => if l = none ∨ l = label then .done false else .breaks l
  | o => o

def ofSwitch (label : Option String) : Ending → Ending
  | .breaks l => if l = none ∨ l = label then .done true else .breaks l
  | o => o

/-- The ending of a switch that has a value, by that of its cases. -/
def ofYield : Ending → Ending
  | .yields => .done true
  | o => o

/-- The ending of a statement with a label that is no loop and no switch. -/
def ofLabeled (name : String) : Ending → Ending
  | .breaks l => if l = some name then .done true else .breaks l
  | o => o

end Ending

/-- The possible runs of a part of a program. -/
abbrev Runs := List Step → Ending → Prop

namespace Runs

/-- Take the steps and end in one of the given ways, unless cut before or after. -/
inductive atom (steps : List Step) (ends : Ending → Prop) : List Step → Ending → Prop where
  | before {o : Ending} : o.Cut → atom steps ends [] o
  | after {o : Ending} : o.Cut → atom steps ends steps o
  | whole {o : Ending} : ends o → atom steps ends steps o

def ending (o : Ending) : Runs := atom [] (· = o)

def settle (P : Bool → Prop) : Runs := atom [] fun o => ∃ t, P t ∧ o = .done t

def anything : Runs := settle fun _ => True

def event (e : Event) : Runs := atom [.event e] (· = .done true)

def skip (operand : Expr) : Runs := atom [.skipped operand] (· = .done true)

def skip? : Option Expr → Runs
  | none => ending (.done true)
  | some e => skip e

/-- Go on after the end of a part. -/
inductive bind (A : Runs) (next : Bool → Runs) : List Step → Ending → Prop where
  | next {t t' : List Step} {truth : Bool} {o : Ending} :
      A t (.done truth) → next truth t' o → bind A next (t ++ t') o
  | early {t : List Step} {o : Ending} :
      A t o → (∀ truth, o ≠ .done truth) → bind A next t o

def seq (A B : Runs) : Runs := A.bind fun _ => B

def events : List Event → Runs
  | [] => ending (.done true)
  | e :: es => (event e).seq (events es)

/-- The second part is left out if the first has the value `stop`. -/
def shortCircuit (stop : Bool) (A B : Runs) : Runs :=
  A.bind fun t => if t = stop then ending (.done t) else B

def either (A B : Runs) : Runs := fun t o => A t o ∨ B t o

def onlyIf (P : Prop) (A : Runs) : Runs := fun t o => P ∧ A t o

/-- The part may be left anywhere, as if it had ended. -/
def begun (A : Runs) : Runs := fun t o => A t o ∨ A t .stopped ∧ o = .done true

def endsAs (A : Runs) (f : Ending → Ending) : Runs := fun t o => ∃ o', A t o' ∧ f o' = o

/-- Rounds of a loop until one tells that the loop is left. -/
inductive repeats (round : Runs) : List Step → Ending → Prop where
  | again {t t' : List Step} {o : Ending} :
      round t (.done true) → repeats round t' o → repeats round (t ++ t') o
  | left {t : List Step} : round t (.done false) → repeats round t (.done true)
  | early {t : List Step} {o : Ending} :
      round t o → (∀ truth, o ≠ .done truth) → repeats round t o

/-- A body whose exceptions go to the handlers. -/
inductive handled (A handlers : Runs) : List Step → Ending → Prop where
  | caught {t t' : List Step} {o : Ending} :
      A t .throws → handlers t' o → handled A handlers (t ++ t') o
  | passed {t : List Step} {o : Ending} : A t o → o ≠ .throws → handled A handlers t o

/-- However the first part ends, the second runs, and then the ending of the first stands
unless the second has one of its own. -/
inductive closed (A closing : Runs) : List Step → Ending → Prop where
  | stopped {t : List Step} : A t .stopped → closed A closing t .stopped
  | resumed {t t' : List Step} {o : Ending} {truth : Bool} :
      A t o → o ≠ .stopped → closing t' (.done truth) → closed A closing (t ++ t') o
  | replaced {t t' : List Step} {o o' : Ending} :
      A t o → o ≠ .stopped → closing t' o' → (∀ truth, o' ≠ .done truth) →
      closed A closing (t ++ t') o'

end Runs

open Runs

mutual

def runExpr (R : Recognizer) (W : World) : Expr → Runs
  | .binary _ .and lhs rhs => shortCircuit false (runExpr R W lhs) (runExpr R W rhs)
  | .binary _ .or lhs rhs => shortCircuit true (runExpr R W lhs) (runExpr R W rhs)
  | .binary s op lhs rhs =>
    (runExpr R W lhs).seq <| (runExpr R W rhs).seq <| settle (W.Truth R (.binary s op lhs rhs))
  | .unary _ .not operand => (runExpr R W operand).endsAs .negated
  | .unary _ _ operand => (runExpr R W operand).seq anything
  | .conditional _ cond yes no =>
    (runExpr R W cond).bind fun t => if t then runExpr R W yes else runExpr R W no
  | .literal _ (.bool b) => ending (.done b)
  | .literal .. => anything
  | .name s n => (event (.reference (.name s n))).seq <| settle (W.Truth R (.name s n))
  | .fieldAccess s target n =>
    (runExpr R W target).seq <| (event (.reference (.fieldAccess s target n))).seq anything
  | .call s target n args =>
    (runExpr? R W target).seq <| (runExprs R W args).seq <|
      (event (.reference (.call s target n args))).seq anything
  | .methodRef s target n =>
    (runExpr R W target).seq <| (event (.reference (.methodRef s target n))).seq anything
  | .new s type args body =>
    (runExprs R W args).seq <| (event (.reference (.new s type args body))).seq <|
      (events (body.toList.map .classBody)).seq anything
  | .newArray _ _ dims init => (runExprs R W dims).seq <| (runExprs R W init).seq anything
  | .arrayInit _ items => (runExprs R W items).seq anything
  | .assign _ target value => (runExpr R W target).seq <| (runExpr R W value).seq anything
  | .cast _ _ operand => (runExpr R W operand).seq anything
  | .instanceOf _ operand type => (runExpr R W operand).seq <| (event (.typeUse type)).seq anything
  | .lambda _ params body => (event (.lambda params body)).seq anything
  | .arrayAccess _ array index => (runExpr R W array).seq <| (runExpr R W index).seq anything
  | .switch _ selector cases =>
    (runExpr R W selector).seq <|
      (((testCases R W selector cases).seq (runCases R W selector false false cases)).endsAs
        .ofYield).seq anything
  | .classLit _ type => (event (.typeUse type)).seq anything
  | .this _ | .super _ => anything
  | .unknown _ parts => (runExprs R W parts).seq anything

def runExpr? (R : Recognizer) (W : World) : Option Expr → Runs
  | none => ending (.done true)
  | some e => runExpr R W e

def runExprs (R : Recognizer) (W : World) : List Expr → Runs
  | [] => ending (.done true)
  | e :: es => (runExpr R W e).seq (runExprs R W es)

/-- The runs of the labels of a case, each of which is evaluated or left out. -/
def runLabels (R : Recognizer) (W : World) (selector : Expr) : List Expr → Runs
  | [] => ending (.done true)
  | .name s n :: rest =>
    (either (ending (.done true)) (event (.caseLabel (.name s n) selector))).seq
      (runLabels R W selector rest)
  | e :: rest => (either (skip e) (runExpr R W e)).seq (runLabels R W selector rest)

/-- The tests by which a case is selected: of each case as many labels as are looked at. Labels
that are recognised are constants, and nothing is evaluated for them. -/
def testCases (R : Recognizer) (W : World) (selector : Expr) : List SwitchCase → Runs
  | [] => ending (.done true)
  | ⟨labels, _, _, _, _⟩ :: rest =>
    (if (R.caseGuard? selector labels).isSome then ending (.done true)
      else (runLabels R W selector labels).begun).seq (testCases R W selector rest)

/-- The runs of the cases of a switch: from the one selected, or from the first if the case
before it falls through. No case is selected only if there is no default case. -/
def runCases (R : Recognizer) (W : World) (selector : Expr) (entered defaulted : Bool) :
    List SwitchCase → Runs
  | [] => onlyIf (entered = true ∨ defaulted = false) (ending (.done true))
  | ⟨labels, isDefault, isRule, body, _⟩ :: rest =>
    let chosen := (runLabels R W selector labels).seq <| (runStmts R W body).seq <|
      if isRule then ending (.done true)
      else runCases R W selector true (defaulted || isDefault) rest
    if entered then chosen
    else
      either (onlyIf (isDefault = true ∨ W.Selects R selector labels) chosen)
        (runCases R W selector false (defaulted || isDefault) rest)

def runVars (R : Recognizer) (W : World) : List LocalVar → Runs
  | [] => ending (.done true)
  | ⟨_, _, _, init, _, _⟩ :: rest => (runExpr? R W init).seq (runVars R W rest)

/-- The runs of a statement; a loop or switch takes the label before it. -/
def runStmt (R : Recognizer) (W : World) (label : Option String) : Stmt → Runs
  | .block _ ⟨stmts, _⟩ => runStmts R W stmts
  | .vars _ decls => runVars R W decls
  | .expr _ e => runExpr R W e
  | .ifElse _ cond yes no =>
    (runExpr R W cond).bind fun t => if t then runStmt R W none yes else runStmt? R W no
  | .whileLoop _ cond body =>
    repeats <| (runExpr R W cond).bind fun t =>
      if t then (runStmt R W none body).endsAs (.ofLoop label) else ending (.done false)
  | .doWhile _ body cond =>
    repeats <| ((runStmt R W none body).endsAs (.ofLoop label)).bind fun t =>
      if t then runExpr R W cond else ending (.done false)
  | .forLoop _ init cond update body =>
    (runStmts R W init).seq <| repeats <| (runExpr? R W cond).bind fun t =>
      if t then
        ((runStmt R W none body).endsAs (.ofLoop label)).bind fun t =>
          if t then (runExprs R W update).seq (ending (.done true)) else ending (.done false)
      else ending (.done false)
  | .forEach _ _ iterable body =>
    (runExpr R W iterable).seq <| repeats <| anything.bind fun t =>
      if t then (runStmt R W none body).endsAs (.ofLoop label) else ending (.done false)
  | .switch _ selector cases =>
    (runExpr R W selector).seq <|
      ((testCases R W selector cases).seq (runCases R W selector false false cases)).endsAs
        (.ofSwitch label)
  | .tryCatch s withResources resources ⟨stmts, _⟩ catches always =>
    (events (if withResources then [.tryWithResources s] else [])).seq <|
      runClosing R W
        (((runStmts R W resources).seq (runStmts R W stmts)).handled (runCatches R W catches))
        always
  | .returns _ value => (runExpr? R W value).seq (ending .returns)
  | .throws _ value => (runExpr R W value).seq (ending .throws)
  | .yields _ value => (runExpr R W value).seq (ending .yields)
  | .breaks _ target => ending (.breaks target)
  | .continues _ target => ending (.continues target)
  | .labeled _ name body =>
    if takesLabel body then runStmt R W (some name) body
    else (runStmt R W none body).endsAs (.ofLabeled name)
  | .synchronized _ lock ⟨stmts, _⟩ => (runExpr R W lock).seq (runStmts R W stmts)
  | .localClass _ d => event (.classBody d)
  | .asserts _ cond message =>
    -- Assertions may be disabled, and a message is for an assertion that fails.
    either ((skip cond).seq (skip? message)) <| (runExpr R W cond).bind fun t =>
      if t then skip? message else (runExpr? R W message).seq (ending .throws)
  | .empty _ => ending (.done true)

def runStmt? (R : Recognizer) (W : World) : Option Stmt → Runs
  | none => ending (.done true)
  | some st => runStmt R W none st

def runStmts (R : Recognizer) (W : World) : List Stmt → Runs
  | [] => ending (.done true)
  | st :: rest => (runStmt R W none st).seq (runStmts R W rest)

/-- The runs after an exception: the clauses are tried in turn. -/
def runCatches (R : Recognizer) (W : World) : List CatchClause → Runs
  | [] => ending .throws
  | ⟨types, _, ⟨stmts, _⟩, _⟩ :: rest =>
    (events (types.map .typeUse)).seq (either (runStmts R W stmts) (runCatches R W rest))

def runClosing (R : Recognizer) (W : World) (A : Runs) : Option Block → Runs
  | none => A
  | some ⟨stmts, _⟩ => A.closed (runStmts R W stmts)

end

/-- The step asks nothing of the device, or leaves out an operand that could be evaluated
to its end there. -/
inductive Passes (R : Recognizer) (W : World) : Step → Prop where
  | event (e : Event) : Passes R W (.event e)
  | skipped {e : Expr} {t : List Step} {truth : Bool} :
      runExpr R W e t (.done truth) → (∀ s ∈ t, Passes R W s) → Passes R W (.skipped e)

end LevelGuard.Flow
