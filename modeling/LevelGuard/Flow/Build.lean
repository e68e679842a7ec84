import LevelGuard.Flow.Graph
import LevelGuard.Flow.Recognizer

/-!
# The graph of a body

Statements are lowered one after another into a growing graph; at any time one
block is current and receives the sites of what is evaluated next. A condition is
lowered into branches: conjunctions, disjunctions, negations and conditional
expressions split it, and every part that is left becomes a pair of edges with the
guard it is recognised as, if any. Code after a jump goes into a block that no
edge enters.

The order in which blocks and edges are made is fixed, since numbers of blocks are
part of the result.
-/
namespace LevelGuard.Flow

open Java

/-- Where `break`, `continue` and `yield` lead from inside a statement. -/
structure Jump where
  label : Option String
  breakTo : Nat
  continueTo : Option Nat := none
  /-- A `break` without a label may mean the statement. -/
  breakable : Bool := false
  /-- The statement is a switch that takes the value of `yield`. -/
  yields : Bool := false

structure Draft where
  size : Nat := 2
  edges : List Edge := []
  sites : List (Nat × Site) := []
  current : Nat := 0
  /-- The statements around the current place, innermost first. -/
  jumps : List Jump := []
  /-- The guards of the handlers around the current place, innermost first. -/
  handlers : List Guard := []

def entryBlock : Nat := 0

def exitBlock : Nat := 1

abbrev Build (α : Type) := StateM Draft α

namespace Build

def newBlock : Build Nat := modifyGet fun d => (d.size, { d with size := d.size + 1 })

def addEdge (e : Edge) : Build Unit := modify fun d => { d with edges := d.edges ++ [e] }

def edgeTo (target : Nat) (kind : EdgeKind) (guard : Option Guard) : Build Unit := do
  addEdge ⟨(← get).current, target, kind, guard⟩

def flowTo (target : Nat) : Build Unit := edgeTo target .flow none

def setCurrent (block : Nat) : Build Unit := modify fun d => { d with current := block }

/-- Leave the current block for good. -/
def jumpTo (target : Nat) : Build Unit := do
  flowTo target
  setCurrent (← newBlock)

def addSite (event : Event) : Build Unit :=
  modify fun d => { d with sites := d.sites ++ [(d.current, ⟨event, d.handlers⟩)] }

def addSiteIf (present : Bool) (event : Event) : Build Unit :=
  if present then addSite event else return ()

def fallTo (target : Nat) : Option Nat → Build Unit
  | some b => addEdge { source := b, target }
  | none => return ()

def withJump (j : Jump) (inner : Build Unit) : Build Unit := do
  let jumps := (← get).jumps
  modify fun d => { d with jumps := j :: jumps }
  inner
  modify fun d => { d with jumps := jumps }

def withHandlers (guards : List Guard) (inner : Build Unit) : Build Unit := do
  let handlers := (← get).handlers
  modify fun d => { d with handlers := guards ++ handlers }
  inner
  modify fun d => { d with handlers := handlers }

/-- Where the innermost fitting statement sends a jump; out of the body if none fits. -/
def breakTarget (jumps : List Jump) (label : Option String) : Nat :=
  let fits (j : Jump) : Bool :=
    match label with
    | some l => j.label = some l
    | none => j.breakable
  ((jumps.find? fits).map (·.breakTo)).getD exitBlock

def continueTarget? (jumps : List Jump) (label : Option String) : Option Nat :=
  ((jumps.filter fun j => j.continueTo.isSome).find? fun j =>
    label.isNone || j.label = label).bind (·.continueTo)

def yieldTarget (jumps : List Jump) : Nat :=
  ((jumps.find? (·.yields)).map (·.breakTo)).getD exitBlock

end Build

open Build

/-- What an expression is evaluated for: its value, or a branch on it. -/
inductive Goal where
  | value
  | branch (onTrue onFalse : Nat)

/-- Branch on a condition that has been evaluated. -/
def branchOn (guard : Option Guard) : Goal → Build Unit
  | .value => return ()
  | .branch onTrue onFalse => do
    edgeTo onTrue .onTrue guard
    edgeTo onFalse .onFalse (guard.map Guard.negate)

def takesLabel : Stmt → Bool
  | .whileLoop .. | .doWhile .. | .forLoop .. | .forEach .. | .switch .. => true
  | _ => false

mutual

def lowerExpr (R : Recognizer) (goal : Goal) : Expr → Build Unit
  | .binary _ .and lhs rhs =>
    match goal with
    | .branch onTrue onFalse => do
      let mid ← newBlock
      lowerExpr R (.branch mid onFalse) lhs
      setCurrent mid
      lowerExpr R (.branch onTrue onFalse) rhs
    | .value => do
      let right ← newBlock
      let join ← newBlock
      lowerExpr R (.branch right join) lhs
      setCurrent right
      lowerExpr R .value rhs
      flowTo join
      setCurrent join
  | .binary _ .or lhs rhs =>
    match goal with
    | .branch onTrue onFalse => do
      let mid ← newBlock
      lowerExpr R (.branch onTrue mid) lhs
      setCurrent mid
      lowerExpr R (.branch onTrue onFalse) rhs
    | .value => do
      let right ← newBlock
      let join ← newBlock
      lowerExpr R (.branch join right) lhs
      setCurrent right
      lowerExpr R .value rhs
      flowTo join
      setCurrent join
  | .binary s op lhs rhs => do
    lowerExpr R .value lhs
    lowerExpr R .value rhs
    branchOn (R.recognize? (.binary s op lhs rhs)) goal
  | .unary _ .not operand =>
    match goal with
    | .branch onTrue onFalse => lowerExpr R (.branch onFalse onTrue) operand
    | .value => lowerExpr R .value operand
  | .unary _ _ operand => do
    lowerExpr R .value operand
    branchOn none goal
  | .conditional _ cond yes no =>
    match goal with
    | .branch onTrue onFalse => do
      let yesBlock ← newBlock
      let noBlock ← newBlock
      lowerExpr R (.branch yesBlock noBlock) cond
      setCurrent yesBlock
      lowerExpr R (.branch onTrue onFalse) yes
      setCurrent noBlock
      lowerExpr R (.branch onTrue onFalse) no
    | .value => do
      let yesBlock ← newBlock
      let noBlock ← newBlock
      let join ← newBlock
      lowerExpr R (.branch yesBlock noBlock) cond
      setCurrent yesBlock
      lowerExpr R .value yes
      flowTo join
      setCurrent noBlock
      lowerExpr R .value no
      flowTo join
      setCurrent join
  | .literal _ (.bool b) =>
    match goal with
    | .branch onTrue onFalse => flowTo (if b then onTrue else onFalse)
    | .value => return ()
  | .literal .. => branchOn none goal
  | .name s n => do
    addSite (.reference (.name s n))
    branchOn (R.recognize? (.name s n)) goal
  | .fieldAccess s target n => do
    lowerExpr R .value target
    addSite (.reference (.fieldAccess s target n))
    branchOn none goal
  | .call s target n args => do
    lowerExpr? R target
    lowerExprs R args
    addSite (.reference (.call s target n args))
    branchOn none goal
  | .methodRef s target n => do
    lowerExpr R .value target
    addSite (.reference (.methodRef s target n))
    branchOn none goal
  | .new s type args body => do
    lowerExprs R args
    addSite (.reference (.new s type args body))
    body.forM fun d => addSite (.classBody d)
    branchOn none goal
  | .newArray _ _ dims init => do
    lowerExprs R dims
    lowerExprs R init
    branchOn none goal
  | .arrayInit _ items => do
    lowerExprs R items
    branchOn none goal
  | .assign _ target value => do
    lowerExpr R .value target
    lowerExpr R .value value
    branchOn none goal
  | .cast _ _ operand => do
    lowerExpr R .value operand
    branchOn none goal
  | .instanceOf _ operand type => do
    lowerExpr R .value operand
    addSite (.typeUse type)
    branchOn none goal
  | .lambda _ params body => do
    addSite (.lambda params body)
    branchOn none goal
  | .arrayAccess _ array index => do
    lowerExpr R .value array
    lowerExpr R .value index
    branchOn none goal
  | .switch _ selector cases => do
    lowerExpr R .value selector
    let head := (← get).current
    let after ← newBlock
    withJump ⟨none, after, none, false, true⟩ (lowerCases R selector head after none false cases)
    setCurrent after
    branchOn none goal
  | .classLit _ type => do
    addSite (.typeUse type)
    branchOn none goal
  | .this _ | .super _ => branchOn none goal
  | .unknown _ parts => do
    lowerExprs R parts
    branchOn none goal

def lowerExpr? (R : Recognizer) : Option Expr → Build Unit
  | none => return ()
  | some e => lowerExpr R .value e

/-- A condition that is left out holds. -/
def lowerCond? (R : Recognizer) (onTrue onFalse : Nat) : Option Expr → Build Unit
  | none => flowTo onTrue
  | some e => lowerExpr R (.branch onTrue onFalse) e

def lowerExprs (R : Recognizer) : List Expr → Build Unit
  | [] => return ()
  | e :: es => do
    lowerExpr R .value e
    lowerExprs R es

/-- The labels of a case; a name is a label of its own kind. -/
def lowerLabels (R : Recognizer) (selector : Expr) : List Expr → Build Unit
  | [] => return ()
  | .name s n :: rest => do
    addSite (.caseLabel (.name s n) selector)
    lowerLabels R selector rest
  | e :: rest => do
    lowerExpr R .value e
    lowerLabels R selector rest

/-- The cases of a switch whose selector ends in block `head`. The end of a case
without an arrow, `open?`, falls through to the next case. -/
def lowerCases (R : Recognizer) (selector : Expr) (head after : Nat) (open? : Option Nat)
    (defaulted : Bool) : List SwitchCase → Build Unit
  | [] => do
    fallTo after open?
    if defaulted then return () else addEdge { source := head, target := after }
  | ⟨labels, isDefault, isRule, body, _⟩ :: rest => do
    let block ← newBlock
    let guard := if isDefault then none else R.caseGuard? selector labels
    addEdge ⟨head, block, .onCase, guard⟩
    fallTo block open?
    setCurrent block
    lowerLabels R selector labels
    lowerStmts R body
    if isRule then
      flowTo after
      lowerCases R selector head after none (defaulted || isDefault) rest
    else
      let last := (← get).current
      lowerCases R selector head after (some last) (defaulted || isDefault) rest

def lowerVars (R : Recognizer) : List LocalVar → Build Unit
  | [] => return ()
  | ⟨_, _, _, init, _, _⟩ :: rest => do
    lowerExpr? R init
    lowerVars R rest

/-- Lower a statement; a loop or switch takes the label before it. -/
def lowerStmt (R : Recognizer) (label : Option String) : Stmt → Build Unit
  | .block _ ⟨stmts, _⟩ => lowerStmts R stmts
  | .vars _ decls => lowerVars R decls
  | .expr _ e => lowerExpr R .value e
  | .ifElse _ cond yes no => do
    let yesBlock ← newBlock
    let noBlock ← newBlock
    let join ← newBlock
    lowerExpr R (.branch yesBlock noBlock) cond
    setCurrent yesBlock
    lowerStmt R none yes
    flowTo join
    setCurrent noBlock
    lowerStmt? R no
    flowTo join
    setCurrent join
  | .whileLoop _ cond body => do
    let header ← newBlock
    let bodyBlock ← newBlock
    let after ← newBlock
    flowTo header
    setCurrent header
    lowerExpr R (.branch bodyBlock after) cond
    setCurrent bodyBlock
    withJump ⟨label, after, some header, true, false⟩ (lowerStmt R none body)
    edgeTo header .back none
    setCurrent after
  | .doWhile _ body cond => do
    let bodyBlock ← newBlock
    let condBlock ← newBlock
    let after ← newBlock
    flowTo bodyBlock
    setCurrent bodyBlock
    withJump ⟨label, after, some condBlock, true, false⟩ (lowerStmt R none body)
    flowTo condBlock
    setCurrent condBlock
    let again ← newBlock
    lowerExpr R (.branch again after) cond
    addEdge ⟨again, bodyBlock, .back, none⟩
    setCurrent after
  | .forLoop _ init cond update body => do
    lowerStmts R init
    let header ← newBlock
    let bodyBlock ← newBlock
    let updateBlock ← newBlock
    let after ← newBlock
    flowTo header
    setCurrent header
    lowerCond? R bodyBlock after cond
    setCurrent bodyBlock
    withJump ⟨label, after, some updateBlock, true, false⟩ (lowerStmt R none body)
    flowTo updateBlock
    setCurrent updateBlock
    lowerExprs R update
    edgeTo header .back none
    setCurrent after
  | .forEach _ _ iterable body => do
    lowerExpr R .value iterable
    let header ← newBlock
    let bodyBlock ← newBlock
    let after ← newBlock
    flowTo header
    addEdge { source := header, target := bodyBlock }
    addEdge { source := header, target := after }
    setCurrent bodyBlock
    withJump ⟨label, after, some header, true, false⟩ (lowerStmt R none body)
    edgeTo header .back none
    setCurrent after
  | .switch _ selector cases => do
    lowerExpr R .value selector
    let head := (← get).current
    let after ← newBlock
    withJump ⟨label, after, none, true, false⟩ (lowerCases R selector head after none false cases)
    setCurrent after
  | .tryCatch s withResources resources ⟨stmts, _⟩ catches always => do
    addSiteIf withResources (.tryWithResources s)
    let tryBlock ← newBlock
    flowTo tryBlock
    setCurrent tryBlock
    let caught := catches.flatMap fun c => c.types.map fun t => Guard.excluded t.name
    withHandlers caught do
      lowerStmts R resources
      lowerStmts R stmts
    let join ← newBlock
    flowTo join
    lowerCatches R tryBlock join catches
    setCurrent join
    lowerClosing R tryBlock join always
  | .returns _ value => do
    lowerExpr? R value
    jumpTo exitBlock
  | .throws _ value => do
    lowerExpr R .value value
    jumpTo exitBlock
  | .yields _ value => do
    lowerExpr R .value value
    jumpTo (yieldTarget (← get).jumps)
  | .breaks _ target => do jumpTo (breakTarget (← get).jumps target)
  | .continues _ target => do
    match continueTarget? (← get).jumps target with
    | some block =>
      edgeTo block .back none
      setCurrent (← newBlock)
    | none => jumpTo exitBlock
  | .labeled _ name body =>
    if takesLabel body then lowerStmt R (some name) body
    else do
      let after ← newBlock
      withJump ⟨some name, after, none, false, false⟩ (lowerStmt R none body)
      flowTo after
      setCurrent after
  | .synchronized _ lock ⟨stmts, _⟩ => do
    lowerExpr R .value lock
    lowerStmts R stmts
  | .localClass _ d => addSite (.classBody d)
  | .asserts _ cond message => do
    lowerExpr R .value cond
    lowerExpr? R message
  | .empty _ => return ()

def lowerStmt? (R : Recognizer) : Option Stmt → Build Unit
  | none => return ()
  | some st => lowerStmt R none st

def lowerStmts (R : Recognizer) : List Stmt → Build Unit
  | [] => return ()
  | st :: rest => do
    lowerStmt R none st
    lowerStmts R rest

/-- The handlers of a statement; each is entered from the block where its body begins. -/
def lowerCatches (R : Recognizer) (tryBlock join : Nat) : List CatchClause → Build Unit
  | [] => return ()
  | ⟨types, _, ⟨stmts, _⟩, _⟩ :: rest => do
    let handler ← newBlock
    addEdge ⟨tryBlock, handler, .exception, none⟩
    setCurrent handler
    types.forM fun t => addSite (.typeUse t)
    lowerStmts R stmts
    flowTo join
    lowerCatches R tryBlock join rest

/-- The closing block of a statement, which begins at `join`, is also entered from the
block where the body of the statement begins. -/
def lowerClosing (R : Recognizer) (tryBlock join : Nat) : Option Block → Build Unit
  | none => return ()
  | some ⟨stmts, _⟩ => do
    addEdge ⟨tryBlock, join, .exception, none⟩
    lowerStmts R stmts

end

namespace Graph

def ofBuild (steps : Build Unit) : Graph :=
  let d := ((do steps; flowTo exitBlock : Build Unit).run {}).2
  ⟨d.size, entryBlock, exitBlock, d.edges, d.sites⟩

def ofBlock (R : Recognizer) (body : Block) : Graph := ofBuild (lowerStmts R body.stmts)

def ofExprs (R : Recognizer) (exprs : List Expr) : Graph := ofBuild (lowerExprs R exprs)

end Graph
end LevelGuard.Flow
