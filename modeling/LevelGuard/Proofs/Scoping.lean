import LevelGuard.Proofs.Nodes

/-!
# The scopes of variables

A local variable can be seen from its declaration to the end of the block around it, the
variable of a loop or of a handler in what follows it there, and a resource in the body of
its statement. The groups of a switch are one block. Here a piece of code is read with the
variables that can be seen at each place of it: the names it uses, the lambdas it creates,
the variables it declares. Lambdas and classes are not entered.
-/
namespace LevelGuard.Java

open Project

structure Variable where
  name : String
  init : Option Expr
  /-- What is written where it can be assigned to. -/
  reach : List Node
  /-- Whether it is declared inside of a switch that has a value. -/
  buried : Bool
  /-- The variables that can be seen where it is declared. -/
  scope : List Variable

/-- The variables that can be seen at a place, the innermost first. -/
abbrev Variables := List Variable

/-- The variable of a name that hides all others. -/
def Variables.visible? (E : Variables) (x : String) : Option Variable := E.find? (·.name = x)

/-- What a piece of code says about variables. -/
inductive Mention where
  | use (name : String) (scope : Variables)
  | lambda (params : List Param) (body : LambdaBody) (scope : Variables)
  | declares (declared : Variable)

def Mention.scope : Mention → Variables
  | .use _ E | .lambda _ _ E => E
  | .declares V => V.scope

def Mention.declared? : Mention → Option Variable
  | .declares V => some V
  | .use .. | .lambda .. => none

def declaredIn (ms : List Mention) : List Variable := ms.filterMap Mention.declared?

theorem mem_declaredIn {ms : List Mention} {V : Variable} :
    V ∈ declaredIn ms ↔ .declares V ∈ ms := by
  refine List.mem_filterMap.trans ⟨fun ⟨m, hm, hV⟩ => ?_, fun h => ⟨_, h, rfl⟩⟩
  cases m with
  | declares W => exact Option.some.inj hV ▸ hm
  | _ => nomatch hV

theorem declaredIn_mono {ms ms' : List Mention} (h : ms ⊆ ms') : declaredIn ms ⊆ declaredIn ms' :=
  List.filterMap_subset _ h

/-- A stretch of code that declares variables. -/
structure Stretch where
  /-- What is written in the whole piece of code. -/
  nodes : List Node
  /-- Whether it is inside of a switch that has a value. -/
  buried : Bool

namespace Stretch

def declare (B : Stretch) (E : Variables) (name : String) (init : Option Expr) : Variable :=
  ⟨name, init, B.nodes, B.buried, E⟩

def bury (B : Stretch) : Stretch := { B with buried := true }

def varsScope (B : Stretch) (E : Variables) : List LocalVar → Variables
  | [] => E
  | v :: rest => B.varsScope (B.declare E v.name v.init :: E) rest

def stmtScope (B : Stretch) (E : Variables) : Stmt → Variables
  | .vars _ decls => B.varsScope E decls
  | _ => E

def stmtsScope (B : Stretch) (E : Variables) : List Stmt → Variables
  | [] => E
  | st :: rest => B.stmtsScope (B.stmtScope E st) rest

mutual

def inExpr (B : Stretch) (E : Variables) : Expr → List Mention
  | .name _ x => [.use x E]
  | .literal .. | .classLit .. | .this _ | .super _ => []
  | .fieldAccess _ target _ => B.inExpr E target
  | .call _ target _ args => B.inExpr? E target ++ B.inExprs E args
  | .new _ _ args _ => B.inExprs E args
  | .newArray _ _ dims init => B.inExprs E dims ++ B.inExprs E init
  | .arrayInit _ items => B.inExprs E items
  | .binary _ _ lhs rhs => B.inExpr E lhs ++ B.inExpr E rhs
  | .unary _ _ operand => B.inExpr E operand
  | .conditional _ cond yes no => B.inExpr E cond ++ B.inExpr E yes ++ B.inExpr E no
  | .assign _ target value => B.inExpr E target ++ B.inExpr E value
  | .cast _ _ operand => B.inExpr E operand
  | .instanceOf _ operand _ => B.inExpr E operand
  | .lambda _ params body => [.lambda params body E]
  | .methodRef _ target _ => B.inExpr E target
  | .arrayAccess _ array index => B.inExpr E array ++ B.inExpr E index
  | .switch _ selector cases => B.inExpr E selector ++ B.bury.inCases E cases
  | .unknown _ parts => B.inExprs E parts

def inExpr? (B : Stretch) (E : Variables) : Option Expr → List Mention
  | none => []
  | some e => B.inExpr E e

def inExprs (B : Stretch) (E : Variables) : List Expr → List Mention
  | [] => []
  | e :: es => B.inExpr E e ++ B.inExprs E es

/-- A name as the label of a case is a constant and no use of a variable. -/
def inLabels (B : Stretch) (E : Variables) : List Expr → List Mention
  | [] => []
  | .name .. :: rest => B.inLabels E rest
  | e :: rest => B.inExpr E e ++ B.inLabels E rest

/-- What a group declares can be seen in the groups after it. -/
def inCases (B : Stretch) (E : Variables) : List SwitchCase → List Mention
  | [] => []
  | ⟨labels, _, isRule, body, _⟩ :: rest =>
    B.inLabels E labels ++ B.inStmts E body ++
      B.inCases (if isRule then E else B.stmtsScope E body) rest

def inVars (B : Stretch) (E : Variables) : List LocalVar → List Mention
  | [] => []
  | ⟨x, _, _, init, _, _⟩ :: rest =>
    B.inExpr? E init ++ .declares (B.declare E x init) :: B.inVars (B.declare E x init :: E) rest

def inStmt (B : Stretch) (E : Variables) : Stmt → List Mention
  | .block _ ⟨stmts, _⟩ => B.inStmts E stmts
  | .vars _ decls => B.inVars E decls
  | .expr _ e | .throws _ e | .yields _ e => B.inExpr E e
  | .returns _ e => B.inExpr? E e
  | .ifElse _ cond yes no => B.inExpr E cond ++ B.inStmt E yes ++ B.inStmt? E no
  | .whileLoop _ cond body => B.inExpr E cond ++ B.inStmt E body
  | .doWhile _ body cond => B.inStmt E body ++ B.inExpr E cond
  | .forLoop _ init cond update body =>
    B.inStmts E init ++ (B.inExpr? (B.stmtsScope E init) cond ++
      B.inExprs (B.stmtsScope E init) update ++ B.inStmt (B.stmtsScope E init) body)
  | .forEach _ ⟨x, _, _, _, _, _⟩ iterable body =>
    B.inExpr E iterable ++ .declares (B.declare E x none) :: B.inStmt (B.declare E x none :: E) body
  | .switch _ selector cases => B.inExpr E selector ++ B.inCases E cases
  | .tryCatch _ _ resources ⟨stmts, _⟩ catches always =>
    B.inStmts E resources ++ B.inStmts (B.stmtsScope E resources) stmts ++
      B.inCatches E catches ++ B.inBlock? E always
  | .labeled _ _ body => B.inStmt E body
  | .synchronized _ lock ⟨stmts, _⟩ => B.inExpr E lock ++ B.inStmts E stmts
  | .asserts _ cond message => B.inExpr E cond ++ B.inExpr? E message
  | .localClass .. | .breaks .. | .continues .. | .empty _ => []

def inStmt? (B : Stretch) (E : Variables) : Option Stmt → List Mention
  | none => []
  | some st => B.inStmt E st

def inStmts (B : Stretch) (E : Variables) : List Stmt → List Mention
  | [] => []
  | st :: rest => B.inStmt E st ++ B.inStmts (B.stmtScope E st) rest

def inCatches (B : Stretch) (E : Variables) : List CatchClause → List Mention
  | [] => []
  | ⟨_, x, ⟨stmts, _⟩, _⟩ :: rest =>
    .declares (B.declare E x none) :: B.inStmts (B.declare E x none :: E) stmts ++
      B.inCatches E rest

def inBlock? (B : Stretch) (E : Variables) : Option Block → List Mention
  | none => []
  | some ⟨stmts, _⟩ => B.inStmts E stmts

end

end Stretch

/-- The second scope is the first behind some of the variables. -/
def Extends (vars : List Variable) (E E' : Variables) : Prop := ∃ L, E' = L ++ E ∧ L ⊆ vars

namespace Extends

variable {vars vars' : List Variable} {E E' E'' : Variables}

theorem refl : Extends vars E E := ⟨[], rfl, List.nil_subset _⟩

theorem mono (h : Extends vars E E') (hvars : vars ⊆ vars') : Extends vars' E E' := by
  obtain ⟨L, rfl, hL⟩ := h
  exact ⟨L, rfl, List.Subset.trans hL hvars⟩

theorem trans (h : Extends vars E E') (h' : Extends vars E' E'') : Extends vars E E'' := by
  obtain ⟨L, rfl, hL⟩ := h
  obtain ⟨L', rfl, hL'⟩ := h'
  exact ⟨L' ++ L, (List.append_assoc ..).symm, List.append_subset.mpr ⟨hL', hL⟩⟩

theorem cons {V : Variable} (hV : V ∈ vars) : Extends vars E (V :: E) :=
  ⟨[V], rfl, List.cons_subset.mpr ⟨hV, List.nil_subset _⟩⟩

end Extends

namespace Stretch

variable (B : Stretch)

theorem inVars_cons (E : Variables) (v : LocalVar) (rest : List LocalVar) :
    B.inVars E (v :: rest) = B.inExpr? E v.init ++
      .declares (B.declare E v.name v.init) :: B.inVars (B.declare E v.name v.init :: E) rest := by
  cases v
  rfl

theorem extends_varsScope (E : Variables) (decls : List LocalVar) :
    Extends (declaredIn (B.inVars E decls)) E (B.varsScope E decls) := by
  induction decls generalizing E with
  | nil => exact .refl
  | cons v rest ih =>
    have hdeclared : .declares (B.declare E v.name v.init) ∈ B.inVars E (v :: rest) := by
      simp [inVars_cons]
    refine (Extends.cons (mem_declaredIn.mpr hdeclared)).trans
      ((ih _).mono (declaredIn_mono fun m hm => ?_))
    simp [inVars_cons, hm]

theorem extends_stmtScope (E : Variables) (st : Stmt) :
    Extends (declaredIn (B.inStmt E st)) E (B.stmtScope E st) := by
  cases st with
  | vars _ decls => exact B.extends_varsScope E decls
  | _ => exact .refl

theorem extends_stmtsScope (E : Variables) (stmts : List Stmt) :
    Extends (declaredIn (B.inStmts E stmts)) E (B.stmtsScope E stmts) := by
  induction stmts generalizing E with
  | nil => exact .refl
  | cons st rest ih =>
    exact ((B.extends_stmtScope E st).mono (declaredIn_mono (List.subset_append_left ..))).trans
      ((ih _).mono (declaredIn_mono (List.subset_append_right ..)))

end Stretch

/-- Mentions of a stretch of code: each is where the variables of the scope around can be
seen, behind those that are declared on the way, and all variables that are not buried in
a switch are among those that were collected. -/
structure Tidy (B : Stretch) (E : Variables) (collected : Declared) (ms : List Mention) : Prop where
  scope : ∀ m ∈ ms, Extends (declaredIn ms) E m.scope
  named : ∀ V ∈ declaredIn ms,
    V.buried = true ∨ B.buried = false ∧ V.name ∈ collected.map Prod.fst

namespace Tidy

variable {B : Stretch} {E E' : Variables} {collected collected' : Declared} {ms ms' : List Mention}

theorem nil : Tidy B E [] [] := ⟨nofun, nofun⟩

theorem use (x : String) : Tidy B E [] [.use x E] := by
  refine ⟨fun m hm => ?_, nofun⟩
  obtain rfl := List.mem_singleton.mp hm
  exact .refl

theorem lambda (params : List Param) (body : LambdaBody) :
    Tidy B E [] [.lambda params body E] := by
  refine ⟨fun m hm => ?_, nofun⟩
  obtain rfl := List.mem_singleton.mp hm
  exact .refl

/-- The second mentions come where the variables of the first can be seen. -/
theorem after (h : Tidy B E collected ms) (hE : Extends (declaredIn ms) E E')
    (h' : Tidy B E' collected' ms') : Tidy B E (collected ++ collected') (ms ++ ms') := by
  have hleft : declaredIn ms ⊆ declaredIn (ms ++ ms') := declaredIn_mono (List.subset_append_left ..)
  have hright : declaredIn ms' ⊆ declaredIn (ms ++ ms') :=
    declaredIn_mono (List.subset_append_right ..)
  refine ⟨fun m hm => ?_, fun V hV => ?_⟩
  · rcases List.mem_append.mp hm with hm | hm
    · exact (h.scope m hm).mono hleft
    · exact (hE.mono hleft).trans ((h'.scope m hm).mono hright)
  · rw [declaredIn, List.filterMap_append] at hV
    rw [List.map_append]
    rcases List.mem_append.mp hV with hV | hV
    · exact (h.named V hV).imp_right (.imp_right (List.mem_append_left _))
    · exact (h'.named V hV).imp_right (.imp_right (List.mem_append_right _))

theorem append (h : Tidy B E collected ms) (h' : Tidy B E collected' ms') :
    Tidy B E (collected ++ collected') (ms ++ ms') :=
  h.after .refl h'

/-- Nothing is collected from the second mentions. -/
theorem appendNone (h : Tidy B E collected ms) (h' : Tidy B E [] ms') :
    Tidy B E collected (ms ++ ms') := by
  have := h.append h'
  rwa [List.append_nil] at this

theorem declare (x : String) (type : Option String) (init : Option Expr)
    (h : Tidy B (B.declare E x init :: E) collected ms) :
    Tidy B E ((x, type) :: collected) (.declares (B.declare E x init) :: ms) := by
  have hone : Tidy B E [(x, type)] [.declares (B.declare E x init)] := by
    refine ⟨fun m hm => ?_, fun V hV => ?_⟩
    · obtain rfl := List.mem_singleton.mp hm
      exact .refl
    · obtain rfl := List.mem_singleton.mp hV
      simp [Stretch.declare]
  exact hone.after (.cons (List.mem_singleton_self _)) h

/-- A switch that has a value buries what it declares. -/
theorem of_bury (h : Tidy B.bury E collected ms) : Tidy B E [] ms :=
  ⟨h.scope, fun V hV => (h.named V hV).imp_right fun hn => nomatch hn.1⟩

end Tidy

namespace Stretch

mutual

theorem tidy_inExpr (B : Stretch) (E : Variables) : (e : Expr) → Tidy B E [] (B.inExpr E e)
  | .name _ x => .use x
  | .literal .. | .classLit .. | .this _ | .super _ => .nil
  | .fieldAccess _ target _ => B.tidy_inExpr E target
  | .call _ target _ args => (B.tidy_inExpr? E target).append (B.tidy_inExprs E args)
  | .new _ _ args _ => B.tidy_inExprs E args
  | .newArray _ _ dims init => (B.tidy_inExprs E dims).append (B.tidy_inExprs E init)
  | .arrayInit _ items => B.tidy_inExprs E items
  | .binary _ _ lhs rhs => (B.tidy_inExpr E lhs).append (B.tidy_inExpr E rhs)
  | .unary _ _ operand => B.tidy_inExpr E operand
  | .conditional _ cond yes no =>
    ((B.tidy_inExpr E cond).append (B.tidy_inExpr E yes)).append (B.tidy_inExpr E no)
  | .assign _ target value => (B.tidy_inExpr E target).append (B.tidy_inExpr E value)
  | .cast _ _ operand => B.tidy_inExpr E operand
  | .instanceOf _ operand _ => B.tidy_inExpr E operand
  | .lambda _ params body => .lambda params body
  | .methodRef _ target _ => B.tidy_inExpr E target
  | .arrayAccess _ array index => (B.tidy_inExpr E array).append (B.tidy_inExpr E index)
  | .switch _ selector cases =>
    (B.tidy_inExpr E selector).append (B.bury.tidy_inCases E cases).of_bury
  | .unknown _ parts => B.tidy_inExprs E parts

theorem tidy_inExpr? (B : Stretch) (E : Variables) :
    (e : Option Expr) → Tidy B E [] (B.inExpr? E e)
  | none => .nil
  | some e => B.tidy_inExpr E e

theorem tidy_inExprs (B : Stretch) (E : Variables) :
    (es : List Expr) → Tidy B E [] (B.inExprs E es)
  | [] => .nil
  | e :: es => (B.tidy_inExpr E e).append (B.tidy_inExprs E es)

theorem tidy_inLabels (B : Stretch) (E : Variables) :
    (labels : List Expr) → Tidy B E [] (B.inLabels E labels)
  | [] => .nil
  | e :: rest => by
    have he := B.tidy_inExpr E e
    have hrest := B.tidy_inLabels E rest
    cases e with
    | name => exact hrest
    | _ => exact he.append hrest

theorem tidy_inCases (B : Stretch) (E : Variables) :
    (cases : List SwitchCase) → Tidy B E (casesVars cases) (B.inCases E cases)
  | [] => .nil
  | ⟨labels, _, isRule, body, _⟩ :: rest => by
    have hhead := (B.tidy_inLabels E labels).append (B.tidy_inStmts E body)
    have hscope : Extends (declaredIn (B.inLabels E labels ++ B.inStmts E body)) E
        (if isRule then E else B.stmtsScope E body) := by
      split
      · exact .refl
      · exact (B.extends_stmtsScope E body).mono (declaredIn_mono (List.subset_append_right ..))
    exact hhead.after hscope (B.tidy_inCases _ rest)

theorem tidy_inVars (B : Stretch) (E : Variables) : (decls : List LocalVar) →
    Tidy B E (decls.map fun v => (v.name, classNameOf? v.type)) (B.inVars E decls)
  | [] => .nil
  | ⟨x, type, _, init, _, _⟩ :: rest =>
    (B.tidy_inExpr? E init).append ((B.tidy_inVars _ rest).declare x (classNameOf? type) init)

theorem tidy_inStmt (B : Stretch) (E : Variables) :
    (st : Stmt) → Tidy B E (stmtVars st) (B.inStmt E st)
  | .block _ ⟨stmts, _⟩ => B.tidy_inStmts E stmts
  | .vars _ decls => B.tidy_inVars E decls
  | .expr _ e | .throws _ e | .yields _ e => B.tidy_inExpr E e
  | .returns _ e => B.tidy_inExpr? E e
  | .ifElse _ cond yes none => ((B.tidy_inExpr E cond).append (B.tidy_inStmt E yes)).appendNone .nil
  | .ifElse _ cond yes (some no) =>
    ((B.tidy_inExpr E cond).append (B.tidy_inStmt E yes)).append (B.tidy_inStmt E no)
  | .whileLoop _ cond body => (B.tidy_inExpr E cond).append (B.tidy_inStmt E body)
  | .doWhile _ body cond => (B.tidy_inStmt E body).appendNone (B.tidy_inExpr E cond)
  | .forLoop _ init cond update body =>
    (B.tidy_inStmts E init).after (B.extends_stmtsScope E init)
      (((B.tidy_inExpr? _ cond).append (B.tidy_inExprs _ update)).append (B.tidy_inStmt _ body))
  | .forEach _ ⟨x, type, _, _, _, _⟩ iterable body =>
    (B.tidy_inExpr E iterable).append ((B.tidy_inStmt _ body).declare x (classNameOf? type) none)
  | .switch _ selector cases => (B.tidy_inExpr E selector).append (B.tidy_inCases E cases)
  | .tryCatch _ _ resources ⟨stmts, _⟩ catches none =>
    (((B.tidy_inStmts E resources).after (B.extends_stmtsScope E resources)
      (B.tidy_inStmts _ stmts)).append (B.tidy_inCatches E catches)).appendNone .nil
  | .tryCatch _ _ resources ⟨stmts, _⟩ catches (some ⟨always, _⟩) =>
    (((B.tidy_inStmts E resources).after (B.extends_stmtsScope E resources)
      (B.tidy_inStmts _ stmts)).append (B.tidy_inCatches E catches)).append
        (B.tidy_inStmts E always)
  | .labeled _ _ body => B.tidy_inStmt E body
  | .synchronized _ lock ⟨stmts, _⟩ => (B.tidy_inExpr E lock).append (B.tidy_inStmts E stmts)
  | .asserts _ cond message => (B.tidy_inExpr E cond).append (B.tidy_inExpr? E message)
  | .localClass .. | .breaks .. | .continues .. | .empty _ => .nil

theorem tidy_inStmts (B : Stretch) (E : Variables) :
    (stmts : List Stmt) → Tidy B E (stmtsVars stmts) (B.inStmts E stmts)
  | [] => .nil
  | st :: rest => (B.tidy_inStmt E st).after (B.extends_stmtScope E st) (B.tidy_inStmts _ rest)

theorem tidy_inCatches (B : Stretch) (E : Variables) :
    (catches : List CatchClause) → Tidy B E (catchesVars catches) (B.inCatches E catches)
  | [] => .nil
  | ⟨types, x, ⟨stmts, _⟩, _⟩ :: rest =>
    ((B.tidy_inStmts _ stmts).declare x (caughtType? types) none).append (B.tidy_inCatches E rest)

end

end Stretch

/-- Each of the variables is declared with its value, and what the value mentions is
mentioned where the variable is declared. -/
def Declares (B : Stretch) (ms : List Mention) (vars : List (String × Expr)) : Prop :=
  ∀ v ∈ vars, ∃ E, .declares (B.declare E v.1 (some v.2)) ∈ ms ∧ B.inExpr E v.2 ⊆ ms

namespace Declares

variable {B : Stretch} {ms ms' : List Mention} {vars vars' : List (String × Expr)}

theorem nil : Declares B ms [] := nofun

theorem mono (h : Declares B ms vars) (hms : ms ⊆ ms') : Declares B ms' vars := by
  intro v hv
  obtain ⟨E, hdeclared, hinit⟩ := h v hv
  exact ⟨E, hms hdeclared, List.Subset.trans hinit hms⟩

theorem left (h : Declares B ms vars) : Declares B (ms ++ ms') vars :=
  h.mono (List.subset_append_left ..)

theorem right (h : Declares B ms' vars) : Declares B (ms ++ ms') vars :=
  h.mono (List.subset_append_right ..)

theorem append (h : Declares B ms vars) (h' : Declares B ms' vars') :
    Declares B (ms ++ ms') (vars ++ vars') := by
  intro v hv
  rcases List.mem_append.mp hv with hv | hv
  · exact h.left v hv
  · exact h'.right v hv

end Declares

namespace Stretch

open LevelGuard.Flow

variable (B : Stretch)

theorem declares_inVars (E : Variables) (decls : List LocalVar) :
    Declares B (B.inVars E decls) (booleanVars decls) := by
  induction decls generalizing E with
  | nil => exact .nil
  | cons v rest ih =>
    rw [inVars_cons]
    have hrest : Declares B (.declares (B.declare E v.name v.init) ::
        B.inVars (B.declare E v.name v.init :: E) rest) (booleanVars rest) :=
      (ih _).mono (List.subset_cons_self ..)
    intro c hc
    obtain ⟨w, hw, hwc⟩ := List.mem_filterMap.mp hc
    rcases List.mem_cons.mp hw with rfl | hw
    · rw [Option.ite_none_right_eq_some, Option.map_eq_some_iff] at hwc
      obtain ⟨-, e, hinit, rfl⟩ := hwc
      refine ⟨E, ?_, ?_⟩
      · simp [hinit]
      · rw [hinit]
        exact List.subset_append_left ..
    · exact hrest.right c (List.mem_filterMap.mpr ⟨w, hw, hwc⟩)

mutual

theorem declares_inStmt (E : Variables) : (st : Stmt) → Declares B (B.inStmt E st) (stmtBooleans st)
  | .block _ ⟨stmts, _⟩ => declares_inStmts E stmts
  | .vars _ decls => B.declares_inVars E decls
  | .ifElse _ _ yes no =>
    (declares_inStmt E yes).right.append (declares_inStmt? E no)
  | .whileLoop _ _ body => (declares_inStmt E body).right
  | .doWhile _ body _ => (declares_inStmt E body).left
  | .forLoop _ init _ _ body => (declares_inStmts E init).append (declares_inStmt _ body).right
  | .forEach _ ⟨_, _, _, _, _, _⟩ _ body =>
    ((declares_inStmt _ body).mono (List.subset_cons_self ..)).right
  | .switch _ _ cases => (declares_inCases E cases).right
  | .tryCatch _ _ resources ⟨stmts, _⟩ catches always => by
    have hbody := (declares_inStmts E resources).append
      (declares_inStmts (B.stmtsScope E resources) stmts)
    exact (hbody.append (declares_inCatches E catches)).append (declares_inBlock? E always)
  | .labeled _ _ body => declares_inStmt E body
  | .synchronized _ _ ⟨stmts, _⟩ => (declares_inStmts E stmts).right
  | .expr .. | .throws .. | .yields .. | .returns .. | .localClass .. | .asserts .. | .breaks ..
  | .continues .. | .empty _ => .nil

theorem declares_inStmt? (E : Variables) :
    (st : Option Stmt) → Declares B (B.inStmt? E st) (stmtBooleans? st)
  | none => .nil
  | some st => declares_inStmt E st

theorem declares_inStmts (E : Variables) :
    (stmts : List Stmt) → Declares B (B.inStmts E stmts) (stmtsBooleans stmts)
  | [] => .nil
  | st :: rest => (declares_inStmt E st).append (declares_inStmts _ rest)

theorem declares_inCases (E : Variables) :
    (cases : List SwitchCase) → Declares B (B.inCases E cases) (casesBooleans cases)
  | [] => .nil
  | ⟨_, _, _, body, _⟩ :: rest =>
    (declares_inStmts E body).right.append (declares_inCases _ rest)

theorem declares_inCatches (E : Variables) :
    (catches : List CatchClause) → Declares B (B.inCatches E catches) (catchesBooleans catches)
  | [] => .nil
  | ⟨_, _, ⟨stmts, _⟩, _⟩ :: rest =>
    ((declares_inStmts _ stmts).mono (List.subset_cons_self ..)).append (declares_inCatches E rest)

theorem declares_inBlock? (E : Variables) :
    (b : Option Block) → Declares B (B.inBlock? E b) (blockBooleans? b)
  | none => .nil
  | some ⟨stmts, _⟩ => declares_inStmts E stmts

end

end Stretch

end LevelGuard.Java
