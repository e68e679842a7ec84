import Mathlib.Data.List.Basic
import LevelGuard.Proofs.Sites

/-!
# What is inside handlers

The clauses of a `try` statement handle what is thrown in its resources and its body, not
what is thrown in the clauses themselves or in the closing block. Here everything that a
check looks at in a body is listed with the clauses of the statements it is inside of, as
they are written, and the sites of the body are shown to be just these, each with the
handlers of these clauses.
-/
namespace LevelGuard.Flow

open Java

/-- Something written in a body. -/
inductive Piece where
  | expr (e : Expr)
  | stmt (st : Stmt)

/-- What a piece directly consists of. -/
inductive Item where
  /-- Something that a check looks at. -/
  | event (event : Event)
  /-- A smaller piece, and the clauses that handle what is thrown in it. -/
  | part (piece : Piece) (clauses : List CatchClause)

def exprPart (e : Expr) : Item := .part (.expr e) []

def stmtPart (st : Stmt) : Item := .part (.stmt st) []

def labelItem (selector : Expr) : Expr → Item
  | .name s n => .event (.caseLabel (.name s n) selector)
  | e => exprPart e

def caseItems (selector : Expr) (c : SwitchCase) : List Item :=
  c.labels.map (labelItem selector) ++ c.body.map stmtPart

def clauseItems (c : CatchClause) : List Item :=
  c.types.map (fun t => .event (.typeUse t)) ++ c.body.stmts.map stmtPart

def exprItems (e : Expr) : List Item :=
  match e with
  | .name .. | .fieldAccess .. | .call .. | .methodRef .. =>
    e.children.map exprPart ++ [.event (.reference e)]
  | .new _ _ args body =>
    args.map exprPart ++ .event (.reference e) :: body.toList.map fun d => .event (.classBody d)
  | .instanceOf _ operand type => [exprPart operand, .event (.typeUse type)]
  | .lambda _ params body => [.event (.lambda params body)]
  | .classLit _ type => [.event (.typeUse type)]
  | .switch _ selector cases => exprPart selector :: cases.flatMap (caseItems selector)
  | _ => e.children.map exprPart

/-- The resources and the body of a statement are inside its handlers, its clauses and its
closing block are not. -/
def stmtItems : Stmt → List Item
  | .block _ body => body.stmts.map stmtPart
  | .vars _ decls => decls.flatMap fun v => v.init.toList.map exprPart
  | .expr _ e | .throws _ e | .yields _ e => [exprPart e]
  | .returns _ e => e.toList.map exprPart
  | .ifElse _ cond yes no => exprPart cond :: stmtPart yes :: no.toList.map stmtPart
  | .whileLoop _ cond body => [exprPart cond, stmtPart body]
  | .doWhile _ body cond => [stmtPart body, exprPart cond]
  | .forLoop _ init cond update body =>
    init.map stmtPart ++ cond.toList.map exprPart ++ stmtPart body :: update.map exprPart
  | .forEach _ _ iterable body => [exprPart iterable, stmtPart body]
  | .switch _ selector cases => exprPart selector :: cases.flatMap (caseItems selector)
  | .tryCatch s withResources resources body catches always =>
    (if withResources then [.event (.tryWithResources s)] else []) ++
      resources.map (fun st => .part (.stmt st) catches) ++
      body.stmts.map (fun st => .part (.stmt st) catches) ++ catches.flatMap clauseItems ++
      always.toList.flatMap fun b => b.stmts.map stmtPart
  | .labeled _ _ body => [stmtPart body]
  | .synchronized _ lock body => exprPart lock :: body.stmts.map stmtPart
  | .localClass _ d => [.event (.classBody d)]
  | .asserts _ cond message => exprPart cond :: message.toList.map exprPart
  | .breaks .. | .continues .. | .empty _ => []

def Piece.items : Piece → List Item
  | .expr e => exprItems e
  | .stmt st => stmtItems st

def Piece.sites (H : List Guard) : Piece → List Site
  | .expr e => exprSites H e
  | .stmt st => stmtSites H st

def Item.sites (H : List Guard) : Item → List Site
  | .event ev => [⟨ev, H⟩]
  | .part piece clauses => piece.sites (caughtGuards clauses ++ H)

section Unfolding

variable (H : List Guard)

def itemsSites (items : List Item) : List Site := items.flatMap (Item.sites H)

@[simp] theorem itemsSites_nil : itemsSites H [] = [] := rfl

@[simp] theorem itemsSites_cons (item : Item) (items : List Item) :
    itemsSites H (item :: items) = item.sites H ++ itemsSites H items := rfl

@[simp] theorem itemsSites_append (items items' : List Item) :
    itemsSites H (items ++ items') = itemsSites H items ++ itemsSites H items' :=
  List.flatMap_append

@[simp] theorem sites_event (event : Event) : (Item.event event).sites H = [⟨event, H⟩] := rfl

@[simp] theorem sites_exprPart (e : Expr) : (exprPart e).sites H = exprSites H e := rfl

@[simp] theorem sites_stmtPart (st : Stmt) : (stmtPart st).sites H = stmtSites H st := rfl

@[simp] theorem itemsSites_exprs (es : List Expr) :
    itemsSites H (es.map exprPart) = exprsSites H es := by
  induction es with
  | nil => rfl
  | cons e es ih => exact congrArg (exprSites H e ++ ·) ih

@[simp] theorem exprsSites_toList (e : Option Expr) : exprsSites H e.toList = exprSites? H e := by
  cases e with
  | none => rfl
  | some e => exact List.append_nil _

@[simp] theorem stmtsSites_toList (st : Option Stmt) : stmtsSites H st.toList = stmtSites? H st := by
  cases st with
  | none => rfl
  | some st => exact List.append_nil _

@[simp] theorem itemsSites_stmts (clauses : List CatchClause) (sts : List Stmt) :
    itemsSites H (sts.map fun st => .part (.stmt st) clauses) =
      stmtsSites (caughtGuards clauses ++ H) sts := by
  induction sts with
  | nil => rfl
  | cons st sts ih => exact congrArg (stmtSites _ st ++ ·) ih

@[simp] theorem itemsSites_body (sts : List Stmt) : itemsSites H (sts.map stmtPart) = stmtsSites H sts :=
  itemsSites_stmts H [] sts

@[simp] theorem itemsSites_labels (selector : Expr) (labels : List Expr) :
    itemsSites H (labels.map (labelItem selector)) = labelsSites H selector labels := by
  induction labels with
  | nil => rfl
  | cons e rest ih =>
    rw [List.map_cons, itemsSites_cons, ih]
    by_cases hname : ∃ s n, e = .name s n
    · obtain ⟨s, n, rfl⟩ := hname
      rfl
    · have hname' := fun s n h => hname ⟨s, n, h⟩
      rw [labelsSites_cons H selector hname']
      unfold labelItem
      split
      · exact absurd rfl (hname' _ _)
      · rfl

@[simp] theorem itemsSites_cases (selector : Expr) (cases : List SwitchCase) :
    itemsSites H (cases.flatMap (caseItems selector)) = casesSites H selector cases := by
  induction cases with
  | nil => rfl
  | cons c rest ih =>
    rw [List.flatMap_cons, itemsSites_append, ih, caseItems, itemsSites_append, itemsSites_labels,
      itemsSites_body]
    cases c
    rfl

@[simp] theorem itemsSites_vars (decls : List LocalVar) :
    itemsSites H (decls.flatMap fun v => v.init.toList.map exprPart) = varsSites H decls := by
  induction decls with
  | nil => rfl
  | cons v rest ih =>
    rw [List.flatMap_cons, itemsSites_append, ih, itemsSites_exprs, exprsSites_toList]
    cases v
    rfl

@[simp] theorem itemsSites_clauses (catches : List CatchClause) :
    itemsSites H (catches.flatMap clauseItems) = catchesSites H catches := by
  induction catches with
  | nil => rfl
  | cons c rest ih =>
    have htypes : itemsSites H (c.types.map fun t => .event (.typeUse t)) =
        c.types.map fun t => ⟨.typeUse t, H⟩ := by
      simp [itemsSites, List.flatMap_map, Item.sites, ← List.map_eq_flatMap]
    rw [List.flatMap_cons, itemsSites_append, ih, clauseItems, itemsSites_append, htypes,
      itemsSites_body]
    obtain ⟨types, n, ⟨stmts, _⟩, _⟩ := c
    rfl

theorem exprSites_eq (e : Expr) : exprSites H e = itemsSites H (exprItems e) := by
  cases e with
  | new s type args body =>
    cases body <;> simp [exprItems, exprSites]
  | _ => simp [exprItems, Expr.children, exprSites]

theorem stmtSites_eq (st : Stmt) : stmtSites H st = itemsSites H (stmtItems st) := by
  cases st with
  | block s body =>
    cases body
    simp [stmtItems, stmtSites]
  | synchronized s lock body =>
    cases body
    simp [stmtItems, stmtSites]
  | tryCatch s withResources resources body catches always =>
    obtain ⟨stmts, _⟩ := body
    rcases always with _ | ⟨closing, _⟩ <;> cases withResources <;>
      simp [stmtItems, stmtSites, blockSites?]
  | _ => simp [stmtItems, stmtSites]

/-- The sites of a piece are the sites of what it directly consists of. -/
theorem sites_eq (p : Piece) : p.sites H = itemsSites H p.items := by
  cases p with
  | expr e => exact exprSites_eq H e
  | stmt st => exact stmtSites_eq H st

end Unfolding

noncomputable def Piece.size : Piece → Nat
  | .expr e => sizeOf e
  | .stmt st => sizeOf st

/-- All parts among the items are smaller than a bound. -/
def PartsBelow (n : Nat) (items : List Item) : Prop :=
  ∀ q clauses, .part q clauses ∈ items → q.size < n

namespace PartsBelow

variable {n : Nat}

theorem nil : PartsBelow n [] := nofun

theorem append {items items' : List Item} (h : PartsBelow n items) (h' : PartsBelow n items') :
    PartsBelow n (items ++ items') :=
  fun q clauses hq => (List.mem_append.mp hq).elim (h q clauses) (h' q clauses)

theorem event {items : List Item} (ev : Event) (h : PartsBelow n items) :
    PartsBelow n (.event ev :: items) :=
  fun q clauses hq => h q clauses ((List.mem_cons.mp hq).resolve_left nofun)

theorem part {items : List Item} {p : Piece} {clauses : List CatchClause} (hp : p.size < n)
    (h : PartsBelow n items) : PartsBelow n (.part p clauses :: items) := by
  intro q clauses' hq
  rcases List.mem_cons.mp hq with hq | hq
  · cases hq
    exact hp
  · exact h q clauses' hq

theorem flatMap {α : Type} {l : List α} {f : α → List Item} (h : ∀ a ∈ l, PartsBelow n (f a)) :
    PartsBelow n (l.flatMap f) := by
  intro q clauses hq
  obtain ⟨a, ha, hq⟩ := List.mem_flatMap.mp hq
  exact h a ha q clauses hq

theorem map {α : Type} {l : List α} {f : α → Item}
    (h : ∀ a ∈ l, ∀ q clauses, f a = .part q clauses → q.size < n) : PartsBelow n (l.map f) := by
  intro q clauses hq
  obtain ⟨a, ha, hq⟩ := List.mem_map.mp hq
  exact h a ha q clauses hq

theorem exprs {es : List Expr} (h : sizeOf es ≤ n) : PartsBelow n (es.map exprPart) := by
  refine map fun e he q clauses hq => ?_
  cases hq
  exact Nat.lt_of_lt_of_le (List.sizeOf_lt_of_mem he) h

theorem stmts {sts : List Stmt} (h : sizeOf sts ≤ n) (clauses : List CatchClause) :
    PartsBelow n (sts.map fun st => .part (.stmt st) clauses) := by
  refine map fun st hst q clauses hq => ?_
  cases hq
  exact Nat.lt_of_lt_of_le (List.sizeOf_lt_of_mem hst) h

theorem expr? {e : Option Expr} (h : sizeOf e ≤ n) : PartsBelow n (e.toList.map exprPart) := by
  cases e with
  | none => exact nil
  | some e => exact part (Nat.lt_of_lt_of_le (by simp [Piece.size]) h) nil

theorem stmt? {st : Option Stmt} (h : sizeOf st ≤ n) : PartsBelow n (st.toList.map stmtPart) := by
  cases st with
  | none => exact nil
  | some st => exact part (Nat.lt_of_lt_of_le (by simp [Piece.size]) h) nil

theorem cases {selector : Expr} {cs : List SwitchCase} (h : sizeOf cs ≤ n) :
    PartsBelow n (cs.flatMap (caseItems selector)) := by
  refine flatMap fun c hc => ?_
  have hc := Nat.lt_of_lt_of_le (List.sizeOf_lt_of_mem hc) h
  obtain ⟨labels, _, _, body, _⟩ := c
  change PartsBelow n (labels.map (labelItem selector) ++ body.map stmtPart)
  simp only [SwitchCase.mk.sizeOf_spec] at hc
  refine append (map fun e he q clauses hq => ?_) (stmts (by omega) [])
  have he := List.sizeOf_lt_of_mem he
  unfold labelItem at hq
  split at hq
  · cases hq
  · cases hq
    simp only [Piece.size]
    omega

theorem clauses {cs : List CatchClause} (h : sizeOf cs ≤ n) :
    PartsBelow n (cs.flatMap clauseItems) := by
  refine flatMap fun c hc => ?_
  have hc := Nat.lt_of_lt_of_le (List.sizeOf_lt_of_mem hc) h
  obtain ⟨types, _, ⟨body, _⟩, _⟩ := c
  change PartsBelow n (types.map (fun t => .event (.typeUse t)) ++ body.map stmtPart)
  simp only [CatchClause.mk.sizeOf_spec, Block.mk.sizeOf_spec] at hc
  exact append (map nofun) (stmts (by omega) [])

theorem vars {decls : List LocalVar} (h : sizeOf decls ≤ n) :
    PartsBelow n (decls.flatMap fun v => v.init.toList.map exprPart) := by
  refine flatMap fun v hv => ?_
  have hv := Nat.lt_of_lt_of_le (List.sizeOf_lt_of_mem hv) h
  obtain ⟨_, _, _, init, _, _⟩ := v
  simp only [LocalVar.mk.sizeOf_spec] at hv
  exact expr? (show sizeOf init ≤ n by omega)

theorem sizeOf_lt_of_mem_children {e c : Expr} (h : c ∈ e.children) : sizeOf c < sizeOf e := by
  cases e with
  | name | lambda | literal | classLit | this | super => cases h
  | call s target n args =>
    rw [Expr.call.sizeOf_spec]
    rcases List.mem_append.mp h with h | h
    · cases target with
      | none => cases h
      | some e =>
        rw [List.mem_singleton.mp h, Option.some.sizeOf_spec]
        omega
    · have hc := List.sizeOf_lt_of_mem h
      omega
  | newArray s type dims init =>
    rw [Expr.newArray.sizeOf_spec]
    rcases List.mem_append.mp h with h | h
    · have hc := List.sizeOf_lt_of_mem h
      omega
    · have hc := List.sizeOf_lt_of_mem h
      omega
  | new s type args body | arrayInit s args | unknown s args =>
    have hc : sizeOf c < sizeOf args := List.sizeOf_lt_of_mem h
    simp +arith
    omega
  | fieldAccess | unary | cast | instanceOf | methodRef | switch =>
    rw [List.mem_singleton.mp h]
    simp +arith
  | binary s op a b | assign s a b | arrayAccess s a b =>
    rcases List.mem_cons.mp h with rfl | h
    · simp +arith
    · rw [List.mem_singleton.mp h]
      simp +arith
  | conditional s cond yes no =>
    rcases List.mem_cons.mp h with rfl | h
    · simp +arith
    rcases List.mem_cons.mp h with rfl | h
    · simp +arith
    · rw [List.mem_singleton.mp h]
      simp +arith

theorem exprItems (e : Expr) : PartsBelow (sizeOf e) (Flow.exprItems e) := by
  have hchildren : PartsBelow (sizeOf e) (e.children.map exprPart) := by
    refine map fun c hc q clauses hq => ?_
    cases hq
    exact sizeOf_lt_of_mem_children hc
  cases e with
  | name | fieldAccess | call | methodRef => exact hchildren.append (event _ nil)
  | new s type args body => exact hchildren.append (event _ (map nofun))
  | instanceOf s operand type => exact hchildren.append (event _ nil)
  | lambda | classLit => exact event _ nil
  | switch s selector cs => exact hchildren.append (cases (by simp +arith))
  | _ => exact hchildren

theorem stmtItems (st : Stmt) : PartsBelow (sizeOf st) (Flow.stmtItems st) := by
  cases st with
  | block s body =>
    obtain ⟨sts, _⟩ := body
    exact stmts (by simp +arith) []
  | vars s decls => exact vars (by simp +arith)
  | expr s e | throws s e | yields s e => exact part (by simp +arith [Piece.size]) nil
  | returns s e => exact expr? (by simp +arith)
  | ifElse s cond yes no =>
    exact part (by simp +arith [Piece.size])
      (part (by simp +arith [Piece.size]) (stmt? (by simp +arith)))
  | whileLoop | doWhile | forEach =>
    exact part (by simp +arith [Piece.size]) (part (by simp +arith [Piece.size]) nil)
  | forLoop s init cond update body =>
    exact ((stmts (by simp +arith) []).append (expr? (by simp +arith))).append
      (part (by simp +arith [Piece.size]) (exprs (by simp +arith)))
  | switch s selector cs => exact part (by simp +arith [Piece.size]) (cases (by simp +arith))
  | tryCatch s withResources resources body catches always =>
    obtain ⟨sts, span⟩ := body
    have hevent : PartsBelow (sizeOf (Stmt.tryCatch s withResources resources ⟨sts, span⟩ catches
        always)) (if withResources then [.event (.tryWithResources s)] else []) := by
      cases withResources with
      | true => exact event _ nil
      | false => exact nil
    have hclosing : PartsBelow (sizeOf (Stmt.tryCatch s withResources resources ⟨sts, span⟩ catches
        always)) (always.toList.flatMap fun b => b.stmts.map stmtPart) := by
      rcases always with _ | ⟨closing, _⟩
      · exact nil
      · exact (stmts (by simp +arith) []).append nil
    exact (((hevent.append (stmts (by simp +arith) _)).append (stmts (by simp +arith) _)).append
      (clauses (by simp +arith))).append hclosing
  | labeled s label body => exact part (by simp +arith [Piece.size]) nil
  | synchronized s lock body =>
    obtain ⟨sts, _⟩ := body
    exact part (by simp +arith [Piece.size]) (stmts (by simp +arith) [])
  | localClass s d => exact event _ nil
  | asserts s cond message => exact part (by simp +arith [Piece.size]) (expr? (by simp +arith))
  | breaks | continues | empty => exact nil

end PartsBelow

theorem Piece.size_lt_of_part {p q : Piece} {clauses : List CatchClause}
    (h : .part q clauses ∈ p.items) : q.size < p.size := by
  cases p with
  | expr e => exact PartsBelow.exprItems e q clauses h
  | stmt st => exact PartsBelow.stmtItems st q clauses h

/-- Something that a check looks at, with the clauses of all statements whose resources or
body it is in, the innermost first. -/
structure Placed where
  event : Event
  clauses : List CatchClause

/-- The place as seen from around a statement with handlers. -/
def Placed.inside (clauses : List CatchClause) (x : Placed) : Placed :=
  { x with clauses := x.clauses ++ clauses }

/-- What a check looks at in a piece. -/
def Piece.places (p : Piece) : List Placed :=
  p.items.attach.flatMap fun
    | ⟨.event ev, _⟩ => [⟨ev, []⟩]
    | ⟨.part q clauses, _⟩ => q.places.map (Placed.inside clauses)
termination_by p.size
decreasing_by exact Piece.size_lt_of_part ‹_›

def Item.places : Item → List Placed
  | .event ev => [⟨ev, []⟩]
  | .part q clauses => q.places.map (Placed.inside clauses)

theorem Piece.places_eq (p : Piece) : p.places = p.items.flatMap Item.places := by
  have hitems : p.items.attach.flatMap (fun item => item.val.places) =
      p.items.flatMap Item.places := by
    rw [← List.flatMap_map, List.attach_map_subtype_val]
  rw [Piece.places, ← hitems]
  refine congrArg p.items.attach.flatMap (funext fun item => ?_)
  obtain ⟨item, hitem⟩ := item
  cases item <;> rfl

def Placed.site (H : List Guard) (x : Placed) : Site := ⟨x.event, caughtGuards x.clauses ++ H⟩

theorem Placed.site_inside (H : List Guard) (clauses : List CatchClause) (x : Placed) :
    (x.inside clauses).site H = x.site (caughtGuards clauses ++ H) := by
  simp [Placed.site, Placed.inside, caughtGuards]

/-- The sites of a piece are what a check looks at in it, and their handlers those of the
clauses around them. -/
theorem Piece.sites_eq_places (H : List Guard) (p : Piece) :
    p.sites H = p.places.map (Placed.site H) := by
  rw [sites_eq, Piece.places_eq, List.map_flatMap]
  refine List.flatMap_congr fun item hitem => ?_
  cases item with
  | event ev => rfl
  | part q clauses =>
    have hsmaller := Piece.size_lt_of_part hitem
    have ih := Piece.sites_eq_places (caughtGuards clauses ++ H) q
    simp only [Item.sites, Item.places, ih, List.map_map, Function.comp_def, Placed.site_inside]
termination_by p.size

end LevelGuard.Flow

namespace LevelGuard.Project.Code

open LevelGuard.Flow

/-- What a check looks at in a piece of code. -/
def places (c : Code) : List Placed :=
  match c.steps with
  | .block b => b.stmts.flatMap fun st => (Piece.stmt st).places
  | .exprs es => es.flatMap fun e => (Piece.expr e).places

theorem sites_eq_places (c : Code) : c.sites = c.places.map (Placed.site []) := by
  unfold sites places
  cases c.steps with
  | block b =>
    have hstmts : stmtsSites [] b.stmts = b.stmts.flatMap fun st => (Piece.stmt st).sites [] := by
      rw [← itemsSites_body, itemsSites, List.flatMap_map]
      rfl
    simp only [hstmts, Piece.sites_eq_places, List.map_flatMap]
  | exprs es =>
    have hexprs : exprsSites [] es = es.flatMap fun e => (Piece.expr e).sites [] := by
      rw [← itemsSites_exprs, itemsSites, List.flatMap_map]
      rfl
    simp only [hexprs, Piece.sites_eq_places, List.map_flatMap]

end LevelGuard.Project.Code
