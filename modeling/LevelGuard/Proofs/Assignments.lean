import LevelGuard.Proofs.Nodes

/-!
# Where variables are assigned to

The names that the code assigns to are looked for in expressions, statements and nested
types, but not in the labels of cases, where a condition may assign to a field. Here all
assignments that are written are compared with those that are found.
-/
namespace LevelGuard.Java

def Node.assigned? : Node → Option String
  | .expr (.assign _ target _) => target.lastName?
  | _ => none

def assignedIn (nodes : List Node) : List String := nodes.filterMap Node.assigned?

def assignedInLabels (nodes : List Node) : List String :=
  nodes.flatMap fun
    | .switchCase c => assignedIn (exprsNodes c.labels)
    | _ => []

@[simp] theorem assignedIn_append (ns ns' : List Node) :
    assignedIn (ns ++ ns') = assignedIn ns ++ assignedIn ns' :=
  List.filterMap_append

@[simp] theorem assignedInLabels_append (ns ns' : List Node) :
    assignedInLabels (ns ++ ns') = assignedInLabels ns ++ assignedInLabels ns' :=
  List.flatMap_append

theorem assignedInLabels_switchCase (c : SwitchCase) (ns : List Node) :
    assignedInLabels (.switchCase c :: ns) =
      assignedIn (exprsNodes c.labels) ++ assignedInLabels ns :=
  List.flatMap_cons

theorem assignedIn_labelsNodes (selector : Expr) (labels : List Expr) :
    assignedIn (labelsNodes selector labels) = assignedIn (exprsNodes labels) := by
  induction labels with
  | nil => rfl
  | cons e rest ih =>
    cases e with
    | name s n => exact ih
    | _ =>
      change assignedIn (exprNodes _ ++ labelsNodes selector rest) =
        assignedIn (exprNodes _ ++ exprsNodes rest)
      rw [assignedIn_append, assignedIn_append, ih]

/-- All names that are assigned to are found, except for those in the labels of cases. -/
def Finds (nodes : List Node) (names : List String) : Prop :=
  ∀ x ∈ assignedIn nodes, x ∈ names ∨ x ∈ assignedInLabels nodes

namespace Finds

variable {ns ns' : List Node} {n : Node} {names names' : List String}

theorem nil : Finds [] names := nofun

theorem mono (h : Finds ns names) (hnames : names ⊆ names') : Finds ns names' :=
  fun x hx => (h x hx).imp_left (@hnames x)

theorem append (h : Finds ns names) (h' : Finds ns' names') : Finds (ns ++ ns') (names ++ names') := by
  intro x hx
  rw [assignedIn_append] at hx
  rw [assignedInLabels_append]
  rcases List.mem_append.mp hx with hx | hx
  · exact (h x hx).imp (List.mem_append_left _) (List.mem_append_left _)
  · exact (h' x hx).imp (List.mem_append_right _) (List.mem_append_right _)

theorem swapped (h : Finds ns names) (h' : Finds ns' names') : Finds (ns ++ ns') (names' ++ names) :=
  (h.append h').mono (by simp)

theorem cons (hn : n.assigned? = none) (h : Finds ns names) : Finds (n :: ns) names := by
  intro x hx
  rw [assignedIn, List.filterMap_cons_none hn] at hx
  exact (h x hx).imp_right (List.mem_append_right _)

theorem concat (hn : n.assigned? = none) (h : Finds ns names) : Finds (ns ++ [n]) names := by
  have hone : Finds [n] [] := nil.cons hn
  have := h.append hone
  rwa [List.append_nil] at this

/-- What the labels of a case assign to need not be found. -/
theorem switchCase (selector : Expr) (c : SwitchCase) (h : Finds (ns ++ ns') names) :
    Finds (.switchCase c :: (labelsNodes selector c.labels ++ ns ++ ns')) names := by
  intro x hx
  rw [List.append_assoc] at hx ⊢
  rw [assignedInLabels_switchCase, assignedInLabels_append]
  rcases List.mem_append.mp (assignedIn_append .. ▸ hx) with hx | hx
  · rw [assignedIn_labelsNodes] at hx
    exact .inr (List.mem_append_left _ hx)
  · exact (h x hx).imp_right fun hx => List.mem_append_right _ (List.mem_append_right _ hx)

end Finds

open LevelGuard.Flow

mutual

theorem finds_exprAssigned : (e : Expr) → Finds (exprNodes e) (exprAssigned e)
  | .name .. | .literal .. | .classLit .. | .this _ | .super _ => .cons rfl .nil
  | .fieldAccess _ target _ => (finds_exprAssigned target).concat rfl
  | .call _ target _ args =>
    ((finds_exprAssigned? target).append (finds_exprsAssigned args)).concat rfl
  | .new _ _ args body => (finds_exprsAssigned args).swapped ((finds_declAssigned? body).cons rfl)
  | .newArray _ _ dims init =>
    ((finds_exprsAssigned dims).append (finds_exprsAssigned init)).concat rfl
  | .arrayInit _ items => (finds_exprsAssigned items).concat rfl
  | .binary _ _ lhs rhs => ((finds_exprAssigned lhs).append (finds_exprAssigned rhs)).concat rfl
  | .unary _ _ operand => (finds_exprAssigned operand).concat rfl
  | .conditional _ cond yes no =>
    (((finds_exprAssigned cond).append (finds_exprAssigned yes)).append
      (finds_exprAssigned no)).concat rfl
  | .assign s target value => by
    have hparts := (finds_exprAssigned target).append (finds_exprAssigned value)
    have hown : Finds [.expr (.assign s target value)] target.lastName?.toList := by
      intro x hx
      left
      obtain ⟨n, hn, hx⟩ := List.mem_filterMap.mp hx
      obtain rfl := List.mem_singleton.mp hn
      exact Option.mem_toList.mpr hx
    have hall := hparts.swapped hown
    rw [← List.append_assoc] at hall
    exact hall
  | .cast _ _ operand => (finds_exprAssigned operand).concat rfl
  | .instanceOf _ operand _ => (finds_exprAssigned operand).concat rfl
  | .lambda _ _ (.expr e) => (finds_exprAssigned e).cons rfl
  | .lambda _ _ (.block ⟨stmts, _⟩) => (finds_stmtsAssigned stmts).cons rfl
  | .methodRef _ target _ => (finds_exprAssigned target).concat rfl
  | .arrayAccess _ array index =>
    ((finds_exprAssigned array).append (finds_exprAssigned index)).concat rfl
  | .switch _ selector cases =>
    ((finds_exprAssigned selector).swapped (finds_casesAssigned selector cases)).concat rfl
  | .unknown _ parts => (finds_exprsAssigned parts).concat rfl

theorem finds_exprAssigned? : (e : Option Expr) → Finds (exprNodes? e) (exprAssigned? e)
  | none => .nil
  | some e => finds_exprAssigned e

theorem finds_exprsAssigned : (es : List Expr) → Finds (exprsNodes es) (exprsAssigned es)
  | [] => .nil
  | e :: es => (finds_exprAssigned e).append (finds_exprsAssigned es)

theorem finds_blockAssigned? : (b : Option Block) → Finds (blockNodes? b) (blockAssigned? b)
  | none => .nil
  | some ⟨stmts, _⟩ => finds_stmtsAssigned stmts

theorem finds_varsAssigned : (decls : List LocalVar) → Finds (varsNodes decls) (varsAssigned decls)
  | [] => .nil
  | ⟨_, _, _, init, _, _⟩ :: rest => (finds_exprAssigned? init).append (finds_varsAssigned rest)

theorem finds_stmtAssigned : (st : Stmt) → Finds (stmtNodes st) (stmtAssigned st)
  | .block _ ⟨stmts, _⟩ => (finds_stmtsAssigned stmts).cons rfl
  | .vars _ decls => (finds_varsAssigned decls).cons rfl
  | .expr _ e | .throws _ e | .yields _ e => (finds_exprAssigned e).cons rfl
  | .returns _ e => (finds_exprAssigned? e).cons rfl
  | .ifElse _ cond yes no =>
    (((finds_exprAssigned cond).append (finds_stmtAssigned yes)).append
      (finds_stmtAssigned? no)).cons rfl
  | .whileLoop _ cond body => ((finds_exprAssigned cond).append (finds_stmtAssigned body)).cons rfl
  | .doWhile _ body cond => ((finds_stmtAssigned body).swapped (finds_exprAssigned cond)).cons rfl
  | .forLoop _ init cond update body => by
    have hparts := (((finds_stmtsAssigned init).append (finds_exprAssigned? cond)).append
      (finds_stmtAssigned body)).append (finds_exprsAssigned update)
    refine Finds.cons rfl (hparts.mono fun x hx => ?_)
    change x ∈ exprAssigned? cond ++ exprsAssigned update ++ stmtsAssigned init ++ stmtAssigned body
    simp only [List.mem_append] at hx ⊢
    grind
  | .forEach _ _ iterable body =>
    ((finds_exprAssigned iterable).append (finds_stmtAssigned body)).cons rfl
  | .switch _ selector cases =>
    ((finds_exprAssigned selector).append (finds_casesAssigned selector cases)).cons rfl
  | .tryCatch _ _ resources ⟨stmts, _⟩ catches always =>
    ((((finds_stmtsAssigned resources).append (finds_stmtsAssigned stmts)).append
      (finds_catchesAssigned catches)).append (finds_blockAssigned? always)).cons rfl
  | .labeled _ _ body => (finds_stmtAssigned body).cons rfl
  | .synchronized _ lock ⟨stmts, _⟩ =>
    ((finds_exprAssigned lock).append (finds_stmtsAssigned stmts)).cons rfl
  | .localClass _ d => (finds_declAssigned d).cons rfl
  | .asserts _ cond message =>
    ((finds_exprAssigned cond).append (finds_exprAssigned? message)).cons rfl
  | .breaks .. | .continues .. | .empty _ => .cons rfl .nil

theorem finds_stmtAssigned? : (st : Option Stmt) → Finds (stmtNodes? st) (stmtAssigned? st)
  | none => .nil
  | some st => finds_stmtAssigned st

theorem finds_stmtsAssigned : (stmts : List Stmt) → Finds (stmtsNodes stmts) (stmtsAssigned stmts)
  | [] => .nil
  | st :: rest => (finds_stmtAssigned st).append (finds_stmtsAssigned rest)

theorem finds_casesAssigned (selector : Expr) :
    (cases : List SwitchCase) → Finds (casesNodes selector cases) (casesAssigned cases)
  | [] => .nil
  | ⟨labels, isDefault, isRule, body, span⟩ :: rest =>
    ((finds_stmtsAssigned body).append (finds_casesAssigned selector rest)).switchCase selector
      ⟨labels, isDefault, isRule, body, span⟩

theorem finds_catchesAssigned :
    (catches : List CatchClause) → Finds (catchesNodes catches) (catchesAssigned catches)
  | [] => .nil
  | ⟨_, _, ⟨stmts, _⟩, _⟩ :: rest =>
    ((finds_stmtsAssigned stmts).append (finds_catchesAssigned rest)).cons rfl

theorem finds_declAssigned : (d : TypeDecl) → Finds (declNodes d) (declAssigned d)
  | ⟨_, _, _, _, _, _, members, _⟩ => (finds_membersAssigned members).cons rfl

theorem finds_declAssigned? : (d : Option TypeDecl) → Finds (declNodes? d) (declAssigned? d)
  | none => .nil
  | some d => finds_declAssigned d

theorem finds_membersAssigned :
    (members : List Member) → Finds (membersNodes members) (membersAssigned members)
  | [] => .nil
  | .method ⟨_, _, _, _, _, _, _, _, body, _, _⟩ :: rest =>
    ((finds_blockAssigned? body).append (finds_membersAssigned rest)).cons rfl
  | .field ⟨_, _, _, _, _, _, init, _⟩ :: rest =>
    ((finds_exprAssigned? init).append (finds_membersAssigned rest)).cons rfl
  | .type d :: rest => ((finds_declAssigned d).append (finds_membersAssigned rest)).cons rfl
  | .initializer _ ⟨stmts, _⟩ :: rest =>
    ((finds_stmtsAssigned stmts).append (finds_membersAssigned rest)).cons rfl
  | .constant ⟨_, _, args, body, _⟩ :: rest =>
    (((finds_exprsAssigned args).append (finds_declAssigned? body)).append
      (finds_membersAssigned rest)).cons rfl

end

/-- The recogniser of a file knows all names that are assigned to outside of labels. -/
theorem finds_ofUnit (u : CompilationUnit) : Finds u.nodes (Recognizer.ofUnit u).assigned := by
  change Finds (u.types.flatMap declNodes) (u.types.flatMap declAssigned)
  induction u.types with
  | nil => exact .nil
  | cons d rest ih => exact (finds_declAssigned d).append ih

end LevelGuard.Java
