import LevelGuard.Java.Depth
import LevelGuard.Proofs.Nodes
import LevelGuard.Proofs.Sites

/-!
# What is checked at the sites of code

Whatever the nodes of a piece of code ask to be checked is at its sites, or in the code that
begins at one of them. The code that begins at a site is less deep than the code around it.
-/
namespace LevelGuard

namespace Project.Code

open Java

def depth (c : Code) : Nat :=
  match c.steps with
  | .block b => stmtsDepth b.stmts
  | .exprs es => exprsDepth es

end Project.Code

namespace Flow

open Java Project

/-- How deep the code that begins at a site is. -/
def eventDepth : Event → Nat
  | .lambda params body => (Code.ofLambda params body).depth + 1
  | .classBody d => declDepth d
  | _ => 0

/-- The code that begins at the sites is not deeper than this. -/
def Below (sites : List Site) (n : Nat) : Prop := ∀ s ∈ sites, eventDepth s.event ≤ n

namespace Below

variable {sites sites' : List Site} {s : Site} {m n : Nat}

theorem nil : Below [] n := nofun

theorem mono (h : Below sites m) (hle : m ≤ n) : Below sites n :=
  fun s hs => Nat.le_trans (h s hs) hle

theorem cons (hs : eventDepth s.event ≤ n) (h : Below sites n) : Below (s :: sites) n :=
  List.forall_mem_cons.mpr ⟨hs, h⟩

theorem append (h : Below sites m) (h' : Below sites' n) : Below (sites ++ sites') (max m n) :=
  List.forall_mem_append.mpr ⟨h.mono (Nat.le_max_left m n), h'.mono (Nat.le_max_right m n)⟩

end Below

end Flow

namespace Check

open Java Project LevelGuard.Flow

/-- What a check is made of. -/
inductive Subject where
  | event (event : Event)
  | declaration (decl : Declaration)

/-- What a node asks to be checked. -/
def nodeSubjects : Node → List Subject
  | .expr e =>
    match e with
    | .name .. | .fieldAccess .. | .call .. | .new .. | .methodRef .. => [.event (.reference e)]
    | .classLit _ type | .instanceOf _ _ type => [.event (.typeUse type)]
    | .lambda _ params body => [.event (.lambda params body)]
    | _ => []
  | .label name selector => [.event (.caseLabel name selector)]
  | .stmt (.tryCatch s true _ _ _ _) => [.event (.tryWithResources s)]
  | .stmt _ | .switchCase _ => []
  | .clause c => c.types.map fun t => .event (.typeUse t)
  | .declaration d => [.declaration d]

def subjectsOf (nodes : List Node) : List Subject := nodes.flatMap nodeSubjects

/-- What is checked for a site and for the code that begins there. -/
def eventSubjects : Event → List Subject
  | .lambda params body =>
    .event (.lambda params body) :: subjectsOf (Code.ofLambda params body).nodes
  | .classBody d => subjectsOf (declNodes d)
  | event => [.event event]

def sitesSubjects (sites : List Site) : List Subject := sites.flatMap fun s => eventSubjects s.event

section Subjects

@[simp] theorem subjectsOf_nil : subjectsOf [] = [] := rfl

@[simp] theorem subjectsOf_cons (node : Node) (nodes : List Node) :
    subjectsOf (node :: nodes) = nodeSubjects node ++ subjectsOf nodes := rfl

@[simp] theorem subjectsOf_append (nodes nodes' : List Node) :
    subjectsOf (nodes ++ nodes') = subjectsOf nodes ++ subjectsOf nodes' := List.flatMap_append

theorem subjectsOf_flatMap {α : Type} (l : List α) (f : α → List Node) :
    subjectsOf (l.flatMap f) = l.flatMap fun a => subjectsOf (f a) := List.flatMap_assoc

@[simp] theorem sitesSubjects_nil : sitesSubjects [] = [] := rfl

@[simp] theorem sitesSubjects_cons (s : Site) (sites : List Site) :
    sitesSubjects (s :: sites) = eventSubjects s.event ++ sitesSubjects sites := rfl

@[simp] theorem sitesSubjects_append (sites sites' : List Site) :
    sitesSubjects (sites ++ sites') = sitesSubjects sites ++ sitesSubjects sites' :=
  List.flatMap_append

end Subjects

/-- What the nodes ask to be checked is at the sites, in this order, and the code that begins
there is not deeper than this. -/
structure Covers (nodes : List Node) (sites : List Site) (n : Nat) : Prop where
  subjects : subjectsOf nodes = sitesSubjects sites
  below : Below sites n

namespace Covers

variable {ns ns' ns'' : List Node} {ss ss' ss'' : List Site} {x : Node} {s : Site} {k m n : Nat}

theorem nil : Covers [] [] n := ⟨rfl, .nil⟩

theorem mono (h : Covers ns ss m) (hle : m ≤ n) : Covers ns ss n := ⟨h.subjects, h.below.mono hle⟩

theorem both (h : Covers ns ss m) (h' : Covers ns' ss' n) :
    Covers (ns ++ ns') (ss ++ ss') (max m n) := by
  refine ⟨?_, h.below.append h'.below⟩
  rw [subjectsOf_append, sitesSubjects_append, h.subjects, h'.subjects]

theorem swapped (h : Covers ns ss m) (h' : Covers ns' ss' n) :
    Covers (ns ++ ns') (ss ++ ss') (max n m) :=
  Nat.max_comm m n ▸ h.both h'

theorem three (h : Covers ns ss k) (h' : Covers ns' ss' m) (h'' : Covers ns'' ss'' n) :
    Covers (ns ++ ns' ++ ns'') (ss ++ ss' ++ ss'') (max k (max m n)) :=
  Nat.max_assoc k m n ▸ (h.both h').both h''

/-- A node that asks for nothing comes first. -/
theorem head (h : Covers ns ss k) (hx : nodeSubjects x = []) : Covers (x :: ns) ss k := by
  refine ⟨?_, h.below⟩
  rw [subjectsOf_cons, hx, h.subjects, List.nil_append]

/-- A node that asks for nothing comes last. -/
theorem quiet (h : Covers ns ss k) (hx : nodeSubjects x = []) : Covers (ns ++ [x]) ss k := by
  refine ⟨?_, h.below⟩
  rw [subjectsOf_append, subjectsOf_cons, hx, h.subjects, subjectsOf_nil, List.append_nil,
    List.append_nil]

/-- A node comes first, with a site where no code begins. -/
theorem lead (h : Covers ns ss k) (hx : nodeSubjects x = eventSubjects s.event)
    (hs : eventDepth s.event = 0) : Covers (x :: ns) (s :: ss) k := by
  refine ⟨?_, h.below.cons (hs ▸ Nat.zero_le k)⟩
  rw [subjectsOf_cons, sitesSubjects_cons, hx, h.subjects]

/-- A node comes last, with a site where no code begins. -/
theorem event (h : Covers ns ss k) (hx : nodeSubjects x = eventSubjects s.event)
    (hs : eventDepth s.event = 0) : Covers (ns ++ [x]) (ss ++ [s]) k :=
  (h.both (Covers.lead .nil hx hs)).mono (Nat.max_le.mpr ⟨Nat.le_refl k, Nat.zero_le k⟩)

theorem clause (H : List Guard) (c : CatchClause) (h : Covers ns ss k) :
    Covers (.clause c :: ns) (c.types.map (fun t => ⟨.typeUse t, H⟩) ++ ss) k := by
  have htypes : sitesSubjects (c.types.map fun t => ⟨.typeUse t, H⟩) = nodeSubjects (.clause c) := by
    simp [sitesSubjects, eventSubjects, nodeSubjects, List.flatMap_map, ← List.map_eq_flatMap]
  refine ⟨?_, List.forall_mem_append.mpr ⟨?_, h.below⟩⟩
  · rw [subjectsOf_cons, sitesSubjects_append, htypes, h.subjects]
  · intro s hs
    obtain ⟨t, -, rfl⟩ := List.mem_map.mp hs
    exact Nat.zero_le k

theorem classBody (H : List Guard) (d : TypeDecl) :
    Covers (declNodes d) [⟨.classBody d, H⟩] (declDepth d) :=
  ⟨(List.append_nil _).symm, .cons (Nat.le_refl _) .nil⟩

theorem classBody? (H : List Guard) (body : Option TypeDecl) :
    Covers (declNodes? body) (body.toList.map fun d => ⟨.classBody d, H⟩) (declDepth? body) := by
  cases body with
  | none => exact .nil
  | some d => exact .classBody H d

end Covers

mutual

theorem covers_expr (H : List Guard) : (e : Expr) → Covers (exprNodes e) (exprSites H e) (exprDepth e)
  | .name .. | .classLit .. => Covers.lead .nil rfl rfl
  | .literal .. | .this _ | .super _ => Covers.head .nil rfl
  | .fieldAccess _ target _ => (covers_expr H target).event rfl rfl
  | .call _ target _ args => ((covers_expr? H target).both (covers_exprs H args)).event rfl rfl
  | .new _ _ args body => (covers_exprs H args).both ((Covers.classBody? H body).lead rfl rfl)
  | .newArray _ _ dims init => ((covers_exprs H dims).both (covers_exprs H init)).quiet rfl
  | .arrayInit _ items => (covers_exprs H items).quiet rfl
  | .binary _ _ lhs rhs => ((covers_expr H lhs).both (covers_expr H rhs)).quiet rfl
  | .unary _ _ operand => (covers_expr H operand).quiet rfl
  | .conditional _ cond yes no =>
    ((covers_expr H cond).three (covers_expr H yes) (covers_expr H no)).quiet rfl
  | .assign _ target value => ((covers_expr H target).both (covers_expr H value)).quiet rfl
  | .cast _ _ operand => (covers_expr H operand).quiet rfl
  | .instanceOf _ operand _ => (covers_expr H operand).event rfl rfl
  | .lambda _ _ (.expr body) =>
    ⟨congrArg (_ :: ·) ((congrArg subjectsOf (List.append_nil (exprNodes body))).symm.trans
        (List.append_nil _).symm),
      .cons (Nat.le_of_eq (congrArg (· + 1) (Nat.max_zero _))) .nil⟩
  | .lambda _ _ (.block ⟨_, _⟩) =>
    ⟨congrArg (_ :: ·) (List.append_nil _).symm, .cons (Nat.le_refl _) .nil⟩
  | .methodRef _ target _ => (covers_expr H target).event rfl rfl
  | .arrayAccess _ array index => ((covers_expr H array).both (covers_expr H index)).quiet rfl
  | .switch _ selector cases =>
    ((covers_expr H selector).both (covers_cases H selector cases)).quiet rfl
  | .unknown _ parts => (covers_exprs H parts).quiet rfl

theorem covers_expr? (H : List Guard) :
    (e : Option Expr) → Covers (exprNodes? e) (exprSites? H e) (exprDepth? e)
  | none => .nil
  | some e => covers_expr H e

theorem covers_exprs (H : List Guard) :
    (es : List Expr) → Covers (exprsNodes es) (exprsSites H es) (exprsDepth es)
  | [] => .nil
  | e :: es => (covers_expr H e).both (covers_exprs H es)

theorem covers_labels (H : List Guard) (selector : Expr) : (labels : List Expr) →
    Covers (labelsNodes selector labels) (labelsSites H selector labels) (exprsDepth labels)
  | [] => .nil
  | e :: rest => by
    have he := covers_expr H e
    have hrest := covers_labels H selector rest
    cases e with
    | name s n => exact (hrest.lead rfl rfl).mono (Nat.le_max_right _ _)
    | _ => exact he.both hrest

theorem covers_cases (H : List Guard) (selector : Expr) : (cases : List SwitchCase) →
    Covers (casesNodes selector cases) (casesSites H selector cases) (casesDepth cases)
  | [] => .nil
  | ⟨labels, _, _, body, _⟩ :: rest =>
    ((covers_labels H selector labels).three (covers_stmts H body)
      (covers_cases H selector rest)).head rfl

theorem covers_vars (H : List Guard) :
    (decls : List LocalVar) → Covers (varsNodes decls) (varsSites H decls) (varsDepth decls)
  | [] => .nil
  | ⟨_, _, _, init, _, _⟩ :: rest => (covers_expr? H init).both (covers_vars H rest)

theorem covers_stmt (H : List Guard) : (st : Stmt) → Covers (stmtNodes st) (stmtSites H st) (stmtDepth st)
  | .block _ ⟨stmts, _⟩ => (covers_stmts H stmts).head rfl
  | .vars _ decls => (covers_vars H decls).head rfl
  | .expr _ e | .throws _ e | .yields _ e => (covers_expr H e).head rfl
  | .returns _ e => (covers_expr? H e).head rfl
  | .ifElse _ cond yes no =>
    ((covers_expr H cond).three (covers_stmt H yes) (covers_stmt? H no)).head rfl
  | .whileLoop _ cond body => ((covers_expr H cond).both (covers_stmt H body)).head rfl
  | .doWhile _ body cond => ((covers_stmt H body).swapped (covers_expr H cond)).head rfl
  | .forLoop _ init cond update body => by
    have hparts := (((covers_stmts H init).both (covers_expr? H cond)).both (covers_stmt H body)).both
      (covers_exprs H update)
    refine (hparts.mono ?_).head rfl
    rw [stmtDepth]
    omega
  | .forEach _ ⟨_, _, _, _, _, _⟩ iterable body =>
    (((covers_expr H iterable).both (covers_stmt H body)).mono (Nat.le_max_right _ _)).head rfl
  | .switch _ selector cases =>
    ((covers_expr H selector).both (covers_cases H selector cases)).head rfl
  | .tryCatch _ withResources resources ⟨stmts, _⟩ catches always => by
    have hbody := (covers_stmts (caughtGuards catches ++ H) resources).both
      (covers_stmts (caughtGuards catches ++ H) stmts)
    have hall := hbody.three (covers_catches H catches) (covers_block? H always)
    cases withResources with
    | true => exact hall.lead rfl rfl
    | false => exact hall.head rfl
  | .labeled _ _ body => (covers_stmt H body).head rfl
  | .synchronized _ lock ⟨stmts, _⟩ => ((covers_expr H lock).both (covers_stmts H stmts)).head rfl
  | .localClass _ d => (Covers.classBody H d).head rfl
  | .asserts _ cond message => ((covers_expr H cond).both (covers_expr? H message)).head rfl
  | .breaks .. | .continues .. | .empty _ => Covers.head .nil rfl

theorem covers_stmt? (H : List Guard) :
    (st : Option Stmt) → Covers (stmtNodes? st) (stmtSites? H st) (stmtDepth? st)
  | none => .nil
  | some st => covers_stmt H st

theorem covers_stmts (H : List Guard) :
    (sts : List Stmt) → Covers (stmtsNodes sts) (stmtsSites H sts) (stmtsDepth sts)
  | [] => .nil
  | st :: rest => (covers_stmt H st).both (covers_stmts H rest)

theorem covers_catches (H : List Guard) : (catches : List CatchClause) →
    Covers (catchesNodes catches) (catchesSites H catches) (catchesDepth catches)
  | [] => .nil
  | ⟨types, n, ⟨stmts, span⟩, span'⟩ :: rest => by
    rw [catchesSites, List.append_assoc]
    exact ((covers_stmts H stmts).both (covers_catches H rest)).clause H ⟨types, n, ⟨stmts, span⟩, span'⟩

theorem covers_block? (H : List Guard) :
    (b : Option Block) → Covers (blockNodes? b) (blockSites? H b) (blockDepth? b)
  | none => .nil
  | some ⟨stmts, _⟩ => covers_stmts H stmts

end

theorem covers_code (c : Code) : Covers c.nodes c.sites c.depth := by
  obtain ⟨params, b | es⟩ := c
  · exact covers_stmts [] b.stmts
  · exact covers_exprs [] es

end Check

end LevelGuard
