import LevelGuard.Check.Unit

/-!
# The steps of a check

The check of a file goes from type to type, from member to member and from site to
site. Here its steps are listed in the order in which they are made, each with the
facts and the place it is made with. What a step finds by itself depends on nothing
but the step, and what is found in a file is what the steps find, one after another.

The steps do not depend on the baseline of the module.
-/
namespace LevelGuard.Check

open Java Project LevelGuard.Flow

/-- A step of the check of a file. -/
inductive Visit where
  /-- A type, with the facts around it and the variables its bodies can see. -/
  | type (facts : Facts) (locals : Locals) (decl : TypeDecl)
  /-- A member, with the facts and the place inside its type. -/
  | member (place : Place) (facts : Facts) (owner : String) (member : Member)
  /-- A site of a piece of code, with the facts there. -/
  | site (place : Place) (facts : Facts) (event : Event)

/-- The steps that the check of inner code makes. -/
abbrev InnerVisits := Facts → Inner → List Visit

def typePlace (K : Platform.Catalog) (I : Index) (u : CompilationUnit) (locals : Locals)
    (d : TypeDecl) : Place where
  resolver := .ofScope K (.inside I u d.qualified)
  locals := locals
  recognizer := (Recognizer.ofUnit u).withVariables ((Recognizer.ofUnit u).fieldVariables d)

/-- The types that a member declares by itself, outside of its code. -/
def memberTypes : Member → List TypeDecl
  | .constant c => c.body.toList
  | .type d => [d]
  | .method _ | .field _ | .initializer .. => []

/-- The variables that these types can see. -/
def innerLocals (P : Place) : Member → Locals
  | .type _ => .empty
  | _ => P.locals

section Listing

variable (inner : InnerVisits)

def eventVisits (P : Place) (F : Facts) (event : Event) : List Visit :=
  .site P F event ::
    match event with
    | .lambda params body => inner { F with excluded := .empty } (.lambda P (.ofLambda params body))
    | .classBody d => inner { F with excluded := .empty } (.type P.locals d)
    | _ => []

def graphVisits (P : Place) (seed : Facts) (G : Graph) : List Visit :=
  (List.range G.size).flatMap fun b =>
    (G.sitesOf b).flatMap fun s =>
      eventVisits inner P (s.inside ((G.propagate seed).getD b seed)) s.event

def codeVisits (P : Place) (seed : Facts) (c : Code) : List Visit :=
  graphVisits inner (P.inside c) seed (c.graph (P.inside c).recognizer)

def insideVisits (P : Place) (F : Facts) (m : Member) : List Visit :=
  ((Code.ofMember? m).map (codeVisits inner P F)).getD [] ++
    (memberTypes m).flatMap fun d => inner F (.type (innerLocals P m) d)

def memberVisits (P : Place) (F : Facts) (owner : String) (m : Member) : List Visit :=
  .member P F owner m :: insideVisits inner P (memberFacts F m) m

def typeVisits (K : Platform.Catalog) (I : Index) (u : CompilationUnit) (outer : Facts)
    (locals : Locals) (d : TypeDecl) : List Visit :=
  .type outer locals d ::
    d.members.flatMap
      (memberVisits inner (typePlace K I u locals d) (annotated outer d.annotations) d.qualified)

end Listing

/-- The steps of the check of inner code, down to a depth. -/
def innerVisits (K : Platform.Catalog) (I : Index) (u : CompilationUnit) : (depth : Nat) → InnerVisits
  | 0, _, _ => []
  | depth + 1, F, .lambda P c => codeVisits (innerVisits K I u depth) P F c
  | depth + 1, F, .type locals d => typeVisits (innerVisits K I u depth) K I u F locals d

/-- The steps of the check of a file. -/
def unitVisits (K : Platform.Catalog) (I : Index) (u : CompilationUnit) : List Visit :=
  u.types.flatMap fun d => innerVisits K I u u.depth .top (.type .empty d)

namespace Setting

variable (C : Setting) (u : CompilationUnit)

/-- What is found for a member itself: only methods override others. -/
def checkOwn (F : Facts) (owner : String) : Member → List Diagnostic
  | .method m => C.checkOverride F owner m
  | _ => []

/-- What a step finds by itself. -/
def perform : Visit → List Diagnostic
  | .type F _ d =>
    C.checkSupertypes (.ofScope C.catalog (.inside C.index u d.qualified))
      (annotated F d.annotations) d
  | .member _ F owner m => C.checkOwn (memberFacts F m) owner m
  | .site P F event => C.checkEvent (fun _ _ => []) P F event

/-- A check of inner code finds what the steps of the other find. -/
def Performs (check : InnerCheck) (inner : InnerVisits) : Prop :=
  ∀ F code, check F code = (inner F code).flatMap (C.perform u)

variable {C u} {check : InnerCheck} {inner : InnerVisits}

theorem checkEvent_eq_flatMap (h : C.Performs u check inner) (P : Place) (F : Facts)
    (event : Event) :
    C.checkEvent check P F event = (eventVisits inner P F event).flatMap (C.perform u) := by
  cases event with
  | lambda params body => exact h _ _
  | classBody d => exact h _ _
  | _ => simp [eventVisits, perform, checkEvent]

theorem checkGraph_eq_flatMap (h : C.Performs u check inner) (P : Place) (seed : Facts)
    (G : Graph) :
    C.checkGraph check P seed G = (graphVisits inner P seed G).flatMap (C.perform u) := by
  have hsite : ∀ H, C.checkSite check P H = fun s =>
      (eventVisits inner P (s.inside H) s.event).flatMap (C.perform u) :=
    fun H => funext fun s => checkEvent_eq_flatMap h P (s.inside H) s.event
  simp only [checkGraph, hsite, graphVisits, List.flatMap_assoc]

/-- A member is checked itself, then its code, then the types it declares by itself. -/
theorem checkMember_eq (check : InnerCheck) (P : Place) (F : Facts) (owner : String) (m : Member) :
    C.checkMember check P F owner m = C.checkOwn (memberFacts F m) owner m ++
      (((Code.ofMember? m).map (C.checkCode check P (memberFacts F m))).getD [] ++
        (memberTypes m).flatMap fun d => check (memberFacts F m) (.type (innerLocals P m) d)) := by
  cases m with
  | constant c =>
    cases hc : c.body <;> simp [checkMember, checkOwn, memberTypes, innerLocals, hc]
  | type d => simp [checkMember, checkOwn, memberTypes, innerLocals, memberFacts, Code.ofMember?]
  | _ => simp [checkMember, checkOwn, memberTypes]

theorem checkMember_eq_flatMap (h : C.Performs u check inner) (P : Place) (F : Facts)
    (owner : String) (m : Member) :
    C.checkMember check P F owner m = (memberVisits inner P F owner m).flatMap (C.perform u) := by
  have hcode : ((Code.ofMember? m).map (C.checkCode check P (memberFacts F m))).getD [] =
      (((Code.ofMember? m).map (codeVisits inner P (memberFacts F m))).getD []).flatMap
        (C.perform u) := by
    cases Code.ofMember? m with
    | none => rfl
    | some c => exact checkGraph_eq_flatMap h _ _ _
  rw [checkMember_eq, hcode]
  simp only [memberVisits, insideVisits, List.flatMap_cons, List.flatMap_append,
    List.flatMap_assoc, h _ _]
  rfl

theorem checkType_eq_flatMap (h : C.Performs u check inner) (outer : Facts) (locals : Locals)
    (d : TypeDecl) : C.checkType u check outer locals d =
      (typeVisits inner C.catalog C.index u outer locals d).flatMap (C.perform u) := by
  have hmembers := fun m => checkMember_eq_flatMap h (typePlace C.catalog C.index u locals d)
    (annotated outer d.annotations) d.qualified m
  simp only [typeVisits, List.flatMap_cons, List.flatMap_assoc, ← hmembers]
  rfl

theorem performs_innerVisits (depth : Nat) :
    C.Performs u (C.checkInner u depth) (innerVisits C.catalog C.index u depth) := by
  induction depth with
  | zero => exact fun _ _ => rfl
  | succ depth ih =>
    intro F code
    cases code with
    | lambda P c => exact checkGraph_eq_flatMap ih _ F _
    | type locals d => exact checkType_eq_flatMap ih F locals d

/-- What is found in a file is what the steps of its check find. -/
theorem checkUnit_eq_flatMap (C : Setting) (u : CompilationUnit) :
    C.checkUnit u = (unitVisits C.catalog C.index u).flatMap (C.perform u) := by
  simp only [checkUnit, unitVisits, List.flatMap_assoc, performs_innerVisits u.depth _ _]

end Setting

end LevelGuard.Check
