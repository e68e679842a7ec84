import LevelGuard.Proofs.Clauses
import LevelGuard.Proofs.Coverage
import LevelGuard.Proofs.EdgeGuards

/-!
# Handlers cover what is written inside them

The handlers around a site are kept in a list while code is lowered, turned into facts at
the site, and cleared where a lambda or a class begins, whose code runs later. What comes
out is what is written: a site is checked with the exceptions that the clauses around it
name, out to the innermost method, initializer or lambda, and those that the method
declares if it is directly in a method, and with no others.
-/
namespace LevelGuard

namespace Facts

/-- Handlers that are assumed are added to those that are known. -/
theorem foldl_assume_excluded {F : Facts} (hF : F.bottom = false) (names : List String) :
    (names.foldl (fun F name => F.assume (.excluded name) true) F).bottom = false ∧
      (names.foldl (fun F name => F.assume (.excluded name) true) F).excluded =
        F.excluded.insertAll names := by
  induction names generalizing F with
  | nil => exact ⟨hF, rfl⟩
  | cons name names ih =>
    have hstep : F.assume (.excluded name) true =
        { F with excluded := F.excluded.insert name } := by
      simp [assume, hF]
    rw [List.foldl_cons, hstep]
    exact ih (F := { F with excluded := F.excluded.insert name }) hF

end Facts

namespace Flow

open Java

def caughtNames (clauses : List CatchClause) : List String :=
  clauses.flatMap fun c => c.types.map (·.name)

def Site.handlerNames (s : Site) : List String :=
  s.handlers.filterMap fun
    | .excluded name => some name
    | _ => none

theorem Placed.handlers_site (x : Placed) :
    (x.site []).handlers = (caughtNames x.clauses).map Guard.excluded := by
  simp [Placed.site, caughtGuards, caughtNames, List.map_flatMap, Function.comp_def]

theorem Placed.handlerNames_site (x : Placed) : (x.site []).handlerNames = caughtNames x.clauses := by
  rw [Site.handlerNames, x.handlers_site, List.filterMap_map]
  exact List.filterMap_some

theorem Placed.inside_site (x : Placed) {F : Facts} (hF : F.bottom = false) :
    ((x.site []).inside F).bottom = false ∧
      ((x.site []).inside F).excluded = F.excluded.insertAll (x.site []).handlerNames := by
  rw [Site.inside, x.handlers_site, List.foldl_map, x.handlerNames_site]
  exact Facts.foldl_assume_excluded hF _

theorem Graph.propagate_bottom (G : Graph) {seed : Facts} (hseed : seed.bottom = false) (b : Nat) :
    ((G.propagate seed).getD b seed).bottom = false := by
  unfold Graph.propagate Graph.propagateWithin
  rw [List.getD_eq_getElem?_getD, List.getElem?_map]
  rcases (G.passes Graph.passCount (G.start seed))[b]? with _ | _ | F
  · exact hseed
  · exact hseed
  · change (if F.bottom then seed else F).bottom = false
    cases hF : F.bottom with
    | true => exact hseed
    | false => exact hF

end Flow

namespace Check

open Java Project LevelGuard.Flow

def declaredThrows : Member → List TypeRef
  | .method m => m.throwsTypes
  | _ => []

/-- A piece of code that runs by itself, with the exceptions that its method declares. -/
structure Routine where
  code : Code
  throwsTypes : List TypeRef := []

namespace Routine

def ofMember? (m : Member) : Option Routine :=
  (Code.ofMember? m).map fun c => ⟨c, declaredThrows m⟩

def handledAt (r : Routine) (x : Placed) : NameSet :=
  .ofList (r.throwsTypes.map (·.name) ++ caughtNames x.clauses)

/-- Everything that a check looks at in the code, with the exceptions handled there. -/
def handled (r : Routine) : List (Event × NameSet) :=
  r.code.places.map fun x => (x.event, r.handledAt x)

end Routine

/-- What runs by itself among what is checked. -/
def Subject.routine? : Subject → Option Routine
  | .declaration (.member m) => Routine.ofMember? m
  | .event (.lambda params body) => some ⟨.ofLambda params body, []⟩
  | _ => none

/-- What runs by itself among what is written. -/
def nodeRoutine? : Node → Option Routine
  | .declaration (.member m) => Routine.ofMember? m
  | .expr (.lambda _ params body) => some ⟨.ofLambda params body, []⟩
  | _ => none

theorem filterMap_nodeSubjects (node : Node) :
    (nodeSubjects node).filterMap Subject.routine? = (nodeRoutine? node).toList := by
  cases node with
  | declaration d =>
    cases d with
    | type d => rfl
    | member m =>
      cases hm : Routine.ofMember? m <;> simp [nodeSubjects, nodeRoutine?, Subject.routine?, hm]
  | expr e => cases e <;> rfl
  | stmt st =>
    cases st with
    | tryCatch s withResources resources body catches always => cases withResources <;> rfl
    | _ => rfl
  | clause c => simp [nodeSubjects, nodeRoutine?, Subject.routine?]
  | label | switchCase => rfl

/-- The bodies of a file: of its methods, initializers, fields, enum constants and lambdas. -/
def routinesOf (u : CompilationUnit) : List Routine := u.nodes.filterMap nodeRoutine?

def Visit.routine? (v : Visit) : Option Routine := v.subject?.bind Subject.routine?

/-- What a site is checked for and the exceptions that are handled there. -/
def Visit.handled? : Visit → Option (Event × NameSet)
  | .site _ F event => some (event, F.excluded)
  | _ => none

/-- The steps look at these places, and at all places of the bodies that begin in them. -/
def Balances (own : List (Event × NameSet)) (visits : List Visit) : Prop :=
  (visits.filterMap Visit.handled?).Perm
    (own ++ (visits.filterMap Visit.routine?).flatMap Routine.handled)

namespace Balances

variable {own own' : List (Event × NameSet)} {visits visits' : List Visit}

theorem nil : Balances [] [] := .refl _

theorem of_perm (h : Balances own visits) (hown : own.Perm own') : Balances own' visits :=
  h.trans (hown.append_right _)

theorem append (h : Balances own visits) (h' : Balances own' visits') :
    Balances (own ++ own') (visits ++ visits') := by
  unfold Balances
  rw [List.filterMap_append, List.filterMap_append, List.flatMap_append]
  refine (List.Perm.append h h').trans ?_
  rw [List.append_assoc, List.append_assoc]
  refine .append_left own ?_
  rw [← List.append_assoc, ← List.append_assoc]
  exact List.perm_append_comm.append_right _

theorem flatMap {α : Type} {l : List α} {f : α → List Visit} {g : α → List (Event × NameSet)}
    (h : ∀ a ∈ l, Balances (g a) (f a)) : Balances (l.flatMap g) (l.flatMap f) := by
  induction l with
  | nil => exact nil
  | cons a l ih =>
    obtain ⟨ha, hl⟩ := List.forall_mem_cons.mp h
    exact ha.append (ih hl)

/-- Steps that all begin bodies of their own. -/
theorem flatMap_nil {α : Type} {l : List α} {f : α → List Visit} (h : ∀ a ∈ l, Balances [] (f a)) :
    Balances [] (l.flatMap f) := by
  have hall := flatMap (g := fun _ => []) h
  rwa [List.flatMap_eq_nil_iff.mpr fun _ _ => rfl] at hall

theorem skip {v : Visit} (hsite : v.handled? = none) (hroutine : v.routine? = none)
    (h : Balances own visits) : Balances own (v :: visits) := by
  unfold Balances
  rwa [List.filterMap_cons_none hsite, List.filterMap_cons_none hroutine]

theorem begin {v : Visit} {r : Routine} (hsite : v.handled? = none) (hroutine : v.routine? = some r)
    (h : Balances r.handled visits) : Balances [] (v :: visits) := by
  unfold Balances
  rwa [List.filterMap_cons_none hsite, List.filterMap_cons_some hroutine, List.flatMap_cons,
    List.nil_append]

end Balances

/-- The facts inside a member are not contradictory. -/
def Visit.Open : Visit → Prop
  | .member _ F _ m => (memberFacts F m).bottom = false
  | _ => True

instance : DecidablePred Visit.Open
  | .member _ F _ m => inferInstanceAs (Decidable ((memberFacts F m).bottom = false))
  | .type .. | .site .. => inferInstanceAs (Decidable True)

/-- Inner code is ready to be checked with the facts: it is inside no handlers, and if it
is a lambda, the facts are not contradictory. -/
structure Inner.Ready (F : Facts) (i : Inner) : Prop where
  excluded : F.excluded = .empty
  bottom : ∀ P c, i = .lambda P c → F.bottom = false
  tested : ∀ P c, i = .lambda P c → P.recognizer.Tested

/-- The places of inner code that are not in a body that begins in it. -/
def Inner.handled : Inner → List (Event × NameSet)
  | .lambda _ c => Routine.handled ⟨c, []⟩
  | .type _ _ => []

/-- The steps look at the places of inner code up to a depth with what is written around
them. -/
def BalancesTo (n : Nat) (inner : InnerVisits) : Prop :=
  ∀ F i, i.depth ≤ n → i.Ready F → (∀ v ∈ inner F i, v.Open) → Balances i.handled (inner F i)

section Balance

variable {inner : InnerVisits} {n : Nat}

theorem ready_lambda {P : Place} {F : Facts} (hF : F.bottom = false) (hP : P.recognizer.Tested)
    (c : Code) : (Inner.lambda P c).Ready { F with excluded := .empty } where
  excluded := rfl
  bottom _ _ _ := hF
  tested _ _ h := by
    cases h
    exact hP

theorem ready_type {F : Facts} (hF : F.excluded = .empty) (locals : Locals) (d : TypeDecl) :
    (Inner.type locals d).Ready F :=
  ⟨hF, nofun, nofun⟩

theorem balances_event (h : BalancesTo n inner) {P : Place} (hP : P.recognizer.Tested) {F : Facts}
    (hF : F.bottom = false) {event : Event} (hevent : eventDepth event ≤ n)
    (hopen : ∀ v ∈ eventVisits inner P F event, v.Open) :
    Balances [(event, F.excluded)] (eventVisits inner P F event) := by
  have hinner := (List.forall_mem_cons.mp hopen).2
  cases event with
  | lambda params body =>
    exact (h _ (.lambda P (.ofLambda params body)) hevent (ready_lambda hF hP _) hinner).cons _
  | classBody d => exact (h _ (.type P.locals d) hevent (ready_type rfl _ d) hinner).cons _
  | _ => exact .refl _

/-- The steps in a piece of code look at its places, with the exceptions of the clauses
around them and those known at the start. -/
theorem balances_code (h : BalancesTo n inner) {P : Place} (hP : P.recognizer.Tested) {seed : Facts}
    (hseed : seed.bottom = false) {c : Code} (hc : c.depth ≤ n) {throwsTypes : List TypeRef}
    (hthrows : seed.excluded = .ofList (throwsTypes.map (·.name)))
    (hopen : ∀ v ∈ codeVisits inner P seed c, v.Open) :
    Balances (Routine.handled ⟨c, throwsTypes⟩) (codeVisits inner P seed c) := by
  have hR : (P.inside c).recognizer.Tested := c.recognizer_tested hP
  unfold codeVisits graphVisits at hopen ⊢
  generalize hG : c.graph (P.inside c).recognizer = G at hopen ⊢
  have hblocks : ∀ p ∈ G.sites, p.1 < G.size := by
    subst hG
    exact fun p hp => (Code.sites_graph hp).1
  have hfacts : ∀ b, ((G.propagate seed).getD b seed).excluded = seed.excluded := by
    subst hG
    exact Graph.propagate_excluded (c.graph_tested hR) seed
  have hsite : ∀ b, ∀ s ∈ G.sitesOf b, s ∈ c.sites := by
    subst hG
    exact fun b s hs => mem_sites_of_sitesOf hs
  -- What is found at a site depends on its handlers, not on the block it is in.
  have hsteps : Balances ((List.range G.size).flatMap fun b => (G.sitesOf b).flatMap fun s =>
      [(s.event, seed.excluded.insertAll s.handlerNames)]) ((List.range G.size).flatMap fun b =>
        (G.sitesOf b).flatMap fun s =>
          eventVisits inner (P.inside c) (s.inside ((G.propagate seed).getD b seed)) s.event) := by
    refine .flatMap fun b hb => .flatMap fun s hs => ?_
    have hdepth := Nat.le_trans (eventDepth_le_depth (hsite b s hs)) hc
    have hmem := hsite b s hs
    rw [c.sites_eq_places] at hmem
    obtain ⟨x, -, rfl⟩ := List.mem_map.mp hmem
    obtain ⟨hbottom, hexcluded⟩ := x.inside_site (G.propagate_bottom hseed b)
    rw [← hfacts b, ← hexcluded]
    refine balances_event h hR hbottom hdepth fun v hv => hopen v ?_
    exact List.mem_flatMap.mpr ⟨b, hb, List.mem_flatMap.mpr ⟨_, hs, hv⟩⟩
  refine hsteps.of_perm ?_
  calc (List.range G.size).flatMap _
    _ = ((List.range G.size).flatMap G.sitesOf).map fun s =>
        (s.event, seed.excluded.insertAll s.handlerNames) := by
      rw [List.map_flatMap]
      simp only [← List.map_eq_flatMap]
    _ |>.Perm (c.sites.map fun s => (s.event, seed.excluded.insertAll s.handlerNames)) := by
      rw [← c.graph_sites (P.inside c).recognizer, hG]
      exact (sitesOf_perm hblocks).map _
    _ = Routine.handled ⟨c, throwsTypes⟩ := by
      rw [c.sites_eq_places, List.map_map]
      refine List.map_congr_left fun x _ => ?_
      change (x.event, seed.excluded.insertAll (x.site []).handlerNames) = _
      rw [x.handlerNames_site, hthrows]
      simp only [Routine.handledAt, SortedSet.ofList, SortedSet.insertAll, List.foldl_append]

theorem annotated_excluded (F : Facts) (annotations : List Annotation) :
    (annotated F annotations).excluded = F.excluded := by
  unfold annotated
  cases floorLevel? annotations <;> rfl

theorem foldl_assume_bottom {F : Facts} (types : List TypeRef)
    (h : (types.foldl (fun F t => F.assume (.excluded t.name) true) F).bottom = false) :
    F.bottom = false := by
  cases hF : F.bottom with
  | false => rfl
  | true =>
    have hkept : types.foldl (fun F t => F.assume (.excluded t.name) true) F = F := by
      induction types with
      | nil => rfl
      | cons t types ih =>
        rw [List.foldl_cons, Facts.assume_of_bottom hF] at h ⊢
        exact ih h
    rw [hkept, hF] at h
    cases h

theorem declareRequirement_eq (F : Facts) (r : Option Permission.Requirement) :
    (r.elim F F.declareRequirement).excluded = F.excluded ∧
      (r.elim F F.declareRequirement).bottom = F.bottom := by
  cases r with
  | none => exact ⟨rfl, rfl⟩
  | some r =>
    change (F.declareRequirement r).excluded = _ ∧ (F.declareRequirement r).bottom = _
    unfold Facts.declareRequirement
    split <;> exact ⟨rfl, rfl⟩

/-- Inside a member the exceptions are known that it declares. -/
theorem memberFacts_excluded {F : Facts} (hF : F.excluded = .empty) {m : Member}
    (hopen : (memberFacts F m).bottom = false) :
    (memberFacts F m).excluded = .ofList ((declaredThrows m).map (·.name)) := by
  cases m with
  | method d =>
    change (methodFacts F d).bottom = false at hopen
    change (methodFacts F d).excluded = _
    unfold methodFacts at hopen ⊢
    rw [(declareRequirement_eq _ _).2] at hopen
    rw [(declareRequirement_eq _ _).1]
    have hthrows := Facts.foldl_assume_excluded (foldl_assume_bottom _ hopen)
      (d.throwsTypes.map (·.name))
    rw [List.foldl_map, annotated_excluded, hF] at hthrows
    exact hthrows.2
  | field f => exact (annotated_excluded F f.annotations).trans hF
  | constant c => exact (annotated_excluded F c.annotations).trans hF
  | initializer isStatic b => exact hF
  | type d => exact hF

theorem balances_member (h : BalancesTo n inner) {P : Place} (hP : P.recognizer.Tested) {F : Facts}
    (hF : F.excluded = .empty) (owner : String) {m : Member} (hm : memberDepth m ≤ n)
    (hopen : ∀ v ∈ memberVisits inner P F owner m, v.Open) :
    Balances [] (memberVisits inner P F owner m) := by
  obtain ⟨hfacts, hinside⟩ := List.forall_mem_cons.mp hopen
  obtain ⟨hcode, htypes⟩ := List.forall_mem_append.mp hinside
  have hexcluded := memberFacts_excluded hF hfacts
  have hdecls : Balances [] ((memberTypes m).flatMap fun d =>
      inner (memberFacts F m) (.type (innerLocals P m) d)) := by
    refine .flatMap_nil fun d hd => ?_
    have hnone : declaredThrows m = [] := by
      cases m with
      | method d => cases hd
      | _ => rfl
    rw [hnone] at hexcluded
    refine h _ (.type _ d) (Nat.le_trans (declDepth_le_memberDepth hd) hm)
      (ready_type hexcluded _ d) fun v hv => ?_
    exact htypes v (List.mem_flatMap.mpr ⟨d, hd, hv⟩)
  cases hcodeOf : Code.ofMember? m with
  | none =>
    have hroutine : Visit.routine? (.member P F owner m) = none := by
      simp [Visit.routine?, Visit.subject?, Subject.routine?, Routine.ofMember?, hcodeOf]
    refine .skip rfl hroutine ?_
    rw [insideVisits, hcodeOf]
    exact hdecls
  | some c =>
    have hroutine : Visit.routine? (.member P F owner m) = some ⟨c, declaredThrows m⟩ := by
      simp [Visit.routine?, Visit.subject?, Subject.routine?, Routine.ofMember?, hcodeOf]
    rw [hcodeOf] at hcode
    have hsteps := balances_code h hP hfacts (Nat.le_trans (depth_ofMember?_le hcodeOf) hm) hexcluded
      hcode
    refine .begin rfl hroutine ?_
    rw [insideVisits, hcodeOf]
    exact (hsteps.append hdecls).of_perm (.of_eq (List.append_nil _))

theorem balances_type (h : BalancesTo n inner) (K : Platform.Catalog) (I : Index)
    (u : CompilationUnit) {outer : Facts} (houter : outer.excluded = .empty) (locals : Locals)
    {d : TypeDecl} (hd : declDepth d ≤ n + 1)
    (hopen : ∀ v ∈ typeVisits inner K I u outer locals d, v.Open) :
    Balances [] (typeVisits inner K I u outer locals d) := by
  have hplace : (typePlace K I u locals d).recognizer.Tested :=
    (Recognizer.tested_ofUnit u).withVariables fun _ _ =>
      (Recognizer.tested_ofUnit u).bindUnassigned
  have hmembers : membersDepth d.members ≤ n := by
    rw [declDepth_eq] at hd
    exact Nat.le_of_succ_le_succ hd
  refine .skip rfl rfl (.flatMap_nil fun m hm => ?_)
  refine balances_member h hplace ((annotated_excluded outer _).trans houter) _
    (Nat.le_trans (memberDepth_le hm) hmembers) fun v hv => hopen v ?_
  exact List.mem_cons_of_mem _ (List.mem_flatMap.mpr ⟨m, hm, hv⟩)

theorem balancesTo_innerVisits (K : Platform.Catalog) (I : Index) (u : CompilationUnit) (n : Nat) :
    BalancesTo n (innerVisits K I u n) := by
  induction n with
  | zero =>
    intro F i hi
    cases i with
    | lambda P c => cases hi
    | type locals d =>
      rw [Inner.depth, declDepth_eq] at hi
      cases hi
  | succ n ih =>
    intro F i hi hready hopen
    cases i with
    | lambda P c =>
      exact balances_code ih (hready.tested P c rfl) (hready.bottom P c rfl)
        (Nat.le_of_succ_le_succ hi) hready.excluded hopen
    | type locals d => exact balances_type ih K I u hready.excluded locals hi hopen

end Balance

/-- The bodies that begin in the check of a file are those that are written in it. -/
theorem unitRoutines_perm (K : Platform.Catalog) (I : Index) (u : CompilationUnit) :
    ((unitVisits K I u).filterMap Visit.routine?).Perm (routinesOf u) := by
  have hsubjects : (visitSubjects (unitVisits K I u)).Perm (subjectsOf u.nodes) := by
    unfold unitVisits CompilationUnit.nodes
    rw [visitSubjects_flatMap, subjectsOf_flatMap]
    exact .flatMap_left _ fun d hd =>
      coversTo_innerVisits K I u u.depth .top (.type .empty d) (declDepth_le_depth hd)
  have hnodes : (subjectsOf u.nodes).filterMap Subject.routine? = routinesOf u := by
    rw [subjectsOf, List.filterMap_flatMap, routinesOf, List.filterMap_eq_flatMap_toList]
    simp only [filterMap_nodeSubjects]
  rw [← hnodes]
  refine .trans (.of_eq ?_) (hsubjects.filterMap Subject.routine?)
  exact List.filterMap_filterMap.symm

/-- What is found in a file is what the steps of its check find. Each step at a site knows
of just those exceptions that are caught by the clauses around the site, out to the
innermost body, and those that the method declares whose body this is. -/
theorem handlers_are_lexical (C : Setting) (u : CompilationUnit)
    (hopen : ∀ P F owner m, .member P F owner m ∈ unitVisits C.catalog C.index u →
      (memberFacts F m).bottom = false) :
    C.checkUnit u = (unitVisits C.catalog C.index u).flatMap (C.perform u) ∧
      ((unitVisits C.catalog C.index u).filterMap Visit.handled?).Perm
        ((routinesOf u).flatMap Routine.handled) := by
  refine ⟨C.checkUnit_eq_flatMap u, ?_⟩
  have hbalances : Balances [] (unitVisits C.catalog C.index u) := by
    refine .flatMap_nil fun d hd => ?_
    refine balancesTo_innerVisits C.catalog C.index u u.depth .top (.type .empty d)
      (declDepth_le_depth hd) (ready_type rfl .empty d) fun v hv => ?_
    have hmem : v ∈ unitVisits C.catalog C.index u := List.mem_flatMap.mpr ⟨d, hd, hv⟩
    cases v with
    | member P F owner m => exact hopen P F owner m hmem
    | _ => trivial
  exact hbalances.trans ((unitRoutines_perm C.catalog C.index u).flatMap_right _)

/-- `try { open(); post(() -> send()); } catch (SecurityException e) { close(); }` -/
def guardedBody : Block :=
  ⟨[.tryCatch {} false []
    ⟨[.expr {} (.call {} none "open" []),
      .expr {} (.call {} none "post" [.lambda {} [] (.expr (.call {} none "send" []))])], {}⟩
    [⟨[⟨"SecurityException", {}⟩], "e", ⟨[.expr {} (.call {} none "close" [])], {}⟩, {}⟩] none], {}⟩

/-- A class with a method that has this body and declares `IOException`. -/
def guardedUnit : CompilationUnit :=
  ⟨"T.java", none, [], [⟨"T", "T", .classType, [], none, [],
    [.method ⟨"m", false, false, [], [], false, none, [⟨"IOException", {}⟩], some guardedBody, {}, {}⟩],
    {}⟩]⟩

/-- The lambda is inside the handler where it is made, and its body is not. -/
theorem handlers_are_lexical_guarded :
    ((unitVisits .empty (.ofCatalog .empty) guardedUnit).filterMap Visit.handled?).Perm
        ((routinesOf guardedUnit).flatMap Routine.handled) ∧
      (routinesOf guardedUnit).map (fun r => r.handled.map fun x => x.2.toList) =
        [[["IOException", "SecurityException"], ["IOException", "SecurityException"],
          ["IOException", "SecurityException"], ["IOException"], ["IOException"]], [[]]] := by
  have hopen : ∀ v ∈ unitVisits .empty (.ofCatalog .empty) guardedUnit, v.Open := by
    decide +kernel
  have hlexical := handlers_are_lexical ⟨⟨"T.java"⟩, .empty, .ofCatalog .empty, .ofRange 1 1⟩
    guardedUnit fun P F owner m hm => hopen (.member P F owner m) hm
  exact ⟨hlexical.2, by decide +kernel⟩

end Check

end LevelGuard
