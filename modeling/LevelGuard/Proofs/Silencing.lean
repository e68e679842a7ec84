import LevelGuard.Check.Unit
import LevelGuard.Proofs.PassBound
import LevelGuard.Proofs.Visits

/-!
# Silencing a category

To silence a category on the way into some code silences it everywhere in there: guards,
meets and the annotations of inner declarations leave it silenced and pay no heed to it.
The check then makes the same steps, and each of them finds what it found before except
for the findings of the category.
-/
namespace LevelGuard

namespace Facts

variable (cs : List Category)

@[simp] theorem suppress_bottom (F : Facts) : (F.suppress cs).bottom = F.bottom := rfl

theorem suppress_comm (F : Facts) (ds : List Category) :
    (F.suppress cs).suppress ds = (F.suppress ds).suppress cs := by
  have hset : (F.suppressed.insertAll cs).insertAll ds =
      (F.suppressed.insertAll ds).insertAll cs :=
    SortedSet.eq_of_mem_iff fun c => by simp only [SortedSet.mem_insertAll]; tauto
  unfold suppress
  rw [hset]

theorem suppress_meet (F G : Facts) :
    (F.suppress cs).meet (G.suppress cs) = (F.meet G).suppress cs := by
  have hset : (F.suppressed.insertAll cs).inter (G.suppressed.insertAll cs) =
      (F.suppressed.inter G.suppressed).insertAll cs :=
    SortedSet.eq_of_mem_iff fun c => by
      simp only [SortedSet.mem_insertAll, SortedSet.mem_inter]; tauto
  cases hF : F.bottom with
  | true => simp [meet, hF]
  | false =>
    cases hG : G.bottom with
    | true => simp [meet, hF, hG]
    | false => simp [meet, hF, hG, suppress, hset]

theorem suppress_assume (F : Facts) (g : Guard) (t : Bool) :
    (F.suppress cs).assume g t = (F.assume g t).suppress cs := by
  have hparallel : Parallel (fun _ _ => True) fun F G => G = F.suppress cs :=
    { Inherited.any with
      leaf := fun F G g t hg _ h => by
        subst h
        cases hF : F.bottom with
        | true => rw [assume_of_bottom hF, assume_of_bottom (F := F.suppress cs) hF]
        | false =>
          obtain ⟨step, hstep, hassume⟩ := exists_leafStep hg t
          rw [hassume F hF, hassume (F.suppress cs) hF]
          cases hstep <;> simp [suppress, raiseFloor, lowerCeiling, settle, contradictory]
      meet := fun F F' G G' h h' => by rw [h, h', suppress_meet] }
  exact hparallel.assume rfl g t trivial

theorem suppress_assume_foldl (F : Facts) (gs : List Guard) :
    gs.foldl (fun F g => F.assume g true) (F.suppress cs) =
      (gs.foldl (fun F g => F.assume g true) F).suppress cs := by
  induction gs generalizing F with
  | nil => rfl
  | cons g gs ih => rw [List.foldl_cons, List.foldl_cons, suppress_assume, ih]

theorem suppress_declareRequirement (F : Facts) (r : Permission.Requirement) :
    (F.suppress cs).declareRequirement r = (F.declareRequirement r).suppress cs := by
  change (if F.requirements.contains r then _ else _) = _
  unfold declareRequirement
  split <;> rfl

theorem isSuppressed_suppress (F : Facts) (c d : Category) :
    (F.suppress [c]).isSuppressed d = (F.isSuppressed d || d = c) := by
  rw [Bool.eq_iff_iff]
  simp [isSuppressed, suppress]

end Facts

namespace Flow

open Facts

variable (cs : List Category)

theorem Site.inside_suppress (s : Site) (F : Facts) :
    s.inside (F.suppress cs) = (s.inside F).suppress cs :=
  suppress_assume_foldl cs F s.handlers

namespace Graph

/-- The facts found so far with more categories silenced. -/
def silence (state : Assignment) : Assignment := state.map (Option.map (·.suppress cs))

theorem getD_silence (state : Assignment) (b : Nat) :
    (silence cs state).getD b none = (state.getD b none).map (·.suppress cs) := by
  unfold silence
  rw [List.getD_eq_getElem?_getD, List.getD_eq_getElem?_getD, List.getElem?_map]
  cases state[b]? <;> rfl

theorem along_suppress (e : Edge) (F : Facts) :
    along e (F.suppress cs) = (along e F).suppress cs := by
  unfold along
  cases e.guard with
  | none => rfl
  | some g => exact suppress_assume cs F g true

theorem gather_silence (state : Assignment) (acc : Option Facts) (e : Edge) :
    gather (silence cs state) (acc.map (·.suppress cs)) e =
      (gather state acc e).map (·.suppress cs) := by
  unfold gather
  rw [getD_silence]
  cases state.getD e.source none with
  | none => rfl
  | some F =>
    cases acc with
    | none => exact congrArg some (along_suppress cs e F)
    | some A =>
      change some ((A.suppress cs).meet (along e (F.suppress cs))) = _
      rw [along_suppress, suppress_meet]
      rfl

theorem inflow_silence (G : Graph) (state : Assignment) (b : Nat) :
    G.inflow (silence cs state) b = (G.inflow state b).map (·.suppress cs) := by
  have hfold : ∀ (es : List Edge) (acc : Option Facts),
      es.foldl (gather (silence cs state)) (acc.map (·.suppress cs)) =
        (es.foldl (gather state) acc).map (·.suppress cs) := by
    intro es
    induction es with
    | nil => exact fun acc => rfl
    | cons e es ih =>
      intro acc
      rw [List.foldl_cons, List.foldl_cons, gather_silence, ih]
  exact hfold (G.incoming b) none

theorem pass_silence (G : Graph) (state : Assignment) :
    G.pass (silence cs state) = silence cs (G.pass state) := by
  unfold pass
  generalize G.order = blocks
  induction blocks generalizing state with
  | nil => rfl
  | cons b blocks ih =>
    rw [List.foldl_cons, List.foldl_cons, ← ih]
    congr 1
    split
    · rfl
    · rw [inflow_silence]
      exact List.map_set.symm

theorem start_silence (G : Graph) (seed : Facts) :
    G.start (seed.suppress cs) = silence cs (G.start seed) := by
  simp [start, silence, List.map_set]

theorem settled_silence (seed : Facts) (F : Option Facts) :
    settled (seed.suppress cs) (F.map (·.suppress cs)) = (settled seed F).suppress cs := by
  cases F with
  | none => rfl
  | some F =>
    cases hF : F.bottom <;> simp [settled, hF]

/-- One pass is as good as several, so nothing depends on when passes stop. -/
theorem propagate_suppress {G : Graph} (hG : G.Structured) (seed : Facts) :
    G.propagate (seed.suppress cs) = (G.propagate seed).map (·.suppress cs) := by
  have hpass : ∀ F, G.propagate F = (G.pass (G.start F)).map (settled F) := fun F =>
    (confirms_passes hG F 1).map_settled (confirms_firstPass hG F)
  rw [hpass, hpass, start_silence, pass_silence]
  simp only [silence, List.map_map]
  exact List.map_congr_left fun F _ => settled_silence cs seed F

end Graph

end Flow

namespace Check

open Java Project LevelGuard.Flow

section Steps

variable (cs : List Category)

theorem annotated_suppress (F : Facts) (annotations : List Annotation) :
    annotated (F.suppress cs) annotations = (annotated F annotations).suppress cs := by
  unfold annotated
  cases floorLevel? annotations with
  | none => exact Facts.suppress_comm _ _ _
  | some level => exact Facts.suppress_comm cs (F.raiseAnnotationFloor level) _

theorem memberFacts_suppress (F : Facts) (m : Member) :
    memberFacts (F.suppress cs) m = (memberFacts F m).suppress cs := by
  cases m with
  | method m =>
    have hthrows : ∀ (F : Facts) (types : List TypeRef),
        types.foldl (fun F t => F.assume (.excluded t.name) true) (F.suppress cs) =
          (types.foldl (fun F t => F.assume (.excluded t.name) true) F).suppress cs := by
      intro F types
      induction types generalizing F with
      | nil => rfl
      | cons t types ih => rw [List.foldl_cons, List.foldl_cons, Facts.suppress_assume, ih]
    unfold memberFacts methodFacts
    simp only [annotated_suppress, hthrows]
    cases requiredPermission? m.annotations with
    | none => rfl
    | some r => exact Facts.suppress_declareRequirement cs _ r
  | field f => exact annotated_suppress cs F _
  | constant c => exact annotated_suppress cs F _
  | initializer isStatic body => rfl
  | type d => rfl

def Visit.silence : Visit → Visit
  | .type F locals d => .type (F.suppress cs) locals d
  | .member P F owner m => .member P (F.suppress cs) owner m
  | .site P F event => .site P (F.suppress cs) event

variable {cs} {inner : InnerVisits}

/-- The steps of inner code are the same where more is silenced around it. -/
def Silences (cs : List Category) (inner : InnerVisits) : Prop :=
  ∀ F i, inner (F.suppress cs) i = (inner F i).map (Visit.silence cs)

theorem eventVisits_suppress (h : Silences cs inner) (P : Place) (F : Facts) (event : Event) :
    eventVisits inner P (F.suppress cs) event =
      (eventVisits inner P F event).map (Visit.silence cs) := by
  cases event with
  | lambda params body => exact congrArg (_ :: ·) (h { F with excluded := .empty } _)
  | classBody d => exact congrArg (_ :: ·) (h { F with excluded := .empty } _)
  | _ => rfl

theorem codeVisits_suppress (h : Silences cs inner) (P : Place) (seed : Facts) (c : Code) :
    codeVisits inner P (seed.suppress cs) c =
      (codeVisits inner P seed c).map (Visit.silence cs) := by
  have hfacts : ∀ (facts : List Facts) (b : Nat),
      (facts.map (·.suppress cs)).getD b (seed.suppress cs) = (facts.getD b seed).suppress cs := by
    intro facts b
    rw [List.getD_eq_getElem?_getD, List.getD_eq_getElem?_getD, List.getElem?_map]
    cases facts[b]? <;> rfl
  unfold codeVisits graphVisits
  simp only [Graph.propagate_suppress cs (Code.structured_graph _ c), hfacts, Site.inside_suppress,
    eventVisits_suppress h, List.map_flatMap]

theorem memberVisits_suppress (h : Silences cs inner) (P : Place) (F : Facts) (owner : String)
    (m : Member) : memberVisits inner P (F.suppress cs) owner m =
      (memberVisits inner P F owner m).map (Visit.silence cs) := by
  have hcode : ∀ G : Facts, ((Code.ofMember? m).map (codeVisits inner P (G.suppress cs))).getD [] =
      (((Code.ofMember? m).map (codeVisits inner P G)).getD []).map (Visit.silence cs) := by
    intro G
    cases Code.ofMember? m with
    | none => rfl
    | some c => exact codeVisits_suppress h P G c
  unfold memberVisits insideVisits
  simp only [memberFacts_suppress, hcode, h _ _, List.map_cons, List.map_append, List.map_flatMap]
  rfl

theorem typeVisits_suppress (h : Silences cs inner) (K : Platform.Catalog) (I : Index)
    (u : CompilationUnit) (outer : Facts) (locals : Locals) (d : TypeDecl) :
    typeVisits inner K I u (outer.suppress cs) locals d =
      (typeVisits inner K I u outer locals d).map (Visit.silence cs) := by
  unfold typeVisits
  rw [annotated_suppress, List.map_cons, List.map_flatMap]
  exact congrArg (_ :: ·) (List.flatMap_congr fun m _ => memberVisits_suppress h _ _ _ m)

theorem silences_innerVisits (K : Platform.Catalog) (I : Index) (u : CompilationUnit) (n : Nat) :
    Silences cs (innerVisits K I u n) := by
  induction n with
  | zero => exact fun F i => rfl
  | succ n ih =>
    intro F i
    cases i with
    | lambda P c => exact codeVisits_suppress ih P F c
    | type locals d => exact typeVisits_suppress ih K I u F locals d

end Steps

def othersThan (c : Category) (findings : List Diagnostic) : List Diagnostic :=
  findings.filter fun d => d.category ≠ c

namespace Setting

variable (C : Setting) (c : Category) (F : Facts)

theorem othersThan_ite {found : Diagnostic} {p p' : Bool}
    (h : p' = (p && found.category ≠ c)) :
    (if p' then [found] else []) = othersThan c (if p then [found] else []) := by
  subst h
  cases p with
  | false => rfl
  | true => by_cases hc : found.category = c <;> simp [othersThan, hc]

theorem lacksLevel_suppress (k : Category) (level : Level) :
    C.lacksLevel (F.suppress [c]) k level = (C.lacksLevel F k level && k ≠ c) := by
  have hfloor : (F.suppress [c]).effectiveFloor C.baseline.min =
      F.effectiveFloor C.baseline.min := rfl
  unfold lacksLevel
  rw [Facts.isSuppressed_suppress, hfloor]
  by_cases hc : k = c <;> simp [hc]

theorem checkLevel_suppress (s : Resolved) (level : Level) (span : Span) :
    C.checkLevel (F.suppress [c]) s level span = othersThan c (C.checkLevel F s level span) :=
  othersThan_ite c (C.lacksLevel_suppress c F _ level)

theorem checkResources_suppress (span : Span) :
    C.checkResources (F.suppress [c]) span = othersThan c (C.checkResources F span) :=
  othersThan_ite c (C.lacksLevel_suppress c F _ _)

theorem checkDatePattern_suppress (e : Expr) :
    C.checkDatePattern (F.suppress [c]) e = othersThan c (C.checkDatePattern F e) := by
  unfold checkDatePattern
  split
  · split
    · rfl
    · split
      · exact othersThan_ite c (C.lacksLevel_suppress c F _ _)
      · rfl
  · rfl

theorem othersThan_ite_not {found : Diagnostic} {p p' : Bool}
    (h : p' = (p || found.category = c)) :
    (if p' then [] else [found]) = othersThan c (if p then [] else [found]) := by
  subst h
  cases p with
  | true => rfl
  | false => by_cases hc : found.category = c <;> simp [othersThan, hc]

theorem checkRevocable_suppress (r : Permission.Requirement) (span : Span) :
    C.checkRevocable (F.suppress [c]) r span = othersThan c (C.checkRevocable F r span) := by
  refine othersThan_ite_not c ?_
  rw [Facts.isSuppressed_suppress]
  change (_ || _ || _ || preparedFor F r _) = (_ || decide (Category.revocablePermission = c))
  grind

/-- A demand is met, or not, whatever is silenced, so no other finding takes the place of
one that is left out. -/
theorem checkPermission_suppress (s : Resolved) (r : Permission.Requirement) (span : Span) :
    C.checkPermission (F.suppress [c]) s r span = othersThan c (C.checkPermission F s r span) := by
  have hmeets : ∀ e, C.meets (F.suppress [c]) r e = C.meets F r e := fun e => rfl
  have hmessage : C.missingMessage (F.suppress [c]) s r = C.missingMessage F s r := rfl
  unfold checkPermission
  simp only [hmeets, hmessage, Facts.isSuppressed_suppress]
  cases r.appliesTo C.baseline.min C.baseline.target with
  | false => rfl
  | true =>
    cases r.expr.conditionalInner? with
    | some inner =>
      refine othersThan_ite_not c ?_
      rw [Bool.or_assoc]
      rfl
    | none =>
      cases C.meets F r r.expr with
      | true => exact C.checkRevocable_suppress c F r span
      | false => exact othersThan_ite_not c rfl

theorem checkSymbol_suppress (s : Resolved) (span : Span) :
    C.checkSymbol (F.suppress [c]) s span = othersThan c (C.checkSymbol F s span) := by
  unfold checkSymbol othersThan
  rw [List.filter_flatMap]
  refine List.flatMap_congr fun demand _ => ?_
  cases demand with
  | version level => exact C.checkLevel_suppress c F s level span
  | permission r => exact C.checkPermission_suppress c F s r span

theorem checkOverride_suppress (owner : String) (m : MethodDecl) :
    C.checkOverride (F.suppress [c]) owner m = othersThan c (C.checkOverride F owner m) := by
  unfold checkOverride
  split
  · refine othersThan_ite_not c ?_
    rw [Facts.isSuppressed_suppress]
    change _ = (_ || decide (Category.override = c))
    grind
  · rfl

theorem othersThan_getD (s : Option Resolved) {f g : Resolved → List Diagnostic}
    (h : ∀ s, f s = othersThan c (g s)) : (s.map f).getD [] = othersThan c ((s.map g).getD []) := by
  cases s with
  | none => rfl
  | some s => exact h s

theorem checkSupertypes_suppress (R : Resolver) (d : TypeDecl) :
    C.checkSupertypes R (F.suppress [c]) d = othersThan c (C.checkSupertypes R F d) := by
  unfold checkSupertypes
  split
  · rfl
  · unfold othersThan
    rw [List.filter_flatMap]
    exact List.flatMap_congr fun t _ =>
      othersThan_getD c _ fun s => C.checkSymbol_suppress c F s t.span

theorem checkReference_suppress (s : Resolved) (e : Expr) :
    C.checkReference (F.suppress [c]) s e = othersThan c (C.checkReference F s e) := by
  unfold checkReference
  rw [checkSymbol_suppress, checkDatePattern_suppress, othersThan, othersThan, othersThan,
    List.filter_append]
  split <;> rfl

theorem checkEvent_suppress (P : Place) (event : Event) :
    C.checkEvent (fun _ _ => []) P (F.suppress [c]) event =
      othersThan c (C.checkEvent (fun _ _ => []) P F event) := by
  cases event with
  | reference e => exact othersThan_getD c _ fun s => C.checkReference_suppress c F s e
  | typeUse t => exact othersThan_getD c _ fun s => C.checkSymbol_suppress c F s t.span
  | caseLabel label selector =>
    exact othersThan_getD c _ fun s => C.checkSymbol_suppress c F s label.span
  | tryWithResources span => exact C.checkResources_suppress c F span
  | lambda params body => rfl
  | classBody d => rfl

/-- A step finds the same but for the findings of the category that is silenced. -/
theorem perform_silence (u : CompilationUnit) (v : Visit) :
    C.perform u (v.silence [c]) = othersThan c (C.perform u v) := by
  cases v with
  | type F locals d =>
    simp only [Visit.silence, perform, annotated_suppress]
    exact C.checkSupertypes_suppress c _ _ d
  | member P F owner m =>
    simp only [Visit.silence, perform, memberFacts_suppress]
    cases m with
    | method m => exact C.checkOverride_suppress c _ owner m
    | _ => rfl
  | site P F event => exact C.checkEvent_suppress c F P event

/-- Where a category is silenced around inner code, its findings are left out there and
nothing else changes. -/
theorem checkInner_suppress (u : CompilationUnit) (n : Nat) (i : Inner) :
    C.checkInner u n (F.suppress [c]) i = othersThan c (C.checkInner u n F i) := by
  rw [performs_innerVisits n, performs_innerVisits n, silences_innerVisits, List.flatMap_map,
    othersThan, List.filter_flatMap]
  exact List.flatMap_congr fun v _ => C.perform_silence c u v

theorem checkMember_suppress (u : CompilationUnit) (n : Nat) (P : Place) (owner : String)
    (m : Member) : C.checkMember (C.checkInner u n) P (F.suppress [c]) owner m =
      othersThan c (C.checkMember (C.checkInner u n) P F owner m) := by
  rw [checkMember_eq_flatMap (performs_innerVisits n), checkMember_eq_flatMap (performs_innerVisits n),
    memberVisits_suppress (silences_innerVisits _ _ _ _), List.flatMap_map, othersThan,
    List.filter_flatMap]
  exact List.flatMap_congr fun v _ => C.perform_silence c u v

end Setting

end Check

end LevelGuard
