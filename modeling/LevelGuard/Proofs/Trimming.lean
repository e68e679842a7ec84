import LevelGuard.Proofs.Declarations
import LevelGuard.Proofs.Silencing

/-!
# Checking what is the same up to annotations

Two files with the same plain form are checked side by side. As long as no annotation
differs the same is found. A declaration that silences a category in the second file is
checked there like in the first with the category silenced around it. What is checked
around it and beside it does not notice.
-/
namespace LevelGuard

namespace Check

open Java Project LevelGuard.Flow

namespace Setting

variable (C : Setting) (u : CompilationUnit)

/-- Everything that is found while a type, a member or a site is checked, with what is inside. -/
def findings : Visit → List Diagnostic
  | .type F locals d => C.checkInner u (declDepth d) F (.type locals d)
  | .member P F owner m => C.checkMember (C.checkInner u (memberDepth m)) P F owner m
  | .site P F event => C.checkEvent (C.checkInner u (eventDepth event)) P F event

theorem checkInner_eq_of_depth_le {n m : Nat} (hnm : n ≤ m) (F : Facts) {i : Inner}
    (hi : i.depth ≤ n) : C.checkInner u n F i = C.checkInner u m F i := by
  rw [performs_innerVisits n, performs_innerVisits m, innerVisits_eq_of_depth_le _ _ _ hnm F i hi]

theorem checkMember_eq_of_depth_le {n : Nat} (P : Place) (F : Facts) (owner : String) {m : Member}
    (hm : memberDepth m ≤ n) : C.checkMember (C.checkInner u (memberDepth m)) P F owner m =
      C.checkMember (C.checkInner u n) P F owner m := by
  rw [checkMember_eq_flatMap (performs_innerVisits _), checkMember_eq_flatMap (performs_innerVisits n),
    memberVisits_congr (innerVisits_eq_of_depth_le _ _ _ hm) _ _ _ (Nat.le_refl _)]

end Setting

/-- Without a mark the same is found. With it, what is found of the category is left out
where `D` is checked, at one of the steps, and the rest is the same. -/
def Trimmed (C : Setting) (u : CompilationUnit) (c : Category) (D : Declaration)
    (visits : List Visit) : Bool → List Diagnostic → List Diagnostic → Prop
  | false, found, found' => found' = found
  | true, found, found' => ∃ before inside after, found = before ++ inside ++ after ∧
      found' = before ++ othersThan c inside ++ after ∧
      ∃ v ∈ visits, v.subject? = some (.declaration D) ∧ inside = C.findings u v

namespace Trimmed

variable {C : Setting} {u : CompilationUnit} {c : Category} {D D' : Declaration}
  {visits visits' : List Visit} {marked marked' : Bool} {found found' more more' : List Diagnostic}

theorem mono (h : Trimmed C u c D visits marked found found') (hvisits : visits ⊆ visits') :
    Trimmed C u c D visits' marked found found' := by
  cases marked with
  | false => exact h
  | true =>
    obtain ⟨before, inside, after, hfound, hfound', v, hv, hD, hinside⟩ := h
    exact ⟨before, inside, after, hfound, hfound', v, hvisits hv, hD, hinside⟩

theorem append (h : Trimmed C u c D visits marked found found')
    (h' : Trimmed C u c D visits' marked' more more') (hone : (marked && marked') = false) :
    Trimmed C u c D (visits ++ visits') (marked || marked') (found ++ more) (found' ++ more') := by
  cases marked with
  | false =>
    obtain rfl : found' = found := h
    have h' := h'.mono (List.subset_append_right visits visits')
    cases marked' with
    | false =>
      obtain rfl : more' = more := h'
      rfl
    | true =>
      obtain ⟨before, inside, after, rfl, rfl, hv⟩ := h'
      exact ⟨found' ++ before, inside, after, by simp, by simp, hv⟩
  | true =>
    obtain rfl : marked' = false := hone
    obtain rfl : more' = more := h'
    obtain ⟨before, inside, after, rfl, rfl, hv⟩ := h.mono (List.subset_append_left visits visits')
    exact ⟨before, inside, after ++ more', by simp, by simp, hv⟩

/-- What is found for a list of things that are the same up to annotations. -/
theorem flatMap {α β : Type} {l l' : List α} (plain : α → β) (declarations : α → List Declaration)
    {steps : α → List Visit} {find find' : α → List Diagnostic}
    (hplain : l.map plain = l'.map plain)
    (hlength : ∀ a a', plain a = plain a' → (declarations a).length = (declarations a').length)
    (hmarked : Marked D D' marked (l.flatMap declarations) (l'.flatMap declarations))
    (hstep : ∀ a ∈ l, ∀ a', plain a = plain a' → ∀ m, Marked D D' m (declarations a) (declarations a') →
      Trimmed C u c D (steps a) m (find a) (find' a')) :
    Trimmed C u c D (l.flatMap steps) marked (l.flatMap find) (l'.flatMap find') := by
  induction l generalizing l' marked with
  | nil =>
    obtain rfl := List.map_eq_nil_iff.mp hplain.symm
    cases hmarked
    rfl
  | cons a l ih =>
    cases l' with
    | nil => cases hplain
    | cons a' l' =>
      obtain ⟨ha, hl⟩ := List.cons.inj hplain
      rw [List.flatMap_cons, List.flatMap_cons] at hmarked
      obtain ⟨m₁, m₂, h₁, h₂, rfl, hone⟩ := hmarked.of_append (hlength a a' ha)
      rw [List.flatMap_cons, List.flatMap_cons, List.flatMap_cons]
      refine (hstep a List.mem_cons_self a' ha m₁ h₁).append ?_ hone
      exact ih hl h₂ fun b hb => hstep b (List.mem_cons_of_mem a hb)

end Trimmed

/-- The sites are the same up to annotations, and the mark, if any, is inside the code that
begins at a site of the given block. -/
inductive Sited (D D' : Declaration) :
    Option Nat → List (Nat × Site) → List (Nat × Site) → Prop
  | nil : Sited D D' none [] []
  | same {hit : Option Nat} {b : Nat} {s s' : Site} {l l' : List (Nat × Site)} :
    s.plain = s'.plain → Marked D D' false (eventDeclared s.event) (eventDeclared s'.event) →
      Sited D D' hit l l' → Sited D D' hit ((b, s) :: l) ((b, s') :: l')
  | here {b : Nat} {s s' : Site} {l l' : List (Nat × Site)} :
    s.plain = s'.plain → Marked D D' true (eventDeclared s.event) (eventDeclared s'.event) →
      Sited D D' none l l' → Sited D D' (some b) ((b, s) :: l) ((b, s') :: l')

namespace Sited

variable {C : Setting} {u : CompilationUnit} {c : Category} {D D' : Declaration}
  {l l' : List (Nat × Site)}

theorem of_marked {marked : Bool} (hplain : l.map plainPlaced = l'.map plainPlaced)
    (hmarked : Marked D D' marked (l.flatMap fun s => eventDeclared s.2.event)
      (l'.flatMap fun s => eventDeclared s.2.event)) :
    ∃ hit, Sited D D' hit l l' ∧ marked = hit.isSome ∧ ∀ b ∈ hit, b ∈ l.map Prod.fst := by
  induction l generalizing l' marked with
  | nil =>
    obtain rfl := List.map_eq_nil_iff.mp hplain.symm
    cases hmarked
    exact ⟨none, .nil, rfl, fun b hb => nomatch hb⟩
  | cons p l ih =>
    cases l' with
    | nil => cases hplain
    | cons p' l' =>
      obtain ⟨b, s⟩ := p
      obtain ⟨b', s'⟩ := p'
      obtain ⟨hp, hl⟩ := List.cons.inj hplain
      obtain ⟨rfl, hs⟩ : b = b' ∧ s.plain = s'.plain := Prod.mk.inj hp
      have hlength := length_eventDeclared (congrArg Site.event hs :)
      obtain ⟨m₁, m₂, h₁, h₂, rfl, hone⟩ := hmarked.of_append hlength
      obtain ⟨hit, hsited, rfl, hmem⟩ := ih hl h₂
      cases m₁ with
      | false =>
        refine ⟨hit, .same hs h₁ hsited, rfl, fun b hb => ?_⟩
        exact List.mem_cons_of_mem _ (hmem b hb)
      | true =>
        obtain rfl := Option.not_isSome_iff_eq_none.mp (Bool.eq_false_iff.mp hone)
        refine ⟨some b, .here hs h₁ hsited, rfl, fun b' hb' => ?_⟩
        obtain rfl := Option.some.inj hb'
        exact List.mem_cons_self

theorem block {hit : Option Nat} (h : Sited D D' hit l l') (b : Nat) {steps : Site → List Visit}
    {find find' : Site → List Diagnostic}
    (hstep : ∀ s, (b, s) ∈ l → ∀ s', s.plain = s'.plain → ∀ m,
      Marked D D' m (eventDeclared s.event) (eventDeclared s'.event) →
        Trimmed C u c D (steps s) m (find s) (find' s')) :
    Trimmed C u c D ((sitesAt b l).flatMap steps) (hit = some b) ((sitesAt b l).flatMap find)
      ((sitesAt b l').flatMap find') := by
  induction h with
  | nil => rfl
  | @same hit b' s s' l l' hs hm h ih =>
    have ih := ih fun s hs => hstep s (List.mem_cons_of_mem _ hs)
    rw [sitesAt_cons, sitesAt_cons]
    by_cases hb : b' = b
    · subst hb
      have hhead := hstep s List.mem_cons_self s' hs false hm
      simpa only [if_true, List.singleton_append, List.flatMap_cons, Bool.false_or]
        using hhead.append ih rfl
    · simpa only [if_neg hb, List.nil_append] using ih
  | @here b' s s' l l' hs hm h ih =>
    have ih : Trimmed C u c D _ false _ _ := ih fun s hs => hstep s (List.mem_cons_of_mem _ hs)
    rw [sitesAt_cons, sitesAt_cons]
    by_cases hb : b' = b
    · subst hb
      have hhead := hstep s List.mem_cons_self s' hs true hm
      simpa only [if_true, List.singleton_append, List.flatMap_cons, decide_true, Bool.or_false]
        using hhead.append ih rfl
    · have hother : decide (some b' = some b) = false := by simp [hb]
      simpa only [if_neg hb, List.nil_append, hother] using ih

theorem blocks {hit : Option Nat} (h : Sited D D' hit l l') {bs : List Nat} (hbs : bs.Nodup)
    {steps : Nat → Site → List Visit} {find find' : Nat → Site → List Diagnostic}
    (hstep : ∀ b s, (b, s) ∈ l → ∀ s', s.plain = s'.plain → ∀ m,
      Marked D D' m (eventDeclared s.event) (eventDeclared s'.event) →
        Trimmed C u c D (steps b s) m (find b s) (find' b s')) :
    Trimmed C u c D (bs.flatMap fun b => (sitesAt b l).flatMap (steps b))
      (bs.any fun b => hit = some b) (bs.flatMap fun b => (sitesAt b l).flatMap (find b))
      (bs.flatMap fun b => (sitesAt b l').flatMap (find' b)) := by
  induction bs with
  | nil => rfl
  | cons b bs ih =>
    obtain ⟨hb, hrest⟩ := List.nodup_cons.mp hbs
    rw [List.any_cons]
    refine (h.block b (hstep b)).append (ih hrest) ?_
    by_cases hhit : hit = some b
    · subst hhit
      simp only [decide_true, Bool.true_and, List.any_eq_false, Option.some.injEq, decide_eq_true_eq]
      rintro b' hb' rfl
      exact hb hb'
    · simp [hhit]

end Sited

namespace Setting

variable (C : Setting) (F : Facts)

theorem checkDatePattern_plain (e : Expr) :
    C.checkDatePattern F (plainExpr e) = C.checkDatePattern F e := by
  cases e with
  | new s type args body =>
    cases args with
    | nil => rfl
    | cons arg args => simp only [plainExpr, plainExprs, checkDatePattern, Expr.stringLiteral?_plain,
        Expr.span_plain]
  | _ => rfl

theorem checkReference_plain (s : Resolved) (e : Expr) :
    C.checkReference F s (plainExpr e) = C.checkReference F s e := by
  unfold checkReference
  rw [checkDatePattern_plain, Expr.span_plain]

/-- At a site where no inner code begins the same is found. -/
theorem checkEvent_plain (P : Place) (event : Event) :
    C.checkEvent (fun _ _ => []) P.plain F event.plain =
      C.checkEvent (fun _ _ => []) P F event := by
  cases event with
  | reference e =>
    simp only [Event.plain, checkEvent, Place.plain, Resolver.reference?_plain, checkReference_plain]
  | typeUse t => simp only [Event.plain, checkEvent, Place.plain, Resolver.typeUse?_plain]
  | caseLabel label selector =>
    simp only [Event.plain, checkEvent, Place.plain, Resolver.caseLabel?_plain, Expr.span_plain]
  | _ => rfl

theorem checkOwn_plain (owner : String) (m : Member) :
    C.checkOwn F owner (plainMember m) = C.checkOwn F owner m := by
  rcases m with ⟨⟨⟩⟩ | ⟨⟨⟩⟩ | _ | _ | ⟨⟨⟩⟩ <;> rfl

theorem checkSupertypes_plain (R : Resolver) (d : TypeDecl) :
    C.checkSupertypes R.plain F (plainDecl d) = C.checkSupertypes R F d := by
  cases d
  simp only [checkSupertypes, plainDecl, TypeDecl.supertypes, Resolver.typeUse?_plain]

def checkTypeBody (u : CompilationUnit) (check : InnerCheck) (locals : Locals) (d : TypeDecl) :
    List Diagnostic :=
  C.checkSupertypes (typePlace C.catalog C.index u locals d).resolver F d ++
    d.members.flatMap (C.checkMember check (typePlace C.catalog C.index u locals d) F d.qualified)

end Setting

theorem Place.inside_plain (P : Place) (c : Code) : (P.inside c).plain = P.plain.inside c.plain := by
  unfold inside
  rw [Code.locals_plain, Code.recognizer_plain]
  rfl

theorem qualified_plain (d : TypeDecl) : (plainDecl d).qualified = d.qualified := by
  cases d
  rfl

theorem typePlace_plain (K : Platform.Catalog) (I : Index) (u : CompilationUnit) (locals : Locals)
    (d : TypeDecl) : typePlace K I u.plain locals (plainDecl d) = (typePlace K I u locals d).plain := by
  unfold typePlace
  rw [Recognizer.ofUnit_plain, Recognizer.fieldVariables_plain, qualified_plain]
  exact congrArg (fun R => (⟨R, _, _⟩ : Place)) (Resolver.ofScope_plain K (.inside I u d.qualified))

theorem innerLocals_plain (P : Place) (m : Member) :
    innerLocals P.plain (plainMember m) = innerLocals P m := by
  rcases m with ⟨⟨⟩⟩ | ⟨⟨⟩⟩ | _ | _ | ⟨⟨⟩⟩ <;> rfl

/-- The facts inside a member, given what its annotations say. -/
def memberFactsOf (F : Facts) (required : Option Permission.Requirement) : Member → Facts
  | .method m =>
    let F := m.throwsTypes.foldl (fun F t => F.assume (.excluded t.name) true) F
    required.elim F F.declareRequirement
  | _ => F

theorem memberFacts_eq (F : Facts) (m : Member) :
    memberFacts F m = memberFactsOf (annotated F (Declaration.member m).annotations)
      (requiredPermission? (Declaration.member m).annotations) m := by
  cases m <;> rfl

theorem memberFactsOf_plain (F : Facts) (required : Option Permission.Requirement) (m : Member) :
    memberFactsOf F required (plainMember m) = memberFactsOf F required m := by
  rcases m with ⟨⟨⟩⟩ | ⟨⟨⟩⟩ | _ | _ | ⟨⟨⟩⟩ <;> rfl

/-- The second annotations say what the first say, and silence the category. -/
structure Quiets (c : Category) (annotations annotations' : List Annotation) : Prop where
  facts : ∀ F, annotated F annotations' = annotated (F.suppress [c]) annotations
  required : requiredPermission? annotations' = requiredPermission? annotations

/-- The checks of inner code that is the same up to annotations, in two files. -/
def TrimsTo (C : Setting) (u u' : CompilationUnit) (c : Category) (D D' : Declaration) (n : Nat) :
    Prop :=
  ∀ F i i' marked, i.plain = i'.plain → Marked D D' marked i.declarations i'.declarations →
    i.depth ≤ n → Trimmed C u c D (innerVisits C.catalog C.index u n F i) marked
      (C.checkInner u n F i) (C.checkInner u' n F i')

namespace TrimsTo

variable {C : Setting} {u u' : CompilationUnit} {c : Category} {D D' : Declaration} {n : Nat}
  {marked : Bool}

theorem event (ih : TrimsTo C u u' c D D' n) {P P' : Place} (hP : P.plain = P'.plain) (F : Facts)
    {event event' : Event} (hevent : event.plain = event'.plain)
    (hm : Marked D D' marked (eventDeclared event) (eventDeclared event'))
    (hdepth : eventDepth event ≤ n) :
    Trimmed C u c D (eventVisits (innerVisits C.catalog C.index u n) P F event) marked
      (C.checkEvent (C.checkInner u n) P F event) (C.checkEvent (C.checkInner u' n) P' F event') := by
  have hleaf : C.checkEvent (fun _ _ => []) P' F event' = C.checkEvent (fun _ _ => []) P F event := by
    rw [← C.checkEvent_plain F P' event', ← C.checkEvent_plain F P event, hP, hevent]
  cases event with
  | lambda params body =>
    cases event' with
    | lambda params' body' =>
      obtain ⟨rfl, hbody⟩ := Event.lambda.inj hevent
      have hcode : (Code.ofLambda params body).plain = (Code.ofLambda params body').plain := by
        rw [← Code.ofLambda_plain, ← Code.ofLambda_plain, hbody]
      refine (ih _ (.lambda P (Code.ofLambda params body)) (.lambda P' (Code.ofLambda params body'))
        marked ?_ hm hdepth).mono (List.subset_cons_self _ _)
      rw [Inner.plain, Inner.plain, hP, hcode]
    | _ => cases hevent
  | classBody d =>
    cases event' with
    | classBody d' =>
      have hd : plainDecl d = plainDecl d' := Event.classBody.inj hevent
      have hlocals : P.locals = P'.locals := (congrArg Place.locals hP :)
      refine (ih _ (.type P.locals d) (.type P'.locals d') marked ?_ hm hdepth).mono
        (List.subset_cons_self _ _)
      exact congrArg₂ Inner.type hlocals hd
    | _ => cases hevent
  | reference e | typeUse t | caseLabel label selector | tryWithResources span =>
    cases event' with
    | reference e' | typeUse t' | caseLabel label' selector' | tryWithResources span' =>
      cases hm
      exact hleaf
    | _ => cases hevent

theorem code (ih : TrimsTo C u u' c D D' n) {P P' : Place} (hP : P.plain = P'.plain) (F : Facts)
    {k k' : Code} (hk : k.plain = k'.plain)
    (hm : Marked D D' marked (declared k.nodes) (declared k'.nodes)) (hdepth : k.depth ≤ n) :
    Trimmed C u c D (codeVisits (innerVisits C.catalog C.index u n) P F k) marked
      (C.checkCode (C.checkInner u n) P F k) (C.checkCode (C.checkInner u' n) P' F k') := by
  have hinside : (P.inside k).plain = (P'.inside k').plain := by
    rw [Place.inside_plain, Place.inside_plain, hP, hk]
  have hrecognizer : (P.inside k).recognizer = (P'.inside k').recognizer :=
    (congrArg Place.recognizer hinside :)
  unfold codeVisits graphVisits Setting.checkCode Setting.checkGraph
  rw [← hrecognizer]
  generalize (P.inside k).recognizer = R
  have hgraph : (k.graph R).plain = (k'.graph R).plain := by
    rw [← Code.graph_plain, ← Code.graph_plain, hk]
  have hsize : (k'.graph R).size = (k.graph R).size := (congrArg Graph.size hgraph.symm :)
  have hfacts : (k'.graph R).propagate F = (k.graph R).propagate F := by
    rw [← Graph.propagate_plain, ← hgraph, Graph.propagate_plain]
  rw [declared_code, declared_code, ← k.graph_sites R, ← k'.graph_sites R, List.flatMap_map,
    List.flatMap_map] at hm
  obtain ⟨hit, hsited, rfl, hmem⟩ := Sited.of_marked (congrArg Graph.sites hgraph :) hm
  have hany : hit.isSome = (List.range (k.graph R).size).any fun b => hit = some b := by
    cases hit with
    | none => simp
    | some b =>
      obtain ⟨s, hs, rfl⟩ := List.mem_map.mp (hmem b rfl)
      have hb := (Code.sites_graph hs).1
      exact (List.any_eq_true.mpr ⟨s.1, List.mem_range.mpr hb, by simp⟩).symm
  rw [hany, hfacts, hsize]
  refine hsited.blocks List.nodup_range fun b s hs s' hplain m hm => ?_
  have hsite : s ∈ k.sites := by
    rw [← k.graph_sites R]
    exact List.mem_map_of_mem hs
  have hhandlers : s'.handlers = s.handlers := (congrArg Site.handlers hplain.symm :)
  unfold Setting.checkSite Site.inside
  rw [hhandlers]
  exact ih.event hinside _ (congrArg Site.event hplain :) hm
    (Nat.le_trans (eventDepth_le_depth hsite) hdepth)

theorem inside (ih : TrimsTo C u u' c D D' n) {P P' : Place} (hP : P.plain = P'.plain) (F : Facts)
    (owner : String) {m m' : Member} (hm : plainMember m = plainMember m')
    (hmarked : Marked D D' marked (insideDeclared m) (insideDeclared m'))
    (hdepth : memberDepth m ≤ n) :
    Trimmed C u c D (insideVisits (innerVisits C.catalog C.index u n) P F m) marked
      (C.checkOwn F owner m ++
        (((Code.ofMember? m).map (C.checkCode (C.checkInner u n) P F)).getD [] ++
          (memberTypes m).flatMap fun d => C.checkInner u n F (.type (innerLocals P m) d)))
      (C.checkOwn F owner m' ++
        (((Code.ofMember? m').map (C.checkCode (C.checkInner u' n) P' F)).getD [] ++
          (memberTypes m').flatMap fun d => C.checkInner u' n F (.type (innerLocals P' m') d))) := by
  have hown : C.checkOwn F owner m' = C.checkOwn F owner m := by
    rw [← C.checkOwn_plain, ← hm, C.checkOwn_plain]
  have hcodes : (Code.ofMember? m).toList.map Code.plain =
      (Code.ofMember? m').toList.map Code.plain := by
    rw [← Option.toList_map, ← Option.toList_map, ← Code.ofMember?_plain, ← Code.ofMember?_plain, hm]
  have htypes : (memberTypes m).map plainDecl = (memberTypes m').map plainDecl := by
    rw [← memberTypes_plain, ← memberTypes_plain, hm]
  have hlocals : innerLocals P m = innerLocals P' m' := by
    rw [← innerLocals_plain P m, ← innerLocals_plain P' m', hP, hm]
  obtain ⟨m₁, m₂, h₁, h₂, rfl, hone⟩ := hmarked.of_append
    (length_flatMap_of_map_eq hcodes fun _ _ => length_declared_code)
  unfold insideVisits
  rw [getD_map_eq_flatMap, getD_map_eq_flatMap, getD_map_eq_flatMap, hown]
  have hcode := Trimmed.flatMap Code.plain (fun k => declared k.nodes) hcodes
    (fun _ _ => length_declared_code) h₁ fun k hk k' hplain marked hk' =>
      ih.code hP F hplain hk' (Nat.le_trans (depth_ofMember?_le (Option.mem_toList.mp hk)) hdepth)
  have htype := Trimmed.flatMap plainDecl (fun d => declared (declNodes d)) htypes
    (fun _ _ => length_declared_type) h₂ fun d hd d' hplain marked hd' =>
      ih F (.type (innerLocals P m) d) (.type (innerLocals P' m') d') marked
        (congrArg₂ Inner.type hlocals hplain) hd'
        (Nat.le_trans (declDepth_le_memberDepth hd) hdepth)
  have hsame : Trimmed C u c D [] false (C.checkOwn F owner m) (C.checkOwn F owner m) := rfl
  exact hsame.append (hcode.append htype hone) rfl

theorem member (ih : TrimsTo C u u' c D D' n) (hquiet : Quiets c D.annotations D'.annotations)
    {P P' : Place} (hP : P.plain = P'.plain) (F : Facts) (owner : String) {m m' : Member}
    (hm : plainMember m = plainMember m')
    (hmarked : Marked D D' marked (.member m :: insideDeclared m) (.member m' :: insideDeclared m'))
    (hdepth : memberDepth m ≤ n) :
    Trimmed C u c D (memberVisits (innerVisits C.catalog C.index u n) P F owner m) marked
      (C.checkMember (C.checkInner u n) P F owner m)
      (C.checkMember (C.checkInner u' n) P' F owner m') := by
  have hfacts : ∀ F required, memberFactsOf F required m' = memberFactsOf F required m := by
    intro F required
    rw [← memberFactsOf_plain, ← hm, memberFactsOf_plain]
  cases hmarked with
  | same hannotations h =>
    have hsame : memberFacts F m' = memberFacts F m := by
      rw [memberFacts_eq, memberFacts_eq, hfacts, hannotations]
    rw [Setting.checkMember_eq, Setting.checkMember_eq, hsame]
    exact (ih.inside hP _ owner hm h hdepth).mono (List.subset_cons_self _ _)
  | here h =>
    have hsilenced : memberFacts F m' = memberFacts (F.suppress [c]) m := by
      rw [memberFacts_eq, memberFacts_eq, hfacts, hquiet.facts, hquiet.required]
    have hsame : C.checkMember (C.checkInner u' n) P' F owner m' =
        C.checkMember (C.checkInner u n) P (F.suppress [c]) owner m := by
      rw [Setting.checkMember_eq, Setting.checkMember_eq, hsilenced]
      exact ih.inside hP _ owner hm h hdepth
    refine ⟨[], C.checkMember (C.checkInner u n) P F owner m, [], by simp, ?_,
      .member P F owner m, List.mem_cons_self, rfl, ?_⟩
    · rw [hsame, C.checkMember_suppress]
      simp
    · exact (C.checkMember_eq_of_depth_le u P F owner hdepth).symm

theorem typeBody (ih : TrimsTo C u u' c D D' n) (hu : u.plain = u'.plain)
    (hquiet : Quiets c D.annotations D'.annotations) (F : Facts) (locals : Locals)
    {d d' : TypeDecl} (hd : plainDecl d = plainDecl d')
    (hmarked : Marked D D' marked (d.members.flatMap fun m => .member m :: insideDeclared m)
      (d'.members.flatMap fun m => .member m :: insideDeclared m))
    (hdepth : declDepth d ≤ n + 1) :
    Trimmed C u c D
      (d.members.flatMap (memberVisits (innerVisits C.catalog C.index u n)
        (typePlace C.catalog C.index u locals d) F d.qualified)) marked
      (C.checkTypeBody F u (C.checkInner u n) locals d)
      (C.checkTypeBody F u' (C.checkInner u' n) locals d') := by
  have hplace : (typePlace C.catalog C.index u locals d).plain =
      (typePlace C.catalog C.index u' locals d').plain := by
    rw [← typePlace_plain, ← typePlace_plain, hu, hd]
  have hsupertypes : C.checkSupertypes (typePlace C.catalog C.index u' locals d').resolver F d' =
      C.checkSupertypes (typePlace C.catalog C.index u locals d).resolver F d := by
    have hresolver : (typePlace C.catalog C.index u' locals d').resolver.plain =
        (typePlace C.catalog C.index u locals d).resolver.plain :=
      (congrArg Place.resolver hplace.symm :)
    rw [← C.checkSupertypes_plain, ← hd, hresolver, C.checkSupertypes_plain]
  have hqualified : d'.qualified = d.qualified := by
    rw [← qualified_plain, ← hd, qualified_plain]
  have hmembers : d.members.map plainMember = d'.members.map plainMember := by
    rw [← members_plain, ← members_plain, hd]
  have hdepth : membersDepth d.members ≤ n := by
    rw [declDepth_eq] at hdepth
    exact Nat.le_of_succ_le_succ hdepth
  unfold Setting.checkTypeBody
  rw [hsupertypes, hqualified]
  have hlength : ∀ m m', plainMember m = plainMember m' →
      (Declaration.member m :: insideDeclared m).length =
        (Declaration.member m' :: insideDeclared m').length := by
    intro m m' hm
    rw [List.length_cons, List.length_cons, length_insideDeclared hm]
  have hmember := Trimmed.flatMap plainMember _ hmembers hlength hmarked
    fun m hm m' hplain marked hm' => ih.member hquiet hplace F d.qualified hplain hm'
      (Nat.le_trans (memberDepth_le hm) hdepth)
  have hsame : Trimmed C u c D [] false
      (C.checkSupertypes (typePlace C.catalog C.index u locals d).resolver F d)
      (C.checkSupertypes (typePlace C.catalog C.index u locals d).resolver F d) := rfl
  exact hsame.append hmember rfl

theorem type (ih : TrimsTo C u u' c D D' n) (hu : u.plain = u'.plain)
    (hquiet : Quiets c D.annotations D'.annotations) (F : Facts) (locals : Locals)
    {d d' : TypeDecl} (hd : plainDecl d = plainDecl d')
    (hmarked : Marked D D' marked (declared (declNodes d)) (declared (declNodes d')))
    (hdepth : declDepth d ≤ n + 1) :
    Trimmed C u c D (innerVisits C.catalog C.index u (n + 1) F (.type locals d)) marked
      (C.checkInner u (n + 1) F (.type locals d)) (C.checkInner u' (n + 1) F (.type locals d')) := by
  have hbody : ∀ (u : CompilationUnit) F d, C.checkInner u (n + 1) F (.type locals d) =
      C.checkTypeBody (annotated F d.annotations) u (C.checkInner u n) locals d :=
    fun _ _ _ => rfl
  rw [declared_type, declared_type] at hmarked
  cases hmarked with
  | same hannotations h =>
    have hannotations : d'.annotations = d.annotations := hannotations.symm
    rw [hbody, hbody, hannotations]
    exact (ih.typeBody hu hquiet _ locals hd h hdepth).mono (List.subset_cons_self _ _)
  | here h =>
    have hfacts : annotated F d'.annotations = annotated (F.suppress [c]) d.annotations :=
      hquiet.facts F
    have hsame : C.checkInner u' (n + 1) F (.type locals d') =
        C.checkInner u (n + 1) (F.suppress [c]) (.type locals d) := by
      rw [hbody, hbody, hfacts]
      exact ih.typeBody hu hquiet _ locals hd h hdepth
    refine ⟨[], C.checkInner u (n + 1) F (.type locals d), [], by simp, ?_,
      .type F locals d, List.mem_cons_self, rfl, ?_⟩
    · rw [hsame, C.checkInner_suppress]
      simp
    · exact (C.checkInner_eq_of_depth_le u hdepth F (Nat.le_refl _)).symm

end TrimsTo

theorem trimsTo {C : Setting} {u u' : CompilationUnit} {c : Category} {D D' : Declaration}
    (hu : u.plain = u'.plain) (hquiet : Quiets c D.annotations D'.annotations) (n : Nat) :
    TrimsTo C u u' c D D' n := by
  induction n with
  | zero =>
    intro F i i' marked hplain hmarked hdepth
    cases i with
    | lambda P k => cases hdepth
    | type locals d =>
      rw [Inner.depth, declDepth_eq] at hdepth
      cases hdepth
  | succ n ih =>
    intro F i i' marked hplain hmarked hdepth
    cases i with
    | lambda P k =>
      cases i' with
      | lambda P' k' =>
        obtain ⟨hP, hk⟩ := Inner.lambda.inj hplain
        exact ih.code hP F hk hmarked (Nat.le_of_succ_le_succ hdepth)
      | type locals' d' => cases hplain
    | type locals d =>
      cases i' with
      | lambda P' k' => cases hplain
      | type locals' d' =>
        obtain ⟨rfl, hd⟩ := Inner.type.inj hplain
        exact ih.type hu hquiet F locals hd hmarked hdepth

end Check

end LevelGuard
