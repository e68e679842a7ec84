import LevelGuard.Project.Code
import LevelGuard.Proofs.FollowingStatements

/-!
# Graphs simulate programs

The graph of a piece of code follows every run of the code: whatever a run comes by on a
device has a site that the device can get to.
-/
namespace LevelGuard.Flow

open Java Build Runs

variable {R : Recognizer} {W : World} {G : Graph}

section Remaining

variable (R W)

theorem runExpr_binary {op : BinaryOp} (hand : op ≠ .and) (hor : op ≠ .or) (s : Span)
    (lhs rhs : Expr) : runExpr R W (.binary s op lhs rhs) =
      ((runExpr R W lhs).seq <| (runExpr R W rhs).seq <|
        settle (W.Truth R (.binary s op lhs rhs))) := by
  cases op with
  | and => exact absurd rfl hand
  | or => exact absurd rfl hor
  | _ => rfl

theorem runExpr_unary {op : UnaryOp} (hnot : op ≠ .not) (s : Span) (operand : Expr) :
    runExpr R W (.unary s op operand) = (runExpr R W operand).seq anything := by
  cases op with
  | not => exact absurd rfl hnot
  | _ => rfl

theorem runExpr_literal {l : Literal} (hbool : ∀ b, l ≠ .bool b) (s : Span) :
    runExpr R W (.literal s l) = anything := by
  cases l with
  | bool b => exact absurd rfl (hbool b)
  | _ => rfl

theorem runStmt_labeled (label : Option String) (s : Span) (name : String) (body : Stmt) :
    runStmt R W label (.labeled s name body) =
      if takesLabel body then runStmt R W (some name) body
      else (runStmt R W none body).endsAs (.ofLabeled name) := rfl

theorem runLabels_cons (selector : Expr) {e : Expr} (hname : ∀ s n, e ≠ .name s n)
    (rest : List Expr) : runLabels R W selector (e :: rest) =
      (either (skip e) (runExpr R W e)).seq (runLabels R W selector rest) := by
  cases e with
  | name s n => exact absurd rfl (hname s n)
  | _ => rfl

end Remaining

namespace Build.Follows

mutual

theorem lowerExpr (hW : W.Faithful R) (goal : Goal) :
    (e : Expr) → Follows R W G (Flow.lowerExpr R goal e) goal (runExpr R W e)
  | .binary s op lhs rhs => by
    have hlhs := fun goal => lowerExpr hW goal lhs
    have hrhs := fun goal => lowerExpr hW goal rhs
    -- The rules stand without an expected type, from which their steps could not be read off.
    by_cases hand : op = .and
    · subst hand
      cases goal with
      | value => exact (andValue hlhs (hrhs .value) :)
      | branch onTrue onFalse => exact (andBranch onTrue onFalse hlhs hrhs :)
    by_cases hor : op = .or
    · subst hor
      cases goal with
      | value => exact (orValue hlhs (hrhs .value) :)
      | branch onTrue onFalse => exact (orBranch onTrue onFalse hlhs hrhs :)
    · rw [lowerExpr_binary R goal hand hor, runExpr_binary R W hand hor]
      exact (hlhs _).bind fun _ => (hrhs _).bind fun _ =>
        branchOn (fun _ ht _ hg => ht.comparison hW hand hor hg) goal
  | .unary s op operand => by
    have hoperand := fun goal => lowerExpr hW goal operand
    by_cases hnot : op = .not
    · subst hnot
      cases goal with
      | value => exact (hoperand _).negated fun _ _ => rfl
      | branch _ _ =>
        refine (hoperand _).negated ?_
        intro _ t
        cases t <;> rfl
    · rw [lowerExpr_unary R goal hnot, runExpr_unary R W hnot]
      exact (hoperand _).bind fun _ => branchOnUnknown _
  | .conditional _ cond yes no => by
    have hcond := fun goal => lowerExpr hW goal cond
    have hyes := fun goal => lowerExpr hW goal yes
    have hno := fun goal => lowerExpr hW goal no
    cases goal with
    | value => exact (choice hcond (hyes .value) (hno .value) :)
    | branch onTrue onFalse => exact (choiceBranch onTrue onFalse hcond hyes hno :)
  | .literal s l => by
    by_cases hbool : ∃ b, l = .bool b
    · obtain ⟨b, rfl⟩ := hbool
      exact truth b goal
    · have hbool' := fun b hb => hbool ⟨b, hb⟩
      rw [lowerExpr_literal R goal hbool', runExpr_literal R W hbool']
      exact branchOnUnknown _
  | .name _ _ =>
    (addSite _).bind fun _ => branchOn (fun _ ht _ hg => ht.variable hW hg) goal
  | .fieldAccess _ target _ =>
    (lowerExpr hW _ target).bind fun _ => (addSite _).bind fun _ => branchOnUnknown _
  | .call _ target _ args =>
    (lowerExpr? hW target).bind fun _ => (lowerExprs hW args).bind fun _ =>
      (addSite _).bind fun _ => branchOnUnknown _
  | .methodRef _ target _ =>
    (lowerExpr hW _ target).bind fun _ => (addSite _).bind fun _ => branchOnUnknown _
  | .new _ _ args body =>
    (lowerExprs hW args).bind fun _ => (addSite _).bind fun _ =>
      (addSite? _ body).bind fun _ => branchOnUnknown _
  | .newArray _ _ dims init =>
    (lowerExprs hW dims).bind fun _ => (lowerExprs hW init).bind fun _ => branchOnUnknown _
  | .arrayInit _ items => (lowerExprs hW items).bind fun _ => branchOnUnknown _
  | .assign _ target value =>
    (lowerExpr hW _ target).bind fun _ => (lowerExpr hW _ value).bind fun _ => branchOnUnknown _
  | .cast _ _ operand => (lowerExpr hW _ operand).bind fun _ => branchOnUnknown _
  | .instanceOf _ operand _ =>
    (lowerExpr hW _ operand).bind fun _ => (addSite _).bind fun _ => branchOnUnknown _
  | .lambda _ _ _ => (addSite _).bind fun _ => branchOnUnknown _
  | .arrayAccess _ array index =>
    (lowerExpr hW _ array).bind fun _ => (lowerExpr hW _ index).bind fun _ => branchOnUnknown _
  | .switch _ selector cases =>
    (lowerExpr hW _ selector).bind fun _ =>
      switchValue (fun _ _ => .tested (testCases hW selector _ _ _ _ cases)
        (lowerCases hW selector _ _ _ _ _ cases)) _
  | .classLit _ _ => (addSite _).bind fun _ => branchOnUnknown _
  | .this _ => branchOnUnknown _
  | .super _ => branchOnUnknown _
  | .unknown _ parts => (lowerExprs hW parts).bind fun _ => branchOnUnknown _

theorem lowerExpr? (hW : W.Faithful R) :
    (e : Option Expr) → Follows R W G (Flow.lowerExpr? R e) .value (runExpr? R W e)
  | none => pure true
  | some e => lowerExpr hW _ e

theorem lowerCond? (hW : W.Faithful R) (onTrue onFalse : Nat) :
    (e : Option Expr) → Follows R W G (Flow.lowerCond? R onTrue onFalse e)
      (.branch onTrue onFalse) (runExpr? R W e)
  | none => truth true (.branch onTrue onFalse)
  | some e => lowerExpr hW _ e

theorem lowerExprs (hW : W.Faithful R) :
    (es : List Expr) → Follows R W G (Flow.lowerExprs R es) .value (runExprs R W es)
  | [] => pure true
  | e :: es => (lowerExpr hW _ e).bind fun _ => lowerExprs hW es

theorem lowerLabels (hW : W.Faithful R) (selector : Expr) :
    (labels : List Expr) →
      Follows R W G (Flow.lowerLabels R selector labels) .value (runLabels R W selector labels)
  | [] => pure true
  | e :: rest => by
    have hrest := lowerLabels hW selector rest
    by_cases hname : ∃ s n, e = .name s n
    · obtain ⟨s, n, rfl⟩ := hname
      exact (either (passSite _) (addSite _)).bind fun _ => hrest
    · have hname' := fun s n h => hname ⟨s, n, h⟩
      have he := lowerExpr hW .value e
      rw [lowerLabels_cons R selector hname', runLabels_cons R W selector hname']
      exact (either he.skip he).bind fun _ => hrest

theorem testCases (hW : W.Faithful R) (selector : Expr) (head after : Nat) (open? : Option Nat)
    (defaulted : Bool) :
    (cases : List SwitchCase) → FollowsTo R W G (G.Live W.device head)
      (Flow.lowerCases R selector head after open? defaulted cases) head
      (Flow.testCases R W selector cases)
  | [] => .noTest (.noCase head after open? defaulted)
  | ⟨labels, isDefault, isRule, body, _⟩ :: rest => by
    have hlabels := lowerLabels hW selector labels
    have hbody := lowerStmts hW body
    have hrest := fun open? =>
      testCases hW selector head after open? (defaulted || isDefault) rest
    have hguard : (R.caseGuard? selector labels).isSome = false →
        (if isDefault then none else R.caseGuard? selector labels) = none := by
      intro hnone
      rw [Option.isNone_iff_eq_none.mp (Option.isSome_eq_false_iff.mp hnone), ite_self]
    exact (FollowsTo.test hguard hlabels hbody.extending hrest :)

theorem lowerCases (hW : W.Faithful R) (selector : Expr) (head after : Nat)
    (open? : Option Nat) (entered defaulted : Bool) :
    (cases : List SwitchCase) →
      FollowsTo R W G (G.LiveCases W.device head open? entered)
        (Flow.lowerCases R selector head after open? defaulted cases) after
        (runCases R W selector entered defaulted cases)
  | [] => .noCase defaulted
  | ⟨labels, isDefault, isRule, body, _⟩ :: rest => by
    have hlabels := lowerLabels hW selector labels
    have hbody := lowerStmts hW body
    have hrest := fun open? entered =>
      lowerCases hW selector head after open? entered (defaulted || isDefault) rest
    have hguard : isDefault = true ∨ W.Selects R selector labels →
        ∀ g, (if isDefault then none else R.caseGuard? selector labels) = some g →
          ∃ u, g.holds W.device u = true := by
      rintro hselected g hg
      cases isDefault with
      | true => cases hg
      | false => exact (hselected.resolve_left Bool.false_ne_true).holds hg
    exact (FollowsTo.case hguard hlabels hbody hrest :)

theorem lowerVars (hW : W.Faithful R) :
    (decls : List LocalVar) → Follows R W G (Flow.lowerVars R decls) .value (runVars R W decls)
  | [] => pure true
  | ⟨_, _, _, init, _, _⟩ :: rest => (lowerExpr? hW init).bind fun _ => lowerVars hW rest

theorem lowerStmt (hW : W.Faithful R) (label : Option String) :
    (st : Stmt) → Follows R W G (Flow.lowerStmt R label st) .value (runStmt R W label st)
  | .block _ ⟨stmts, _⟩ => lowerStmts hW stmts
  | .vars _ decls => lowerVars hW decls
  | .expr _ e => lowerExpr hW _ e
  | .ifElse _ cond yes no =>
    (choice (fun goal => lowerExpr hW goal cond) (lowerStmt hW none yes) (lowerStmt? hW no) :)
  | .whileLoop _ cond body =>
    (whileLoop (fun goal => lowerExpr hW goal cond) (lowerStmt hW none body) label :)
  | .doWhile _ body cond =>
    (doWhile (fun goal => lowerExpr hW goal cond) (lowerStmt hW none body) label :)
  | .forLoop _ init cond update body =>
    (lowerStmts hW init).bind fun _ => forLoop (fun _ _ => lowerCond? hW _ _ cond)
      (lowerExprs hW update) (lowerStmt hW none body) label
  | .forEach _ _ iterable body =>
    (lowerExpr hW _ iterable).bind fun _ => forEach (lowerStmt hW none body) label
  | .switch _ selector cases =>
    (lowerExpr hW _ selector).bind fun _ =>
      switch (fun _ _ => .tested (testCases hW selector _ _ _ _ cases)
        (lowerCases hW selector _ _ _ _ _ cases)) label
  | .tryCatch _ _ resources ⟨stmts, _⟩ catches always =>
    (addSiteIf _ _).bind fun _ =>
      tryCatch _ ((lowerStmts hW resources).bind fun _ => lowerStmts hW stmts)
        (fun _ _ => lowerCatches hW _ _ catches) (fun _ _ => lowerClosing hW _ _ always)
  | .returns _ value =>
    (lowerExpr? hW value).bind fun _ => leave (.jumpTo _) fun _ _ _ _ => trivial
  | .throws _ value =>
    (lowerExpr hW _ value).bind fun _ => leave (.jumpTo _) fun _ _ _ _ => trivial
  | .yields _ value => (lowerExpr hW _ value).bind fun _ => yieldTo
  | .breaks _ target => breakTo target
  | .continues _ target => continueTo target
  | .labeled _ name body => by
    have hbody := fun label => lowerStmt hW label body
    rw [lowerStmt_labeled, runStmt_labeled]
    split
    · exact hbody _
    · exact labeled (hbody none) name
  | .synchronized _ lock ⟨stmts, _⟩ =>
    (lowerExpr hW _ lock).bind fun _ => lowerStmts hW stmts
  | .localClass _ _ => addSite _
  | .asserts _ cond message =>
    assertion (lowerExpr hW _ cond) (lowerExpr? hW message) (lowerExpr hW _ cond).skip
      (skipExpr? hW message)
  | .empty _ => pure true

theorem skipExpr? (hW : W.Faithful R) :
    (e : Option Expr) → Follows R W G (Flow.lowerExpr? R e) .value (skip? e)
  | none => pure true
  | some e => (lowerExpr hW _ e).skip

theorem lowerStmt? (hW : W.Faithful R) :
    (st : Option Stmt) → Follows R W G (Flow.lowerStmt? R st) .value (runStmt? R W st)
  | none => pure true
  | some st => lowerStmt hW none st

theorem lowerStmts (hW : W.Faithful R) :
    (sts : List Stmt) → Follows R W G (Flow.lowerStmts R sts) .value (runStmts R W sts)
  | [] => pure true
  | st :: rest => (lowerStmt hW none st).bind fun _ => lowerStmts hW rest

theorem lowerCatches (hW : W.Faithful R) (tryBlock join : Nat) :
    (catches : List CatchClause) → FollowsTo R W G (G.Live W.device tryBlock)
      (Flow.lowerCatches R tryBlock join catches) join (runCatches R W catches)
  | [] => .noClause
  | ⟨types, _, ⟨stmts, _⟩, _⟩ :: rest =>
    .clause (addSites _ types) (lowerStmts hW stmts) (lowerCatches hW tryBlock join rest)

theorem lowerClosing (hW : W.Faithful R) (tryBlock join : Nat) :
    (always : Option Block) → Closes R W G (Flow.lowerClosing R tryBlock join always)
      tryBlock join fun A => runClosing R W A always
  | none => .nothing
  | some ⟨stmts, _⟩ => .block (lowerStmts hW stmts)

end

end Build.Follows

theorem Graph.covers_ofBuild {m : Build Unit} {A : Runs}
    (h : Build.Follows R W (.ofBuild m) m .value A) {t : List Step} {o : Ending} (hrun : A t o)
    (hpass : ∀ s ∈ t, Passes R W s) : (Graph.ofBuild m).Covers W.device t := by
  have hw : ((flowTo exitBlock).after (m.after {})).Within (.ofBuild m) :=
    ⟨fun _ he => he, fun _ hs => hs⟩
  have hentry : (Graph.ofBuild m).Live W.device entryBlock := Graph.live_entry W.device
  exact (h.tracks {} (within_flowTo.mp hw).1 hentry t o hrun hpass).1

end LevelGuard.Flow

namespace LevelGuard.Project.Code

open Java LevelGuard.Flow Runs

def runs (c : Code) (R : Recognizer) (W : World) : Runs :=
  match c.steps with
  | .block b => runStmts R W b.stmts
  | .exprs es => runExprs R W es

/-- What a run comes by has a site at the end of a path whose guards can all be true on the
device, if every operand of an assertion and every label that the run leaves out could be
evaluated to its end. -/
theorem event_has_open_path (R : Recognizer) (W : World) (hW : W.Faithful R) (c : Code)
    {t : List Step} {o : Ending} (hrun : c.runs R W t o) (hpass : ∀ s ∈ t, Passes R W s)
    {e : Event} (he : .event e ∈ t) :
    ∃ b site es, (b, site) ∈ (c.graph R).sites ∧ site.event = e ∧
      (c.graph R).Path (c.graph R).entry es b ∧ Passable W.device es := by
  have hcovers : (c.graph R).Covers W.device t := by
    unfold graph
    unfold runs at hrun
    cases hsteps : c.steps with
    | block b =>
      rw [hsteps] at hrun
      exact Graph.covers_ofBuild (.lowerStmts hW b.stmts) hrun hpass
    | exprs es =>
      rw [hsteps] at hrun
      exact Graph.covers_ofBuild (.lowerExprs hW es) hrun hpass
  obtain ⟨b, site, hsite, hevent, es, hpath, hes⟩ := hcovers e he
  exact ⟨b, site, es, hsite, hevent, hpath, hes⟩

def messageCases : List SwitchCase :=
  [⟨[.literal {} (.int 19)], false, true, [], {}⟩, ⟨[], true, true, [.throws {} (.this {})], {}⟩]

/-- The message `switch (SDK_INT) { case 19 -> {} default -> throw this; }`. -/
def switchMessage : Expr := .switch {} (.name {} "SDK_INT") messageCases

/-- The use of `p.Api.class` after an assertion of `ok` with the message. -/
def assertingCode : Code where
  steps := .block
    ⟨[.asserts {} (.name {} "ok") (some switchMessage), .expr {} (.classLit {} ⟨"p.Api", {}⟩)], {}⟩

def importedLevel : Recognizer := { levelImported := true }

def onLevel (v : Level) : World := ⟨⟨v, fun _ => false⟩, fun _ _ => True⟩

theorem onLevel_faithful {v : Level} (hpos : 1 ≤ v) (hle : v ≤ 2147483647) :
    (onLevel v).Faithful importedLevel :=
  ⟨hpos, hle, nofun⟩

/-- The run in which assertions are disabled. -/
def disabledTrace : List Step :=
  [.skipped (.name {} "ok"), .skipped switchMessage, .event (.typeUse ⟨"p.Api", {}⟩)]

theorem assertingCode_runs (W : World) :
    assertingCode.runs importedLevel W disabledTrace (.done true) := by
  have hassert : runStmt importedLevel W none
      (.asserts {} (.name {} "ok") (some switchMessage))
      ([.skipped (.name {} "ok")] ++ [.skipped switchMessage]) (.done true) :=
    .inl (.next (.whole rfl) (.whole rfl))
  have huse : runStmt importedLevel W none (.expr {} (.classLit {} ⟨"p.Api", {}⟩))
      ([.event (.typeUse ⟨"p.Api", {}⟩)] ++ []) (.done true) :=
    .next (.whole rfl) (.whole ⟨true, trivial, rfl⟩)
  have hrest : runStmts importedLevel W [.expr {} (.classLit {} ⟨"p.Api", {}⟩)]
      ([.event (.typeUse ⟨"p.Api", {}⟩)] ++ []) (.done true) :=
    .next huse (.whole rfl)
  exact .next hassert hrest

theorem switchMessage_selects :
    (onLevel 19).Selects importedLevel (.name {} "SDK_INT") [.literal {} (.int 19)] := by
  intro _
  refine ⟨.literal {} (.int 19), List.mem_cons_self, ?_⟩
  intro m n hm hn
  have hm : m = 19 := by
    cases hm with
    | level _ => rfl
    | constant h => cases h
    | status h => cases h
  have hn : n = 19 := by
    cases hn with
    | level h => cases h
    | constant h =>
      cases h
      rfl
    | status h => cases h
  rw [hm, hn]

theorem switchMessage_runs : runExpr importedLevel (onLevel 19) switchMessage
    [.event (.reference (.name {} "SDK_INT"))] (.done true) := by
  have hselector : runExpr importedLevel (onLevel 19) (.name {} "SDK_INT")
      ([.event (.reference (.name {} "SDK_INT"))] ++ []) (.done true) :=
    .next (.whole rfl) (.whole ⟨true, nofun, rfl⟩)
  have htests : testCases importedLevel (onLevel 19) (.name {} "SDK_INT") messageCases
      ([] ++ ([] ++ [])) (.done true) :=
    .next (by rw [if_pos (by decide)]; exact .whole rfl) (.next (.inl (.whole rfl)) (.whole rfl))
  have hlabels : runLabels importedLevel (onLevel 19) (.name {} "SDK_INT")
      [.literal {} (.int 19)] ([] ++ []) (.done true) :=
    .next (.inr (.whole ⟨true, trivial, rfl⟩)) (.whole rfl)
  have hcases : runCases importedLevel (onLevel 19) (.name {} "SDK_INT") false false messageCases
      (([] ++ []) ++ ([] ++ [])) (.done true) :=
    .inl ⟨.inr switchMessage_selects, .next hlabels (.next (.whole rfl) (.whole rfl))⟩
  have hswitch : ((((testCases importedLevel (onLevel 19) (.name {} "SDK_INT") messageCases).seq
      (runCases importedLevel (onLevel 19) (.name {} "SDK_INT") false false messageCases)).endsAs
        .ofYield).seq anything) ((([] ++ ([] ++ [])) ++ (([] ++ []) ++ ([] ++ []))) ++ []) (.done true) :=
    .next ⟨_, .next htests hcases, rfl⟩ (.whole ⟨true, trivial, rfl⟩)
  exact .next hselector hswitch

theorem disabledTrace_passes : ∀ s ∈ disabledTrace, Passes importedLevel (onLevel 19) s := by
  have hok : runExpr importedLevel (onLevel 19) (.name {} "ok")
      ([.event (.reference (.name {} "ok"))] ++ []) (.done true) :=
    .next (.whole rfl) (.whole ⟨true, nofun, rfl⟩)
  intro s hs
  simp only [disabledTrace, List.mem_cons, List.not_mem_nil, or_false] at hs
  rcases hs with rfl | rfl | rfl
  · refine .skipped hok fun s hs => ?_
    rw [List.mem_singleton.mp hs]
    exact .event _
  · refine .skipped switchMessage_runs fun s hs => ?_
    rw [List.mem_singleton.mp hs]
    exact .event _
  · exact .event _

theorem event_has_open_path_sample :
    ∃ b site es, (b, site) ∈ (assertingCode.graph importedLevel).sites ∧
      site.event = .typeUse ⟨"p.Api", {}⟩ ∧
      (assertingCode.graph importedLevel).Path (assertingCode.graph importedLevel).entry es b ∧
      Passable (onLevel 19).device es :=
  event_has_open_path importedLevel (onLevel 19) (onLevel_faithful (by decide) (by decide))
    assertingCode (assertingCode_runs _) disabledTrace_passes (by simp [disabledTrace])

theorem assertingCode_sites : ∀ p ∈ (assertingCode.graph importedLevel).sites,
    (match p.2.event with | .typeUse _ => p.1 == 2 | _ => true) = true := by
  decide +kernel

/-- The use is entered from the first case or from behind the exception. -/
theorem assertingCode_entered : ∀ e ∈ (assertingCode.graph importedLevel).edges,
    (e.target = 2 → e.source = 3 ∨ e.source = 5) ∧ e.target ≠ 5 ∧
      (e.target = 3 → (match e.guard with | some (.exactly v) => v == 19 | _ => false) = true) := by
  decide +kernel

/-- Without the condition there need not be such a path: on a device with level 1 the message
cannot be evaluated to its end, and a run that leaves it out comes by the use all the same. -/
theorem assertingCode_not_followed :
    assertingCode.runs importedLevel (onLevel 1) disabledTrace (.done true) ∧
      ∀ b site, (b, site) ∈ (assertingCode.graph importedLevel).sites →
        site.event = .typeUse ⟨"p.Api", {}⟩ →
        ¬ (assertingCode.graph importedLevel).Live (onLevel 1).device b := by
  refine ⟨assertingCode_runs _, ?_⟩
  intro b site hsite hevent hlive
  have hb := assertingCode_sites _ hsite
  simp only [hevent] at hb
  obtain rfl : b = 2 := by simpa using hb
  obtain ⟨e, he, htarget, hsource, -⟩ := hlive.exists_last_edge (by decide +kernel)
  rcases (assertingCode_entered e he).1 htarget with h | h
  · rw [h] at hsource
    obtain ⟨e, he, htarget, -, hopen⟩ := hsource.exists_last_edge (by decide +kernel)
    have hguard := (assertingCode_entered e he).2.2 htarget
    split at hguard
    · rename_i v hv
      obtain ⟨u, hu⟩ := hopen _ hv
      rw [beq_iff_eq.mp hguard] at hu
      cases hu
    · cases hguard
  · rw [h] at hsource
    obtain ⟨e, he, htarget, -⟩ := hsource.exists_last_edge (by decide +kernel)
    exact (assertingCode_entered e he).2.1 htarget

end LevelGuard.Project.Code
