import LevelGuard.Proofs.ReadExpressions

/-!
# Types in files that are read

The rules for statements and declarations read types in the order of the text as well. So
does the grammar at every depth, and with it a whole file: its types begin one after the
other as its outline has them, each with a word of the source as its name or none.
-/
namespace LevelGuard.Java

open Rule

section Lists

variable {zs : List Head}

theorem fits_stmts {stmts : List Stmt} (h : All Stmt.Fits stmts zs) : (stmtsOutline stmts).Fits zs := by
  induction stmts generalizing zs with
  | nil => exact .blank
  | cons st stmts ih =>
    obtain ⟨xs, ys, hsub, hst, hrest⟩ := h
    exact (hst.both (ih hrest)).mono hsub

abbrev LocalVar.Fits (v : LocalVar) (zs : List Head) : Prop := (varOutline v).Fits zs

theorem fits_vars {vars : List LocalVar} (h : All LocalVar.Fits vars zs) : (varsOutline vars).Fits zs := by
  induction vars generalizing zs with
  | nil => exact .blank
  | cons v vars ih =>
    obtain ⟨xs, ys, hsub, hv, hrest⟩ := h
    exact (hv.both (ih hrest)).mono hsub

theorem fits_catches {catches : List CatchClause} (h : All (fun c => c.body.Fits) catches zs) :
    (catchesOutline catches).Fits zs := by
  induction catches generalizing zs with
  | nil => exact .blank
  | cons c rest ih =>
    obtain ⟨xs, ys, hsub, hc, hrest⟩ := h
    cases c
    exact (Outline.Fits.both hc (ih hrest)).mono hsub

theorem fits_block? {b : Option Block} (h : ∀ a ∈ b, a.Fits zs) : (blockOutline? b).Fits zs := by
  cases b with
  | none => exact .blank
  | some b => exact h b rfl

theorem fits_body? {d : Option TypeDecl} (h : ∀ a ∈ d, (bodyOutline a).Fits zs) :
    (bodyOutline? d).Fits zs := by
  cases d with
  | none => exact .blank
  | some d => exact h d rfl

end Lists

/-- A member comes before those after it, which may share its annotations. -/
theorem membersOutline_cons (shared : Option Span) (m : Member) :
    ∃ o next, ∀ rest, membersOutline shared (m :: rest) = .both o (membersOutline next rest) := by
  cases m with
  | method d => cases d; exact ⟨_, _, fun _ => rfl⟩
  | field d => cases d; exact ⟨_, _, fun _ => rfl⟩
  | type d => exact ⟨_, _, fun _ => rfl⟩
  | initializer isStatic body => exact ⟨_, _, fun _ => rfl⟩
  | constant c => cases c; exact ⟨_, _, fun _ => rfl⟩

theorem membersOutline_field (shared : Option Span) (f : FieldDecl) (rest : List Member) :
    membersOutline shared (.field f :: rest) =
      .both (.both (.aside (if shared = some f.type.span then .blank else annotationsOutline f.annotations))
        (exprOutline? f.init)) (membersOutline (some f.type.span) rest) := by
  cases f
  rfl

theorem heads_membersOutline_shared (shared : Option Span) (members : List Member) :
    (membersOutline shared members).heads.Sublist (membersOutline none members).heads := by
  rcases members with _ | ⟨m, rest⟩
  · exact .refl _
  cases m with
  | method d => cases d; exact .refl _
  | field f =>
    rw [membersOutline_field, membersOutline_field, if_neg (show none ≠ some f.type.span from nofun)]
    refine List.Sublist.append_right (List.Sublist.append_right ?_ _) _
    split
    · exact List.nil_sublist _
    · exact .refl _
  | type d => exact .refl _
  | initializer isStatic body => exact .refl _
  | constant c => cases c; exact .refl _

theorem heads_membersOutline_append (shared : Option Span) (members more : List Member) :
    (membersOutline shared (members ++ more)).heads.Sublist
      ((membersOutline shared members).heads ++ (membersOutline none more).heads) := by
  induction members generalizing shared with
  | nil => exact heads_membersOutline_shared shared more
  | cons m members ih =>
    obtain ⟨o, next, heq⟩ := membersOutline_cons shared m
    rw [List.cons_append, heq, heq]
    change (o.heads ++ _).Sublist ((o.heads ++ _) ++ _)
    rw [List.append_assoc]
    exact (ih next).append_left o.heads

namespace MembersFit

variable {members more : List Member} {xs ys zs : List Head}

theorem nil : MembersFit [] zs := ⟨.blank, nofun⟩

theorem mono (h : MembersFit members xs) (hsub : xs.Sublist ys) : MembersFit members ys :=
  ⟨h.outline.mono hsub, h.names⟩

theorem append (h : MembersFit members xs) (h' : MembersFit more ys) :
    MembersFit (members ++ more) (xs ++ ys) where
  outline := (heads_membersOutline_append none members more).trans (h.outline.append h'.outline)
  names := by
    intro n hn
    rw [typeNames, List.filterMap_append, List.mem_append] at hn
    exact hn.elim (h.names n) (h'.names n)

theorem flatten {lists : List (List Member)} (h : All MembersFit lists zs) :
    MembersFit lists.flatten zs := by
  induction lists generalizing zs with
  | nil => exact nil
  | cons members lists ih =>
    obtain ⟨xs, ys, hsub, hmembers, hrest⟩ := h
    rw [List.flatten_cons]
    exact (hmembers.append (ih hrest)).mono hsub

theorem ofAll (h : All (fun m => MembersFit [m]) members zs) : MembersFit members zs := by
  induction members generalizing zs with
  | nil => exact nil
  | cons m members ih =>
    obtain ⟨xs, ys, hsub, hm, hrest⟩ := h
    exact (hm.append (ih hrest)).mono hsub

theorem type {d : TypeDecl} (h : d.Fits zs) : MembersFit [.type d] zs :=
  ⟨h.outline.single, List.forall_mem_singleton.mpr h.name⟩

end MembersFit

abbrev MethodDecl.Fits (m : MethodDecl) (zs : List Head) : Prop := MembersFit [.method m] zs

abbrev Declarator.Fits (d : Declarator) (zs : List Head) : Prop := (exprOutline? d.init).Fits zs

namespace Grammar.InOrder

variable {g : Grammar} (hg : g.InOrder)
include hg

theorem declarator (taken : List String) : Yields Declarator.Fits (declarator g taken) :=
  reads_here.skip fun _ => (hg.variableName _).skip fun _ =>
    ((keeps_mark _).skip fun _ => hg.variableInit).opt.bind fun _ _ hinit => (reads_spanFrom _).skip fun _ =>
      .pure (fits_expr? hinit)

theorem localVars {words : DeclarationWords} (hwords : Yields Modifiers.Fits (words.modifiers g)) :
    Yields Stmt.Fits (localVars g words) := by
  refine reads_here.skip fun _ => hwords.bind fun _ _ hmods => (hg.type _).skip fun _ =>
    (hg.declarator _).bind fun _ _ hfirst => ((keeps_mark _).skip fun _ => hg.declarator []).many.bind
      fun _ _ hrest => (keeps_mark _).skip fun _ => (reads_spanFrom _).skip fun _ => .pure ?_
  refine fits_vars (.cons ((fits_annotations hmods).both hfirst) (hrest.map fun _ _ hd => ?_))
  exact Outline.Fits.blank.nil_both hd

theorem exprStmtAt (place : Place) : Yields Stmt.Fits (exprStmtAt g place) :=
  reads_here.skip fun _ => (hg.expr _).bind fun _ _ he => (keeps_mark _).skip fun _ =>
    (reads_spanFrom _).skip fun _ => .pure he

theorem exprStmt : Yields Stmt.Fits (exprStmt g) := hg.exprStmtAt {}

theorem throwStmt : Yields Stmt.Fits (throwStmt g) :=
  reads_here.skip fun _ => (keeps_keyword _).skip fun _ => (hg.expr _).bind fun _ _ he =>
    (keeps_mark _).skip fun _ => (reads_spanFrom _).skip fun _ => .pure he

theorem blockStmt : Yields Stmt.Fits (blockStmt g) := hg.block.bind fun _ _ hb => .pure hb

theorem bodyStmt : Yields Stmt.Fits (bodyStmt g) :=
  (keeps_mark _).opt.skip fun
    | some _ => .pure .blank
    | none => hg.stmt

omit hg in
theorem blockItems {item : Rule Stmt} (h : Yields Stmt.Fits item) :
    YieldsAll Stmt.Fits (blockItems item) := by
  have hitem : Yields (fun (o : Option Stmt) zs => ∀ st ∈ o, st.Fits zs)
      ((do let _ ← mark ";"; return none) <|> (do return some (← item))) :=
    .orElse ((keeps_mark _).skip fun _ => .pure nofun)
      (h.bind fun _ _ hst => .pure fun _ heq => Option.some.inj heq ▸ hst)
  exact hitem.many.bind fun _ _ hitems => .pure hitems.filterMap_id

theorem blockRule : Yields Block.Fits (blockRule g) :=
  reads_here.skip fun _ => ((blockItems hg.stmt).between _ _).yields.bind fun _ _ hstmts =>
    (reads_spanFrom _).skip fun _ => .pure (fits_stmts hstmts)

theorem typePattern (taken : List String) (start : Mark) : Yields Expr.Fits (typePattern g taken start) :=
  (hg.type _).bind fun _ _ htype => (keeps_nameBut _).skip fun _ => (reads_spanFrom _).skip fun _ =>
    .pure (htype.both_nil (Outline.Fits.blank.nil_both .blank))

theorem patternPart (taken : List String) : Yields Expr.Fits (patternPart g taken) :=
  reads_here.skip fun _ =>
    .orElse ((hg.recordPattern _).bind fun _ _ he => .pure he)
      (.orElse ((hg.type _).bind fun _ _ htype => yields_anyWord.skip fun _ => (reads_spanFrom _).skip fun _ =>
          .pure (htype.both_nil (Outline.Fits.blank.nil_both .blank)))
        ((keeps_keyword _).skip fun _ => .pure (Outline.Fits.blank.nil_both .blank)))

theorem recordPatternRule (taken : List String) :
    Yields (fun r => r.2.Fits) (recordPatternRule g taken) := by
  have hparts : YieldsAll Expr.Fits ((do
      let first ← Java.patternPart g taken
      let rest ← many do
        let _ ← mark ","
        Java.patternPart g []
      return first :: rest) <|> pure []) :=
    .orElse ((hg.patternPart _).bind fun _ _ hfirst =>
        ((keeps_mark _).skip fun _ => hg.patternPart []).many.bind fun _ _ hrest =>
          .pure (.cons hfirst hrest))
      (.pure trivial)
  exact reads_here.skip fun _ => (reads_isAhead _).skip fun _ => (hg.namedType _ _).bind fun _ _ hhead =>
    .guard (reads_here.skip fun _ => (hparts.between _ _).yields.bind fun _ _ hparts =>
      (reads_spanFrom _).skip fun _ => (reads_spanFrom _).skip fun _ =>
        .pure (hhead.both (fits_exprs hparts).single))

theorem guard (place : Place) : YieldsAll Expr.Fits (guard g place) :=
  reads_here.skip fun _ => (keeps_keyword _).opt.skip fun
    | none => .pure trivial
    | some _ => (hg.expr _).bind fun _ _ hcond => (reads_spanFrom _).skip fun _ =>
      .pure (.singleton hcond.single)

theorem labelled (place : Place) (ending : String) {items : Rule (List Expr)}
    (hitems : YieldsAll Expr.Fits items) (guarded : Bool) :
    YieldsAll Expr.Fits (labelled g place ending items guarded) := by
  refine hitems.bind fun es xs hes => ?_
  have hend : ∀ cond zs, All Expr.Fits cond zs → Reads 0 0 (xs ++ zs) (All Expr.Fits) (do
      let _ ← mark ending
      return es ++ cond) :=
    fun _ _ hcond => (keeps_mark _).skip fun _ => .pure (hes.append hcond)
  have hnone : YieldsAll Expr.Fits (pure []) := .pure trivial
  exact .ite (fun _ => (hg.guard place).bind hend) fun _ => hnone.bind hend

theorem caseLabels (place : Place) (ending : String) :
    YieldsAll Expr.Fits (caseLabels g place ending) := by
  have hpattern : ∀ inner : Rule Expr, Yields Expr.Fits inner →
      YieldsAll Expr.Fits (do
        let e ← inner
        return [Expr.unknown e.span [e]]) :=
    fun _ h => h.bind fun _ _ he => .pure (.singleton he.single)
  have hexprs : ∀ whenCalls : Bool, YieldsAll Expr.Fits (do
      if beginsUnderscorePattern (← get).rest then failure
      sepBy1 "," (g.expr { place with whenCalls })) :=
    fun _ => reads_get.skip fun _ => .guard ((hg.expr _).sepBy1 _)
  have hrecord := hpattern _ ((hg.recordPattern expressionWords).bind fun _ _ he => .pure he)
  exact reads_here.skip fun _ => (hg.labelled _ _ (hpattern _ (hg.typePattern _ _)) _).orElse
    ((hg.labelled _ _ hrecord _).orElse ((hg.labelled _ _ (hexprs _) _).orElse
      ((hg.labelled _ _ (hexprs _) _).orElse (hg.labelled _ _ hrecord _))))

theorem switchLabel (place : Place) (ending : String) :
    Yields (fun r => All Expr.Fits r.1) (switchLabel g place ending) :=
  (keeps_keyword _).opt.skip fun
    | some _ => (hg.caseLabels _ _).bind fun _ _ hes => .pure hes
    | none => (keeps_keyword _).skip fun _ => (keeps_mark _).skip fun _ => .pure trivial

theorem caseResult (place : Place) : Yields Stmt.Fits (caseResult g place) :=
  (reads_isAhead _).skip fun _ =>
    .ite (fun _ => hg.throwStmt) fun _ => hg.blockStmt.orElse (hg.exprStmtAt place)

theorem switchRuleAttempt (start : Mark) (lambdas : Bool) : Yields SwitchCase.Fits (do
    let before ← get
    let (labels, isDefault) ← Java.switchLabel g { label := true, lambdas } "->"
    let label := before.rest.take (before.left - (← get).left - 1)
    let afterLabel := labels.getLast?.any endsInName && endsInParameter label
    let body ← Java.caseResult g { afterLabel }
    if ← isAhead (fun t => t.is "\x7d" || t.isWord "case" || t.isWord "default") then
      return ⟨labels, isDefault, true, [body], ← spanFrom start⟩
    else failure) :=
  reads_get.skip fun _ => (hg.switchLabel _ _).bind fun _ _ hlabels => reads_get.skip fun _ =>
    (hg.caseResult _).bind fun _ _ hbody => (reads_isAhead _).skip fun _ =>
      .ite (fun _ => (reads_spanFrom _).skip fun _ => .pure ((fits_exprs hlabels).both hbody.single))
        fun _ => .failure

theorem switchRuleCase : Yields SwitchCase.Fits (switchRuleCase g) :=
  reads_here.skip fun start => reads_get.skip fun _ =>
    .ite (fun _ => (hg.switchRuleAttempt start true).orElse (hg.switchRuleAttempt start false))
      fun _ => hg.switchRuleAttempt start true

theorem switchGroup : Yields SwitchCase.Fits (switchGroup g) := by
  have hitem : Yields Stmt.Fits (do if ← labelAhead then failure else g.stmt) :=
    (reads_isAhead _).skip fun _ => .ite (fun _ => .failure) fun _ => hg.stmt
  exact reads_here.skip fun _ => (hg.switchLabel _ _).bind fun _ _ hlabels => (blockItems hitem).bind
    fun _ _ hbody => (reads_spanFrom _).skip fun _ => .pure ((fits_exprs hlabels).both (fits_stmts hbody))

theorem switchRule :
    Yields (fun r => (Outline.both (exprOutline r.1) (casesOutline r.2)).Fits) (switchRule g) :=
  (keeps_keyword _).skip fun _ => hg.parenthesized.bind fun _ _ hselector =>
    ((hg.switchRuleCase.many1.between _ _).yields.orElse (hg.switchGroup.many.between _ _).yields).bind
      fun _ _ hcases => .pure (hselector.both (fits_cases hcases))

omit hg in
theorem eq_of_here {s t : Cursor} {m : Mark} (h : here s = some (m, t)) : s = t := by
  obtain ⟨rest, left, last⟩ := s
  cases rest with
  | nil => cases h; rfl
  | cons t ts => cases h; rfl

omit hg in
/-- A switch at the beginning of a statement is read once more as an expression, or stands
alone. -/
theorem exprStmt_or_switchRule {s s' : Cursor} {st : Stmt} (h : switchStmt g s = some (st, s')) :
    Java.exprStmt g s = some (st, s') ∨
      ∃ span r, Java.switchRule g s = some (r, s') ∧ st = .switch span r.1 r.2 := by
  obtain ⟨start, _, hhere, h⟩ := exists_of_bind h
  obtain rfl := eq_of_here hhere
  obtain ⟨_, _, hget, h⟩ := exists_of_bind h
  cases hget
  obtain ⟨r, t, hswitch, h⟩ := exists_of_bind h
  obtain ⟨span, _, hspan, h⟩ := exists_of_bind h
  cases hspan
  obtain ⟨_, _, hget, h⟩ := exists_of_bind h
  cases hget
  split at h
  · obtain ⟨_, _, hget, h⟩ := exists_of_bind h
    cases hget
    obtain ⟨_, _, hset, h⟩ := exists_of_bind h
    cases hset
    obtain ⟨o, _, hopt, h⟩ := exists_of_bind h
    unfold Rule.opt at hopt
    cases hexpr : Java.exprStmt g s with
    | some r =>
      rw [hexpr] at hopt
      cases hopt
      cases h
      exact .inl rfl
    | none =>
      rw [hexpr] at hopt
      cases hopt
      cases h
      exact .inr ⟨_, r, hswitch, rfl⟩
  · cases h
    exact .inr ⟨_, r, hswitch, rfl⟩

theorem switchStmt : Yields Stmt.Fits (switchStmt g) := by
  intro ys s hs st s' heq
  obtain hexpr | ⟨span, r, hswitch, rfl⟩ := exprStmt_or_switchRule heq
  · exact hg.exprStmt ys s hs st s' hexpr
  · exact hg.switchRule ys s hs r s' hswitch

theorem ifStmt : Yields Stmt.Fits (ifStmt g) :=
  reads_here.skip fun _ => (keeps_keyword _).skip fun _ => hg.parenthesized.bind fun _ _ hcond =>
    hg.bodyStmt.bind fun _ _ hyes => (keeps_keyword _).opt.skip fun
      | none => (reads_spanFrom _).skip fun _ => .pure (hcond.both hyes).single
      | some _ => hg.bodyStmt.bind fun _ _ hno => (reads_spanFrom _).skip fun _ =>
        .pure ((hcond.both hyes).both hno)

theorem whileStmt : Yields Stmt.Fits (whileStmt g) :=
  reads_here.skip fun _ => (keeps_keyword _).skip fun _ => hg.parenthesized.bind fun _ _ hcond =>
    hg.bodyStmt.bind fun _ _ hbody => (reads_spanFrom _).skip fun _ => .pure (hcond.both hbody)

-- The outline has the body of the loop first, as the text has it.
theorem doStmt : Yields Stmt.Fits (doStmt g) :=
  reads_here.skip fun _ => (keeps_keyword _).skip fun _ => hg.bodyStmt.bind fun _ _ hbody =>
    (keeps_keyword _).skip fun _ => hg.parenthesized.bind fun _ _ hcond => (keeps_mark _).skip fun _ =>
      (reads_spanFrom _).skip fun _ => .pure (hbody.both hcond)

theorem forEachStmt (start : Mark) : Yields Stmt.Fits (forEachStmt g start) :=
  (hg.modifiers (Nat.zero_le 1)).bind fun _ _ hmods => (hg.type _).skip fun _ =>
    (hg.variableName _).skip fun _ => (keeps_mark _).skip fun _ => (hg.expr _).bind fun _ _ hiterable =>
      (keeps_mark _).skip fun _ => hg.bodyStmt.bind fun _ _ hbody => (reads_spanFrom _).skip fun _ =>
        .pure (((fits_annotations hmods).single.both hiterable).both hbody)

theorem forInit : YieldsAll Stmt.Fits (forInit g) := by
  have hvars : YieldsAll Stmt.Fits (do
      return [← Java.localVars g loopDeclarationWords]) :=
    (hg.localVars (hg.modifiers (Nat.zero_le 1))).bind fun _ _ hst => .pure (.singleton hst)
  have hexpr : Yields Stmt.Fits (do
      let start ← here
      let e ← g.expr {}
      return Stmt.expr (← spanFrom start) e) :=
    reads_here.skip fun _ => (hg.expr _).bind fun _ _ he => (reads_spanFrom _).skip fun _ => .pure he
  exact hvars.orElse (modifierAhead.skip fun _ => .guard ((hexpr.sepBy _).bind fun _ _ hes =>
    (keeps_mark _).skip fun _ => .pure hes))

theorem countingStmt (start : Mark) : Yields Stmt.Fits (countingStmt g start) :=
  hg.forInit.bind fun _ _ hinit => (hg.expr _).opt.bind fun _ _ hcond => (keeps_mark _).skip fun _ =>
    ((hg.expr _).sepBy _).bind fun _ _ hupdate => (keeps_mark _).skip fun _ =>
      hg.bodyStmt.bind fun _ _ hbody => (reads_spanFrom _).skip fun _ =>
        .pure ((((fits_stmts hinit).both (fits_expr? hcond)).both (fits_exprs hupdate)).both hbody)

theorem forStmt : Yields Stmt.Fits (forStmt g) :=
  reads_here.skip fun start => (keeps_keyword _).skip fun _ => (keeps_mark _).skip fun _ =>
    (hg.forEachStmt start).orElse (hg.countingStmt start)

theorem resource : Yields Stmt.Fits (resource g) := by
  refine reads_here.skip fun start => ?_
  have hdeclared : Yields Stmt.Fits (do
      let mods ← Java.modifiers g
      let type := (← g.type (if mods.isEmpty then resourceWords else [])).ref
      let name ← Java.variableName g []
      let _ ← mark "="
      let init ← g.expr {}
      let span ← spanFrom start
      return .vars span [⟨name, type, true, some init, span, []⟩]) :=
    (hg.modifiers (Nat.zero_le 1)).skip fun _ => (hg.type _).skip fun _ => (hg.variableName _).skip fun _ =>
      (keeps_mark _).skip fun _ => (hg.expr _).bind fun _ _ hinit => (reads_spanFrom _).skip fun _ =>
        .pure (Outline.Fits.blank.nil_both hinit).single
  have hends : Keeps (do
      if ← isAhead (fun t => t.is ";" || t.is ")") then return () else failure) :=
    (reads_isAhead _).skip fun _ => .ite (fun _ => .pure trivial) fun _ => .failure
  refine hdeclared.orElse (.orElse ((keeps_nameBut _).skip fun _ => hends.skip fun _ => .pure .blank)
    (modifierAhead.skip fun _ => .guard ((hg.primaryRule start).bind fun p _ hp => ?_)))
  split
  · exact (reads_spanFrom _).skip fun _ => .pure hp
  · exact .failure

theorem catchClause : Yields (fun c => c.body.Fits) (catchClause g) :=
  reads_here.skip fun _ => (keeps_keyword _).skip fun _ => (keeps_mark _).skip fun _ =>
    (hg.modifiers (Nat.zero_le 1)).skip fun _ => (hg.type _).skip fun _ =>
      ((keeps_mark _).skip fun _ => hg.type []).many.skip fun _ => (hg.variableName _).skip fun _ =>
        (keeps_mark _).skip fun _ => hg.block.bind fun _ _ hbody => (reads_spanFrom _).skip fun _ => .pure hbody

theorem finallyClause : Yields Block.Fits (finallyClause g) := (keeps_keyword _).skip fun _ => hg.block

theorem tryStmt : Yields Stmt.Fits (tryStmt g) := by
  have hresources : YieldsAll Stmt.Fits (between "(" ")" do
      let items ← sepBy1 ";" (Java.resource g)
      let _ ← opt (mark ";")
      return items) :=
    (((hg.resource.sepBy1 _).bind fun _ _ hitems => (keeps_mark _).opt.skip fun _ =>
      .pure hitems).between _ _).yields
  exact reads_here.skip fun _ => (keeps_keyword _).skip fun _ => hresources.opt.bind fun _ _ hresources =>
    hg.block.bind fun _ _ hbody => hg.catchClause.many.bind fun _ _ hcatches =>
      hg.finallyClause.opt.bind fun _ _ halways => .guard ((reads_spanFrom _).skip fun _ =>
        .pure ((((fits_stmts (.getD hresources)).both hbody).both
          (fits_catches hcatches)).both (fits_block? halways)))

theorem returnStmt : Yields Stmt.Fits (returnStmt g) :=
  reads_here.skip fun _ => (keeps_keyword _).skip fun _ => (hg.expr _).opt.bind fun _ _ he =>
    (keeps_mark _).skip fun _ => (reads_spanFrom _).skip fun _ => .pure (fits_expr? he)

omit hg in
theorem jumpStmt (word : String) {node : Span → Option String → Stmt}
    (hnode : ∀ span label, (node span label).Fits []) : Yields Stmt.Fits (jumpStmt word node) :=
  reads_here.skip fun _ => (keeps_keyword _).skip fun _ => yields_anyWord.opt.skip fun _ =>
    (keeps_mark _).skip fun _ => (reads_spanFrom _).skip fun _ => .pure (hnode _ _)

theorem assertStmt : Yields Stmt.Fits (assertStmt g) :=
  reads_here.skip fun _ => (keeps_keyword _).skip fun _ => (hg.expr _).bind fun _ _ hcond =>
    ((keeps_mark _).skip fun _ => hg.expr _).opt.bind fun _ _ hmessage => (keeps_mark _).skip fun _ =>
      (reads_spanFrom _).skip fun _ => .pure (hcond.both (fits_expr? hmessage))

theorem synchronizedStmt : Yields Stmt.Fits (synchronizedStmt g) :=
  reads_here.skip fun _ => (keeps_keyword _).skip fun _ => hg.parenthesized.bind fun _ _ hlock =>
    hg.block.bind fun _ _ hbody => (reads_spanFrom _).skip fun _ => .pure (hlock.both hbody)

theorem labeledStmt : Yields Stmt.Fits (labeledStmt g) :=
  reads_here.skip fun _ => (keeps_nameBut _).skip fun _ => (keeps_mark _).skip fun _ =>
    (keeps_mark _).opt.skip fun
      | some _ => (reads_spanFrom _).skip fun _ => .pure .blank
      | none => hg.stmt.bind fun _ _ hbody => (reads_spanFrom _).skip fun _ => .pure hbody

theorem localClassStmt : Yields Stmt.Fits (localClassStmt g) :=
  hg.typeDecl.bind fun _ _ hd => .pure hd.outline

theorem packageDecl : Keeps (packageDecl g) :=
  hg.annotationOfDeclaration.yields.many.skip fun _ => (keeps_keyword _).skip fun _ => reads_get.skip fun _ =>
    qualifiedName.skip fun _ => reads_get.skip fun _ =>
      .guard ((keeps_mark _).skip fun _ => .pure trivial)

omit hg in
theorem importDecl : Keeps importDecl :=
  (keeps_keyword _).skip fun _ => (keeps_keyword _).opt.skip fun _ => qualifiedName.skip fun _ =>
    ((keeps_mark _).skip fun _ => keeps_mark _).opt.skip fun _ => (keeps_mark _).skip fun _ => .pure trivial

omit hg in
theorem moduleDirective : Keeps moduleDirective := by
  have hend : ∀ _ : PUnit, Keeps (do let _ ← mark ";") := fun _ => (keeps_mark _).skip fun _ => .pure trivial
  have hnames := qualifiedName.sepBy1 ","
  have hfailure : Keeps (failure : Rule PUnit) := .failure
  refine yields_anyWord.skip fun word => ?_
  dsimp only
  split
  · exact ((keeps_keyword _).orElse (keeps_keyword _)).many.skip fun _ => qualifiedName.skip fun _ => hend ⟨⟩
  · exact qualifiedName.skip fun _ => ((keeps_keyword _).skip fun _ => hnames).opt.skip fun _ => hend ⟨⟩
  · exact qualifiedName.skip fun _ => ((keeps_keyword _).skip fun _ => hnames).opt.skip fun _ => hend ⟨⟩
  · exact qualifiedName.skip fun _ => hend ⟨⟩
  · exact qualifiedName.skip fun _ => (keeps_keyword _).skip fun _ => hnames.skip fun _ => hend ⟨⟩
  · exact hfailure.skip hend

theorem moduleDecl : Keeps (moduleDecl g) :=
  hg.annotationOfDeclaration.yields.many.skip fun _ => (keeps_keyword _).opt.skip fun _ =>
    (keeps_keyword _).skip fun _ => qualifiedName.skip fun _ =>
      (moduleDirective.many.between _ _).yields.skip fun _ => .pure trivial

theorem strayDecl : Yields Stmt.Fits (strayDecl g) := by
  have hdecl : Keeps ((do let _ ← Java.packageDecl g) <|> (do let _ ← Java.importDecl) <|>
      Java.moduleDecl g) :=
    .orElse (hg.packageDecl.skip fun _ => .pure trivial)
      (.orElse (importDecl.skip fun _ => .pure trivial) hg.moduleDecl)
  exact reads_here.skip fun _ => hdecl.skip fun _ => (reads_spanFrom _).skip fun _ => .pure .blank

theorem declarationStmt : Yields Stmt.Fits (declarationStmt g) :=
  hg.localClassStmt.orElse ((hg.localVars (hg.declarationModifiers (Nat.zero_le 1))).orElse hg.strayDecl)

theorem otherStmt : Yields Stmt.Fits (otherStmt g) :=
  hg.declarationStmt.orElse (hg.labeledStmt.orElse hg.exprStmt)

theorem yieldStmt : Yields Stmt.Fits (yieldStmt g) := by
  have hvalue : Yields Stmt.Fits (do
      let start ← here
      let _ ← keyword "yield"
      if ← isAhead (·.isWord "instanceof") then failure
      let e ← g.expr {}
      let _ ← mark ";"
      return .yields (← spanFrom start) e) :=
    reads_here.skip fun _ => (keeps_keyword _).skip fun _ => (reads_isAhead _).skip fun _ =>
      .guard ((hg.expr _).bind fun _ _ he => (keeps_mark _).skip fun _ => (reads_spanFrom _).skip fun _ =>
        .pure he)
  exact (endOf _).skip fun _ =>
    .ite (fun _ => hg.exprStmt.orElse hvalue) fun _ => hvalue.orElse hg.exprStmt

theorem stmtRule : Yields Stmt.Fits (stmtRule g) := by
  refine reads_ahead.skip fun
    | none => .failure
    | some t =>
      .ite (fun _ => hg.blockStmt) fun _ => .ite (fun _ => hg.declarationStmt) fun _ =>
        .ite (fun _ => hg.otherStmt) fun _ => ?_
  split
  · exact hg.ifStmt
  · exact hg.whileStmt
  · exact hg.doStmt
  · exact hg.forStmt
  · exact hg.switchStmt
  · exact hg.tryStmt
  · exact hg.returnStmt
  · exact hg.throwStmt
  · exact hg.yieldStmt
  · exact jumpStmt _ fun _ _ => .blank
  · exact jumpStmt _ fun _ _ => .blank
  · exact hg.assertStmt
  · exact hg.strayDecl
  · exact hg.strayDecl
  · exact hg.synchronizedStmt.orElse hg.declarationStmt
  · exact modifierAhead.skip fun _ => .ite (fun _ => hg.declarationStmt) fun _ => hg.otherStmt

theorem throwsClause : Keeps (throwsClause g) := (keeps_keyword _).skip fun _ => hg.typeList

theorem constructorArgs (start : Mark) {target : Expr} (htarget : target.Fits []) :
    Yields Stmt.Fits (constructorArgs g start target) :=
  hg.arguments.bind fun _ _ hargs => (keeps_mark _).skip fun _ => (reads_spanFrom _).skip fun _ =>
    .pure (htarget.nil_both (fits_exprs hargs))

theorem outerConstructorCall (start : Mark) (bound : Nat) {p : Primary} {xs : List Head} (hp : p.Fits xs) :
    Reads 0 0 xs Stmt.Fits (outerConstructorCall g start bound p) := by
  induction bound generalizing p xs with
  | zero => exact .failure
  | succ bound ih =>
    have hhere : Yields Stmt.Fits (do
        let _ ← mark "."
        let _ ← opt (Java.typeArguments g)
        let t ← keyword "super"
        Java.constructorArgs g start (.super t.span)) :=
      (keeps_mark _).skip fun _ => hg.typeArguments.opt.skip fun _ => (keeps_keyword _).skip fun _ =>
        hg.constructorArgs start .blank
    exact (hhere.forget (List.nil_sublist xs)).orElse ((hg.extension start hp).trans fun _ _ hq => ih hq)

theorem constructorCall : Yields Stmt.Fits (constructorCall g) := by
  have htarget : ∀ t : Token, (if t.text = "super" then Expr.super t.span else Expr.this t.span).Fits [] := by
    intro t
    split
    · exact .blank
    · exact .blank
  exact reads_here.skip fun start =>
    .orElse (hg.typeArguments.opt.skip fun _ => ((keeps_keyword _).orElse (keeps_keyword _)).skip fun t =>
        hg.constructorArgs start (htarget t))
      ((hg.primaryBase start).trans fun _ _ hbase => reads_get.skip fun _ =>
        hg.outerConstructorCall start _ hbase)

theorem constructorBody : Yields Block.Fits (constructorBody g) := by
  have hstmts : YieldsAll Stmt.Fits (do
      let first ← opt (Java.constructorCall g)
      return first.toList ++ (← Java.blockItems g.stmt)) :=
    hg.constructorCall.opt.bind fun _ _ hfirst => (blockItems hg.stmt).bind fun _ _ hrest =>
      .pure ((All.toList hfirst).append hrest)
  exact reads_here.skip fun _ => (hstmts.between _ _).yields.bind fun _ _ hstmts =>
    (reads_spanFrom _).skip fun _ => .pure (fits_stmts hstmts)

section Member

variable (start : Mark) {mods : Modifiers} {xs : List Head} (hmods : mods.Fits xs)
include hmods

theorem constructorDecl : Reads 0 0 xs MethodDecl.Fits (constructorDecl g start mods) :=
  hg.typeParameters.opt.skip fun _ => (keeps_nameBut _).skip fun _ => (hg.formalParams _).skip fun _ =>
    hg.throwsClause.opt.skip fun _ => hg.constructorBody.bind fun _ _ hbody =>
      (reads_spanFrom _).skip fun _ => .pure ⟨((fits_annotations hmods).both hbody).single, nofun⟩

theorem compactConstructorDecl : Reads 0 0 xs MethodDecl.Fits (compactConstructorDecl g start mods) :=
  (keeps_nameBut _).skip fun _ => hg.block.bind fun _ _ hbody => (reads_spanFrom _).skip fun _ =>
    .pure ⟨((fits_annotations hmods).both hbody).single, nofun⟩

theorem methodDecl (taken : List String) : Reads 0 0 xs MethodDecl.Fits (methodDecl g taken start mods) := by
  have hbody : Yields (fun (b : Option Block) zs => ∀ a ∈ b, a.Fits zs)
      ((do let _ ← mark ";"; return none) <|> (do return some (← g.block))) :=
    .orElse ((keeps_mark _).skip fun _ => .pure nofun)
      (hg.block.bind fun _ _ hb => .pure fun _ heq => Option.some.inj heq ▸ hb)
  exact (hg.typeParameters.skip fun _ => hg.annotation.many).opt.skip fun _ => (hg.type _).skip fun _ =>
    (keeps_nameBut _).skip fun _ => (hg.formalParams _).skip fun _ => hg.dimensions.opt.skip fun _ =>
      hg.throwsClause.opt.skip fun _ => hbody.bind fun _ _ hbody => (reads_spanFrom _).skip fun _ =>
        .pure ⟨((fits_annotations hmods).both (fits_block? hbody)).single, nofun⟩

theorem elementDecl : Reads 0 0 xs MethodDecl.Fits (elementDecl g start mods) :=
  (hg.type _).skip fun _ => (keeps_nameBut _).skip fun _ => (keeps_mark _).skip fun _ =>
    (keeps_mark _).skip fun _ => hg.dimensions.opt.skip fun _ =>
      ((keeps_keyword _).skip fun _ => hg.elementValue).opt.skip fun _ => (keeps_mark _).skip fun _ =>
        (reads_spanFrom _).skip fun _ => .pure ⟨(fits_annotations hmods).single.single, nofun⟩

omit start hg hmods in
/-- Fields after the first of a declaration share its annotations. -/
theorem fits_sharedFields (field : Declarator → FieldDecl) (hinit : ∀ d, (field d).init = d.init)
    (type : TypeRef) (htype : ∀ d, (field d).type = type) {decls : List Declarator} {zs : List Head}
    (hdecls : All Declarator.Fits decls zs) :
    (membersOutline (some type.span) (decls.map fun d => .field (field d))).Fits zs := by
  induction decls generalizing zs with
  | nil => exact .blank
  | cons d decls ih =>
    obtain ⟨xs, ys, hsub, hd, hrest⟩ := hdecls
    refine Outline.Fits.mono ?_ hsub
    rw [List.map_cons, membersOutline_field, htype d, hinit d, if_pos rfl]
    exact (Outline.Fits.blank.nil_both hd).both (ih hrest)

omit start hg in
theorem fits_fields (field : Declarator → FieldDecl) (hinit : ∀ d, (field d).init = d.init)
    (type : TypeRef) (htype : ∀ d, (field d).type = type)
    (hannotations : ∀ d, (field d).annotations = mods.annotations) {decls : List Declarator}
    {zs : List Head} (hdecls : All Declarator.Fits decls zs) :
    MembersFit (decls.map fun d => .field (field d)) (xs ++ zs) where
  outline := by
    cases decls with
    | nil => exact .blank
    | cons d decls =>
      obtain ⟨xs', ys, hsub, hd, hrest⟩ := hdecls
      refine Outline.Fits.mono ?_ (hsub.append_left xs)
      rw [List.map_cons, membersOutline_field, htype d, hinit d, hannotations d, ← List.append_assoc]
      exact ((fits_annotations hmods).both hd).both (fits_sharedFields field hinit type htype hrest)
  names := by
    intro n hn
    simp [typeNames] at hn

omit start in
theorem fieldDecls : Reads 0 0 xs MembersFit (fieldDecls g mods) := by
  refine (hg.type _).skip fun type => ((hg.declarator []).sepBy1 _).bind fun _ _ hdecls =>
    (keeps_mark _).skip fun _ => .pure (fits_fields hmods _ ?_ type.ref ?_ ?_ hdecls)
  all_goals exact fun _ => rfl

end Member

theorem typeMember : Yields MembersFit (typeMember g) := hg.typeDecl.bind fun _ _ hd => .pure (.type hd)

omit hg in
theorem nothing : Yields MembersFit nothing := (keeps_mark _).skip fun _ => .pure .nil

/-- A rule for what follows modifiers reads members with them. -/
def MemberRule (r : Mark → Modifiers → Rule (List Member)) : Prop :=
  ∀ start mods xs, mods.Fits xs → Reads 0 0 xs MembersFit (r start mods)

theorem modified (declared : List String) {rules : List (Mark → Modifiers → Rule (List Member))}
    (h : ∀ r ∈ rules, MemberRule r) : Yields MembersFit (modified g declared rules) := by
  refine reads_here.skip fun start => (hg.declarationModifiers (Nat.zero_le 1)).trans fun mods xs hmods =>
    (reads_isAhead _).skip fun _ => .guard ?_
  induction rules with
  | nil => exact .failure
  | cons r rules ih =>
    obtain ⟨hr, hrules⟩ := List.forall_mem_cons.mp h
    exact (hr start mods xs hmods).orElse (ih hrules)

omit hg in
theorem methodMember {rule : Mark → Modifiers → Rule MethodDecl}
    (h : ∀ start mods xs, mods.Fits xs → Reads 0 0 xs MethodDecl.Fits (rule start mods)) :
    MemberRule (methodMember rule) := fun start mods xs hmods =>
  (h start mods xs hmods).trans fun _ _ hm => .pure hm

theorem fieldMember : MemberRule fun _ mods => Java.fieldDecls g mods :=
  fun _ _ _ hmods => hg.fieldDecls hmods

theorem initializer : Yields MembersFit (initializer g) :=
  (keeps_keyword _).opt.skip fun _ => hg.block.bind fun _ _ hbody => .pure ⟨hbody.single, nofun⟩

theorem classMember : Yields MembersFit (classMember g) := by
  refine nothing.orElse (hg.initializer.orElse (hg.typeMember.orElse (hg.modified _ ?_)))
  simp only [List.forall_mem_cons]
  exact ⟨methodMember fun start _ _ => hg.constructorDecl start,
    methodMember fun start _ _ => hg.compactConstructorDecl start,
    methodMember fun start _ _ hmods => hg.methodDecl start hmods [], hg.fieldMember, nofun⟩

theorem interfaceMember : Yields MembersFit (interfaceMember g) := by
  refine nothing.orElse (hg.typeMember.orElse (hg.modified _ ?_))
  simp only [List.forall_mem_cons]
  exact ⟨methodMember fun start _ _ hmods => hg.methodDecl start hmods [], hg.fieldMember, nofun⟩

theorem annotationMember : Yields MembersFit (annotationMember g) := by
  have htypes : Yields MembersFit (do
      let d ← g.typeDecl
      if d.kind = .recordType then failure else return [Member.type d]) :=
    hg.typeDecl.bind fun _ _ hd => .ite (fun _ => .failure) fun _ => .pure (.type hd)
  refine nothing.orElse (htypes.orElse (hg.modified _ ?_))
  simp only [List.forall_mem_cons]
  exact ⟨methodMember fun start _ _ => hg.elementDecl start, hg.fieldMember, nofun⟩

omit hg in
theorem bodyOf {member : Rule (List Member)} (h : Yields MembersFit member) :
    Opens MembersFit (bodyOf member) :=
  (h.many.bind fun _ _ hms => .pure (.flatten hms)).between _ _

theorem classBodyRule : Opens MembersFit (classBodyRule g) := bodyOf hg.classMember

theorem enumConstant : Yields (fun m => MembersFit [m]) (enumConstant g) :=
  reads_here.skip fun _ => (hg.modifiers (Nat.zero_le 1)).bind fun _ _ hmods => yields_anyWord.skip fun _ =>
    hg.arguments.opt.bind fun _ _ hargs => (hg.anonymousClass _).opt.bind fun _ _ hbody =>
      (reads_spanFrom _).skip fun _ =>
        .pure ⟨(((fits_annotations hmods).both (fits_exprs (.getD hargs))).both (fits_body? hbody)).single, nofun⟩

theorem enumMembers : Yields MembersFit (do
    let constants ← sepBy "," (Java.enumConstant g)
    let _ ← opt (mark ",")
    match ← opt (mark ";") with
    | none => return constants
    | some _ => return constants ++ (← many (Java.classMember g)).flatten) := by
  refine (hg.enumConstant.sepBy _).bind fun _ _ hconstants => (keeps_mark _).opt.skip fun _ =>
    (keeps_mark _).opt.skip fun semicolon => ?_
  cases semicolon with
  | none => exact .pure (.ofAll hconstants)
  | some _ =>
    exact hg.classMember.many.bind fun _ _ hrest =>
      .pure ((MembersFit.ofAll hconstants).append (.flatten hrest))

theorem enumBody : Opens MembersFit (enumBody g) := hg.enumMembers.between _ _

theorem implementsClause : Keeps (implementsClause g) := (keeps_keyword _).skip fun _ => hg.typeList

theorem permitsClause : Keeps (permitsClause g) := (keeps_keyword _).skip fun _ => hg.typeList

abbrev TypeParts.Fits (p : TypeParts) (zs : List Head) : Prop := MembersFit p.members zs

theorem classParts : Yields TypeParts.Fits (classParts g) :=
  hg.typeParameters.opt.skip fun _ => ((keeps_keyword _).skip fun _ => hg.annotatedType []).opt.skip fun _ =>
    hg.implementsClause.opt.skip fun _ => hg.permitsClause.opt.skip fun _ =>
      hg.classBody.yields.bind fun _ _ h => .pure h

theorem interfaceParts : Yields TypeParts.Fits (interfaceParts g) :=
  hg.typeParameters.opt.skip fun _ => ((keeps_keyword _).skip fun _ => hg.typeList).opt.skip fun _ =>
    hg.permitsClause.opt.skip fun _ => (bodyOf hg.interfaceMember).yields.bind fun _ _ h => .pure h

theorem enumParts : Yields TypeParts.Fits (enumParts g) :=
  hg.implementsClause.opt.skip fun _ => hg.enumBody.yields.bind fun _ _ h => .pure h

theorem recordParts : Yields TypeParts.Fits (recordParts g) :=
  hg.typeParameters.opt.skip fun _ => (hg.formalParams _).skip fun _ => hg.implementsClause.opt.skip fun _ =>
    hg.classBody.yields.bind fun _ _ h => .pure h

theorem annotationParts : Yields TypeParts.Fits (annotationParts g) :=
  (bodyOf hg.annotationMember).yields.bind fun _ _ h => .pure h

theorem typeKeyword : Opens (fun r _ => Yields TypeParts.Fits r.2) (typeKeyword g) := by
  refine opens_take.skip fun t => .ite (fun _ => .pure hg.annotationParts) fun _ =>
    .ite (fun _ => .failure) fun _ => ?_
  split
  · exact .pure hg.classParts
  · exact .pure hg.interfaceParts
  · exact .pure hg.enumParts
  · exact .pure hg.recordParts
  · exact .failure

-- The type begins with its modifiers, before its name and its members are known.
theorem typeDeclRule : Yields TypeDecl.Fits (typeDeclRule g) :=
  .begin fun _ => (hg.declarationModifiers (Nat.le_refl 1)).bind fun _ _ hmods =>
    hg.typeKeyword.learn fun _ _ hrest => yields_anyWord.learn fun name _ hname =>
      hrest.bind fun parts _ hmembers => (reads_spanFrom _).learn fun span _ hspan =>
        .pure_named ⟨span.startByte, name.text, typeNames parts.members⟩ hspan ⟨.inr hname, hmembers.names⟩
          ⟨((Outline.Fits.type _).both (fits_annotations hmods)).both hmembers.outline, hname⟩

end Grammar.InOrder

theorem grammar_inOrder (depth : Nat) : (grammar depth).InOrder := by
  induction depth with
  | zero => exact ⟨fun _ => .failure, .failure, .failure, fun _ => .failure, fun _ => .failure, .failure,
      fun _ => .failure, .failure, .failure, .failure, .failure⟩
  | succ depth ih =>
    exact { type := ih.typeUpTo []
            annotationTree := ih.annotationRule
            elementValue := ih.elementValueRule
            expr := ih.exprRule
            operand := ih.operandRule ih.switchRule
            variableInit := ih.variableInitRule
            recordPattern := ih.recordPatternRule
            stmt := ih.stmtRule
            block := ih.blockRule
            classBody := ih.classBodyRule
            typeDecl := ih.typeDeclRule }

namespace Grammar.InOrder

variable {g : Grammar} (hg : g.InOrder)
include hg

theorem looseMethod : Keeps (looseMethod g) :=
  reads_here.skip fun start => (hg.declarationModifiers (Nat.zero_le 1)).trans fun _ _ hmods =>
    (hg.methodDecl start hmods _).mono fun _ _ _ => trivial

theorem unitItem : Yields (fun i zs => ∀ d, i = .type d → d.Fits zs) (unitItem g) :=
  .orElse (hg.packageDecl.skip fun _ => .pure nofun) <|
  .orElse (importDecl.skip fun _ => .pure nofun) <|
  .orElse (hg.moduleDecl.skip fun _ => .pure nofun) <|
  .orElse (hg.typeDecl.bind fun _ _ hd => .pure fun _ heq => UnitItem.type.inj heq ▸ hd) <|
  .orElse ((keeps_mark _).skip fun _ => .pure nofun) <|
  .orElse (hg.looseMethod.skip fun _ => .pure nofun) (hg.stmt.skip fun _ => .pure nofun)

end Grammar.InOrder

theorem fits_unitTypes {items : List UnitItem} {zs : List Head}
    (h : All (fun i zs => ∀ d, i = UnitItem.type d → d.Fits zs) items zs) :
    (declsOutline (UnitSyntax.ofItems items).types).Fits zs ∧
      ∀ d ∈ (UnitSyntax.ofItems items).types, IsWord d.name := by
  induction items generalizing zs with
  | nil => exact ⟨.blank, nofun⟩
  | cons i items ih =>
    obtain ⟨xs, ys, hsub, hi, hrest⟩ := h
    obtain ⟨houtline, hnames⟩ := ih hrest
    have hlater := houtline.mono ((List.sublist_append_right xs ys).trans hsub)
    cases i with
    | type d =>
      obtain ⟨hd, hname⟩ := hi d rfl
      exact ⟨(hd.both houtline).mono hsub, List.forall_mem_cons.mpr ⟨hname, hnames⟩⟩
    | package name => exact ⟨hlater, hnames⟩
    | «import» path => exact ⟨hlater, hnames⟩
    | other => exact ⟨hlater, hnames⟩

/-- The types of a file that is read begin one after the other, as its outline has them, and
have words for their names. -/
theorem inOrder_of_parseUnit? {source : String} {raw : UnitSyntax} (h : parseUnit? source = some raw) :
    (declsOutline raw.types).heads.Pairwise (fun a b => a.start < b.start) ∧
      (∀ h ∈ (declsOutline raw.types).heads, h.Proper) ∧ ∀ d ∈ raw.types, IsWord d.name := by
  obtain ⟨tokens, htokens, h⟩ := Option.bind_eq_some_iff.mp h
  obtain ⟨⟨items, s⟩, hitems, h⟩ := Option.bind_eq_some_iff.mp h
  obtain ⟨hproper, horder⟩ := Token.inOrder_of_readFrom? htokens
  have hbegin : (⟨tokens, tokens.length, Mark.start source.toList⟩ : Cursor).After 0 [] :=
    ⟨fun t ht => (hproper t ht).1, horder, .nil, nofun, nofun⟩
  obtain ⟨zs, hfit, hend⟩ := (grammar_inOrder _).unitItem.many [] _ hbegin _ _ hitems
  dsimp only at h
  split at h
  · cases h
    obtain ⟨houtline, hnames⟩ := fits_unitTypes hfit
    have hsub : (declsOutline (UnitSyntax.ofItems items).types).heads.Sublist zs := houtline
    exact ⟨hend.heads_lt.sublist hsub, fun a ha => hend.proper a (hsub.subset ha), hnames⟩
  · cases h

end LevelGuard.Java
