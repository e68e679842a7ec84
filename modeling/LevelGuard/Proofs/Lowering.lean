import LevelGuard.Proofs.Nesting

/-!
# Lowering

Lowering any piece of syntax keeps a draft in order, so the graph of every body is
structured.
-/
namespace LevelGuard.Flow

open Java Build

theorem Reaches.switch {heads entered : List Nat} {d d' : Draft}
    (r : Reaches heads entered d [] d') (ht : Targets heads entered d) (label : Option String)
    (breakable yields : Bool) {cases : Nat → Nat → Build Unit}
    (hcases : ∀ head after, (cases head after).NestsBetween head after none) :
    Reaches heads entered d [] ((Build.setCurrent d'.size).after
      ((Build.withJump ⟨label, d'.size, none, breakable, yields⟩
        (cases d'.current d'.size)).after (Build.newBlock.after d'))) := by
  refine r.run fun entered' p => ?_
  have r' := (Reaches.start p.orderly).newBlock.run fun entered'' q => Reaches.withJump
    (hcases d'.current d'.size heads entered'' _ (q.orderly.setJumps _)
      ((q.targets (p.targets ht)).push ⟨label, d'.size, none, breakable, yields⟩ q.first nofun)
      (q.departs p.current_departs) nofun q.first)
  exact r'.setCurrent

theorem excluded_of_mem_caught (catches : List CatchClause) :
    ∀ g ∈ catches.flatMap fun c => c.types.map fun t => Guard.excluded t.name,
      ∃ name, g = .excluded name := by
  intro g hg
  obtain ⟨c, -, hg⟩ := List.mem_flatMap.mp hg
  obtain ⟨t, -, rfl⟩ := List.mem_map.mp hg
  exact ⟨t.name, rfl⟩

namespace Build.Nests

mutual

theorem lowerExpr (R : Recognizer) (goal : Goal) : (e : Expr) → (Flow.lowerExpr R goal e).Nests goal
  | .binary s op lhs rhs => by
    intro heads entered d h ht hg
    by_cases hand : op = .and
    · subst hand
      cases hg with
      | value =>
        have r := (Reaches.start h).newBlock.newBlock.branching ht (lowerExpr R _ lhs)
          fun _ p => .branch p.first p.second
        exact (r.setCurrent.step ht (lowerExpr R _ rhs)).flowToFirst.setCurrent
      | branch htrue hfalse =>
        have r := (Reaches.start h).newBlock.branching ht (lowerExpr R _ lhs)
          fun _ p => .branch p.first (p.pending_old hfalse)
        exact r.setCurrent.branching ht (lowerExpr R _ rhs)
          fun _ p => p.goal_pending (.branch htrue hfalse)
    by_cases hor : op = .or
    · subst hor
      cases hg with
      | value =>
        have r := (Reaches.start h).newBlock.newBlock.branching ht (lowerExpr R _ lhs)
          fun _ p => .branch p.second p.first
        exact (r.setCurrent.step ht (lowerExpr R _ rhs)).flowToFirst.setCurrent
      | branch htrue hfalse =>
        have r := (Reaches.start h).newBlock.branching ht (lowerExpr R _ lhs)
          fun _ p => .branch (p.pending_old htrue) p.first
        exact r.setCurrent.branching ht (lowerExpr R _ rhs)
          fun _ p => p.goal_pending (.branch htrue hfalse)
    · rw [lowerExpr_binary R goal hand hor]
      exact (((Reaches.start h).step ht (lowerExpr R _ lhs)).step ht
        (lowerExpr R _ rhs)).branchOn _ hg
  | .unary s op operand => by
    intro heads entered d h ht hg
    by_cases hnot : op = .not
    · subst hnot
      cases hg with
      | value => exact lowerExpr R _ operand heads entered d h ht .value
      | branch htrue hfalse =>
        exact lowerExpr R _ operand heads entered d h ht (.branch hfalse htrue)
    · rw [lowerExpr_unary R goal hnot]
      exact ((Reaches.start h).step ht (lowerExpr R _ operand)).branchOn _ hg
  | .conditional _ cond yes no => by
    intro heads entered d h ht hg
    cases hg with
    | value =>
      have r := (Reaches.start h).newBlock.newBlock.newBlock.branching ht (lowerExpr R _ cond)
        fun _ p => .branch p.first p.second
      have r' := (r.setCurrent.step ht (lowerExpr R _ yes)).flowToSecond
      exact (r'.setCurrent.step ht (lowerExpr R _ no)).flowToFirst.setCurrent
    | branch htrue hfalse =>
      have r := (Reaches.start h).newBlock.newBlock.branching ht (lowerExpr R _ cond)
        fun _ p => .branch p.first p.second
      have r' := r.setCurrent.branching ht (lowerExpr R _ yes)
        fun _ p => p.goal_pending (.branch htrue hfalse)
      exact r'.setCurrent.branching ht (lowerExpr R _ no)
        fun _ p => p.goal_pending (.branch htrue hfalse)
  | .literal s l => by
    intro heads entered d h ht hg
    by_cases hbool : ∃ b, l = .bool b
    · obtain ⟨b, rfl⟩ := hbool
      cases hg with
      | value => exact .start h
      | branch htrue hfalse =>
        refine (Reaches.start h).edge _ _ (fun _ p => p.current_departs) fun _ p => ?_
        cases b with
        | true => exact p.pending_old htrue
        | false => exact p.pending_old hfalse
    · rw [lowerExpr_literal R goal fun b hb => hbool ⟨b, hb⟩]
      exact (Reaches.start h).branchOn _ hg
  | .name _ _ => fun _ _ _ h _ hg => ((Reaches.start h).addSite _).branchOn _ hg
  | .fieldAccess _ target _ => fun _ _ _ h ht hg =>
    (((Reaches.start h).step ht (lowerExpr R _ target)).addSite _).branchOn _ hg
  | .call _ target _ args => fun _ _ _ h ht hg =>
    ((((Reaches.start h).step ht (lowerExpr? R target)).step ht
      (lowerExprs R args)).addSite _).branchOn _ hg
  | .methodRef _ target _ => fun _ _ _ h ht hg =>
    (((Reaches.start h).step ht (lowerExpr R _ target)).addSite _).branchOn _ hg
  | .new _ _ args body => fun _ _ _ h ht hg =>
    ((((Reaches.start h).step ht (lowerExprs R args)).addSite _).forM? _ body).branchOn _ hg
  | .newArray _ _ dims init => fun _ _ _ h ht hg =>
    (((Reaches.start h).step ht (lowerExprs R dims)).step ht (lowerExprs R init)).branchOn _ hg
  | .arrayInit _ items => fun _ _ _ h ht hg =>
    ((Reaches.start h).step ht (lowerExprs R items)).branchOn _ hg
  | .assign _ target value => fun _ _ _ h ht hg =>
    (((Reaches.start h).step ht (lowerExpr R _ target)).step ht
      (lowerExpr R _ value)).branchOn _ hg
  | .cast _ _ operand => fun _ _ _ h ht hg =>
    ((Reaches.start h).step ht (lowerExpr R _ operand)).branchOn _ hg
  | .instanceOf _ operand _ => fun _ _ _ h ht hg =>
    (((Reaches.start h).step ht (lowerExpr R _ operand)).addSite _).branchOn _ hg
  | .lambda _ _ _ => fun _ _ _ h _ hg => ((Reaches.start h).addSite _).branchOn _ hg
  | .arrayAccess _ array index => fun _ _ _ h ht hg =>
    (((Reaches.start h).step ht (lowerExpr R _ array)).step ht
      (lowerExpr R _ index)).branchOn _ hg
  | .switch _ selector cases => fun _ _ _ h ht hg =>
    (((Reaches.start h).step ht (lowerExpr R _ selector)).switch ht none false true
      fun head after => lowerCases R selector head after none false cases).branchOn _ hg
  | .classLit _ _ => fun _ _ _ h _ hg => ((Reaches.start h).addSite _).branchOn _ hg
  | .this _ => fun _ _ _ h _ hg => (Reaches.start h).branchOn _ hg
  | .super _ => fun _ _ _ h _ hg => (Reaches.start h).branchOn _ hg
  | .unknown _ parts => fun _ _ _ h ht hg =>
    ((Reaches.start h).step ht (lowerExprs R parts)).branchOn _ hg

theorem lowerExpr? (R : Recognizer) : (e : Option Expr) → (Flow.lowerExpr? R e).Nests .value
  | none => fun _ _ _ h _ _ => .start h
  | some e => lowerExpr R _ e

theorem lowerCond? (R : Recognizer) (onTrue onFalse : Nat) :
    (e : Option Expr) → (Flow.lowerCond? R onTrue onFalse e).Nests (.branch onTrue onFalse)
  | none => by
    intro heads entered d h ht hg
    cases hg with
    | branch htrue hfalse =>
      exact (Reaches.start h).edge _ _ (fun _ p => p.current_departs)
        fun _ p => p.pending_old htrue
  | some e => lowerExpr R _ e

theorem lowerExprs (R : Recognizer) : (es : List Expr) → (Flow.lowerExprs R es).Nests .value
  | [] => fun _ _ _ h _ _ => .start h
  | e :: es => fun _ _ _ h ht _ =>
    ((Reaches.start h).step ht (lowerExpr R _ e)).step ht (lowerExprs R es)

theorem lowerLabels (R : Recognizer) (selector : Expr) :
    (labels : List Expr) → (Flow.lowerLabels R selector labels).Nests .value
  | [] => fun _ _ _ h _ _ => .start h
  | e :: rest => by
    intro heads entered d h ht _
    by_cases hname : ∃ s n, e = .name s n
    · obtain ⟨s, n, rfl⟩ := hname
      exact ((Reaches.start h).addSite _).step ht (lowerLabels R selector rest)
    · rw [lowerLabels_cons R selector fun s n h => hname ⟨s, n, h⟩]
      exact ((Reaches.start h).step ht (lowerExpr R _ e)).step ht (lowerLabels R selector rest)

theorem lowerCases (R : Recognizer) (selector : Expr) (head after : Nat) (open? : Option Nat)
    (defaulted : Bool) : (cases : List SwitchCase) →
      (Flow.lowerCases R selector head after open? defaulted cases).NestsBetween head after open?
  | [] => by
    intro heads entered d h ht hhead hopen hafter
    have r := (Reaches.start h).fallTo hopen fun _ p => p.pending_old hafter
    cases defaulted with
    | true => exact r
    | false =>
      exact r.edge .flow none (fun _ p => p.departs hhead) fun _ p => p.pending_old hafter
  | ⟨labels, isDefault, isRule, body, _⟩ :: rest => by
    intro heads entered d h ht hhead hopen hafter
    have r := (Reaches.start h).newBlock.edge .onCase
      (if isDefault then none else R.caseGuard? selector labels)
      (fun _ p => p.departs hhead) fun _ p => p.first
    have r' := (r.fallTo hopen fun _ p => p.first).setCurrent
    have r'' := (r'.step ht (lowerLabels R selector labels)).step ht (lowerStmts R body)
    cases isRule with
    | true =>
      have r₃ := r''.edge .flow none (fun _ p => p.current_departs)
        fun _ p => p.pending_old hafter
      exact r₃.run fun entered' p =>
        lowerCases R selector head after none (defaulted || isDefault) rest heads entered' _
          p.orderly (p.targets ht) (p.departs hhead) nofun (p.pending_old hafter)
    | false =>
      exact r''.run fun entered' p =>
        lowerCases R selector head after (some _) (defaulted || isDefault) rest heads entered' _
          p.orderly (p.targets ht) (p.departs hhead)
          (fun _ hb => Option.some.inj hb ▸ p.current_departs) (p.pending_old hafter)

theorem lowerVars (R : Recognizer) : (decls : List LocalVar) → (Flow.lowerVars R decls).Nests .value
  | [] => fun _ _ _ h _ _ => .start h
  | ⟨_, _, _, init, _, _⟩ :: rest => fun _ _ _ h ht _ =>
    ((Reaches.start h).step ht (lowerExpr? R init)).step ht (lowerVars R rest)

theorem lowerStmt (R : Recognizer) (label : Option String) :
    (st : Stmt) → (Flow.lowerStmt R label st).Nests .value
  | .block _ ⟨stmts, _⟩ => lowerStmts R stmts
  | .vars _ decls => lowerVars R decls
  | .expr _ e => lowerExpr R _ e
  | .ifElse _ cond yes no => by
    intro heads entered d h ht _
    have r := (Reaches.start h).newBlock.newBlock.newBlock.branching ht (lowerExpr R _ cond)
      fun _ p => .branch p.first p.second
    have r' := (r.setCurrent.step ht (lowerStmt R none yes)).flowToSecond
    exact (r'.setCurrent.step ht (lowerStmt? R no)).flowToFirst.setCurrent
  | .whileLoop _ cond body => by
    intro heads entered d h ht _
    have ht' := ht.openLoop
    have r := (Reaches.openLoop h).newBlock.newBlock.branching ht' (lowerExpr R _ cond)
      fun _ p => .branch p.first p.second
    have r' := r.setCurrent.jumping ht' (lowerStmt R none body)
      ⟨label, d.size + 2, some d.size, true, false⟩ (fun _ p => p.first)
      fun _ _ c hc => .inr (Option.some.inj hc ▸ List.mem_cons_self)
    exact (r'.backEdge List.mem_cons_self).setCurrent.closeLoop
  | .doWhile _ body cond => by
    intro heads entered d h ht _
    have ht' := ht.openLoop
    have r := (Reaches.openLoop h).newBlock.newBlock.jumping ht' (lowerStmt R none body)
      ⟨label, d.size + 2, some (d.size + 1), true, false⟩ (fun _ p => p.second)
      fun _ p c hc => .inl (Option.some.inj hc ▸ p.first)
    have r' := r.flowToFirst.setCurrent.newBlock.branching ht' (lowerExpr R _ cond)
      fun _ p => .branch p.second p.first
    -- The block that leads back is entered before the one after the loop.
    exact (r'.swap.setCurrent.backEdge List.mem_cons_self).setCurrent.closeLoop
  | .forLoop _ init cond update body => by
    intro heads entered d h ht _
    refine ((Reaches.start h).step ht (lowerStmts R init)).run fun entered' p => ?_
    have ht' := (p.targets ht).openLoop
    have r := (Reaches.openLoop p.orderly).newBlock.newBlock.newBlock.branching ht'
      (lowerCond? R _ _ cond) fun _ p => .branch p.first p.third
    have r' := r.setCurrent.jumping ht' (lowerStmt R none body)
      ⟨label, _, some _, true, false⟩ (fun _ p => p.second)
      fun _ p c hc => .inl (Option.some.inj hc ▸ p.first)
    have r'' := r'.flowToFirst.setCurrent.step ht' (lowerExprs R update)
    exact (r''.backEdge List.mem_cons_self).setCurrent.closeLoop
  | .forEach _ _ iterable body => by
    intro heads entered d h ht _
    refine ((Reaches.start h).step ht (lowerExpr R _ iterable)).run fun entered' p => ?_
    have ht' := (p.targets ht).openLoop
    have r := (Reaches.openLoop p.orderly).newBlock.newBlock.flowToFirst.flowToSecond
    have r' := r.setCurrent.jumping ht' (lowerStmt R none body)
      ⟨label, _, some _, true, false⟩ (fun _ p => p.first)
      fun _ _ c hc => .inr (Option.some.inj hc ▸ List.mem_cons_self)
    exact (r'.backEdge List.mem_cons_self).setCurrent.closeLoop
  | .switch _ selector cases => fun _ _ _ h ht _ =>
    ((Reaches.start h).step ht (lowerExpr R _ selector)).switch ht label true false
      fun head after => lowerCases R selector head after none false cases
  | .tryCatch s withResources resources ⟨stmts, _⟩ catches always => by
    intro heads entered d h ht _
    refine ((Reaches.start h).addSiteIf withResources (.tryWithResources s)).newBlock
      |>.flowToFirst.setCurrent.run fun entered' p => ?_
    have ht' := p.targets ht
    have r := (Reaches.start p.orderly).handling ht' (excluded_of_mem_caught catches)
      fun _ _ _ h ht _ => ((Reaches.start h).step ht (lowerStmts R resources)).step ht
        (lowerStmts R stmts)
    have r' := r.newBlock.flowToFirst.run fun entered'' q =>
      lowerCatches R _ _ catches heads entered'' _ q.orderly (q.targets ht')
        (q.departs p.current_departs) nofun q.first
    exact lowerClosing R _ _ always heads entered' _ _ ht' p.current_departs r'
  | .returns _ value => fun _ _ _ h ht _ =>
    ((Reaches.start h).step ht (lowerExpr? R value)).jumpTo ht.exit
  | .throws _ value => fun _ _ _ h ht _ =>
    ((Reaches.start h).step ht (lowerExpr R _ value)).jumpTo ht.exit
  | .yields _ value => by
    intro heads entered d h ht _
    refine ((Reaches.start h).step ht (lowerExpr R _ value)).run fun entered' p => ?_
    exact (Reaches.start p.orderly).jumpTo (p.targets ht).yieldTarget
  | .breaks _ target => fun _ _ _ h ht _ =>
    (Reaches.start h).jumpTo (ht.breakTarget target)
  | .continues _ target => by
    intro heads entered d h ht _
    rw [lowerStmt_continues, after_get_bind]
    cases hc : continueTarget? d.jumps target with
    | none => exact (Reaches.start h).jumpTo ht.exit
    | some c =>
      rcases ht.continueTarget? hc with hpending | hhead
      · exact ((Reaches.start h).edge .back none (fun _ p => p.current_departs)
          fun _ p => p.pending_old hpending).newBlock.setCurrent
      · exact ((Reaches.start h).backEdge hhead).newBlock.setCurrent
  | .labeled _ name body => by
    intro heads entered d h ht _
    rw [lowerStmt_labeled]
    split
    · exact lowerStmt R (some name) body heads entered d h ht .value
    · have r := (Reaches.start h).newBlock.jumping ht (lowerStmt R none body)
        ⟨some name, d.size, none, false, false⟩ (fun _ p => p.first) nofun
      exact r.flowToFirst.setCurrent
  | .synchronized _ lock ⟨stmts, _⟩ => fun _ _ _ h ht _ =>
    ((Reaches.start h).step ht (lowerExpr R _ lock)).step ht (lowerStmts R stmts)
  | .localClass _ _ => fun _ _ _ h _ _ => (Reaches.start h).addSite _
  | .asserts _ cond message => fun _ _ _ h ht _ =>
    ((Reaches.start h).step ht (lowerExpr R _ cond)).step ht (lowerExpr? R message)
  | .empty _ => fun _ _ _ h _ _ => .start h

theorem lowerStmt? (R : Recognizer) : (st : Option Stmt) → (Flow.lowerStmt? R st).Nests .value
  | none => fun _ _ _ h _ _ => .start h
  | some st => lowerStmt R none st

theorem lowerStmts (R : Recognizer) : (sts : List Stmt) → (Flow.lowerStmts R sts).Nests .value
  | [] => fun _ _ _ h _ _ => .start h
  | st :: rest => fun _ _ _ h ht _ =>
    ((Reaches.start h).step ht (lowerStmt R none st)).step ht (lowerStmts R rest)

theorem lowerCatches (R : Recognizer) (tryBlock join : Nat) : (catches : List CatchClause) →
    (Flow.lowerCatches R tryBlock join catches).NestsBetween tryBlock join none
  | [] => fun _ _ _ h _ _ _ _ => .start h
  | ⟨types, _, ⟨stmts, _⟩, _⟩ :: rest => by
    intro heads entered d h ht htry hnone hjoin
    have r := ((Reaches.start h).newBlock.edge .exception none (fun _ p => p.departs htry)
      fun _ p => p.first).setCurrent.forM Event.typeUse types
    have r' := (r.step ht (lowerStmts R stmts)).edge .flow none (fun _ p => p.current_departs)
      fun _ p => p.pending_old hjoin
    exact r'.run fun entered' p => lowerCatches R tryBlock join rest heads entered' _ p.orderly
      (p.targets ht) (p.departs htry) nofun (p.pending_old hjoin)

theorem lowerClosing (R : Recognizer) (tryBlock join : Nat) : (always : Option Block) →
    ∀ heads entered d d', Targets heads entered d → Departs heads entered tryBlock →
      Reaches heads entered d [join] d' → Reaches heads entered d []
        ((Flow.lowerClosing R tryBlock join always).after ((setCurrent join).after d'))
  | none => fun _ _ _ _ _ _ r => r.setCurrent
  | some ⟨stmts, _⟩ => fun _ _ _ _ ht htry r =>
    (r.edge .exception none (fun _ p => p.departs htry)
      fun _ p => p.first).setCurrent.step ht (lowerStmts R stmts)

end

end Build.Nests

namespace Graph

variable {G : Graph}

theorem Path.head_mem_visited {entered : List Nat} {head top : Nat} (hentry : G.entry ≤ head)
    (hregion : Region entered G.edges head top) {es : List Edge} {b : Nat}
    (hpath : G.Path G.entry es b) (hle : head ≤ b) (hlt : b < top) : head ∈ G.visited es := by
  induction hpath with
  | nil =>
    rw [Nat.le_antisymm hle hentry]
    exact List.mem_cons_self
  | @snoc es e hpath he ih =>
    rw [visited_snoc]
    by_cases heq : head = e.target
    · exact List.mem_append_right _ (List.mem_singleton.mpr heq)
    · have hsource := hregion.single e he (by omega) hlt
      exact List.mem_append_left _ (ih hsource.1 hsource.2)

/-- A draft in order is a structured graph, if it is entered at the first of its blocks. -/
theorem structured_of_orderly {entered : List Nat} {d : Draft} (h : Orderly [] entered d)
    {entry : Nat} (hentry : entry ∈ entered) (hfirst : ∀ b ∈ entered, entry ≤ b) (exit : Nat)
    (sites : List (Nat × Site)) :
    (Graph.mk d.size entry exit d.edges sites).Structured where
  entry_lt := h.lt_size entry hentry
  target_lt := h.target_lt
  ranked := by
    refine ⟨entered.idxOf, fun e he _ => ?_⟩
    cases h.explained e he with
    | forward hlt => exact .inl hlt
    | again hmem _ => exact absurd hmem List.not_mem_nil
    | within top region _ hle hlt =>
      have hhead := hfirst _ (region.mem e.target (Nat.le_refl _) (Nat.lt_of_le_of_lt hle hlt))
      exact .inr fun es hpath => hpath.head_mem_visited hhead region hle hlt

theorem orderly_start : Orderly [] [entryBlock] {} := by
  refine ⟨?_, ?_, ?_, ?_, ?_, ?_, ?_, ?_, ?_, ?_⟩ <;> simp [entryBlock]

theorem targets_start : Targets [] [entryBlock] {} := by
  refine ⟨⟨by decide, by decide⟩, ?_, ?_⟩ <;> simp

/-- The draft of a body is in order to the end. -/
theorem orderly_ofBuild {m : Build Unit} (hm : m.Nests .value) :
    ∃ entered d, Orderly [] entered d ∧ entryBlock ∈ entered ∧
      ofBuild m = ⟨d.size, entryBlock, exitBlock, d.edges, d.sites⟩ := by
  have r := ((Reaches.start orderly_start).step targets_start hm).edge .flow none
    (fun _ p => p.current_departs) fun _ p => p.pending_old targets_start.exit
  obtain ⟨entered, p⟩ := r
  exact ⟨entered, _, p.orderly, (p.mem _).mpr (.inl List.mem_cons_self), rfl⟩

theorem structured_ofBuild {m : Build Unit} (hm : m.Nests .value) : (ofBuild m).Structured := by
  obtain ⟨entered, d, h, hentry, hd⟩ := orderly_ofBuild hm
  rw [hd]
  exact structured_of_orderly h hentry (fun b _ => Nat.zero_le b) _ _

/-- The sites of a body are in blocks of its graph, and their handlers only exclude. -/
theorem sites_ofBuild {m : Build Unit} (hm : m.Nests .value) {s : Nat × Site}
    (hs : s ∈ (ofBuild m).sites) :
    s.1 < (ofBuild m).size ∧ ∀ g ∈ s.2.handlers, ∃ name, g = .excluded name := by
  obtain ⟨entered, d, h, -, hd⟩ := orderly_ofBuild hm
  rw [hd] at hs ⊢
  exact ⟨h.lt_size _ (h.sites s hs).1, (h.sites s hs).2⟩

end Graph

end LevelGuard.Flow
