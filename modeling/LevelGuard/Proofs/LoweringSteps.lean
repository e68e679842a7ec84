import LevelGuard.Proofs.Fragments
import LevelGuard.Proofs.Plain
import LevelGuard.Proofs.Sites

/-!
# The steps of the lowering

The lowering is put together from a few steps of the builder. A property that these steps have
and that is kept when steps are done one after another is a property of every lowering, so the
syntax is gone through once, for all such properties.

A property is about the steps for some code, the steps for the plain form of the code and the
sites that are listed for it. The sites that a graph has and the edges of a fragment are two
such properties.
-/
namespace LevelGuard.Flow

open Java Build Project

def Event.plain : Event → Event
  | .reference e => .reference (plainExpr e)
  | .typeUse type => .typeUse type
  | .caseLabel label selector => .caseLabel (plainExpr label) (plainExpr selector)
  | .lambda params body => .lambda params (plainLambda body)
  | .classBody d => .classBody (plainDecl d)
  | .tryWithResources s => .tryWithResources s

theorem plainExpr_ne_name {e : Expr} (h : ∀ s n, e ≠ .name s n) (s : Span) (n : String) :
    plainExpr e ≠ .name s n := by
  cases e with
  | name s' n' => exact absurd rfl (h s' n')
  | _ => rintro ⟨⟩

theorem takesLabel_plain (st : Stmt) : takesLabel (plainStmt st) = takesLabel st := by
  cases st <;> rfl

theorem caughtGuards_plain (catches : List CatchClause) :
    caughtGuards (plainCatches catches) = caughtGuards catches := by
  induction catches with
  | nil => rfl
  | cons c catches ih =>
    obtain ⟨types, n, body, s⟩ := c
    exact congrArg (_ ++ ·) ih

variable {R : Recognizer}

/-- A property of steps that the steps of the builder have, where edges are made by a rule: of
the steps for some code, the steps for its plain form and the sites listed for it. -/
structure StepRule (A : EdgeRule R) where
  Holds : Build Unit → Build Unit → (List Guard → List Site) → Prop
  seq : ∀ {m m' : Build Unit} {f f' : Unit → Build Unit} {s s' : List Guard → List Site},
    Holds m m' s → (∀ u, Holds (f u) (f' u) s') → Holds (m >>= f) (m' >>= f') fun H => s H ++ s' H
  block : ∀ {f f' : Nat → Build Unit} {s : List Guard → List Site},
    (∀ b, A.target b → Holds (f b) (f' b) s) → Holds (newBlock >>= f) (newBlock >>= f') s
  /-- Only the spot of the draft is looked at. -/
  look : ∀ (f f' : Spot → Build Unit) {s : List Guard → List Site},
    (∀ p : Spot, p.Aims A.target → Holds (f p) (f' p) s) →
      Holds (get >>= fun d => f d.spot) (get >>= fun d => f' d.spot) s
  done : Holds (pure ()) (pure ()) fun _ => []
  addEdge : ∀ {e : Edge}, A.Permits e → Holds (addEdge e) (addEdge e) fun _ => []
  setCurrent : ∀ b : Nat, Holds (setCurrent b) (setCurrent b) fun _ => []
  addSite : ∀ event : Event, Holds (addSite event) (addSite event.plain) fun H => [⟨event, H⟩]
  withJump : ∀ {j : Jump} {inner inner' : Build Unit} {s : List Guard → List Site},
    A.target j.breakTo → (∀ c, j.continueTo = some c → A.target c) → Holds inner inner' s →
      Holds (withJump j inner) (withJump j inner') s
  withHandlers : ∀ (guards : List Guard) {inner inner' : Build Unit} {s : List Guard → List Site},
    Holds inner inner' s →
      Holds (withHandlers guards inner) (withHandlers guards inner') fun H => s (guards ++ H)

namespace StepRule

variable {A : EdgeRule R} (V : StepRule A)

/-- The property of steps that are the same for the plain form and record no site. -/
abbrev Silent (m : Build Unit) : Prop := V.Holds m m fun _ => []

variable {V} {m m' : Build Unit} {f f' : Unit → Build Unit} {s s' : List Guard → List Site}

theorem Holds.then (hm : V.Holds m m' s) (hf : V.Holds (f ()) (f' ()) s') :
    V.Holds (m >>= f) (m' >>= f') fun H => s H ++ s' H :=
  V.seq hm fun _ => hf

/-- A step that records nothing, then others. -/
theorem Holds.next (hm : V.Silent m) (hf : V.Holds (f ()) (f' ()) s) :
    V.Holds (m >>= f) (m >>= f') s :=
  V.seq hm fun _ => hf

/-- Steps after which nothing is recorded. -/
theorem Holds.last (hm : V.Holds m m' s) (hf : V.Silent (f ())) :
    V.Holds (m >>= f) (m' >>= f) s := by
  have h := V.seq hm fun _ => hf
  simpa only [List.append_nil] using h

theorem Holds.assoc {s'' : List Guard → List Site}
    (h : V.Holds m m' fun H => s H ++ (s' H ++ s'' H)) :
    V.Holds m m' fun H => s H ++ s' H ++ s'' H := by
  simpa only [List.append_assoc] using h

variable (V)

theorem spot (f : Spot → Build Unit) (hf : ∀ p : Spot, p.Aims A.target → V.Silent (f p)) :
    V.Silent (get >>= fun d => f d.spot) :=
  V.look f f hf

theorem edge {source target : Nat} {kind : EdgeKind} (h : A.target target) :
    V.Silent (Build.addEdge ⟨source, target, kind, none⟩) :=
  V.addEdge ⟨h, A.plain⟩

theorem edgeTo {target : Nat} {kind : EdgeKind} {guard : Option Guard} (h : A.target target)
    (hguard : A.guard guard) : V.Silent (Build.edgeTo target kind guard) :=
  V.spot (fun p => Build.addEdge ⟨p.current, target, kind, guard⟩) fun _ _ => V.addEdge ⟨h, hguard⟩

theorem flowTo {target : Nat} (h : A.target target) : V.Silent (Build.flowTo target) :=
  V.edgeTo h A.plain

theorem jumpTo {target : Nat} (h : A.target target) : V.Silent (Build.jumpTo target) :=
  (V.flowTo h).next (V.block fun b _ => V.setCurrent b)

theorem leave : V.Silent (Build.jumpTo exitBlock) :=
  V.spot (fun _ => Build.jumpTo exitBlock) fun _ hp => V.jumpTo hp.exit

theorem addSites {γ : Type} (event event' : γ → Event) (h : ∀ a, (event a).plain = event' a)
    (l : List γ) : V.Holds (l.forM fun a => Build.addSite (event a))
      (l.forM fun a => Build.addSite (event' a)) fun H => l.map fun a => ⟨event a, H⟩ := by
  induction l with
  | nil => exact V.done
  | cons a l ih =>
    have hsite := V.addSite (event a)
    rw [h a] at hsite
    exact hsite.then ih

theorem addSiteIf (present : Bool) (event : Event) :
    V.Holds (Build.addSiteIf present event) (Build.addSiteIf present event.plain)
      fun H => if present then [⟨event, H⟩] else [] := by
  cases present with
  | true => exact V.addSite event
  | false => exact V.done

theorem classBody (body : Option TypeDecl) : V.Holds
    (body.forM fun d => Build.addSite (.classBody d))
    ((plainDecl? body).forM fun d => Build.addSite (.classBody d))
    fun H => body.toList.map fun d => ⟨.classBody d, H⟩ := by
  cases body with
  | none => exact V.done
  | some d => exact V.addSite (.classBody d)

theorem fallTo {target : Nat} (h : A.target target) :
    (open? : Option Nat) → V.Silent (Build.fallTo target open?)
  | some _ => V.edge h
  | none => V.done

theorem continueTo {b : Nat} (h : A.target b) : ∀ c, some b = some c → A.target c := by
  rintro c ⟨⟩
  exact h

theorem branch {goal : Goal} (h : goal.Aims A.target) : V.Silent (Flow.branchOn none goal) := by
  cases h with
  | value => exact V.done
  | branch htrue hfalse => exact (V.edgeTo htrue A.plain).next (V.edgeTo hfalse A.plain)

theorem branchOn (e : Expr) {goal : Goal} (h : goal.Aims A.target) :
    V.Silent (Flow.branchOn (R.recognize? e) goal) := by
  cases h with
  | value => exact V.done
  | branch htrue hfalse =>
    exact (V.edgeTo htrue (A.branch e)).next (V.edgeTo hfalse (A.negated e))

/-- The cases of a switch, and what follows them. -/
theorem switching (label : Option String) (breakable yields : Bool)
    {cases cases' : Nat → Nat → Build Unit} {rest : Nat → Build Unit}
    (hcases : ∀ head after, A.target after → V.Holds (cases head after) (cases' head after) s)
    (hrest : ∀ after, V.Silent (rest after)) :
    V.Holds
      (do
        let head := (← get).current
        let after ← Build.newBlock
        Build.withJump ⟨label, after, none, breakable, yields⟩ (cases head after)
        rest after)
      (do
        let head := (← get).current
        let after ← Build.newBlock
        Build.withJump ⟨label, after, none, breakable, yields⟩ (cases' head after)
        rest after) s :=
  V.look
    (fun p => do
      let after ← Build.newBlock
      Build.withJump ⟨label, after, none, breakable, yields⟩ (cases p.current after)
      rest after)
    (fun p => do
      let after ← Build.newBlock
      Build.withJump ⟨label, after, none, breakable, yields⟩ (cases' p.current after)
      rest after)
    fun p _ => V.block fun after hafter =>
      (V.withJump hafter (by nofun) (hcases p.current after hafter)).last (hrest after)

mutual

theorem lowerExpr {goal : Goal} (hgoal : goal.Aims A.target) : (e : Expr) → V.Holds
    (Flow.lowerExpr R goal e) (Flow.lowerExpr R goal (plainExpr e)) fun H => exprSites H e
  | .binary s op lhs rhs => by
    have hlhs := fun {goal} (h : Goal.Aims A.target goal) => lowerExpr h lhs
    have hrhs := fun {goal} (h : Goal.Aims A.target goal) => lowerExpr h rhs
    have hguard := R.recognize?_plain (.binary s op lhs rhs)
    rw [plainExpr] at hguard ⊢
    by_cases hand : op = .and
    · subst hand
      cases hgoal with
      | value =>
        exact V.block fun right hright => V.block fun join hjoin =>
          (hlhs (.branch hright hjoin)).then ((V.setCurrent right).next
            ((hrhs .value).last ((V.flowTo hjoin).next (V.setCurrent join))))
      | branch htrue hfalse =>
        exact V.block fun mid hmid => (hlhs (.branch hmid hfalse)).then
          ((V.setCurrent mid).next (hrhs (.branch htrue hfalse)))
    by_cases hor : op = .or
    · subst hor
      cases hgoal with
      | value =>
        exact V.block fun right hright => V.block fun join hjoin =>
          (hlhs (.branch hjoin hright)).then ((V.setCurrent right).next
            ((hrhs .value).last ((V.flowTo hjoin).next (V.setCurrent join))))
      | branch htrue hfalse =>
        exact V.block fun mid hmid => (hlhs (.branch htrue hmid)).then
          ((V.setCurrent mid).next (hrhs (.branch htrue hfalse)))
    · rw [lowerExpr_binary R goal hand hor, lowerExpr_binary R goal hand hor, hguard]
      exact (hlhs .value).then ((hrhs .value).last (V.branchOn _ hgoal))
  | .unary s op operand => by
    have hoperand := fun {goal} (h : Goal.Aims A.target goal) => lowerExpr h operand
    rw [plainExpr]
    by_cases hnot : op = .not
    · subst hnot
      cases hgoal with
      | value => exact hoperand .value
      | branch htrue hfalse => exact hoperand (.branch hfalse htrue)
    · rw [lowerExpr_unary R goal hnot, lowerExpr_unary R goal hnot]
      exact (hoperand .value).last (V.branch hgoal)
  | .conditional _ cond yes no => by
    have hcond := fun {goal} (h : Goal.Aims A.target goal) => lowerExpr h cond
    have hyes := fun {goal} (h : Goal.Aims A.target goal) => lowerExpr h yes
    have hno := fun {goal} (h : Goal.Aims A.target goal) => lowerExpr h no
    cases hgoal with
    | value =>
      exact .assoc <| V.block fun yesBlock hy => V.block fun noBlock hn => V.block fun join hjoin =>
        (hcond (.branch hy hn)).then ((V.setCurrent yesBlock).next ((hyes .value).then
          ((V.flowTo hjoin).next ((V.setCurrent noBlock).next ((hno .value).last
            ((V.flowTo hjoin).next (V.setCurrent join)))))))
    | branch htrue hfalse =>
      exact .assoc <| V.block fun yesBlock hy => V.block fun noBlock hn => (hcond (.branch hy hn)).then
        ((V.setCurrent yesBlock).next ((hyes (.branch htrue hfalse)).then
          ((V.setCurrent noBlock).next (hno (.branch htrue hfalse)))))
  | .literal s l => by
    rw [plainExpr]
    by_cases hbool : ∃ b, l = .bool b
    · obtain ⟨b, rfl⟩ := hbool
      cases hgoal with
      | value => exact V.done
      | branch htrue hfalse => cases b with
        | true => exact V.flowTo htrue
        | false => exact V.flowTo hfalse
    · rw [lowerExpr_literal R goal fun b hb => hbool ⟨b, hb⟩]
      exact V.branch hgoal
  | .name _ _ => (V.addSite _).last (V.branchOn _ hgoal)
  | .fieldAccess _ target _ => (lowerExpr .value target).then ((V.addSite _).last (V.branch hgoal))
  | .call _ target _ args =>
    ((lowerExpr? target).then ((lowerExprs args).then ((V.addSite _).last (V.branch hgoal)))).assoc
  | .methodRef _ target _ => (lowerExpr .value target).then ((V.addSite _).last (V.branch hgoal))
  | .new _ _ args body =>
    (lowerExprs args).then ((V.addSite _).then ((V.classBody body).last (V.branch hgoal)))
  | .newArray _ _ dims init => (lowerExprs dims).then ((lowerExprs init).last (V.branch hgoal))
  | .arrayInit _ items => (lowerExprs items).last (V.branch hgoal)
  | .assign _ target value =>
    (lowerExpr .value target).then ((lowerExpr .value value).last (V.branch hgoal))
  | .cast _ _ operand => (lowerExpr .value operand).last (V.branch hgoal)
  | .instanceOf _ operand _ =>
    (lowerExpr .value operand).then ((V.addSite _).last (V.branch hgoal))
  | .lambda _ _ _ => (V.addSite _).last (V.branch hgoal)
  | .arrayAccess _ array index =>
    (lowerExpr .value array).then ((lowerExpr .value index).last (V.branch hgoal))
  | .switch _ selector cases =>
    (lowerExpr .value selector).then (V.switching none false true
      (fun head _ hafter => lowerCases selector head hafter none false cases)
      fun after => (V.setCurrent after).next (V.branch hgoal))
  | .classLit _ _ => (V.addSite _).last (V.branch hgoal)
  | .this _ => V.branch hgoal
  | .super _ => V.branch hgoal
  | .unknown _ parts => (lowerExprs parts).last (V.branch hgoal)

theorem lowerExpr? : (e : Option Expr) → V.Holds (Flow.lowerExpr? R e)
    (Flow.lowerExpr? R (plainExpr? e)) fun H => exprSites? H e
  | none => V.done
  | some e => lowerExpr .value e

theorem lowerCond? {onTrue onFalse : Nat} (htrue : A.target onTrue) (hfalse : A.target onFalse) :
    (e : Option Expr) → V.Holds (Flow.lowerCond? R onTrue onFalse e)
      (Flow.lowerCond? R onTrue onFalse (plainExpr? e)) fun H => exprSites? H e
  | none => V.flowTo htrue
  | some e => lowerExpr (.branch htrue hfalse) e

theorem lowerExprs : (es : List Expr) → V.Holds (Flow.lowerExprs R es)
    (Flow.lowerExprs R (plainExprs es)) fun H => exprsSites H es
  | [] => V.done
  | e :: es => (lowerExpr .value e).then (lowerExprs es)

theorem lowerLabels (selector : Expr) : (labels : List Expr) → V.Holds
    (Flow.lowerLabels R selector labels)
    (Flow.lowerLabels R (plainExpr selector) (plainExprs labels))
    fun H => labelsSites H selector labels
  | [] => V.done
  | e :: rest => by
    by_cases hname : ∃ s n, e = .name s n
    · obtain ⟨s, n, rfl⟩ := hname
      exact (V.addSite _).then (lowerLabels selector rest)
    · have hname' := fun s n h => hname ⟨s, n, h⟩
      rw [lowerLabels_cons R selector hname', plainExprs,
        lowerLabels_cons R _ (plainExpr_ne_name hname')]
      simp only [labelsSites_cons _ selector hname']
      exact (lowerExpr .value e).then (lowerLabels selector rest)

theorem lowerCases (selector : Expr) (head : Nat) {after : Nat} (hafter : A.target after)
    (open? : Option Nat) (defaulted : Bool) : (cases : List SwitchCase) → V.Holds
      (Flow.lowerCases R selector head after open? defaulted cases)
      (Flow.lowerCases R (plainExpr selector) head after open? defaulted (plainCases cases))
      fun H => casesSites H selector cases
  | [] => by
    cases defaulted with
    | true => exact (V.fallTo hafter _).next V.done
    | false => exact (V.fallTo hafter _).next (V.edge hafter)
  | ⟨labels, isDefault, isRule, body, _⟩ :: rest => by
    have hrest := fun open? defaulted => lowerCases selector head hafter open? defaulted rest
    have hguard : A.guard (if isDefault then none else R.caseGuard? selector labels) := by
      split
      · exact A.plain
      · exact A.case selector labels
    rw [plainCases, Flow.lowerCases, Flow.lowerCases, R.caseGuard?_plain selector labels]
    refine .assoc <| V.block fun block hblock => (V.addEdge ⟨hblock, hguard⟩).next ((V.fallTo hblock _).next
      ((V.setCurrent block).next ((lowerLabels selector labels).then
        ((lowerStmts body).then ?_))))
    cases isRule with
    | true => exact (V.flowTo hafter).next (hrest _ _)
    | false =>
      exact V.look (fun p => Flow.lowerCases R selector head after (some p.current) _ rest)
        (fun p => Flow.lowerCases R (plainExpr selector) head after (some p.current) _
          (plainCases rest)) fun p _ => hrest (some p.current) _

theorem lowerVars : (decls : List LocalVar) → V.Holds (Flow.lowerVars R decls)
    (Flow.lowerVars R (plainVars decls)) fun H => varsSites H decls
  | [] => V.done
  | ⟨_, _, _, init, _, _⟩ :: rest => (lowerExpr? init).then (lowerVars rest)

theorem lowerStmt (label : Option String) : (st : Stmt) → V.Holds (Flow.lowerStmt R label st)
    (Flow.lowerStmt R label (plainStmt st)) fun H => stmtSites H st
  | .block _ ⟨stmts, _⟩ => lowerStmts stmts
  | .vars _ decls => lowerVars decls
  | .expr _ e => lowerExpr .value e
  | .ifElse _ cond yes no => .assoc <|
    V.block fun yesBlock hyes => V.block fun noBlock hno => V.block fun join hjoin =>
      (lowerExpr (.branch hyes hno) cond).then ((V.setCurrent yesBlock).next
        ((lowerStmt none yes).then ((V.flowTo hjoin).next ((V.setCurrent noBlock).next
          ((lowerStmt? no).last ((V.flowTo hjoin).next (V.setCurrent join)))))))
  | .whileLoop _ cond body =>
    V.block fun header hheader => V.block fun bodyBlock hbody => V.block fun after hafter =>
      (V.flowTo hheader).next ((V.setCurrent header).next
        ((lowerExpr (.branch hbody hafter) cond).then ((V.setCurrent bodyBlock).next
          ((V.withJump hafter (continueTo hheader) (lowerStmt none body)).last
            ((V.edgeTo hheader A.plain).next (V.setCurrent after))))))
  | .doWhile _ body cond =>
    V.block fun bodyBlock hbody => V.block fun condBlock hcond => V.block fun after hafter =>
      (V.flowTo hbody).next ((V.setCurrent bodyBlock).next
        ((V.withJump hafter (continueTo hcond) (lowerStmt none body)).then ((V.flowTo hcond).next
          ((V.setCurrent condBlock).next (V.block fun again hagain =>
            (lowerExpr (.branch hagain hafter) cond).last ((V.edge hbody).next
              (V.setCurrent after)))))))
  | .forLoop _ init cond update body => .assoc <| .assoc <|
    (lowerStmts init).then (V.block fun header hheader => V.block fun bodyBlock hbody =>
      V.block fun updateBlock hupdate => V.block fun after hafter =>
        (V.flowTo hheader).next ((V.setCurrent header).next ((lowerCond? hbody hafter cond).then
          ((V.setCurrent bodyBlock).next
            ((V.withJump hafter (continueTo hupdate) (lowerStmt none body)).then
              ((V.flowTo hupdate).next ((V.setCurrent updateBlock).next ((lowerExprs update).last
                ((V.edgeTo hheader A.plain).next (V.setCurrent after))))))))))
  | .forEach _ _ iterable body =>
    (lowerExpr .value iterable).then (V.block fun header hheader =>
      V.block fun bodyBlock hbody => V.block fun after hafter =>
        (V.flowTo hheader).next ((V.edge hbody).next ((V.edge hafter).next
          ((V.setCurrent bodyBlock).next
            ((V.withJump hafter (continueTo hheader) (lowerStmt none body)).last
              ((V.edgeTo hheader A.plain).next (V.setCurrent after)))))))
  | .switch _ selector cases =>
    (lowerExpr .value selector).then (V.switching label true false
      (fun head _ hafter => lowerCases selector head hafter none false cases) V.setCurrent)
  | .tryCatch s withResources resources ⟨stmts, _⟩ catches always => by
    have hbody := V.withHandlers (caughtGuards catches)
      (V.seq (lowerStmts resources) fun _ => lowerStmts stmts)
    nth_rewrite 2 [← caughtGuards_plain catches] at hbody
    simp only [stmtSites, List.append_assoc]
    simp only [← List.append_assoc (stmtsSites _ resources)]
    exact (V.addSiteIf withResources (.tryWithResources s)).then (V.block fun tryBlock htry =>
      (V.flowTo htry).next ((V.setCurrent tryBlock).next (hbody.then (V.block fun join hjoin =>
        (V.flowTo hjoin).next ((lowerCatches tryBlock hjoin catches).then
          ((V.setCurrent join).next (lowerClosing tryBlock hjoin always)))))))
  | .returns _ value => (lowerExpr? value).last V.leave
  | .throws _ value => (lowerExpr .value value).last V.leave
  | .yields _ value =>
    (lowerExpr .value value).last (V.spot (fun p => Build.jumpTo (yieldTarget p.jumps))
      fun _ hp => V.jumpTo hp.yieldTarget)
  | .breaks _ target =>
    V.spot (fun p => Build.jumpTo (breakTarget p.jumps target))
      fun _ hp => V.jumpTo (hp.breakTarget target)
  | .continues _ target => by
    rw [plainStmt, lowerStmt_continues]
    refine V.spot (fun p => match continueTarget? p.jumps target with
      | some block => do
        Build.edgeTo block .back none
        Build.setCurrent (← Build.newBlock)
      | none => Build.jumpTo exitBlock) fun p hp => ?_
    split
    · next block hblock =>
      exact (V.edgeTo (hp.continueTarget? hblock) A.plain).next (V.block fun b _ => V.setCurrent b)
    · exact V.leave
  | .labeled _ name body => by
    rw [plainStmt, lowerStmt_labeled, lowerStmt_labeled, takesLabel_plain]
    split
    · exact lowerStmt (some name) body
    · exact V.block fun after hafter => (V.withJump hafter (by nofun) (lowerStmt none body)).last
        ((V.flowTo hafter).next (V.setCurrent after))
  | .synchronized _ lock ⟨stmts, _⟩ => (lowerExpr .value lock).then (lowerStmts stmts)
  | .localClass _ d => V.addSite (.classBody d)
  | .asserts _ cond message => (lowerExpr .value cond).then (lowerExpr? message)
  | .empty _ => V.done

theorem lowerStmt? : (st : Option Stmt) → V.Holds (Flow.lowerStmt? R st)
    (Flow.lowerStmt? R (plainStmt? st)) fun H => stmtSites? H st
  | none => V.done
  | some st => lowerStmt none st

theorem lowerStmts : (sts : List Stmt) → V.Holds (Flow.lowerStmts R sts)
    (Flow.lowerStmts R (plainStmts sts)) fun H => stmtsSites H sts
  | [] => V.done
  | st :: rest => (lowerStmt none st).then (lowerStmts rest)

theorem lowerCatches (tryBlock : Nat) {join : Nat} (hjoin : A.target join) :
    (catches : List CatchClause) → V.Holds (Flow.lowerCatches R tryBlock join catches)
      (Flow.lowerCatches R tryBlock join (plainCatches catches)) fun H => catchesSites H catches
  | [] => V.done
  | ⟨types, _, ⟨stmts, _⟩, _⟩ :: rest =>
    .assoc <| V.block fun handler hhandler => (V.edge hhandler).next ((V.setCurrent handler).next
      ((V.addSites Event.typeUse Event.typeUse (fun _ => rfl) types).then ((lowerStmts stmts).then
        ((V.flowTo hjoin).next (lowerCatches tryBlock hjoin rest)))))

theorem lowerClosing (tryBlock : Nat) {join : Nat} (hjoin : A.target join) :
    (always : Option Block) → V.Holds (Flow.lowerClosing R tryBlock join always)
      (Flow.lowerClosing R tryBlock join (plainBlock? always)) fun H => blockSites? H always
  | none => V.done
  | some ⟨stmts, _⟩ => (V.edge hjoin).next (lowerStmts stmts)

end

/-- The steps for a graph end with the way out. -/
theorem Holds.toExit {V : StepRule A} (h : V.Holds m m' s) :
    V.Holds (do m; Build.flowTo exitBlock) (do m'; Build.flowTo exitBlock) s :=
  h.last (V.spot (fun _ => Build.flowTo exitBlock) fun _ hp => V.flowTo hp.exit)

end StepRule

def StepRule.aims (A : EdgeRule R) : StepRule A where
  Holds m _ _ := m.Aiming A
  seq hm hf := hm.bind fun u _ => hf u
  block hf := Build.Aims.newBlock.bind hf
  look f _ _ hf := .look f (fun _ => rfl) hf
  done := .pure trivial
  addEdge := .addEdge
  setCurrent := .setCurrent
  addSite := .addSite
  withJump := .withJump
  withHandlers guards := .withHandlers guards

theorem exists_adds (R : Recognizer) (goal : Goal) (e : Expr) (s : Spot) :
    ∃ s' new, (lowerExpr R goal e).Adds s () s' new := by
  have hgoal : goal.Aims (EdgeRule.leading R fun _ => True).target := by
    cases goal with
    | value => exact .value
    | branch onTrue onFalse => exact .branch trivial trivial
  obtain ⟨_, s', new, hadds, -⟩ := (StepRule.aims _).lowerExpr hgoal e s s.aims_anywhere
  exact ⟨s', new, hadds⟩

/-- The step records these sites, which depend on the handlers around it, and leaves the
handlers as they are. -/
def Build.Records {α : Type} (m : Build α) (sites : List Guard → List Site) : Prop :=
  ∀ d : Draft, (m.after d).handlers = d.handlers ∧
    (m.after d).sites.map Prod.snd = d.sites.map Prod.snd ++ sites d.handlers

theorem Build.Records.nothing {m : Build Unit} (hhandlers : ∀ d, (m.after d).handlers = d.handlers)
    (hsites : ∀ d, (m.after d).sites = d.sites) : m.Records fun _ => [] :=
  fun d => ⟨hhandlers d, by rw [hsites, List.append_nil]⟩

def StepRule.records (R : Recognizer) : StepRule (EdgeRule.leading R fun _ => True) where
  Holds m _ s := m.Records s
  seq {m _ f _ _ _} hm hf d := by
    obtain ⟨hhandlers, hsites⟩ := hm d
    obtain ⟨hhandlers', hsites'⟩ := hf () (m.after d)
    rw [after_seq, hhandlers', hsites', hhandlers, hsites, List.append_assoc]
    exact ⟨rfl, rfl⟩
  block hf d := hf d.size trivial (newBlock.after d)
  look _ _ _ hf d := hf d.spot d.spot.aims_anywhere d
  done := .nothing (fun _ => rfl) fun _ => rfl
  addEdge _ := .nothing (fun _ => rfl) fun _ => rfl
  setCurrent _ := .nothing (fun _ => rfl) fun _ => rfl
  addSite _ _ := ⟨rfl, List.map_append⟩
  withJump _ _ h d := h { d with jumps := _ :: d.jumps }
  withHandlers guards _ _ _ h d := ⟨rfl, (h { d with handlers := guards ++ d.handlers }).2⟩

end LevelGuard.Flow

namespace LevelGuard.Project.Code

open LevelGuard.Flow

theorem graph_sites (R : Recognizer) (c : Code) : (c.graph R).sites.map Prod.snd = c.sites := by
  unfold graph sites
  cases c.steps with
  | block b => exact (((StepRule.records R).lowerStmts b.stmts).toExit {}).2
  | exprs es => exact (((StepRule.records R).lowerExprs es).toExit {}).2

end LevelGuard.Project.Code
