import LevelGuard.Proofs.Following

/-!
# Following statements

Loops, switches, statements with handlers and assertions. A loop starts each round where
it started the first, so one round is followed; a handler and a closing block are entered
from where the body of their statement starts.
-/
namespace LevelGuard.Flow

open Java Build Runs

variable {R : Recognizer} {W : World} {G : Graph} {A B C : Runs}

namespace Build.Follows

/-- The body of a loop that goes on at `next` and is left for `after`. -/
theorem loopBody {body : Build Unit} (hb : Follows R W G body .value B) {label : Option String}
    {after next : Nat} {kind : EdgeKind} {d : Draft}
    (hw : ((edgeTo next kind none).after
      ((withJump ⟨label, after, some next, true, false⟩ body).after d)).Within G)
    (hlive : G.Live W.device d.current) {jumps : List Jump} (hjumps : d.jumps = jumps) :
    Tracked R W G jumps (B.endsAs (.ofLoop label)) fun t => if t then next else after := by
  subst hjumps
  rw [within_edgeTo, within_withJump] at hw
  exact (hb.tracks _ hw.1 hlive).ofLoop fun hlast => hlast.flow hw.2

theorem whileLoop {cond : Goal → Build Unit} {body : Build Unit}
    (hc : ∀ goal, Follows R W G (cond goal) goal C) (hb : Follows R W G body .value B)
    (label : Option String) :
    Follows R W G
      (do
        let header ← newBlock
        let bodyBlock ← newBlock
        let after ← newBlock
        flowTo header
        setCurrent header
        cond (.branch bodyBlock after)
        setCurrent bodyBlock
        withJump ⟨label, after, some header, true, false⟩ body
        edgeTo header .back none
        setCurrent after)
      .value
      (repeats <| C.bind fun t => if t then B.endsAs (.ofLoop label) else ending (.done false)) where
  extending := .bind .newBlock fun _ => .bind .newBlock fun _ => .bind .newBlock fun _ =>
    .bind (.edgeTo _ _ _) fun _ => .bind (.setCurrent _) fun _ => (hc _).extending.bind fun _ =>
    .bind (.setCurrent _) fun _ => .bind (.withJump _ hb.extending) fun _ =>
    .bind (.edgeTo _ _ _) fun _ => .setCurrent _
  tracks d hw hlive := by
    simp only [after_newBlock_bind, after_seq, within_setCurrent] at hw ⊢
    have hwcond := (within_edgeTo.mp hw).1.before (.withJump _ hb.extending)
    rw [within_setCurrent] at hwcond
    have hwflow := hwcond.before (hc _).extending
    rw [within_setCurrent, within_flowTo] at hwflow
    -- The header is live before the first round, and each round is tracked from there.
    have hheader := hlive.flow hwflow.2
    have hround : Tracked R W G d.jumps
        (C.bind fun t => if t then B.endsAs (.ofLoop label) else ending (.done false))
        (fun t => if t then d.size else (newBlock.after (newBlock.after d)).size) := by
      refine ((hc _).tracks _ hwcond hheader).bind fun t ht => ?_
      cases t with
      | true => exact hb.loopBody hw ht ((hc _).extending _).jumps
      | false => exact .ending ht
    exact hround.repeats

theorem doWhile {cond : Goal → Build Unit} {body : Build Unit}
    (hc : ∀ goal, Follows R W G (cond goal) goal C) (hb : Follows R W G body .value B)
    (label : Option String) :
    Follows R W G
      (do
        let bodyBlock ← newBlock
        let condBlock ← newBlock
        let after ← newBlock
        flowTo bodyBlock
        setCurrent bodyBlock
        withJump ⟨label, after, some condBlock, true, false⟩ body
        flowTo condBlock
        setCurrent condBlock
        let again ← newBlock
        cond (.branch again after)
        addEdge ⟨again, bodyBlock, .back, none⟩
        setCurrent after)
      .value
      (repeats <| (B.endsAs (.ofLoop label)).bind fun t =>
        if t then C else ending (.done false)) where
  extending := .bind .newBlock fun _ => .bind .newBlock fun _ => .bind .newBlock fun _ =>
    .bind (.edgeTo _ _ _) fun _ => .bind (.setCurrent _) fun _ =>
    .bind (.withJump _ hb.extending) fun _ => .bind (.edgeTo _ _ _) fun _ =>
    .bind (.setCurrent _) fun _ => .bind .newBlock fun _ => (hc _).extending.bind fun _ =>
    .bind (.addEdge _) fun _ => .setCurrent _
  tracks d hw hlive := by
    simp only [after_newBlock_bind, after_seq, within_setCurrent, within_addEdge] at hw ⊢
    obtain ⟨hw, hback⟩ := hw
    have hwbody := hw.before (hc _).extending
    rw [within_newBlock, within_setCurrent] at hwbody
    have hwflow := (within_flowTo.mp hwbody).1.before (.withJump _ hb.extending)
    rw [within_setCurrent, within_flowTo] at hwflow
    have hfirst := hlive.flow hwflow.2
    have hround : Tracked R W G d.jumps
        ((B.endsAs (.ofLoop label)).bind fun t => if t then C else ending (.done false))
        (fun t => if t then d.size else (newBlock.after (newBlock.after d)).size) := by
      refine (hb.loopBody hwbody hfirst rfl).bind fun t ht => ?_
      cases t with
      | true =>
        have hcond := (hc _).tracksIn hw ht rfl
        refine hcond.mono fun t ht => ?_
        cases t with
        | true => exact ht.flow hback
        | false => exact ht
      | false => exact .ending ht
    exact hround.repeats

/-- A loop without its initial part. -/
theorem forLoop {cond : Nat → Nat → Build Unit} {update body : Build Unit} {U : Runs}
    (hc : ∀ onTrue onFalse, Follows R W G (cond onTrue onFalse) (.branch onTrue onFalse) C)
    (hu : Follows R W G update .value U) (hb : Follows R W G body .value B)
    (label : Option String) :
    Follows R W G
      (do
        let header ← newBlock
        let bodyBlock ← newBlock
        let updateBlock ← newBlock
        let after ← newBlock
        flowTo header
        setCurrent header
        cond bodyBlock after
        setCurrent bodyBlock
        withJump ⟨label, after, some updateBlock, true, false⟩ body
        flowTo updateBlock
        setCurrent updateBlock
        update
        edgeTo header .back none
        setCurrent after)
      .value
      (repeats <| C.bind fun t =>
        if t then
          (B.endsAs (.ofLoop label)).bind fun t =>
            if t then U.seq (ending (.done true)) else ending (.done false)
        else ending (.done false)) where
  extending := .bind .newBlock fun _ => .bind .newBlock fun _ => .bind .newBlock fun _ =>
    .bind .newBlock fun _ => .bind (.edgeTo _ _ _) fun _ => .bind (.setCurrent _) fun _ =>
    (hc _ _).extending.bind fun _ => .bind (.setCurrent _) fun _ =>
    .bind (.withJump _ hb.extending) fun _ => .bind (.edgeTo _ _ _) fun _ =>
    .bind (.setCurrent _) fun _ => hu.extending.bind fun _ => .bind (.edgeTo _ _ _) fun _ =>
    .setCurrent _
  tracks d hw hlive := by
    simp only [after_newBlock_bind, after_seq, within_setCurrent, within_edgeTo] at hw ⊢
    obtain ⟨hw, hback⟩ := hw
    have hwbody := hw.before hu.extending
    rw [within_setCurrent] at hwbody
    have hwcond := (within_flowTo.mp hwbody).1.before (.withJump _ hb.extending)
    rw [within_setCurrent] at hwcond
    have hwflow := hwcond.before (hc _ _).extending
    rw [within_setCurrent, within_flowTo] at hwflow
    have hheader := hlive.flow hwflow.2
    have hround : Tracked R W G d.jumps
        (C.bind fun t =>
          if t then
            (B.endsAs (.ofLoop label)).bind fun t =>
              if t then U.seq (ending (.done true)) else ending (.done false)
          else ending (.done false))
        (fun t => if t then d.size
          else (newBlock.after (newBlock.after (newBlock.after d))).size) := by
      refine ((hc _ _).tracks _ hwcond hheader).bind fun t ht => ?_
      cases t with
      | true =>
        refine (hb.loopBody hwbody ht ((hc _ _).extending _).jumps).bind fun t ht => ?_
        cases t with
        | true =>
          have hupdate := hu.tracksIn hw ht ((hc _ _).extending _).jumps
          exact hupdate.bind fun _ hend => .ending (hend.flow hback)
        | false => exact .ending ht
      | false => exact .ending ht
    exact hround.repeats

/-- A loop over the elements of what has been evaluated. -/
theorem forEach {body : Build Unit} (hb : Follows R W G body .value B) (label : Option String) :
    Follows R W G
      (do
        let header ← newBlock
        let bodyBlock ← newBlock
        let after ← newBlock
        flowTo header
        addEdge { source := header, target := bodyBlock }
        addEdge { source := header, target := after }
        setCurrent bodyBlock
        withJump ⟨label, after, some header, true, false⟩ body
        edgeTo header .back none
        setCurrent after)
      .value
      (repeats <| anything.bind fun t =>
        if t then B.endsAs (.ofLoop label) else ending (.done false)) where
  extending := .bind .newBlock fun _ => .bind .newBlock fun _ => .bind .newBlock fun _ =>
    .bind (.edgeTo _ _ _) fun _ => .bind (.addEdge _) fun _ => .bind (.addEdge _) fun _ =>
    .bind (.setCurrent _) fun _ => .bind (.withJump _ hb.extending) fun _ =>
    .bind (.edgeTo _ _ _) fun _ => .setCurrent _
  tracks d hw hlive := by
    simp only [after_newBlock_bind, after_seq, within_setCurrent] at hw ⊢
    have hwstart := (within_edgeTo.mp hw).1.before (.withJump _ hb.extending)
    rw [within_setCurrent, within_addEdge, within_addEdge, within_flowTo] at hwstart
    obtain ⟨⟨⟨-, hflow⟩, hinto⟩, hafter⟩ := hwstart
    have hheader := hlive.flow hflow
    have hround : Tracked R W G d.jumps
        (anything.bind fun t => if t then B.endsAs (.ofLoop label) else ending (.done false))
        (fun t => if t then d.size else (newBlock.after (newBlock.after d)).size) := by
      have hchoice : Tracked R W G d.jumps anything
          (fun t => if t then (newBlock.after d).size else (newBlock.after (newBlock.after d)).size) := by
        refine .settle fun t _ => ?_
        cases t with
        | true => exact hheader.flow hinto
        | false => exact hheader.flow hafter
      refine hchoice.bind fun t ht => ?_
      cases t with
      | true => exact hb.loopBody hw ht rfl
      | false => exact .ending ht
    exact hround.repeats

theorem labeled {body : Build Unit} (hb : Follows R W G body .value B) (name : String) :
    Follows R W G
      (do
        let after ← newBlock
        withJump ⟨some name, after, none, false, false⟩ body
        flowTo after
        setCurrent after)
      .value (B.endsAs (.ofLabeled name)) where
  extending := .bind .newBlock fun _ => .bind (.withJump _ hb.extending) fun _ =>
    .bind (.edgeTo _ _ _) fun _ => .setCurrent _
  tracks d hw hlive := by
    simp only [after_newBlock_bind, after_seq, within_setCurrent, within_flowTo,
      within_withJump] at hw ⊢
    exact (hb.tracks _ hw.1 hlive).ofLabeled fun hlast => hlast.flow hw.2

end Build.Follows

theorem Build.Extending.noCase (head after : Nat) (open? : Option Nat) (defaulted : Bool) :
    (do
      Build.fallTo after open?
      if defaulted then return () else Build.addEdge { source := head, target := after }).Extending := by
  refine .bind (.fallTo _ _) fun _ => ?_
  cases defaulted with
  | true => exact .pure ()
  | false => exact .addEdge _

/-- The step for a case of a switch and, given where it falls through, for those after it. -/
def Build.caseThen (head after : Nat) (guard : Option Guard) (open? : Option Nat)
    (labels body : Build Unit) (isRule : Bool) (rest : Option Nat → Build Unit) : Build Unit := do
  let block ← newBlock
  addEdge ⟨head, block, .onCase, guard⟩
  fallTo block open?
  setCurrent block
  labels
  body
  if isRule then
    flowTo after
    rest none
  else
    let last := (← get).current
    rest (some last)

section Case

variable {head after : Nat} {guard : Option Guard} {open? : Option Nat} {labels body : Build Unit}
  {isRule : Bool} {rest : Option Nat → Build Unit} (hl : labels.Extending) (hb : body.Extending)
  (hrest : ∀ open?, (rest open?).Extending)
include hl hb hrest

theorem Build.Extending.caseThen :
    (Build.caseThen head after guard open? labels body isRule rest).Extending := by
  refine .bind .newBlock fun _ => .bind (.addEdge _) fun _ => .bind (.fallTo _ _) fun _ =>
    .bind (.setCurrent _) fun _ => hl.bind fun _ => hb.bind fun _ => ?_
  cases isRule with
  | true => exact .bind (.edgeTo _ _ _) fun _ => hrest _
  | false => exact .bind .get fun _ => hrest _

/-- A case has a block of its own, entered over its guard and from the case that falls through
to it. What comes after it is built from its end. -/
theorem within_caseThen {d : Draft}
    (hw : ((Build.caseThen head after guard open? labels body isRule rest).after d).Within G) :
    ∃ d' d'' next, d'.current = d.size ∧ d'.jumps = d.jumps ∧ d''.jumps = d.jumps ∧
      (body.after (labels.after d')).Within G ∧ ((rest next).after d'').Within G ∧
      ⟨head, d.size, .onCase, guard⟩ ∈ G.edges ∧
      (∀ b, open? = some b → { source := b, target := d.size } ∈ G.edges) ∧
      (isRule = true → ⟨(body.after (labels.after d')).current, after, .flow, none⟩ ∈ G.edges) ∧
      (isRule = false → next = some (body.after (labels.after d')).current) := by
  simp only [Build.caseThen, after_newBlock_bind, after_seq] at hw
  generalize hd : (setCurrent d.size).after ((fallTo d.size open?).after
    ((addEdge ⟨head, d.size, .onCase, guard⟩).after (newBlock.after d))) = d' at hw
  have hjumps : d'.jumps = d.jumps := by
    rw [← hd]
    exact ((Extending.fallTo d.size open?) _).jumps
  have hjumps' : (body.after (labels.after d')).jumps = d.jumps :=
    (hb _).jumps.trans ((hl _).jumps.trans hjumps)
  have hentry (hwbody : (body.after (labels.after d')).Within G) :
      ⟨head, d.size, .onCase, guard⟩ ∈ G.edges ∧
        ∀ b, open? = some b → { source := b, target := d.size } ∈ G.edges := by
    have hwhead := (hwbody.before hb).before hl
    rw [← hd, within_setCurrent, within_fallTo, within_addEdge] at hwhead
    exact ⟨hwhead.1.2, hwhead.2⟩
  have hcurrent : d'.current = d.size := hd ▸ rfl
  cases isRule with
  | true =>
    rw [if_pos rfl, after_seq] at hw
    have hwflow := hw.before (hrest none)
    rw [within_flowTo] at hwflow
    obtain ⟨hcase, hfall⟩ := hentry hwflow.1
    exact ⟨d', (flowTo after).after (body.after (labels.after d')), none, hcurrent, hjumps, hjumps',
      hwflow.1, hw, hcase, hfall, fun _ => hwflow.2, nofun⟩
  | false =>
    rw [if_neg Bool.false_ne_true, after_get_bind] at hw
    have hwbody := hw.before (hrest _)
    obtain ⟨hcase, hfall⟩ := hentry hwbody
    exact ⟨d', _, _, hcurrent, hjumps, hjumps', hwbody, hw, hcase, hfall, nofun, fun _ => rfl⟩

end Case

/-- Wherever the draft is, once the condition holds the step makes what tracks the runs to a
block. -/
structure Build.FollowsTo (R : Recognizer) (W : World) (G : Graph) (start : Prop)
    (m : Build Unit) (after : Nat) (A : Runs) : Prop where
  extending : m.Extending
  tracks : ∀ {d : Draft}, (m.after d).Within G → start →
    ∀ {jumps : List Jump}, d.jumps = jumps → Tracked R W G jumps A fun _ => after

/-- The cases of a switch can be got to: from the selector, or as the case before them falls
through. -/
def Graph.LiveCases (G : Graph) (d : Device) (head : Nat) (open? : Option Nat) (entered : Bool) :
    Prop :=
  G.Live d head ∧ (entered = true → ∃ b, open? = some b ∧ G.Live d b)

namespace Build.FollowsTo

variable {head after : Nat} {open? : Option Nat} {entered : Bool}

theorem noCase (defaulted : Bool) :
    FollowsTo R W G (G.LiveCases W.device head open? entered)
      (do
        fallTo after open?
        if defaulted then return () else addEdge { source := head, target := after })
      after (onlyIf (entered = true ∨ defaulted = false) (ending (.done true))) where
  extending := .noCase head after open? defaulted
  tracks {d} hw hlive jumps hjumps := by
    obtain ⟨hhead, hopen⟩ := hlive
    refine .onlyIf fun hend => .ending ?_
    rw [after_seq] at hw
    rcases hend with hentered | rfl
    · obtain ⟨b, rfl, hb⟩ := hopen hentered
      have hfall : ((fallTo after (some b)).after d).Within G := by
        cases defaulted with
        | true => exact hw
        | false => exact (within_addEdge.mp hw).1
      exact hb.flow ((within_fallTo.mp hfall).2 b rfl)
    · exact hhead.flow (within_addEdge.mp hw).2

section Case

variable {labels body : Build Unit} {rest : Option Nat → Build Unit} {guard : Option Guard}
  {isRule : Bool} {L : Runs}

theorem case {later : Bool → Runs} {selected : Prop}
    (hguard : selected → ∀ g, guard = some g → ∃ u, g.holds W.device u = true)
    (hl : Follows R W G labels .value L) (hb : Follows R W G body .value B)
    (hrest : ∀ open? entered,
      FollowsTo R W G (G.LiveCases W.device head open? entered) (rest open?) after (later entered)) :
    FollowsTo R W G (G.LiveCases W.device head open? entered)
      (caseThen head after guard open? labels body isRule rest) after
      (let chosen := L.seq <| B.seq <| if isRule then ending (.done true) else later true
        if entered then chosen else either (onlyIf selected chosen) (later false)) where
  extending := .caseThen hl.extending hb.extending fun _ => (hrest _ false).extending
  tracks {d} hw hlive jumps hjumps := by
    obtain ⟨hhead, hopen⟩ := hlive
    obtain ⟨d', d'', next, hcurrent, hjumps', hjumps'', hwbody, hwrest, hcase, hfall, hrule, hnext⟩ :=
      within_caseThen hl.extending hb.extending (fun _ => (hrest _ false).extending) hw
    -- The rest of the cases starts from the end of this one.
    have hend : G.Live W.device (body.after (labels.after d')).current →
        Tracked R W G jumps (if isRule then ending (.done true) else later true) fun _ => after := by
      intro hlive
      cases isRule with
      | true => exact .ending (hlive.flow (hrule rfl))
      | false =>
        exact (hrest next true).tracks hwrest ⟨hhead, fun _ => ⟨_, hnext rfl, hlive⟩⟩
          (hjumps''.trans hjumps)
    have hlater := (hrest next false).tracks hwrest ⟨hhead, nofun⟩ (hjumps''.trans hjumps)
    have hchosen : G.Live W.device d.size → Tracked R W G jumps
        (L.seq <| B.seq <| if isRule then ending (.done true) else later true) fun _ => after := by
      intro hlive
      have hl' := hl.tracksIn (hwbody.before hb.extending) (hcurrent ▸ hlive) (hjumps'.trans hjumps)
      refine hl'.bind fun _ hlive => ?_
      have hb' := hb.tracksIn hwbody hlive ((hl.extending d').jumps.trans (hjumps'.trans hjumps))
      exact hb'.bind fun _ hlive => hend hlive
    -- The body is entered over the end of the case before it or over the guard of its own.
    cases entered with
    | true =>
      obtain ⟨b, hb, hlive⟩ := hopen rfl
      exact hchosen (hlive.flow (hfall b hb))
    | false =>
      refine .either (.onlyIf fun hselected => ?_) hlater
      exact hchosen (hhead.step hcase (hguard hselected))

theorem noTest {m : Build Unit} (hm : m.Extending) :
    FollowsTo R W G (G.Live W.device head) m head (ending (.done true)) where
  extending := hm
  tracks _ hhead _ _ := .ending hhead

/-- Labels are tested from the selector on, which the tests of the next case start from as
well. -/
theorem test {isConstant : Bool} {T : Runs} (hguard : isConstant = false → guard = none)
    (hl : Follows R W G labels .value L) (hb : body.Extending)
    (hrest : ∀ open?, FollowsTo R W G (G.Live W.device head) (rest open?) head T) :
    FollowsTo R W G (G.Live W.device head)
      (caseThen head after guard open? labels body isRule rest) head
      ((if isConstant then ending (.done true) else L.begun).seq T) where
  extending := .caseThen hl.extending hb fun _ => (hrest _).extending
  tracks {d} hw hhead jumps hjumps := by
    obtain ⟨d', d'', next, hcurrent, hjumps', hjumps'', hwbody, hwrest, hcase, -⟩ :=
      within_caseThen hl.extending hb (fun _ => (hrest _).extending) hw
    have htest : Tracked R W G jumps (if isConstant then ending (.done true) else L.begun)
        fun _ => head := by
      cases isConstant with
      | true => exact .ending hhead
      | false =>
        rw [hguard rfl] at hcase
        have hentry := hhead.flow hcase
        have hlabels := hl.tracksIn (hwbody.before hb) (hcurrent ▸ hentry) (hjumps'.trans hjumps)
        exact hlabels.begun fun _ => hhead
    exact htest.bind fun _ _ => (hrest next).tracks hwrest hhead (hjumps''.trans hjumps)

/-- The cases with the tests before them. -/
theorem tested {m : Build Unit} {T : Runs} (ht : FollowsTo R W G (G.Live W.device head) m head T)
    (hm : FollowsTo R W G (G.LiveCases W.device head open? entered) m after A) :
    FollowsTo R W G (G.LiveCases W.device head open? entered) m after (T.seq A) where
  extending := hm.extending
  tracks hw hlive _ hjumps :=
    (ht.tracks hw hlive.1 hjumps).bind fun _ _ => hm.tracks hw hlive hjumps

end Case

theorem noClause {tryBlock join : Nat} :
    FollowsTo R W G (G.Live W.device tryBlock) (return ()) join (ending .throws) where
  extending := .pure ()
  tracks _ _ _ _ := .ending trivial

theorem clause {types body rest : Build Unit} {tryBlock join : Nat}
    (ht : Follows R W G types .value A) (hb : Follows R W G body .value B)
    (hrest : FollowsTo R W G (G.Live W.device tryBlock) rest join C) :
    FollowsTo R W G (G.Live W.device tryBlock)
      (do
        let handler ← newBlock
        addEdge ⟨tryBlock, handler, .exception, none⟩
        setCurrent handler
        types
        body
        flowTo join
        rest)
      join (A.seq (either B C)) where
  extending := .bind .newBlock fun _ => .bind (.addEdge _) fun _ => .bind (.setCurrent _) fun _ =>
    ht.extending.bind fun _ => hb.extending.bind fun _ => .bind (.edgeTo _ _ _) fun _ =>
    hrest.extending
  tracks {d} hw htry jumps hjumps := by
    simp only [after_newBlock_bind, after_seq] at hw
    have hwbody := hw.before hrest.extending
    rw [within_flowTo] at hwbody
    have hwtypes := hwbody.1.before hb.extending
    have hwhandler := hwtypes.before ht.extending
    rw [within_setCurrent, within_addEdge] at hwhandler
    have hhandler := htry.flow hwhandler.2
    refine (ht.tracksIn hwtypes hhandler hjumps).bind fun _ hlive => .either ?_ ?_
    · have hbody := hb.tracksIn hwbody.1 hlive ((ht.extending _).jumps.trans hjumps)
      exact hbody.mono fun _ hend => hend.flow hwbody.2
    · refine hrest.tracks hw htry ?_
      exact (hb.extending _).jumps.trans ((ht.extending _).jumps.trans hjumps)

end Build.FollowsTo

/-- From the end of a statement on, the step makes what tracks its runs with what closes
them. -/
structure Build.Closes (R : Recognizer) (W : World) (G : Graph) (m : Build Unit)
    (tryBlock join : Nat) (close : Runs → Runs) : Prop where
  extending : m.Extending
  tracks : ∀ {d : Draft}, (m.after d).Within G → d.current = join → G.Live W.device tryBlock →
    ∀ {jumps : List Jump}, d.jumps = jumps → ∀ {A : Runs}, Tracked R W G jumps A (fun _ => join) →
      Tracked R W G jumps (close A) fun _ => (m.after d).current

namespace Build.Closes

variable {tryBlock join : Nat}

theorem nothing : Closes R W G (return ()) tryBlock join fun A => A where
  extending := .pure ()
  tracks _ hcurrent _ _ _ _ hA := hA.mono fun _ hlive => hcurrent ▸ hlive

theorem block {body : Build Unit} (hb : Follows R W G body .value B) :
    Closes R W G
      (do
        addEdge ⟨tryBlock, join, .exception, none⟩
        body)
      tryBlock join fun A => A.closed B where
  extending := .bind (.addEdge _) fun _ => hb.extending
  tracks {d} hw hcurrent htry jumps hjumps A hA := by
    rw [after_seq] at hw ⊢
    have hwedge := hw.before hb.extending
    rw [within_addEdge] at hwedge
    have hjoin := htry.flow hwedge.2
    exact hA.closed (hb.tracksIn hw (hcurrent ▸ hjoin) hjumps)

end Build.Closes

namespace Build.Follows

variable {m : Build Unit} {goal : Goal}

theorem switch {cases : Nat → Nat → Build Unit}
    (hc : ∀ head after, FollowsTo R W G (G.LiveCases W.device head none false) (cases head after)
      after A) (label : Option String) :
    Follows R W G
      (do
        let head := (← get).current
        let after ← newBlock
        withJump ⟨label, after, none, true, false⟩ (cases head after)
        setCurrent after)
      .value (A.endsAs (.ofSwitch label)) where
  extending := .bind .get fun _ => .bind .newBlock fun _ =>
    .bind (.withJump _ (hc _ _).extending) fun _ => .setCurrent _
  tracks d hw hlive := by
    simp only [after_get_bind, after_newBlock_bind, after_seq, within_setCurrent,
      within_withJump] at hw ⊢
    exact ((hc _ _).tracks hw ⟨hlive, nofun⟩ rfl).ofSwitch

theorem switchValue {cases : Nat → Nat → Build Unit}
    (hc : ∀ head after, FollowsTo R W G (G.LiveCases W.device head none false) (cases head after)
      after A) (goal : Goal) :
    Follows R W G
      (do
        let head := (← get).current
        let after ← newBlock
        withJump ⟨none, after, none, false, true⟩ (cases head after)
        setCurrent after
        Flow.branchOn none goal)
      goal ((A.endsAs .ofYield).seq anything) where
  extending := .bind .get fun _ => .bind .newBlock fun _ =>
    .bind (.withJump _ (hc _ _).extending) fun _ => .bind (.setCurrent _) fun _ => .branchOn _ _
  tracks d hw hlive := by
    simp only [after_get_bind, after_newBlock_bind, after_seq] at hw ⊢
    have hwcases := hw.before (.branchOn none goal)
    rw [within_setCurrent, within_withJump] at hwcases
    refine ((hc _ _).tracks hwcases ⟨hlive, nofun⟩ rfl).ofYield.bind fun _ hafter => ?_
    exact (branchOnUnknown goal).tracksIn hw hafter rfl

theorem tryCatch {body : Build Unit} {catches closing : Nat → Nat → Build Unit}
    {close : Runs → Runs} (guards : List Guard) (hb : Follows R W G body .value A)
    (hc : ∀ tryBlock join,
      FollowsTo R W G (G.Live W.device tryBlock) (catches tryBlock join) join B)
    (hclose : ∀ tryBlock join, Closes R W G (closing tryBlock join) tryBlock join close) :
    Follows R W G
      (do
        let tryBlock ← newBlock
        flowTo tryBlock
        setCurrent tryBlock
        withHandlers guards body
        let join ← newBlock
        flowTo join
        catches tryBlock join
        setCurrent join
        closing tryBlock join)
      .value (close (A.handled B)) where
  extending := .bind .newBlock fun _ => .bind (.edgeTo _ _ _) fun _ => .bind (.setCurrent _)
    fun _ => .bind (.withHandlers _ hb.extending) fun _ => .bind .newBlock fun _ =>
    .bind (.edgeTo _ _ _) fun _ => (hc _ _).extending.bind fun _ => .bind (.setCurrent _)
    fun _ => (hclose _ _).extending
  tracks d hw hlive := by
    simp only [after_newBlock_bind, after_seq] at hw ⊢
    have hwcatches := hw.before (hclose _ _).extending
    rw [within_setCurrent] at hwcatches
    have hwbody := hwcatches.before (hc _ _).extending
    rw [within_flowTo, within_newBlock] at hwbody
    have hwtry := hwbody.1.before (.withHandlers _ hb.extending)
    rw [within_setCurrent, within_flowTo] at hwtry
    have htry := hlive.flow hwtry.2
    rw [within_withHandlers] at hwbody
    -- Wherever the body is left by an exception, the handlers are entered from its start.
    have hbody := (hb.tracks _ hwbody.1 htry).mono fun _ hend => hend.flow hwbody.2
    have hjumps := (hb.extending
      { (setCurrent d.size).after ((flowTo d.size).after (newBlock.after d)) with
        handlers := guards ++ d.handlers }).jumps
    have hcatches := (hc _ _).tracks hwcatches htry hjumps
    refine (hclose _ _).tracks hw rfl htry ?_ (hbody.handled hcatches)
    exact ((hc _ _).extending _).jumps.trans hjumps

theorem skip {e : Expr} (h : Follows R W G m .value (runExpr R W e)) :
    Follows R W G m .value (Runs.skip e) where
  extending := h.extending
  tracks d hw hlive := .skip (h.tracks d hw hlive)

/-- A label is no reference by itself, so a run need not come by its site. -/
theorem passSite (e : Event) : Follows R W G (Build.addSite e) .value (ending (.done true)) where
  extending := .addSite e
  tracks _ _ hlive := .ending hlive

theorem either (hA : Follows R W G m goal A) (hB : Follows R W G m goal B) :
    Follows R W G m goal (A.either B) where
  extending := hA.extending
  tracks d hw hlive := .either (hA.tracks d hw hlive) (hB.tracks d hw hlive)

/-- The operands of an assertion are built as if both were evaluated. -/
theorem assertion {first second : Build Unit} {skipFirst skipSecond : Runs}
    (hA : Follows R W G first .value A) (hB : Follows R W G second .value B)
    (hskipA : Follows R W G first .value skipFirst)
    (hskipB : Follows R W G second .value skipSecond) :
    Follows R W G
      (do
        first
        second)
      .value
      (Runs.either (skipFirst.seq skipSecond)
        (A.bind fun t => if t then skipSecond else B.seq (ending .throws))) := by
  refine .either (hskipA.bind fun _ => hskipB) (hA.bind fun t => ?_)
  cases t with
  | true => exact hskipB
  | false => exact hB.andEnd fun _ _ _ => trivial

end Build.Follows

end LevelGuard.Flow
