import LevelGuard.Proofs.Drafts
import LevelGuard.Proofs.Paths

/-!
# Nesting

The loops of a draft are nested. While a draft grows, its blocks are entered one
after another; an edge leads to a block that has not been entered yet, or back to
the header of a loop. The blocks made for a loop are numbered without gaps from its
header on, and edges from elsewhere enter them at the header only. A finished draft
is therefore a structured graph.
-/
namespace LevelGuard.Flow

open Java Build

/-- The blocks from `head` below `top` have been entered, from elsewhere only at `head`. -/
structure Region (entered : List Nat) (edges : List Edge) (head top : Nat) : Prop where
  mem : ∀ b, head ≤ b → b < top → b ∈ entered
  single : ∀ e ∈ edges, head < e.target → e.target < top → head ≤ e.source ∧ e.source < top

/-- Why an edge may be there, given the headers of the loops that are still open. -/
inductive Explained (heads entered : List Nat) (edges : List Edge) (e : Edge) : Prop where
  | forward (h : entered.idxOf e.source < entered.idxOf e.target)
  | again (hmem : e.target ∈ heads) (hle : e.target ≤ e.source)
  | within (top : Nat) (region : Region entered edges e.target top)
      (apart : ∀ h ∈ heads, h ≤ e.target ∨ top ≤ h) (hle : e.target ≤ e.source)
      (hlt : e.source < top)

/-- The draft is in order: `entered` lists the blocks that have been current, the
oldest first, and `heads` has the headers of the loops around the current place. -/
structure Orderly (heads entered : List Nat) (d : Draft) : Prop where
  lt_size : ∀ b ∈ entered, b < d.size
  current : d.current ∈ entered
  heads_mem : ∀ h ∈ heads, h ∈ entered
  heads_le : ∀ h ∈ heads, h ≤ d.current
  source_mem : ∀ e ∈ d.edges, e.source ∈ entered
  target_lt : ∀ e ∈ d.edges, e.target < d.size
  explained : ∀ e ∈ d.edges, Explained heads entered d.edges e
  single : ∀ h ∈ heads, ∀ e ∈ d.edges, h < e.target → h ≤ e.source
  handlers : ∀ g ∈ d.handlers, ∃ name, g = .excluded name
  sites : ∀ s ∈ d.sites, s.1 ∈ entered ∧ ∀ g ∈ s.2.handlers, ∃ name, g = .excluded name

/-- A block that has been made and not been entered. -/
def Pending (entered : List Nat) (d : Draft) (b : Nat) : Prop := b < d.size ∧ b ∉ entered

namespace Region

variable {entered : List Nat} {edges : List Edge} {head top : Nat}

theorem enter (h : Region entered edges head top) (b : Nat) :
    Region (entered ++ [b]) edges head top where
  mem := fun a hle hlt => List.mem_append_left _ (h.mem a hle hlt)
  single := h.single

theorem addEdge {e : Edge} (h : Region entered edges head top)
    (he : head < e.target → e.target < top → head ≤ e.source ∧ e.source < top) :
    Region entered (edges ++ [e]) head top where
  mem := h.mem
  single := by
    intro e' he'
    rcases List.mem_append.mp he' with he' | he'
    · exact h.single e' he'
    · rw [List.mem_singleton.mp he']
      exact he

end Region

namespace Explained

variable {heads entered : List Nat} {edges : List Edge} {e : Edge}

theorem idxOf_lt_of_not_mem {a b : Nat} {xs : List Nat} (ha : a ∈ xs) (hb : b ∉ xs) :
    xs.idxOf a < xs.idxOf b := by
  rw [List.idxOf_eq_length hb]
  exact List.idxOf_lt_length_iff.mpr ha

theorem idxOf_append_of_mem {a b : Nat} {xs : List Nat} (ha : a ∈ xs)
    (hlt : xs.idxOf a < xs.idxOf b) (c : Nat) :
    (xs ++ [c]).idxOf a < (xs ++ [c]).idxOf b := by
  rw [List.idxOf_append, List.idxOf_append, if_pos ha]
  split
  · exact hlt
  · have := List.idxOf_lt_length_iff.mpr ha
    omega

theorem enter (h : Explained heads entered edges e) (hsource : e.source ∈ entered) (b : Nat) :
    Explained heads (entered ++ [b]) edges e := by
  cases h with
  | forward h => exact .forward (idxOf_append_of_mem hsource h b)
  | again hmem hle => exact .again hmem hle
  | within top region apart hle hlt => exact .within top (region.enter b) apart hle hlt

/-- A new edge keeps the old ones explained if its target is not entered, or is the
header of an open loop. -/
theorem addEdge {new : Edge} (h : Explained heads entered edges e)
    (hnew : new.target ∉ entered ∨ new.target ∈ heads) :
    Explained heads entered (edges ++ [new]) e := by
  cases h with
  | forward h => exact .forward h
  | again hmem hle => exact .again hmem hle
  | within top region apart hle hlt =>
    refine .within top (region.addEdge fun hlt' hlt'' => ?_) apart hle hlt
    rcases hnew with hnew | hnew
    · exact absurd (region.mem _ (Nat.le_of_lt hlt') hlt'') hnew
    · have := apart _ hnew
      omega

end Explained

namespace Orderly

variable {heads entered : List Nat} {d : Draft}

theorem enlarge (h : Orderly heads entered d) {n : Nat} (hn : d.size ≤ n) :
    Orderly heads entered { d with size := n } where
  lt_size := fun b hb => Nat.lt_of_lt_of_le (h.lt_size b hb) hn
  current := h.current
  heads_mem := h.heads_mem
  heads_le := h.heads_le
  source_mem := h.source_mem
  target_lt := fun e he => Nat.lt_of_lt_of_le (h.target_lt e he) hn
  explained := h.explained
  single := h.single
  handlers := h.handlers
  sites := h.sites

theorem setJumps (h : Orderly heads entered d) (jumps : List Jump) :
    Orderly heads entered { d with jumps := jumps } :=
  ⟨h.lt_size, h.current, h.heads_mem, h.heads_le, h.source_mem, h.target_lt, h.explained,
    h.single, h.handlers, h.sites⟩

theorem setHandlers (h : Orderly heads entered d) {guards : List Guard}
    (hguards : ∀ g ∈ guards, ∃ name, g = .excluded name) :
    Orderly heads entered { d with handlers := guards } :=
  ⟨h.lt_size, h.current, h.heads_mem, h.heads_le, h.source_mem, h.target_lt, h.explained,
    h.single, hguards, h.sites⟩

theorem addSite (h : Orderly heads entered d) (event : Event) :
    Orderly heads entered { d with sites := d.sites ++ [(d.current, ⟨event, d.handlers⟩)] } where
  lt_size := h.lt_size
  current := h.current
  heads_mem := h.heads_mem
  heads_le := h.heads_le
  source_mem := h.source_mem
  target_lt := h.target_lt
  explained := h.explained
  single := h.single
  handlers := h.handlers
  sites := by
    intro s hs
    rcases List.mem_append.mp hs with hs | hs
    · exact h.sites s hs
    · rw [List.mem_singleton.mp hs]
      exact ⟨h.current, h.handlers⟩

theorem enter (h : Orderly heads entered d) {b : Nat} (hlt : b < d.size)
    (hheads : ∀ k ∈ heads, k ≤ b) :
    Orderly heads (entered ++ [b]) { d with current := b } where
  lt_size := by
    intro a ha
    rcases List.mem_append.mp ha with ha | ha
    · exact h.lt_size a ha
    · rwa [List.mem_singleton.mp ha]
  current := List.mem_append_right _ List.mem_cons_self
  heads_mem := fun k hk => List.mem_append_left _ (h.heads_mem k hk)
  heads_le := hheads
  source_mem := fun e he => List.mem_append_left _ (h.source_mem e he)
  target_lt := h.target_lt
  explained := fun e he => (h.explained e he).enter (h.source_mem e he) b
  single := h.single
  handlers := h.handlers
  sites := fun s hs => ⟨List.mem_append_left _ (h.sites s hs).1, (h.sites s hs).2⟩

theorem addEdge (h : Orderly heads entered d) {e : Edge} (hsource : e.source ∈ entered)
    (hheads : ∀ k ∈ heads, k ≤ e.source) (htarget : e.target < d.size)
    (hexplained : Explained heads entered (d.edges ++ [e]) e)
    (hnew : e.target ∉ entered ∨ e.target ∈ heads) :
    Orderly heads entered { d with edges := d.edges ++ [e] } where
  lt_size := h.lt_size
  current := h.current
  heads_mem := h.heads_mem
  heads_le := h.heads_le
  source_mem := by
    intro e' he'
    rcases List.mem_append.mp he' with he' | he'
    · exact h.source_mem e' he'
    · rwa [List.mem_singleton.mp he']
  target_lt := by
    intro e' he'
    rcases List.mem_append.mp he' with he' | he'
    · exact h.target_lt e' he'
    · rwa [List.mem_singleton.mp he']
  explained := by
    intro e' he'
    rcases List.mem_append.mp he' with he' | he'
    · exact (h.explained e' he').addEdge hnew
    · rwa [List.mem_singleton.mp he']
  single := by
    intro k hk e' he'
    rcases List.mem_append.mp he' with he' | he'
    · exact h.single k hk e' he'
    · rw [List.mem_singleton.mp he']
      exact fun _ => hheads k hk
  handlers := h.handlers
  sites := h.sites

theorem edge (h : Orderly heads entered d) {source target : Nat} (kind : EdgeKind)
    (guard : Option Guard) (hsource : source ∈ entered) (hheads : ∀ k ∈ heads, k ≤ source)
    (htarget : Pending entered d target) :
    Orderly heads entered { d with edges := d.edges ++ [⟨source, target, kind, guard⟩] } := by
  have hlt := Explained.idxOf_lt_of_not_mem hsource htarget.2
  exact h.addEdge hsource hheads htarget.1 (.forward hlt) (.inl htarget.2)

theorem backEdge (h : Orderly heads entered d) {head : Nat} (kind : EdgeKind)
    (hhead : head ∈ heads) :
    Orderly heads entered { d with edges := d.edges ++ [⟨d.current, head, kind, none⟩] } :=
  h.addEdge h.current h.heads_le (h.lt_size head (h.heads_mem head hhead))
    (.again hhead (h.heads_le head hhead)) (.inr hhead)

/-- The next block becomes the header of a loop and is entered. -/
theorem openLoop (h : Orderly heads entered d) {n : Nat} (hn : d.size < n) :
    Orderly (d.size :: heads) (entered ++ [d.size])
      { d with
        size := n
        edges := d.edges ++ [⟨d.current, d.size, .flow, none⟩]
        current := d.size } := by
  have hfresh : d.size ∉ entered := fun hmem => Nat.lt_irrefl _ (h.lt_size _ hmem)
  have hheads : ∀ k ∈ heads, k ≤ d.size :=
    fun k hk => Nat.le_of_lt (h.lt_size k (h.heads_mem k hk))
  have hold : ∀ e ∈ d.edges, Explained (d.size :: heads) entered d.edges e := by
    intro e he
    cases h.explained e he with
    | forward h => exact .forward h
    | again hmem hle => exact .again (List.mem_cons_of_mem _ hmem) hle
    | within top region apart hle hlt =>
      -- The region has been entered to its last block, so it ends below the new header.
      have hlast := h.lt_size (top - 1) (region.mem _ (by omega) (by omega))
      exact .within top region (List.forall_mem_cons.mpr ⟨.inr (by omega), apart⟩) hle hlt
  have h' := ((h.enlarge (Nat.le_of_lt hn)).edge .flow none h.current h.heads_le
    ⟨hn, hfresh⟩).enter hn hheads
  refine ⟨h'.lt_size, h'.current, ?_, ?_, h'.source_mem, h'.target_lt, ?_, ?_, h'.handlers,
    h'.sites⟩
  · exact List.forall_mem_cons.mpr ⟨h'.current, h'.heads_mem⟩
  · exact List.forall_mem_cons.mpr ⟨Nat.le_refl _, hheads⟩
  · intro e he
    rcases List.mem_append.mp he with he | he
    · exact ((hold e he).addEdge (.inl hfresh)).enter (h.source_mem e he) _
    · rw [List.mem_singleton.mp he]
      exact .forward (Explained.idxOf_append_of_mem h.current
        (Explained.idxOf_lt_of_not_mem h.current hfresh) _)
  · refine List.forall_mem_cons.mpr ⟨?_, h'.single⟩
    intro e he hlt
    rcases List.mem_append.mp he with he | he
    · have := h.target_lt e he
      omega
    · rw [List.mem_singleton.mp he] at hlt
      exact absurd hlt (Nat.lt_irrefl _)

/-- The innermost loop ends once all its blocks have been entered. -/
theorem closeLoop {head : Nat} (h : Orderly (head :: heads) entered d)
    (hmem : ∀ b, head ≤ b → b < d.size → b ∈ entered) (hheads : ∀ k ∈ heads, k ≤ head) :
    Orderly heads entered d := by
  have hregion : Region entered d.edges head d.size := by
    refine ⟨hmem, fun e he hlt _ => ⟨?_, ?_⟩⟩
    · exact h.single head List.mem_cons_self e he hlt
    · exact h.lt_size _ (h.source_mem e he)
  refine ⟨h.lt_size, h.current, ?_, ?_, h.source_mem, h.target_lt, ?_, ?_, h.handlers, h.sites⟩
  · exact fun k hk => h.heads_mem k (List.mem_cons_of_mem _ hk)
  · exact fun k hk => h.heads_le k (List.mem_cons_of_mem _ hk)
  · intro e he
    cases h.explained e he with
    | forward h => exact .forward h
    | again hk hle =>
      rcases List.mem_cons.mp hk with hk | hk
      · refine .within d.size (hk ▸ hregion) ?_ hle (h.lt_size _ (h.source_mem e he))
        exact fun k hk' => .inl (hk ▸ hheads k hk')
      · exact .again hk hle
    | within top region apart hle hlt =>
      exact .within top region (fun k hk => apart k (List.mem_cons_of_mem _ hk)) hle hlt
  · exact fun k hk => h.single k (List.mem_cons_of_mem _ hk)

end Orderly

/-- Where jumps lead from the current place. -/
structure Targets (heads entered : List Nat) (d : Draft) : Prop where
  exit : Pending entered d exitBlock
  breaks : ∀ j ∈ d.jumps, Pending entered d j.breakTo
  continues : ∀ j ∈ d.jumps, ∀ c, j.continueTo = some c → Pending entered d c ∨ c ∈ heads

/-- An edge may leave the block, whatever loop it is in. -/
def Departs (heads entered : List Nat) (b : Nat) : Prop := b ∈ entered ∧ ∀ k ∈ heads, k ≤ b

/-- The targets of a branch have been made and not been entered. -/
inductive Goal.Pending (entered : List Nat) (d : Draft) : Goal → Prop where
  | value : Goal.Pending entered d .value
  | branch {onTrue onFalse : Nat} (htrue : Flow.Pending entered d onTrue)
      (hfalse : Flow.Pending entered d onFalse) : Goal.Pending entered d (.branch onTrue onFalse)

/-- The second draft is made from the first and in order; of the blocks made for it
those in `waiting`, in order of creation, have not been entered yet. -/
structure Progress (heads entered : List Nat) (d : Draft) (waiting entered' : List Nat)
    (d' : Draft) : Prop where
  orderly : Orderly heads entered' d'
  heads_le : ∀ k ∈ heads, k ≤ d.size
  below : ∀ b ∈ entered, b < d.size
  size : d.size ≤ d'.size
  jumps : d'.jumps = d.jumps
  nodup : waiting.Nodup
  fresh : ∀ b ∈ waiting, d.size ≤ b ∧ b < d'.size
  mem : ∀ b, b ∈ entered' ↔ b ∈ entered ∨ d.size ≤ b ∧ b < d'.size ∧ b ∉ waiting

def Reaches (heads entered : List Nat) (d : Draft) (waiting : List Nat) (d' : Draft) : Prop :=
  ∃ entered', Progress heads entered d waiting entered' d'

namespace Progress

variable {heads entered entered' waiting : List Nat} {d d' : Draft} {b : Nat}

theorem pending (p : Progress heads entered d waiting entered' d') (hb : b ∈ waiting) :
    Pending entered' d' b := by
  obtain ⟨hle, hlt⟩ := p.fresh b hb
  refine ⟨hlt, fun hmem => ?_⟩
  rcases (p.mem b).mp hmem with hmem | ⟨-, -, hmem⟩
  · exact absurd (p.below b hmem) (by omega)
  · exact hmem hb

theorem first (p : Progress heads entered d (b :: waiting) entered' d') : Pending entered' d' b :=
  p.pending List.mem_cons_self

theorem second {a : Nat} (p : Progress heads entered d (a :: b :: waiting) entered' d') :
    Pending entered' d' b :=
  p.pending (List.mem_cons_of_mem _ List.mem_cons_self)

theorem third {a c : Nat} (p : Progress heads entered d (a :: c :: b :: waiting) entered' d') :
    Pending entered' d' b :=
  p.pending (List.mem_cons_of_mem _ (List.mem_cons_of_mem _ List.mem_cons_self))

theorem pending_old (p : Progress heads entered d waiting entered' d')
    (hb : Pending entered d b) : Pending entered' d' b := by
  refine ⟨Nat.lt_of_lt_of_le hb.1 p.size, fun hmem => ?_⟩
  rcases (p.mem b).mp hmem with hmem | ⟨hle, -, -⟩
  · exact hb.2 hmem
  · exact absurd hb.1 (by omega)

theorem goal_pending (p : Progress heads entered d waiting entered' d') {goal : Goal}
    (h : goal.Pending entered d) : goal.Pending entered' d' := by
  cases h with
  | value => exact .value
  | branch htrue hfalse => exact .branch (p.pending_old htrue) (p.pending_old hfalse)

theorem targets (p : Progress heads entered d waiting entered' d')
    (h : Targets heads entered d) : Targets heads entered' d' where
  exit := p.pending_old h.exit
  breaks := fun j hj => p.pending_old (h.breaks j (p.jumps ▸ hj))
  continues := fun j hj c hc => (h.continues j (p.jumps ▸ hj) c hc).imp_left p.pending_old

theorem departs (p : Progress heads entered d waiting entered' d')
    (h : Departs heads entered b) : Departs heads entered' b :=
  ⟨(p.mem b).mpr (.inl h.1), h.2⟩

theorem current_departs (p : Progress heads entered d waiting entered' d') :
    Departs heads entered' d'.current :=
  ⟨p.orderly.current, p.orderly.heads_le⟩

theorem edge (p : Progress heads entered d waiting entered' d') {source : Nat} (kind : EdgeKind)
    (guard : Option Guard) (hsource : Departs heads entered' source)
    (hb : Pending entered' d' b) :
    Progress heads entered d waiting entered'
      { d' with edges := d'.edges ++ [⟨source, b, kind, guard⟩] } :=
  { p with orderly := p.orderly.edge kind guard hsource.1 hsource.2 hb }

end Progress

namespace Reaches

variable {heads entered waiting : List Nat} {d d' d'' : Draft} {b : Nat}

theorem start (h : Orderly heads entered d) : Reaches heads entered d [] d := by
  refine ⟨entered, h, ?_, h.lt_size, Nat.le_refl _, rfl, .nil, ?_, fun b => ?_⟩
  · exact fun k hk => Nat.le_of_lt (h.lt_size k (h.heads_mem k hk))
  · exact fun b hb => absurd hb List.not_mem_nil
  · exact ⟨.inl, fun hb => hb.elim id fun hb => absurd hb.1 (by omega)⟩

/-- A part of the work that begins and ends with no block waiting. -/
theorem run (r : Reaches heads entered d waiting d')
    (h : ∀ entered', Progress heads entered d waiting entered' d' →
      Reaches heads entered' d' [] d'') : Reaches heads entered d waiting d'' := by
  obtain ⟨entered', p⟩ := r
  obtain ⟨entered'', q⟩ := h entered' p
  refine ⟨entered'', q.orderly, p.heads_le, p.below, Nat.le_trans p.size q.size,
    q.jumps.trans p.jumps, p.nodup, fun b hb => ?_, fun b => ?_⟩
  · have := p.fresh b hb
    have := q.size
    omega
  · have hsize := p.size
    have hsize' := q.size
    have hfresh := p.fresh b
    rw [q.mem, p.mem]
    grind

theorem newBlock (r : Reaches heads entered d waiting d') :
    Reaches heads entered d (waiting ++ [d'.size]) (newBlock.after d') := by
  obtain ⟨entered', p⟩ := r
  have hsize := p.size
  have hsizes : (Build.newBlock.after d').size = d'.size + 1 := rfl
  refine ⟨entered', p.orderly.enlarge (Nat.le_succ _), p.heads_le, p.below,
    Nat.le_succ_of_le p.size, p.jumps, ?_, fun b hb => ?_, fun b => ?_⟩
  · refine List.nodup_append.mpr ⟨p.nodup, List.nodup_cons.mpr ⟨List.not_mem_nil, .nil⟩, ?_⟩
    intro a ha b hb
    have := p.fresh a ha
    rw [List.mem_singleton.mp hb]
    omega
  · rcases List.mem_append.mp hb with hb | hb
    · have := p.fresh b hb
      omega
    · rw [List.mem_singleton.mp hb]
      omega
  · rw [p.mem, hsizes, List.mem_append, List.mem_singleton]
    have := p.below b
    grind

theorem setCurrent (r : Reaches heads entered d (b :: waiting) d') :
    Reaches heads entered d waiting ((setCurrent b).after d') := by
  obtain ⟨entered', p⟩ := r
  obtain ⟨hle, hlt⟩ := p.fresh b List.mem_cons_self
  obtain ⟨hnotMem, hnodup⟩ := List.nodup_cons.mp p.nodup
  refine ⟨entered' ++ [b], p.orderly.enter hlt fun k hk => Nat.le_trans (p.heads_le k hk) hle,
    p.heads_le, p.below, p.size, p.jumps, hnodup, ?_, fun a => ?_⟩
  · exact fun a ha => p.fresh a (List.mem_cons_of_mem _ ha)
  · have hsizes : ((Build.setCurrent b).after d').size = d'.size := rfl
    rw [List.mem_append, List.mem_singleton, p.mem, hsizes, List.mem_cons]
    grind

theorem edge (r : Reaches heads entered d waiting d') {source : Nat} (kind : EdgeKind)
    (guard : Option Guard)
    (hsource : ∀ entered', Progress heads entered d waiting entered' d' →
      Departs heads entered' source)
    (htarget : ∀ entered', Progress heads entered d waiting entered' d' →
      Pending entered' d' b) :
    Reaches heads entered d waiting ((addEdge ⟨source, b, kind, guard⟩).after d') := by
  obtain ⟨entered', p⟩ := r
  exact ⟨entered', p.edge kind guard (hsource _ p) (htarget _ p)⟩

theorem flowToFirst (r : Reaches heads entered d (b :: waiting) d') :
    Reaches heads entered d (b :: waiting) ((flowTo b).after d') :=
  r.edge .flow none (fun _ p => p.current_departs) (fun _ p => p.first)

theorem flowToSecond {a : Nat} (r : Reaches heads entered d (a :: b :: waiting) d') :
    Reaches heads entered d (a :: b :: waiting) ((flowTo b).after d') :=
  r.edge .flow none (fun _ p => p.current_departs) (fun _ p => p.second)

theorem fallTo (r : Reaches heads entered d waiting d') {open? : Option Nat}
    (hopen : ∀ a, open? = some a → Departs heads entered a)
    (htarget : ∀ entered', Progress heads entered d waiting entered' d' →
      Pending entered' d' b) :
    Reaches heads entered d waiting ((fallTo b open?).after d') := by
  cases open? with
  | none => exact r
  | some a => exact r.edge .flow none (fun _ p => p.departs (hopen a rfl)) htarget

theorem backEdge (r : Reaches heads entered d waiting d') (hb : b ∈ heads) :
    Reaches heads entered d waiting ((edgeTo b .back none).after d') := by
  obtain ⟨entered', p⟩ := r
  exact ⟨entered', { p with orderly := p.orderly.backEdge .back hb }⟩

theorem addSite (r : Reaches heads entered d waiting d') (event : Event) :
    Reaches heads entered d waiting ((addSite event).after d') := by
  obtain ⟨entered', p⟩ := r
  exact ⟨entered', { p with orderly := p.orderly.addSite event }⟩

theorem addSiteIf (r : Reaches heads entered d waiting d') (present : Bool) (event : Event) :
    Reaches heads entered d waiting ((addSiteIf present event).after d') := by
  cases present with
  | true => exact r.addSite event
  | false => exact r

theorem forM {α : Type} (event : α → Event) (as : List α)
    (r : Reaches heads entered d waiting d') :
    Reaches heads entered d waiting ((as.forM fun a => Build.addSite (event a)).after d') := by
  induction as generalizing d' with
  | nil => exact r
  | cons a as ih => exact ih (r.addSite (event a))

theorem forM? {α : Type} (event : α → Event) (a? : Option α)
    (r : Reaches heads entered d waiting d') :
    Reaches heads entered d waiting ((a?.forM fun a => Build.addSite (event a)).after d') := by
  cases a? with
  | none => exact r
  | some a => exact r.addSite (event a)

theorem branchOn (r : Reaches heads entered d waiting d') (guard : Option Guard) {goal : Goal}
    (hgoal : goal.Pending entered d) :
    Reaches heads entered d waiting ((branchOn guard goal).after d') := by
  cases hgoal with
  | value => exact r
  | branch htrue hfalse =>
    have r' := r.edge .onTrue guard (fun _ p => p.current_departs)
      (fun _ p => p.pending_old htrue)
    exact r'.edge .onFalse (guard.map Guard.negate) (fun _ p => p.current_departs)
      (fun _ p => p.pending_old hfalse)

theorem jumpTo (r : Reaches heads entered d [] d') (hb : Pending entered d b) :
    Reaches heads entered d [] ((jumpTo b).after d') := by
  have r' := r.edge .flow none (fun _ p => p.current_departs) (fun _ p => p.pending_old hb)
  exact r'.newBlock.setCurrent

theorem swap {a : Nat} (r : Reaches heads entered d (a :: b :: waiting) d') :
    Reaches heads entered d (b :: a :: waiting) d' := by
  obtain ⟨entered', p⟩ := r
  have hperm := List.Perm.swap b a waiting
  refine ⟨entered', { p with nodup := hperm.nodup p.nodup, fresh := ?_, mem := ?_ }⟩
  · exact fun c hc => p.fresh c (hperm.mem_iff.mpr hc)
  · intro c
    rw [p.mem, hperm.mem_iff]

theorem withJump {j : Jump} {inner : Build Unit}
    (r : Reaches heads entered { d with jumps := j :: d.jumps } []
      (inner.after { d with jumps := j :: d.jumps })) :
    Reaches heads entered d [] ((withJump j inner).after d) := by
  obtain ⟨entered', p⟩ := r
  exact ⟨entered', p.orderly.setJumps _, p.heads_le, p.below, p.size, rfl, p.nodup, p.fresh,
    p.mem⟩

theorem openLoop (h : Orderly heads entered d) :
    Reaches (d.size :: heads) entered d []
      ((Build.setCurrent d.size).after ((flowTo d.size).after (Build.newBlock.after d))) := by
  have hheads : ∀ k ∈ heads, k ≤ d.size :=
    fun k hk => Nat.le_of_lt (h.lt_size k (h.heads_mem k hk))
  refine ⟨entered ++ [d.size], h.openLoop (Nat.lt_succ_self _),
    List.forall_mem_cons.mpr ⟨Nat.le_refl _, hheads⟩, h.lt_size, Nat.le_succ _, rfl, .nil,
    fun b hb => absurd hb List.not_mem_nil, fun b => ?_⟩
  have hsize : ((Build.setCurrent d.size).after ((flowTo d.size).after
      (Build.newBlock.after d))).size = d.size + 1 := rfl
  rw [hsize, List.mem_append, List.mem_singleton]
  grind

theorem closeLoop (r : Reaches (d.size :: heads) entered d [] d') :
    Reaches heads entered d [] d' := by
  obtain ⟨entered', p⟩ := r
  have hheads : ∀ k ∈ heads, k ≤ d.size := fun k hk => p.heads_le k (List.mem_cons_of_mem _ hk)
  refine ⟨entered', { p with orderly := p.orderly.closeLoop ?_ hheads, heads_le := hheads }⟩
  exact fun b hle hlt => (p.mem b).mpr (.inr ⟨hle, hlt, List.not_mem_nil⟩)

end Reaches

/-- A step that keeps every draft in order, where its goal may lead. -/
def Build.Nests (m : Build Unit) (goal : Goal) : Prop :=
  ∀ heads entered d, Orderly heads entered d → Targets heads entered d →
    goal.Pending entered d → Reaches heads entered d [] (m.after d)

/-- A step for parts that are entered from `head`, or from `open?`, and lead to `after`. -/
def Build.NestsBetween (m : Build Unit) (head after : Nat) (open? : Option Nat) : Prop :=
  ∀ heads entered d, Orderly heads entered d → Targets heads entered d →
    Departs heads entered head → (∀ b, open? = some b → Departs heads entered b) →
    Pending entered d after → Reaches heads entered d [] (m.after d)

namespace Targets

variable {heads entered : List Nat} {d : Draft}

theorem openLoop (h : Targets heads entered d) : Targets (d.size :: heads) entered d :=
  { h with
    continues := fun j hj c hc => (h.continues j hj c hc).imp_right (List.mem_cons_of_mem _) }

theorem push (h : Targets heads entered d) (j : Jump) (hbreak : Pending entered d j.breakTo)
    (hcontinue : ∀ c, j.continueTo = some c → Pending entered d c ∨ c ∈ heads) :
    Targets heads entered { d with jumps := j :: d.jumps } where
  exit := h.exit
  breaks := List.forall_mem_cons.mpr ⟨hbreak, h.breaks⟩
  continues := List.forall_mem_cons.mpr ⟨hcontinue, h.continues⟩

theorem setHandlers (h : Targets heads entered d) (guards : List Guard) :
    Targets heads entered { d with handlers := guards } :=
  ⟨h.exit, h.breaks, h.continues⟩

theorem found (h : Targets heads entered d) (fits : Jump → Bool) :
    Pending entered d (((d.jumps.find? fits).map (·.breakTo)).getD exitBlock) := by
  cases hfind : d.jumps.find? fits with
  | none => exact h.exit
  | some j => exact h.breaks j (List.mem_of_find?_eq_some hfind)

theorem breakTarget (h : Targets heads entered d) (label : Option String) :
    Pending entered d (breakTarget d.jumps label) :=
  h.found _

theorem yieldTarget (h : Targets heads entered d) : Pending entered d (yieldTarget d.jumps) :=
  h.found _

theorem continueTarget? (h : Targets heads entered d) {label : Option String} {c : Nat}
    (hc : continueTarget? d.jumps label = some c) : Pending entered d c ∨ c ∈ heads := by
  unfold Build.continueTarget? at hc
  obtain ⟨j, hfind, hj⟩ := Option.bind_eq_some_iff.mp hc
  have hmem := List.mem_of_find?_eq_some hfind
  exact h.continues j (List.mem_filter.mp hmem).1 c hj

end Targets

namespace Reaches

variable {heads entered waiting : List Nat} {d d' : Draft} {m : Build Unit}

theorem branching (r : Reaches heads entered d waiting d') (ht : Targets heads entered d)
    {goal : Goal} (hm : m.Nests goal)
    (hgoal : ∀ entered', Progress heads entered d waiting entered' d' →
      goal.Pending entered' d') : Reaches heads entered d waiting (m.after d') :=
  r.run fun entered' p => hm heads entered' d' p.orderly (p.targets ht) (hgoal entered' p)

theorem step (r : Reaches heads entered d waiting d') (ht : Targets heads entered d)
    (hm : m.Nests .value) : Reaches heads entered d waiting (m.after d') :=
  r.branching ht hm fun _ _ => .value

theorem jumping (r : Reaches heads entered d waiting d') (ht : Targets heads entered d)
    (hm : m.Nests .value) (j : Jump)
    (hbreak : ∀ entered', Progress heads entered d waiting entered' d' →
      Pending entered' d' j.breakTo)
    (hcontinue : ∀ entered', Progress heads entered d waiting entered' d' →
      ∀ c, j.continueTo = some c → Pending entered' d' c ∨ c ∈ heads) :
    Reaches heads entered d waiting ((Build.withJump j m).after d') :=
  r.run fun entered' p => withJump (hm heads entered' _ (p.orderly.setJumps _)
    ((p.targets ht).push j (hbreak entered' p) (hcontinue entered' p)) .value)

theorem handling (r : Reaches heads entered d waiting d') (ht : Targets heads entered d)
    {guards : List Guard} (hguards : ∀ g ∈ guards, ∃ name, g = .excluded name)
    (hm : m.Nests .value) :
    Reaches heads entered d waiting ((Build.withHandlers guards m).after d') := by
  refine r.run fun entered' p => ?_
  have hall : ∀ g ∈ guards ++ d'.handlers, ∃ name, g = .excluded name :=
    fun g hg => (List.mem_append.mp hg).elim (hguards g) (p.orderly.handlers g)
  obtain ⟨entered'', q⟩ := hm heads entered' _ (p.orderly.setHandlers hall)
    ((p.targets ht).setHandlers _) .value
  exact ⟨entered'', q.orderly.setHandlers p.orderly.handlers, q.heads_le, q.below, q.size,
    q.jumps, q.nodup, q.fresh, q.mem⟩

end Reaches

end LevelGuard.Flow
