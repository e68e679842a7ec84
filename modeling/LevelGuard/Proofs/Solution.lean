import LevelGuard.Flow.Propagate
import LevelGuard.Proofs.DepthFirst
import LevelGuard.Proofs.Entailment

/-!
# The equations of a graph and its passes

The facts at the blocks of a graph solve its equations if the entry has the seed and
every other reachable block has the meet of the facts that arrive along its edges.
In a structured graph one pass in the order of the walk finds the strongest solution:
a later block sees all it needs of the earlier ones, and an edge back to a dominating
block brings nothing new, since facts only grow along the way from there. Every further
pass confirms the solution, up to which contradiction a block carries.
-/
namespace LevelGuard

/-- The facts are the strongest that all facts of a set entail. -/
def Facts.IsMeet (S : Facts → Prop) (M : Facts) : Prop :=
  (∀ F, S F → F.Entails M) ∧ ∀ K : Facts, (∀ F, S F → F.Entails K) → M.Entails K

namespace Flow.Graph

open Facts

variable {G : Graph}

theorem along_entails (e : Edge) (F : Facts) : (along e F).Entails F := by
  unfold along
  cases e.guard with
  | none => exact .refl F
  | some g => exact assume_entails F g true

theorem along_mono (e : Edge) {F H : Facts} (h : F.Entails H) :
    (along e F).Entails (along e H) := by
  unfold along
  cases e.guard with
  | none => exact h
  | some g => exact assume_mono h g true

theorem along_frame (e : Edge) (F : Facts) : (along e F).frame = F.frame := by
  unfold along
  cases e.guard with
  | none => rfl
  | some g => exact assume_frame F g true

/-- The step of the fold that `inflow` is. -/
def gather (state : Assignment) (acc : Option Facts) (e : Edge) : Option Facts :=
  match state.getD e.source none with
  | some F => merge acc (along e F)
  | none => acc

def Flowing (state : Assignment) (es : List Edge) (F : Facts) : Prop :=
  ∃ e ∈ es, ∃ H, state.getD e.source none = some H ∧ F = along e H

theorem gather_none {state : Assignment} {e : Edge} (h : state.getD e.source none = none)
    (acc : Option Facts) : gather state acc e = acc := by
  unfold gather
  rw [h]

theorem gather_some {state : Assignment} {e : Edge} {H : Facts}
    (h : state.getD e.source none = some H) (acc : Option Facts) :
    gather state acc e = merge acc (along e H) := by
  unfold gather
  rw [h]

theorem foldl_gather_ne_none {state : Assignment} (es : List Edge) (acc : Option Facts)
    (h : acc ≠ none ∨ ∃ F, Flowing state es F) : es.foldl (gather state) acc ≠ none := by
  induction es generalizing acc with
  | nil =>
    rcases h with h | ⟨F, e, he, _⟩
    · exact h
    · cases he
  | cons e es ih =>
    rw [List.foldl_cons]
    apply ih
    cases hs : state.getD e.source none with
    | none =>
      rw [gather_none hs]
      rcases h with h | ⟨F, e', he', H, hH, rfl⟩
      · exact .inl h
      · rcases List.mem_cons.mp he' with rfl | he'
        · rw [hs] at hH; cases hH
        · exact .inr ⟨_, e', he', H, hH, rfl⟩
    | some H =>
      rw [gather_some hs]
      left
      cases acc <;> simp [merge]

/-- The fold gives the meet of what was there and of what flows along the edges. -/
theorem foldl_gather_isMeet {state : Assignment} (es : List Edge) (acc : Option Facts)
    {M : Facts} (hM : es.foldl (gather state) acc = some M) :
    IsMeet (fun F => acc = some F ∨ Flowing state es F) M := by
  induction es generalizing acc with
  | nil =>
    obtain rfl : acc = some M := hM
    refine ⟨?_, fun K hK => hK M (.inl rfl)⟩
    rintro F (hF | ⟨e, he, _⟩)
    · cases hF
      exact .refl M
    · cases he
  | cons e es ih =>
    rw [List.foldl_cons] at hM
    have hrest := ih _ hM
    cases h : state.getD e.source none with
    | none =>
      rw [gather_none h] at hrest
      refine ⟨?_, ?_⟩
      · rintro F (hF | ⟨e', he', H, hH, rfl⟩)
        · exact hrest.1 F (.inl hF)
        · rcases List.mem_cons.mp he' with rfl | he'
          · rw [h] at hH; cases hH
          · exact hrest.1 _ (.inr ⟨e', he', H, hH, rfl⟩)
      · intro K hK
        refine hrest.2 K ?_
        rintro F (hF | ⟨e', he', H, hH, rfl⟩)
        · exact hK F (.inl hF)
        · exact hK _ (.inr ⟨e', by simp [he'], H, hH, rfl⟩)
    | some H =>
      rw [gather_some h] at hrest
      have hhead : Flowing state (e :: es) (along e H) := ⟨e, by simp, H, h, rfl⟩
      refine ⟨?_, ?_⟩
      · have hmerged : ∀ F, acc = some F ∨ F = along e H → F.Entails M := by
          intro F hF
          cases acc with
          | none =>
            rcases hF with hF | rfl
            · cases hF
            · exact hrest.1 _ (.inl rfl)
          | some A =>
            have hmeet : (A.meet (along e H)).Entails M := hrest.1 _ (.inl rfl)
            rcases hF with hF | rfl
            · cases hF
              exact (entails_meet_left _ _).trans hmeet
            · exact (entails_meet_right _ _).trans hmeet
        rintro F (hF | ⟨e', he', H', hH', rfl⟩)
        · exact hmerged F (.inl hF)
        · rcases List.mem_cons.mp he' with rfl | he'
          · rw [h] at hH'
            cases hH'
            exact hmerged _ (.inr rfl)
          · exact hrest.1 _ (.inr ⟨e', he', H', hH', rfl⟩)
      · intro K hK
        refine hrest.2 K ?_
        rintro F (hF | ⟨e', he', H', hH', rfl⟩)
        · cases acc with
          | none =>
            cases hF
            exact hK _ (.inr hhead)
          | some A =>
            cases hF
            exact meet_entails (hK A (.inl rfl)) (hK _ (.inr hhead))
        · exact hK _ (.inr ⟨e', by simp [he'], H', hH', rfl⟩)

theorem inflow_isMeet {state : Assignment} {b : Nat} {M : Facts} (hM : G.inflow state b = some M) :
    IsMeet (Flowing state (G.incoming b)) M := by
  have hmeet := foldl_gather_isMeet (G.incoming b) none hM
  simpa using hmeet

/-- Facts flow into a block as soon as one of its edges has a source with facts. -/
theorem exists_inflow {state : Assignment} {b : Nat} {F : Facts}
    (h : Flowing state (G.incoming b) F) :
    ∃ M, G.inflow state b = some M ∧ IsMeet (Flowing state (G.incoming b)) M := by
  have hne : G.inflow state b ≠ none := foldl_gather_ne_none _ none (.inr ⟨F, h⟩)
  obtain ⟨M, hM⟩ := Option.ne_none_iff_exists'.mp hne
  exact ⟨M, hM, inflow_isMeet hM⟩

/-- Edges and meets keep a property of facts. -/
structure Keeps (G : Graph) (P : Facts → Prop) : Prop where
  edge : ∀ e ∈ G.edges, ∀ F, P F → P (along e F)
  meet : ∀ F H, P F → P H → P (F.meet H)

def Throughout (P : Facts → Prop) (state : Assignment) : Prop :=
  ∀ c F, state.getD c none = some F → P F

theorem Keeps.foldl_gather {P : Facts → Prop} (hP : G.Keeps P) {state : Assignment}
    (hstate : Throughout P state) (es : List Edge) (hes : es ⊆ G.edges) (acc : Option Facts)
    (hacc : ∀ F, acc = some F → P F) {M : Facts} (hM : es.foldl (gather state) acc = some M) :
    P M := by
  induction es generalizing acc with
  | nil => exact hacc M hM
  | cons e es ih =>
    obtain ⟨he, hes⟩ := List.cons_subset.mp hes
    rw [List.foldl_cons] at hM
    cases h : state.getD e.source none with
    | none =>
      rw [gather_none h] at hM
      exact ih hes acc hacc hM
    | some H =>
      rw [gather_some h] at hM
      have hedge : P (along e H) := hP.edge e he H (hstate _ H h)
      refine ih hes _ ?_ hM
      intro F hF
      cases acc with
      | none =>
        cases hF
        exact hedge
      | some A =>
        cases hF
        exact hP.meet A _ (hacc A rfl) hedge

theorem Keeps.inflow {P : Facts → Prop} (hP : G.Keeps P) {state : Assignment}
    (hstate : Throughout P state) {b : Nat} {M : Facts} (hM : G.inflow state b = some M) : P M :=
  hP.foldl_gather hstate _ (fun _ he => (mem_incoming.mp he).1) none nofun hM

/-- The step of the fold that `pass` is. -/
def visit (G : Graph) (state : Assignment) (b : Nat) : Assignment :=
  if b = G.entry then state else state.set b (G.inflow state b)

theorem pass_eq_foldl (G : Graph) (state : Assignment) :
    G.pass state = G.order.foldl G.visit state := rfl

theorem length_foldl_visit (l : List Nat) (state : Assignment) :
    (l.foldl G.visit state).length = state.length := by
  induction l generalizing state with
  | nil => rfl
  | cons b l ih =>
    rw [List.foldl_cons, ih]
    unfold visit
    split <;> simp

theorem length_pass (state : Assignment) : (G.pass state).length = state.length :=
  length_foldl_visit _ state

theorem getD_set (state : Assignment) (b c : Nat) (x : Option Facts) (hb : b < state.length) :
    (state.set b x).getD c none = if b = c then x else state.getD c none := by
  rw [List.getD_eq_getElem?_getD, List.getElem?_set]
  by_cases h : b = c
  · subst h
    simp [hb]
  · simp [h]

theorem getD_visit_of_ne {state : Assignment} {b c : Nat} (h : b ≠ c) :
    (G.visit state b).getD c none = state.getD c none := by
  unfold visit
  split
  · rfl
  · rw [List.getD_eq_getElem?_getD, List.getElem?_set_ne h, List.getD_eq_getElem?_getD]

theorem getD_foldl_visit_of_not_mem {l : List Nat} {c : Nat} (h : c ∉ l) (state : Assignment) :
    (l.foldl G.visit state).getD c none = state.getD c none := by
  induction l generalizing state with
  | nil => rfl
  | cons b l ih =>
    rw [List.foldl_cons, ih (fun hc => h (by simp [hc])),
      getD_visit_of_ne fun hbc => h (by simp [hbc])]

theorem getD_foldl_visit_entry (l : List Nat) (state : Assignment) :
    (l.foldl G.visit state).getD G.entry none = state.getD G.entry none := by
  induction l generalizing state with
  | nil => rfl
  | cons b l ih =>
    rw [List.foldl_cons, ih]
    by_cases hb : b = G.entry
    · rw [visit, if_pos hb]
    · exact getD_visit_of_ne hb

theorem idxOf_lt_iff_mem {pre post : List Nat} {b p : Nat} (hb : b ∉ pre) :
    (pre ++ b :: post).idxOf p < (pre ++ b :: post).idxOf b ↔ p ∈ pre := by
  have hend : (pre ++ b :: post).idxOf b = pre.length := by
    rw [List.idxOf_append, if_neg hb, List.idxOf_cons_self, Nat.zero_add]
  rw [hend, List.idxOf_append]
  by_cases hp : p ∈ pre
  · simp [hp, List.idxOf_lt_length_of_mem hp]
  · simp [hp]

/-- A pass gives a block what flows into it from a state in which the blocks before it
have their new facts and all others their old ones. -/
theorem pass_spec (hG : G.Structured) {state : Assignment} (hlen : state.length = G.size)
    {b : Nat} (hb : G.Reachable b) (hne : b ≠ G.entry) :
    ∃ T : Assignment, (G.pass state).getD b none = G.inflow T b ∧
      (∀ p, G.order.idxOf p < G.order.idxOf b → T.getD p none = (G.pass state).getD p none) ∧
      ∀ p, ¬ G.order.idxOf p < G.order.idxOf b → T.getD p none = state.getD p none := by
  obtain ⟨pre, post, horder⟩ := List.append_of_mem ((mem_order hG).mpr hb)
  have hnd := order_nodup hG
  rw [horder] at hnd
  have hpre : b ∉ pre := fun h => (List.nodup_append.mp hnd).2.2 b h b (by simp) rfl
  have hpost : b ∉ post := (List.nodup_cons.mp (List.nodup_append.mp hnd).2.1).1
  have hlt : b < state.length := by
    obtain ⟨es, hes⟩ := hb
    rw [hlen]
    cases hes with
    | nil => exact hG.entry_lt
    | snoc _ he => exact hG.target_lt _ he
  have hpass : G.pass state = post.foldl G.visit (G.visit (pre.foldl G.visit state) b) := by
    rw [pass_eq_foldl, horder, List.foldl_append, List.foldl_cons]
  refine ⟨pre.foldl G.visit state, ?_, ?_, ?_⟩
  · rw [hpass, getD_foldl_visit_of_not_mem hpost, visit, if_neg hne,
      getD_set _ _ _ _ (by rwa [length_foldl_visit]), if_pos rfl]
  · intro p hp
    rw [horder, idxOf_lt_iff_mem hpre] at hp
    have hnot : p ∉ b :: post := fun h => (List.nodup_append.mp hnd).2.2 p hp p h rfl
    have hne' : b ≠ p := fun h => hnot (by simp [h])
    have hpost' : p ∉ post := fun h => hnot (by simp [h])
    rw [hpass, getD_foldl_visit_of_not_mem hpost', getD_visit_of_ne hne']
  · intro p hp
    rw [horder, idxOf_lt_iff_mem hpre] at hp
    exact getD_foldl_visit_of_not_mem hp state

theorem getD_pass_entry (state : Assignment) :
    (G.pass state).getD G.entry none = state.getD G.entry none :=
  getD_foldl_visit_entry _ state

theorem getD_pass_of_not_reachable (hG : G.Structured) {b : Nat} (hb : ¬ G.Reachable b)
    (state : Assignment) : (G.pass state).getD b none = state.getD b none :=
  getD_foldl_visit_of_not_mem (fun h => hb ((mem_order hG).mp h)) state

/-- The facts that arrive at a block along the edges from reachable blocks. -/
def Arriving (G : Graph) (X : Nat → Facts) (b : Nat) (F : Facts) : Prop :=
  ∃ e ∈ G.edges, e.target = b ∧ G.Reachable e.source ∧ F = along e (X e.source)

/-- The entry has the seed, and every other reachable block the meet of what arrives. -/
structure Solves (G : Graph) (seed : Facts) (X : Nat → Facts) : Prop where
  entry : X G.entry = seed
  block : ∀ b, G.Reachable b → b ≠ G.entry → IsMeet (G.Arriving X b) (X b)

/-- What a solution says at the end of an edge, it says at the start and along the edge. -/
theorem Solves.edge {seed : Facts} {X : Nat → Facts} (h : G.Solves seed X) {e : Edge}
    (he : e ∈ G.edges) (hsource : G.Reachable e.source) (hne : e.target ≠ G.entry) :
    (along e (X e.source)).Entails (X e.target) :=
  (h.block e.target (hsource.step he) hne).1 _ ⟨e, he, rfl, hsource, rfl⟩

theorem getD_start_entry (hG : G.Structured) (seed : Facts) :
    (G.start seed).getD G.entry none = some seed := by
  rw [start, getD_set _ _ _ _ (by simpa using hG.entry_lt), if_pos rfl]

theorem getD_start_of_ne {b : Nat} (hb : b ≠ G.entry) (seed : Facts) :
    (G.start seed).getD b none = none := by
  rw [start, List.getD_eq_getElem?_getD, List.getElem?_set_ne (Ne.symm hb)]
  cases h : (List.replicate G.size (none : Option Facts))[b]? with
  | none => rfl
  | some x => exact List.eq_of_mem_replicate (List.mem_of_getElem? h)

theorem length_start (seed : Facts) : (G.start seed).length = G.size := by
  unfold start
  rw [List.length_set, List.length_replicate]

theorem idxOf_entry_lt (hG : G.Structured) {b : Nat} (hne : b ≠ G.entry) :
    G.order.idxOf G.entry < G.order.idxOf b := by
  obtain ⟨rest, hrest⟩ := order_eq_cons hG
  rw [hrest, List.idxOf_cons_self, List.idxOf_cons_ne _ (Ne.symm hne)]
  exact Nat.succ_pos _

def firstPass (G : Graph) (seed : Facts) (b : Nat) : Facts :=
  ((G.pass (G.start seed)).getD b none).getD seed

theorem firstPass_entry (hG : G.Structured) (seed : Facts) :
    G.firstPass seed G.entry = seed := by
  rw [firstPass, getD_pass_entry, getD_start_entry hG]
  rfl

/-- The first pass gives a block the meet of what arrives from the blocks before it. -/
theorem firstPass_spec (hG : G.Structured) (seed : Facts) {b : Nat} (hb : G.Reachable b) :
    (G.pass (G.start seed)).getD b none = some (G.firstPass seed b) ∧
      (b ≠ G.entry → IsMeet (fun F => ∃ e ∈ G.edges, e.target = b ∧ G.Reachable e.source ∧
        G.order.idxOf e.source < G.order.idxOf b ∧ F = along e (G.firstPass seed e.source))
          (G.firstPass seed b)) := by
  induction hn : G.order.idxOf b using Nat.strongRecOn generalizing b with
  | _ n ih =>
    subst hn
    by_cases hne : b = G.entry
    · subst hne
      refine ⟨?_, fun h => absurd rfl h⟩
      rw [firstPass_entry hG, getD_pass_entry, getD_start_entry hG]
    · obtain ⟨T, hT, hbefore, hafter⟩ := pass_spec hG (length_start seed) hb hne
      have hsome : ∀ e ∈ G.edges, e.target = b → G.Reachable e.source →
          G.order.idxOf e.source < G.order.idxOf b →
          T.getD e.source none = some (G.firstPass seed e.source) := by
        intro e _ _ hsource hlt
        rw [hbefore _ hlt, (ih _ hlt hsource rfl).1]
      -- The blocks before `b` have facts by induction, the others have none yet.
      have hflow : ∀ F, Flowing T (G.incoming b) F ↔ ∃ e ∈ G.edges, e.target = b ∧
          G.Reachable e.source ∧ G.order.idxOf e.source < G.order.idxOf b ∧
          F = along e (G.firstPass seed e.source) := by
        intro F
        constructor
        · rintro ⟨e, he, H, hH, rfl⟩
          obtain ⟨he, htarget⟩ := mem_incoming.mp he
          by_cases hlt : G.order.idxOf e.source < G.order.idxOf b
          · have hsource : G.Reachable e.source := by
              rw [← mem_order hG]
              by_contra hnot
              rw [List.idxOf_eq_length hnot] at hlt
              exact absurd List.idxOf_le_length (Nat.not_le.mpr hlt)
            rw [hsome e he htarget hsource hlt] at hH
            cases hH
            exact ⟨e, he, htarget, hsource, hlt, rfl⟩
          · have hentry : e.source ≠ G.entry := fun h => hlt (h ▸ idxOf_entry_lt hG hne)
            rw [hafter _ hlt, getD_start_of_ne hentry] at hH
            cases hH
        · rintro ⟨e, he, htarget, hsource, hlt, rfl⟩
          exact ⟨e, mem_incoming.mpr ⟨he, htarget⟩, _, hsome e he htarget hsource hlt, rfl⟩
      obtain ⟨e, he, htarget, hsource, hnot⟩ := hb.exists_first_edge hne
      have hlt : G.order.idxOf e.source < G.order.idxOf b := by
        rcases order_edge hG he hsource with hlt | hdom
        · rwa [htarget] at hlt
        · rw [htarget] at hdom
          exact absurd hdom hnot
      obtain ⟨M, hM, hmeet⟩ :=
        exists_inflow ((hflow _).mpr ⟨e, he, htarget, hsource, hlt, rfl⟩)
      have hfirst : G.firstPass seed b = M := by
        rw [firstPass, hT, hM]
        rfl
      rw [hfirst]
      refine ⟨hT.trans hM, fun _ => ?_⟩
      simpa only [IsMeet, hflow] using hmeet

/-- Facts at a block entail those at every block that dominates it. -/
theorem firstPass_dominated (hG : G.Structured) (seed : Facts) {a b : Nat}
    (hb : G.Reachable b) (hdom : G.Dominates a b) :
    (G.firstPass seed b).Entails (G.firstPass seed a) := by
  induction hn : G.order.idxOf b using Nat.strongRecOn generalizing b with
  | _ n ih =>
    subst hn
    by_cases hab : a = b
    · rw [hab]
      exact .refl _
    · have hne : b ≠ G.entry := by
        rintro rfl
        exact hab hdom.eq_entry
      refine ((firstPass_spec hG seed hb).2 hne).2 _ ?_
      rintro F ⟨e, he, rfl, hsource, hlt, rfl⟩
      exact (along_entails e _).trans (ih _ hlt hsource (hdom.source hab he) rfl)

theorem firstPass_solves (hG : G.Structured) (seed : Facts) :
    G.Solves seed (G.firstPass seed) where
  entry := firstPass_entry hG seed
  block b hb hne := by
    have hspec := (firstPass_spec hG seed hb).2 hne
    refine ⟨?_, ?_⟩
    · rintro F ⟨e, he, rfl, hsource, rfl⟩
      rcases order_edge hG he hsource with hlt | hdom
      · exact hspec.1 _ ⟨e, he, rfl, hsource, hlt, rfl⟩
      · exact (along_entails e _).trans (firstPass_dominated hG seed hsource hdom)
    · intro K hK
      refine hspec.2 K ?_
      rintro F ⟨e, he, htarget, hsource, _, rfl⟩
      exact hK _ ⟨e, he, htarget, hsource, rfl⟩

/-- Facts that are no more than the seed at the entry, and at the end of an edge no more than
what arrives there. -/
structure Bounds (G : Graph) (seed : Facts) (Y : Nat → Facts) : Prop where
  entry : seed.Entails (Y G.entry)
  edge : ∀ e ∈ G.edges, G.Reachable e.source → e.target ≠ G.entry →
    (along e (Y e.source)).Entails (Y e.target)

theorem Solves.bounds {seed : Facts} {X : Nat → Facts} (h : G.Solves seed X) : G.Bounds seed X where
  entry := h.entry ▸ .refl _
  edge _ he hsource hne := h.edge he hsource hne

/-- At a reachable block no bound says more than the first pass, so no solution does. -/
theorem firstPass_strongest (hG : G.Structured) {seed : Facts} {Y : Nat → Facts}
    (hY : G.Bounds seed Y) {b : Nat} (hb : G.Reachable b) :
    (G.firstPass seed b).Entails (Y b) := by
  induction hn : G.order.idxOf b using Nat.strongRecOn generalizing b with
  | _ n ih =>
    subst hn
    by_cases hne : b = G.entry
    · rw [hne, firstPass_entry hG]
      exact hY.entry
    · refine ((firstPass_spec hG seed hb).2 hne).2 _ ?_
      rintro F ⟨e, he, rfl, hsource, hlt, rfl⟩
      exact (along_mono e (ih _ hlt hsource rfl)).trans (hY.edge e he hsource hne)

theorem Throughout.visit {P : Facts → Prop} (hP : G.Keeps P) {state : Assignment}
    (h : Throughout P state) (b : Nat) : Throughout P (G.visit state b) := by
  intro c F hF
  by_cases hbc : b = c
  · subst hbc
    unfold Graph.visit at hF
    split at hF
    · exact h _ F hF
    · by_cases hlt : b < state.length
      · rw [getD_set _ _ _ _ hlt, if_pos rfl] at hF
        exact hP.inflow h hF
      · rw [List.set_eq_of_length_le (Nat.le_of_not_lt hlt)] at hF
        exact h _ F hF
  · rw [getD_visit_of_ne hbc] at hF
    exact h c F hF

theorem Throughout.pass {P : Facts → Prop} (hP : G.Keeps P) {state : Assignment}
    (h : Throughout P state) : Throughout P (G.pass state) := by
  rw [pass_eq_foldl]
  generalize G.order = l
  induction l generalizing state with
  | nil => exact h
  | cons b l ih => exact ih (h.visit hP b)

theorem Throughout.passes {P : Facts → Prop} (hP : G.Keeps P) {state : Assignment}
    (h : Throughout P state) (bound : Nat) : Throughout P (G.passes bound state) := by
  induction bound generalizing state with
  | zero => exact h
  | succ bound ih =>
    rw [Graph.passes]
    split
    · exact h
    · exact ih (h.pass hP)

theorem throughout_start {P : Facts → Prop} {seed : Facts} (hseed : P seed) :
    Throughout P (G.start seed) := by
  intro c F hF
  by_cases hc : c = G.entry
  · rw [hc, start, List.getD_eq_getElem?_getD, List.getElem?_set_self', List.getElem?_replicate] at hF
    split at hF
    · cases hF
      exact hseed
    · cases hF
  · rw [getD_start_of_ne hc] at hF
    cases hF

/-- A property of the facts at the start that edges and meets keep holds of the facts that
every block is checked with. -/
theorem Keeps.propagate {P : Facts → Prop} (hP : G.Keeps P) {seed : Facts} (hseed : P seed)
    (b : Nat) : P ((G.propagate seed).getD b seed) := by
  have hpasses : Throughout P (G.passes passCount (G.start seed)) :=
    (throughout_start hseed).passes hP passCount
  unfold Graph.propagate propagateWithin
  rw [List.getD_eq_getElem?_getD, List.getElem?_map]
  cases hb : (G.passes passCount (G.start seed))[b]? with
  | none => exact hseed
  | some facts =>
    cases facts with
    | none => exact hseed
    | some F =>
      have hF : P F := hpasses b F (by rw [List.getD_eq_getElem?_getD, hb, Option.getD_some])
      change P (if F.bottom then seed else F)
      cases F.bottom with
      | true => exact hseed
      | false => exact hF

theorem keeps_frame (seed : Facts) : G.Keeps fun F => F.frame = seed.frame where
  edge e _ F hF := (along_frame e F).trans hF
  meet _ _ hF hH := (meet_frame (hF.trans hH.symm)).trans hH

/-- All facts of a state say the same of the code itself. -/
abbrev Framed (seed : Facts) (state : Assignment) : Prop :=
  Throughout (fun F => F.frame = seed.frame) state

theorem framed_firstPass (seed : Facts) : Framed seed (G.pass (G.start seed)) := by
  have hstart : Framed seed (G.start seed) := throughout_start rfl
  exact hstart.pass (keeps_frame seed)

/-- A state that says at every block what the first pass found. -/
structure Confirms (G : Graph) (seed : Facts) (state : Assignment) : Prop where
  length : state.length = G.size
  framed : Framed seed state
  entry : state.getD G.entry none = some seed
  reached : ∀ b, G.Reachable b →
    ∃ F, state.getD b none = some F ∧ F.Agrees (G.firstPass seed b)
  unreached : ∀ b, ¬ G.Reachable b → state.getD b none = none

theorem confirms_firstPass (hG : G.Structured) (seed : Facts) :
    G.Confirms seed (G.pass (G.start seed)) where
  length := (length_pass _).trans (length_start seed)
  framed := framed_firstPass seed
  entry := (getD_pass_entry _).trans (getD_start_entry hG seed)
  reached b hb := ⟨_, (firstPass_spec hG seed hb).1, .inl rfl⟩
  unreached b hb := by
    rw [getD_pass_of_not_reachable hG hb]
    have hne : b ≠ G.entry := fun h => hb (h ▸ reachable_entry)
    exact getD_start_of_ne hne seed

/-- What flows into a block, from sources with the facts of the first pass, is what the
first pass found for the block. -/
theorem inflow_agrees (hG : G.Structured) {seed : Facts} {state : Assignment}
    (hframed : Framed seed state)
    (hreached : ∀ c, G.Reachable c →
      ∃ F, state.getD c none = some F ∧ F.Agrees (G.firstPass seed c))
    (hunreached : ∀ c, ¬ G.Reachable c → state.getD c none = none)
    {b : Nat} (hb : G.Reachable b) (hne : b ≠ G.entry) :
    ∃ M, G.inflow state b = some M ∧ M.Agrees (G.firstPass seed b) := by
  obtain ⟨e, he, htarget, hreach, _⟩ := hb.exists_first_edge hne
  obtain ⟨H, hH, _⟩ := hreached e.source hreach
  obtain ⟨M, hM, hmeet⟩ := exists_inflow ⟨e, mem_incoming.mpr ⟨he, htarget⟩, H, hH, rfl⟩
  refine ⟨M, hM, ?_⟩
  have hsolved := (firstPass_solves hG seed).block b hb hne
  have hframe : M.frame = (G.firstPass seed b).frame :=
    ((keeps_frame seed).inflow hframed hM).trans
      (framed_firstPass seed b _ (firstPass_spec hG seed hb).1).symm
  refine Entails.antisymm ?_ ?_ (congrArg (·.2.2) hframe)
  · refine hmeet.2 _ ?_
    rintro F ⟨e, he, H, hH, rfl⟩
    obtain ⟨he, htarget⟩ := mem_incoming.mp he
    have hreach : G.Reachable e.source := by
      by_contra hnot
      rw [hunreached _ hnot] at hH
      cases hH
    obtain ⟨H', hH', hagrees⟩ := hreached e.source hreach
    rw [hH] at hH'
    cases hH'
    exact (along_mono e hagrees.entails).trans (hsolved.1 _ ⟨e, he, htarget, hreach, rfl⟩)
  · refine hsolved.2 _ ?_
    rintro F ⟨e, he, htarget, hreach, rfl⟩
    obtain ⟨H, hH, hagrees⟩ := hreached e.source hreach
    exact (along_mono e hagrees.symm.entails).trans
      (hmeet.1 _ ⟨e, mem_incoming.mpr ⟨he, htarget⟩, H, hH, rfl⟩)

/-- A further pass finds what the first one found. -/
theorem Confirms.pass (hG : G.Structured) {seed : Facts} {state : Assignment}
    (h : G.Confirms seed state) : G.Confirms seed (G.pass state) where
  length := (length_pass _).trans h.length
  framed := h.framed.pass (keeps_frame seed)
  entry := (getD_pass_entry _).trans h.entry
  unreached b hb := (getD_pass_of_not_reachable hG hb state).trans (h.unreached b hb)
  reached b hb := by
    induction hn : G.order.idxOf b using Nat.strongRecOn generalizing b with
    | _ n ih =>
      subst hn
      by_cases hne : b = G.entry
      · subst hne
        refine ⟨seed, (getD_pass_entry _).trans h.entry, ?_⟩
        rw [firstPass_entry hG]
        exact .inl rfl
      · -- `T` is the state when the block is visited: new before it, old from it on.
        obtain ⟨T, hT, hbefore, hafter⟩ := pass_spec hG h.length hb hne
        rw [hT]
        refine inflow_agrees hG ?_ ?_ ?_ hb hne
        · intro c F hF
          by_cases hlt : G.order.idxOf c < G.order.idxOf b
          · exact h.framed.pass (keeps_frame seed) c F (hbefore c hlt ▸ hF)
          · exact h.framed c F (hafter c hlt ▸ hF)
        · intro c hc
          by_cases hlt : G.order.idxOf c < G.order.idxOf b
          · rw [hbefore c hlt]
            exact ih _ hlt c hc rfl
          · rw [hafter c hlt]
            exact h.reached c hc
        · intro c hc
          have hlt : ¬ G.order.idxOf c < G.order.idxOf b := by
            rw [List.idxOf_eq_length (mt (mem_order hG).mp hc)]
            exact Nat.not_lt.mpr List.idxOf_le_length
          rw [hafter c hlt]
          exact h.unreached c hc

theorem Confirms.passes (hG : G.Structured) {seed : Facts} {state : Assignment}
    (h : G.Confirms seed state) (bound : Nat) : G.Confirms seed (G.passes bound state) := by
  induction bound generalizing state with
  | zero => exact h
  | succ bound ih =>
    rw [Graph.passes]
    split
    · exact h
    · exact ih (h.pass hG)

/-- After any positive number of passes a state says what the first pass found. -/
theorem confirms_passes (hG : G.Structured) (seed : Facts) (bound : Nat) :
    G.Confirms seed (G.passes (bound + 1) (G.start seed)) := by
  rw [Graph.passes]
  split
  · next heq =>
    rw [← heq]
    exact confirms_firstPass hG seed
  · exact (confirms_firstPass hG seed).passes hG bound

/-- The facts that blocks are checked with do not depend on the contradictions found. -/
theorem Confirms.map_settled {seed : Facts} {s t : Assignment} (hs : G.Confirms seed s)
    (ht : G.Confirms seed t) : s.map (settled seed) = t.map (settled seed) := by
  apply List.ext_getElem
  · simp [hs.length, ht.length]
  · intro i hi₁ hi₂
    simp only [List.length_map] at hi₁ hi₂
    rw [List.getElem_map, List.getElem_map]
    have hsi : s[i] = s.getD i none := by simp [List.getD_eq_getElem?_getD, hi₁]
    have hti : t[i] = t.getD i none := by simp [List.getD_eq_getElem?_getD, hi₂]
    rw [hsi, hti]
    by_cases hreach : G.Reachable i
    · obtain ⟨F, hF, hagreesF⟩ := hs.reached i hreach
      obtain ⟨H, hH, hagreesH⟩ := ht.reached i hreach
      rw [hF, hH]
      rcases hagreesF with rfl | ⟨hbF, hbX⟩
      · rcases hagreesH with rfl | ⟨hbH, hbX⟩
        · rfl
        · simp [settled, hbH, hbX]
      · rcases hagreesH with rfl | ⟨hbH, _⟩
        · simp [settled, hbF, hbX]
        · simp [settled, hbF, hbH]
    · rw [hs.unreached i hreach, ht.unreached i hreach]

/-- The facts at a reachable block are those of the strongest solution, unless these are
contradictory. -/
theorem getD_propagate (hG : G.Structured) (seed : Facts) {b : Nat} (hb : G.Reachable b)
    (hbottom : (G.firstPass seed b).bottom = false) :
    (G.propagate seed).getD b seed = G.firstPass seed b := by
  obtain ⟨F, hF, hagrees⟩ := (confirms_passes hG seed 1).reached b hb
  have heq : F = G.firstPass seed b := by
    rcases hagrees with heq | ⟨_, hbX⟩
    · exact heq
    · rw [hbottom] at hbX; cases hbX
  rw [propagate, propagateWithin, List.getD_eq_getElem?_getD, List.getElem?_map]
  rw [List.getD_eq_getElem?_getD] at hF
  cases h : (G.passes passCount (G.start seed))[b]? with
  | none =>
    rw [show (1 + 1) = passCount from rfl, h] at hF
    cases hF
  | some x =>
    rw [show (1 + 1) = passCount from rfl, h] at hF
    obtain rfl : x = some F := hF
    simp [settled, heq, hbottom]

end Flow.Graph
end LevelGuard
