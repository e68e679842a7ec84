import LevelGuard.Proofs.Paths
import Mathlib.Data.List.Perm.Subperm

/-!
# The order of a depth-first walk

The walk keeps a trail: the blocks it is inside of, each a successor of the next.
When it leaves a block, all successors of the block have been seen, so each of them
was left earlier or is on the trail. In a structured graph an edge to a block on the
trail leads back to a block that dominates its source.

So the order of the walk lists the reachable blocks once each, and every edge
between them leads to a later block or back to a dominating one.
-/
namespace LevelGuard.Flow.Graph

variable {G : Graph}

/-- The block can follow the trail: it is the entry, or a successor of the last block. -/
def Follows (G : Graph) (b : Nat) : List Nat → Prop
  | [] => b = G.entry
  | c :: _ => b ∈ G.successors c

/-- The blocks a walk is inside of, the last one first. -/
inductive Trail (G : Graph) : List Nat → Prop where
  | nil : Trail G []
  | cons {b : Nat} {trail : List Nat} :
      Trail G trail → G.Follows b trail → b ∉ trail → Trail G (b :: trail)

theorem Trail.nodup {trail : List Nat} (h : G.Trail trail) : trail.Nodup := by
  induction h with
  | nil => exact List.nodup_nil
  | cons _ _ hb ih => exact List.nodup_cons.mpr ⟨hb, ih⟩

theorem Trail.exists_path {b : Nat} {trail : List Nat} (h : G.Trail (b :: trail)) :
    ∃ es, G.Path G.entry es b ∧ (b :: trail).reverse = G.visited es := by
  induction trail generalizing b with
  | nil =>
    cases h with
    | cons _ hf _ =>
      obtain rfl : b = G.entry := hf
      exact ⟨[], .nil, rfl⟩
  | cons c trail ih =>
    cases h with
    | cons ht hf _ =>
      obtain ⟨es, hes, hvisited⟩ := ih ht
      obtain ⟨e, he, rfl, rfl⟩ := mem_successors.mp hf
      refine ⟨es ++ [e], .snoc hes he, ?_⟩
      rw [visited_snoc, ← hvisited, List.reverse_cons]

theorem Trail.reachable {b : Nat} {trail : List Nat} (h : G.Trail (b :: trail)) :
    G.Reachable b := by
  obtain ⟨es, hes, _⟩ := h.exists_path
  exact ⟨es, hes⟩

/-- A block that dominates the last block of a trail is on it. -/
theorem Trail.mem_of_dominates {a b : Nat} {trail : List Nat} (h : G.Trail (b :: trail))
    (hdom : G.Dominates a b) : a ∈ b :: trail := by
  obtain ⟨es, hes, hvisited⟩ := h.exists_path
  have hmem := hdom es hes
  rw [← hvisited] at hmem
  exact List.mem_reverse.mp hmem

theorem Trail.lt_size {trail : List Nat} (hG : G.Structured) (h : G.Trail trail) :
    ∀ b ∈ trail, b < G.size := by
  induction h with
  | nil => intro b hb; cases hb
  | @cons b trail _ hf _ ih =>
    intro c hc
    rcases List.mem_cons.mp hc with rfl | hc
    · cases trail with
      | nil =>
        obtain rfl : c = G.entry := hf
        exact hG.entry_lt
      | cons a trail =>
        obtain ⟨e, he, _, rfl⟩ := mem_successors.mp hf
        exact hG.target_lt e he
    · exact ih c hc

theorem Trail.length_le {trail : List Nat} (hG : G.Structured) (h : G.Trail trail) :
    trail.length ≤ G.size := by
  have hsub : trail ⊆ List.range G.size :=
    fun b hb => List.mem_range.mpr (h.lt_size hG b hb)
  simpa using (List.subperm_of_subset h.nodup hsub).length_le

/-- Ranks fall along a trail: no step of it leads back to a dominating block, since such
a block is on the trail already. -/
theorem Trail.rank_le {rank : Nat → Nat}
    (hrank : ∀ e ∈ G.edges, G.Reachable e.source →
      rank e.source < rank e.target ∨ G.Dominates e.target e.source)
    {b : Nat} {trail : List Nat} (h : G.Trail (b :: trail)) :
    ∀ a ∈ b :: trail, rank a ≤ rank b := by
  induction trail generalizing b with
  | nil =>
    intro a ha
    exact Nat.le_of_eq (congrArg rank (List.mem_singleton.mp ha))
  | cons c trail ih =>
    cases h with
    | cons ht hf hb =>
      obtain ⟨e, he, rfl, rfl⟩ := mem_successors.mp hf
      have hup : rank e.source < rank e.target := by
        rcases hrank e he ht.reachable with hup | hdom
        · exact hup
        · exact absurd (ht.mem_of_dominates hdom) hb
      intro a ha
      rcases List.mem_cons.mp ha with rfl | ha
      · exact Nat.le_refl _
      · exact Nat.le_trans (ih ht a ha) (Nat.le_of_lt hup)

/-- An edge from the last block of a trail to a block on it leads to a dominating block. -/
theorem Trail.dominates {b : Nat} {trail : List Nat} (hG : G.Structured)
    (h : G.Trail (b :: trail)) {a : Nat} (ha : a ∈ b :: trail) (hedge : a ∈ G.successors b) :
    G.Dominates a b := by
  obtain ⟨rank, hrank⟩ := hG.ranked
  obtain ⟨e, he, rfl, rfl⟩ := mem_successors.mp hedge
  rcases hrank e he h.reachable with hup | hdom
  · exact absurd (h.rank_le hrank e.target ha) (Nat.not_le.mpr hup)
  · exact hdom

/-- What is known of a walk while it is inside the blocks of a trail. -/
structure Walked (G : Graph) (trail : List Nat) (w : Walk) : Prop where
  seen : ∀ b, b ∈ w.seen ↔ b ∈ trail ∨ b ∈ w.left
  nodup : w.left.Nodup
  outside : ∀ b ∈ trail, b ∉ w.left
  reachable : ∀ b ∈ w.left, G.Reachable b
  closed : ∀ a ∈ w.left, ∀ b ∈ G.successors a, b ∈ w.seen
  ordered : ∀ a ∈ w.left, ∀ b ∈ G.successors a,
    b ∈ w.left ∧ w.left.idxOf a < w.left.idxOf b ∨ G.Dominates b a

theorem Walked.start : G.Walked [] {} where
  seen := by simp
  nodup := List.nodup_nil
  outside := by simp
  reachable := by simp
  closed := by simp
  ordered := by simp

theorem Walked.enter {trail : List Nat} {w : Walk} (h : G.Walked trail w) {b : Nat}
    (hb : b ∉ w.seen) : G.Walked (b :: trail) { w with seen := b :: w.seen } where
  seen c := by simp [h.seen c, or_assoc]
  nodup := h.nodup
  outside c hc := by
    rcases List.mem_cons.mp hc with rfl | hc
    · exact fun hleft => hb ((h.seen c).mpr (.inr hleft))
    · exact h.outside c hc
  reachable := h.reachable
  closed a ha c hc := List.mem_cons_of_mem _ (h.closed a ha c hc)
  ordered := h.ordered

/-- Leaving the last block of the trail once all its successors have been seen. -/
theorem Walked.leave {trail : List Nat} {w : Walk} (hG : G.Structured) {b : Nat}
    (htrail : G.Trail (b :: trail)) (h : G.Walked (b :: trail) w)
    (hsucc : ∀ c ∈ G.successors b, c ∈ w.seen) :
    G.Walked trail { w with left := b :: w.left } where
  seen c := by
    simp only [h.seen c, List.mem_cons]
    constructor
    · rintro ((hc | hc) | hc)
      · exact .inr (.inl hc)
      · exact .inl hc
      · exact .inr (.inr hc)
    · rintro (hc | hc | hc)
      · exact .inl (.inr hc)
      · exact .inl (.inl hc)
      · exact .inr hc
  nodup := List.nodup_cons.mpr ⟨h.outside b (by simp), h.nodup⟩
  outside c hc := by
    have hnd := List.nodup_cons.mp htrail.nodup
    have hne : c ≠ b := fun heq => hnd.1 (heq ▸ hc)
    simp [hne, h.outside c (by simp [hc])]
  reachable c hc := by
    rcases List.mem_cons.mp hc with rfl | hc
    · exact htrail.reachable
    · exact h.reachable c hc
  closed a ha c hc := by
    rcases List.mem_cons.mp ha with rfl | ha
    · exact hsucc c hc
    · exact h.closed a ha c hc
  ordered a ha c hc := by
    rcases List.mem_cons.mp ha with rfl | ha
    · by_cases hmem : c ∈ a :: trail
      · exact .inr (htrail.dominates hG hmem hc)
      · have hleft := ((h.seen c).mp (hsucc c hc)).resolve_left hmem
        have hne : a ≠ c := fun heq => hmem (by simp [heq])
        exact .inl ⟨List.mem_cons_of_mem _ hleft, by simp [hne]⟩
    · have hb := h.outside b (by simp)
      have hba : b ≠ a := fun heq => hb (heq ▸ ha)
      rcases h.ordered a ha c hc with ⟨hleft, hlt⟩ | hdom
      · have hbc : b ≠ c := fun heq => hb (heq ▸ hleft)
        exact .inl ⟨List.mem_cons_of_mem _ hleft, by simp [hba, hbc, hlt]⟩
      · exact .inr hdom

/-- A walk from blocks that can follow the trail sees them all and stays as described. -/
theorem explore_walked (hG : G.Structured) (depth : Nat) (bs : List Nat) (w : Walk)
    (trail : List Nat) (htrail : G.Trail trail) (hbs : ∀ b ∈ bs, G.Follows b trail)
    (hdepth : G.size ≤ depth + trail.length) (h : G.Walked trail w) :
    G.Walked trail (G.explore depth bs w) ∧
      (∀ b ∈ w.seen, b ∈ (G.explore depth bs w).seen) ∧
      ∀ b ∈ bs, b ∈ (G.explore depth bs w).seen := by
  induction depth, bs, w using explore.induct (G := G) generalizing trail with
  | case1 depth w =>
    rw [explore]
    exact ⟨h, fun _ hb => hb, by simp⟩
  | case2 b bs w =>
    rw [explore]
    refine ⟨h, fun _ hb => hb, ?_⟩
    -- The trail holds every block, so there is nothing left to see.
    intro c hc
    by_contra hseen
    have hnot : c ∉ trail := fun hmem => hseen ((h.seen c).mpr (.inl hmem))
    have hlen := (Trail.cons htrail (hbs c hc) hnot).length_le hG
    simp only [List.length_cons] at hlen
    omega
  | case3 depth b bs w hseen ih =>
    rw [explore, if_pos hseen]
    have hb : b ∈ w.seen := by simpa using hseen
    obtain ⟨hw, hold, hnew⟩ := ih trail htrail (fun c hc => hbs c (by simp [hc])) hdepth h
    refine ⟨hw, hold, ?_⟩
    intro c hc
    rcases List.mem_cons.mp hc with rfl | hc
    · exact hold c hb
    · exact hnew c hc
  | case4 depth b bs w hseen inner ih₁ ih₂ =>
    rw [explore, if_neg hseen]
    have hb : b ∉ w.seen := by simpa using hseen
    have hnot : b ∉ trail := fun hmem => hb ((h.seen b).mpr (.inl hmem))
    have htrail' := Trail.cons htrail (hbs b (by simp)) hnot
    have hdepth' : G.size ≤ depth + (b :: trail).length := by
      simp only [List.length_cons]; omega
    obtain ⟨hinner, hold, hsucc⟩ :=
      ih₁ (b :: trail) htrail' (fun c hc => hc) hdepth' (h.enter hb)
    obtain ⟨hw, hkeep, hrest⟩ := ih₂ trail htrail (fun c hc => hbs c (by simp [hc])) hdepth
      (hinner.leave hG htrail' hsucc)
    refine ⟨hw, fun c hc => hkeep c (hold c (by simp [hc])), ?_⟩
    intro c hc
    rcases List.mem_cons.mp hc with rfl | hc
    · exact hkeep c (hold c (by simp))
    · exact hrest c hc

theorem order_walked (hG : G.Structured) :
    G.Walked [] (G.explore G.size [G.entry] {}) ∧
      G.entry ∈ (G.explore G.size [G.entry] {}).seen := by
  obtain ⟨hw, _, hseen⟩ := explore_walked hG G.size [G.entry] {} [] .nil
    (fun b hb => List.mem_singleton.mp hb) (by simp) .start
  exact ⟨hw, hseen G.entry (by simp)⟩

theorem order_nodup (hG : G.Structured) : G.order.Nodup := (order_walked hG).1.nodup

/-- The order lists the blocks that can be reached. -/
theorem mem_order (hG : G.Structured) {b : Nat} : b ∈ G.order ↔ G.Reachable b := by
  obtain ⟨hw, hentry⟩ := order_walked hG
  have hleft : ∀ c, c ∈ (G.explore G.size [G.entry] {}).seen → c ∈ G.order :=
    fun c hc => ((hw.seen c).mp hc).resolve_left (by simp)
  constructor
  · exact hw.reachable b
  · rintro ⟨es, hes⟩
    induction hes with
    | nil => exact hleft _ hentry
    | @snoc es e _ he ih =>
      exact hleft _ (hw.closed _ ih _ (mem_successors.mpr ⟨e, he, rfl, rfl⟩))

/-- An edge from a reachable block leads to a later one or back to a dominating one. -/
theorem order_edge (hG : G.Structured) {e : Edge} (he : e ∈ G.edges)
    (hsource : G.Reachable e.source) :
    G.order.idxOf e.source < G.order.idxOf e.target ∨ G.Dominates e.target e.source := by
  have hmem := (mem_order hG).mpr hsource
  have hsucc := mem_successors.mpr ⟨e, he, rfl, rfl⟩
  rcases (order_walked hG).1.ordered _ hmem _ hsucc with ⟨_, hlt⟩ | hdom
  · exact .inl hlt
  · exact .inr hdom

theorem order_eq_cons (hG : G.Structured) : ∃ rest, G.order = G.entry :: rest := by
  obtain ⟨n, hn⟩ := Nat.exists_eq_add_one.mpr (Nat.zero_lt_of_lt hG.entry_lt)
  unfold order
  rw [hn, explore, if_neg (by simp), explore]
  exact ⟨_, rfl⟩

end LevelGuard.Flow.Graph
