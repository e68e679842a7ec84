import Mathlib.Data.List.Nodup
import Mathlib.Data.List.Perm.Basic
import LevelGuard.Hierarchy

/-!
# Links and ancestors

A link is recorded or not whatever links lead from other types, so the links from a type
after a run are found from those that the run offers for this type. The ancestors of a
type are found from the links and from the names of the known types, in whatever order
these were added.
-/
namespace LevelGuard.Hierarchy

/-- The links that lead from a type in the order of declaration. -/
def linksFrom (H : Hierarchy) (name : String) : List Link := H.links.filter fun l => l.sub = name

theorem supertypes_eq (H : Hierarchy) (name : String) (kind : LinkKind) :
    H.supertypes name kind =
      ((H.linksFrom name).filter fun l => l.kind = kind).map Link.super := by
  simp only [supertypes, linksFrom, List.filter_filter, Bool.and_comm]

def addLink (H : Hierarchy) (l : Link) : Hierarchy := H.link l.sub l.super l.kind

@[simp] theorem types_addLink (H : Hierarchy) (l : Link) : (H.addLink l).types = H.types := by
  unfold addLink link
  split <;> rfl

theorem types_foldl_addLink (ls : List Link) (H : Hierarchy) :
    (ls.foldl addLink H).types = H.types := by
  induction ls generalizing H with
  | nil => rfl
  | cons l ls ih => rw [List.foldl_cons, ih, types_addLink]

/-- What a link adds to the links that lead from the same type. -/
def extend (known : String → Bool) (from? : List Link) (l : Link) : List Link :=
  if known l.sub && known l.super && l.sub != l.super && !from?.any (fun k => k.super = l.super) then
    from? ++ [l]
  else from?

theorem linksFrom_addLink (H : Hierarchy) (l : Link) :
    (H.addLink l).linksFrom l.sub = extend H.contains (H.linksFrom l.sub) l := by
  have hrepeated : H.links.any (fun k => k.sub = l.sub && k.super = l.super) =
      (H.linksFrom l.sub).any fun k => k.super = l.super := by
    rw [linksFrom, List.any_filter]
  unfold addLink link extend
  rw [hrepeated]
  split
  · simp [linksFrom]
  · rfl

theorem linksFrom_addLink_of_ne (H : Hierarchy) {l : Link} {name : String} (h : l.sub ≠ name) :
    (H.addLink l).linksFrom name = H.linksFrom name := by
  unfold addLink link
  split
  · simp [linksFrom, h]
  · rfl

/-- The links from a type after a run are made from those the run offers for the type. -/
theorem linksFrom_foldl (ls : List Link) (H : Hierarchy) (name : String) :
    (ls.foldl addLink H).linksFrom name =
      (ls.filter fun l => l.sub = name).foldl (extend H.contains) (H.linksFrom name) := by
  induction ls generalizing H with
  | nil => rfl
  | cons l ls ih =>
    have hcontains : (H.addLink l).contains = H.contains := by
      funext n
      simp [contains]
    rw [List.foldl_cons, ih, hcontains]
    by_cases hl : l.sub = name
    · subst hl
      rw [linksFrom_addLink, List.filter_cons_of_pos (by simp), List.foldl_cons]
    · rw [linksFrom_addLink_of_ne H hl, List.filter_cons_of_neg (by simpa using hl)]

section Extend

variable {known : String → Bool}

theorem extend_nil (l : Link) : extend known [] l =
    if known l.sub && known l.super && l.sub != l.super then [l] else [] := by
  simp [extend]

/-- A run of links leads to those of the offered types that are known and different. -/
theorem mem_foldl_extend {name s : String} (ls : List Link) (hls : ∀ l ∈ ls, l.sub = name)
    (from? : List Link) :
    (∃ l ∈ ls.foldl (extend known) from?, l.super = s) ↔ (∃ l ∈ from?, l.super = s) ∨
      known name = true ∧ known s = true ∧ name ≠ s ∧ ∃ l ∈ ls, l.super = s := by
  induction ls generalizing from? with
  | nil => simp
  | cons l ls ih =>
    obtain ⟨hl, hls⟩ := List.forall_mem_cons.mp hls
    rw [List.foldl_cons, ih hls]
    have hstep : (∃ k ∈ extend known from? l, k.super = s) ↔ (∃ k ∈ from?, k.super = s) ∨
        known name = true ∧ known s = true ∧ name ≠ s ∧ l.super = s := by
      unfold extend
      rw [hl]
      split
      · next haccepted =>
        simp only [Bool.and_eq_true, bne_iff_ne, ne_eq] at haccepted
        obtain ⟨⟨⟨hname, hsuper⟩, hne⟩, -⟩ := haccepted
        simp only [List.mem_append, List.mem_singleton, or_and_right, exists_or, exists_eq_left]
        refine or_congr_right ⟨?_, fun h => h.2.2.2⟩
        rintro rfl
        exact ⟨hname, hsuper, hne, rfl⟩
      · next hrejected =>
        refine ⟨.inl, fun h => h.elim id ?_⟩
        rintro ⟨hname, hs, hne, rfl⟩
        -- The link is left out, so there is one already.
        have hany : from?.any (fun k => k.super = l.super) = true := by
          simpa [hname, hs, hne] using hrejected
        simpa using hany
    rw [hstep]
    simp only [List.exists_mem_cons_iff, and_or_left, or_assoc]

/-- Links of one kind leave those of another as they are. -/
theorem filter_kind_foldl_extend {kind : LinkKind} (ls : List Link)
    (hls : ∀ l ∈ ls, l.kind ≠ kind) (from? : List Link) :
    (ls.foldl (extend known) from?).filter (fun l => l.kind = kind) =
      from?.filter fun l => l.kind = kind := by
  induction ls generalizing from? with
  | nil => rfl
  | cons l ls ih =>
    obtain ⟨hl, hls⟩ := List.forall_mem_cons.mp hls
    rw [List.foldl_cons, ih hls]
    unfold extend
    split
    · simp [hl]
    · rfl

end Extend

section Offers

variable {α : Type} (key : α → String) {offer : α → List Link}
  (hoffer : ∀ a, ∀ l ∈ offer a, l.sub = key a) {as : List α}
include hoffer

theorem filter_flatMap_eq_nil {name : String} (h : ∀ a ∈ as, key a ≠ name) :
    (as.flatMap offer).filter (fun l => l.sub = name) = [] := by
  simp only [List.filter_eq_nil_iff, List.mem_flatMap, decide_eq_true_eq]
  rintro l ⟨a, ha, hl⟩ heq
  exact h a ha ((hoffer a l hl).symm.trans heq)

variable (hkeys : (as.map key).Nodup)
include hkeys

/-- Where each source of links has a name of its own, the links from this name are its own. -/
theorem filter_flatMap_sub {a : α} (ha : a ∈ as) :
    (as.flatMap offer).filter (fun l => l.sub = key a) = offer a := by
  obtain ⟨before, after, rfl⟩ := List.append_of_mem ha
  have hothers : ∀ b ∈ before ++ after, key b ≠ key a := by
    intro b hb heq
    rw [List.map_append, List.map_cons, List.nodup_middle, List.nodup_cons, ← List.map_append] at hkeys
    exact hkeys.1 (heq ▸ List.mem_map_of_mem hb)
  have hown : (offer a).filter (fun l => l.sub = key a) = offer a := by
    simpa [List.filter_eq_self] using hoffer a
  rw [List.flatMap_append, List.flatMap_cons, List.filter_append, List.filter_append, hown,
    filter_flatMap_eq_nil key hoffer fun b hb => hothers b (List.mem_append_left _ hb),
    filter_flatMap_eq_nil key hoffer fun b hb => hothers b (List.mem_append_right _ hb)]
  simp

/-- The order of the sources does not show in the links from a name. -/
theorem filter_flatMap_perm {bs : List α} (hperm : as.Perm bs) (name : String) :
    (as.flatMap offer).filter (fun l => l.sub = name) =
      (bs.flatMap offer).filter fun l => l.sub = name := by
  by_cases hname : ∃ a ∈ as, key a = name
  · obtain ⟨a, ha, rfl⟩ := hname
    rw [filter_flatMap_sub key hoffer hkeys ha,
      filter_flatMap_sub key hoffer ((hperm.map key).nodup hkeys) (hperm.mem_iff.mp ha)]
  · have hnone : ∀ a ∈ as, key a ≠ name := fun a ha heq => hname ⟨a, ha, heq⟩
    rw [filter_flatMap_eq_nil key hoffer hnone,
      filter_flatMap_eq_nil key hoffer fun b hb => hnone b (hperm.mem_iff.mpr hb)]

end Offers

variable {H H' : Hierarchy}

theorem ancestors_eq_nil {name : String} (h : H.linksFrom name = []) : H.ancestors name = [] := by
  have hnone : ∀ kind, H.supertypes name kind = [] := fun kind => by rw [supertypes_eq, h]; rfl
  have hchain : ∀ unseen, H.chain unseen name = [] := fun unseen => by
    rw [chain, superClass?, hnone]
    rfl
  unfold ancestors
  split
  · simp [hchain, hnone, walk]
  · rfl

section Same

variable (h : ∀ name kind, H.supertypes name kind = H'.supertypes name kind)
include h

theorem superClass?_congr (name : String) : H.superClass? name = H'.superClass? name := by
  rw [superClass?, h, superClass?]

theorem chain_congr {unseen unseen' : List String} (hunseen : unseen.Perm unseen') (name : String) :
    H.chain unseen name = H'.chain unseen' name := by
  fun_induction chain H unseen name generalizing unseen' with
  | case1 unseen name hnone =>
    rw [superClass?_congr h] at hnone
    rw [chain, hnone]
  | case2 unseen name s hs hmem ih =>
    rw [superClass?_congr h] at hs
    rw [ih (hunseen.erase s), chain.eq_def H' unseen', hs]
    simp [hunseen.mem_iff.mp hmem]
  | case3 unseen name s hs hmem =>
    rw [superClass?_congr h] at hs
    rw [chain, hs]
    simp [mt hunseen.mem_iff.mpr hmem]

theorem walk_congr {unseen unseen' : List String} (hunseen : unseen.Perm unseen')
    (queue : List String) : H.walk unseen queue = H'.walk unseen' queue := by
  fun_induction walk H unseen queue generalizing unseen' with
  | case1 unseen => rw [walk]
  | case2 unseen t queue hmem ih =>
    rw [walk, if_pos (hunseen.mem_iff.mp hmem), ih (hunseen.erase t), h, h]
  | case3 unseen t queue hmem ih =>
    rw [walk, if_neg (mt hunseen.mem_iff.mpr hmem), ih hunseen]

/-- The order in which types were added does not show in the ancestors. -/
theorem ancestors_congr (hkeys : H.types.keys.Perm H'.types.keys) (name : String) :
    H.ancestors name = H'.ancestors name := by
  have hcontains : H.contains name = H'.contains name := by
    rw [Bool.eq_iff_iff, contains, contains, Table.contains_iff_mem_keys,
      Table.contains_iff_mem_keys, hkeys.mem_iff]
  have hunseen := hkeys.erase name
  simp only [ancestors, hcontains, chain_congr h hunseen name, h]
  rw [walk_congr h (hunseen.filter _)]

end Same

end LevelGuard.Hierarchy
