import LevelGuard.Proofs.Entailment
import Mathlib.Data.List.Nodup

/-!
# The lattice of facts

Facts that entail each other say the same: they are equal but for the order in which
they list requirements, or both are contradictory. Up to that the facts form an order,
in which the meet of two facts is the least that both entail. Assumptions go down in the
order and keep it, so facts that are propagated through a graph only depend on what was
known at its start, and more is found if more was known.
-/
namespace LevelGuard.Facts

/-- The facts are known to be contradictory, or their bounds leave some level. -/
def Settled (F : Facts) : Prop :=
  F.bottom = true ∨ ∀ f c, F.floor = some f → F.ceiling = some c → f ≤ c

/-- The same facts but for how they list requirements, or two contradictions. -/
def Alike (F G : Facts) : Prop :=
  F.bottom = true ∧ G.bottom = true ∨
    { F with requirements := G.requirements } = G ∧
      ∀ r, r ∈ F.requirements ↔ r ∈ G.requirements

theorem entails_withRequirements {F : Facts} {rs : List Permission.Requirement}
    (h : ∀ r ∈ rs, r ∈ F.requirements) : F.Entails { F with requirements := rs } := by
  by_cases hF : F.bottom = true
  · exact .of_bottom hF
  · exact .inr ⟨by simpa using hF, { Includes.refl F with requirements := h }⟩

theorem withRequirements_entails {F : Facts} {rs : List Permission.Requirement}
    (h : ∀ r ∈ F.requirements, r ∈ rs) : Entails { F with requirements := rs } F := by
  by_cases hF : F.bottom = true
  · exact .of_bottom hF
  · exact .inr ⟨by simpa using hF, { Includes.refl F with requirements := h }⟩

theorem Alike.entails {F G : Facts} (h : F.Alike G) : F.Entails G := by
  rcases h with ⟨hF, -⟩ | ⟨heq, hmem⟩
  · exact .of_bottom hF
  · rw [← heq]
    exact entails_withRequirements fun r hr => (hmem r).mpr hr

theorem Alike.symm {F G : Facts} (h : F.Alike G) : G.Alike F := by
  rcases h with ⟨hF, hG⟩ | ⟨heq, hmem⟩
  · exact .inl ⟨hG, hF⟩
  · refine .inr ⟨?_, fun r => (hmem r).symm⟩
    rw [← heq]

/-- The order tells facts apart up to how they list requirements. -/
theorem alike_iff {F G : Facts} : F.Alike G ↔ F.Entails G ∧ G.Entails F := by
  refine ⟨fun h => ⟨h.entails, h.symm.entails⟩, ?_⟩
  rintro ⟨hFG, hGF⟩
  cases hF : F.bottom with
  | true => exact .inl ⟨hF, hGF.bottom_eq_true hF⟩
  | false =>
    have hG := hFG.bottom_eq_false hF
    have hmem : ∀ r, r ∈ F.requirements ↔ r ∈ G.requirements := fun r =>
      ⟨(hGF.includes hG).requirements r, (hFG.includes hF).requirements r⟩
    have hle : Entails { F with requirements := G.requirements } G :=
      (withRequirements_entails fun r hr => (hmem r).mp hr).trans hFG
    have hge : G.Entails { F with requirements := G.requirements } :=
      hGF.trans (entails_withRequirements fun r hr => (hmem r).mpr hr)
    rcases hle.antisymm hge rfl with heq | ⟨-, hbottom⟩
    · exact .inr ⟨heq, hmem⟩
    · rw [hG] at hbottom
      cases hbottom

/-- The meet is the least of the facts that both entail. -/
theorem meet_entails_iff {F G H : Facts} : (F.meet G).Entails H ↔ F.Entails H ∧ G.Entails H := by
  constructor
  · intro h
    exact ⟨(entails_meet_left F G).trans h, (entails_meet_right F G).trans h⟩
  · rintro ⟨hF, hG⟩
    exact meet_entails hF hG

theorem meet_comm_alike (F G : Facts) : (F.meet G).Alike (G.meet F) :=
  alike_iff.mpr ⟨meet_entails (entails_meet_right G F) (entails_meet_left G F),
    meet_entails (entails_meet_right F G) (entails_meet_left F G)⟩

theorem common_assoc {pick : Level → Level → Level}
    (hpick : ∀ x y z, pick (pick x y) z = pick x (pick y z)) (a b c : Option Level) :
    common pick (common pick a b) c = common pick a (common pick b c) := by
  cases a with
  | none => rfl
  | some x =>
    cases b with
    | none => rfl
    | some y =>
      cases c with
      | none => rfl
      | some z => simp only [common, hpick]

theorem inter_assoc {α : Type} [Key α] [DecidableEq α] (s t u : SortedSet α) :
    (s.inter t).inter u = s.inter (t.inter u) :=
  SortedSet.eq_of_mem_iff fun a => by simp only [SortedSet.mem_inter, and_assoc]

theorem meet_bottom {F G : Facts} (hF : F.bottom = false) : (F.meet G).bottom = false := by
  cases hG : G.bottom with
  | true => rw [meet_of_bottom_right hF hG, hF]
  | false => simp [meet, hF, hG]

theorem meet_assoc (F G H : Facts) : (F.meet G).meet H = F.meet (G.meet H) := by
  cases hF : F.bottom with
  | true => rw [meet_of_bottom_left hF, meet_of_bottom_left hF]
  | false =>
    cases hG : G.bottom with
    | true => rw [meet_of_bottom_right hF hG, meet_of_bottom_left hG]
    | false =>
      cases hH : H.bottom with
      | true => rw [meet_of_bottom_right (meet_bottom hF) hH, meet_of_bottom_right hG hH]
      | false =>
        have hfilter : ((F.requirements.filter G.requirements.contains).filter
            H.requirements.contains) =
              F.requirements.filter (G.requirements.filter H.requirements.contains).contains := by
          rw [List.filter_filter]
          refine List.filter_congr fun r _ => ?_
          rw [Bool.eq_iff_iff]
          simp [and_comm]
        simp [meet, hF, hG, hH, common_assoc Nat.min_assoc, common_assoc Nat.max_assoc,
          inter_assoc, hfilter]

theorem meet_self (F : Facts) : F.meet F = F := by
  cases hF : F.bottom with
  | true => exact meet_of_bottom_left hF
  | false =>
    have hcommon : ∀ {pick : Level → Level → Level}, (∀ x, pick x x = x) →
        ∀ a, common pick a a = a := by
      intro pick hpick a
      cases a with
      | none => rfl
      | some x => simp only [common, hpick]
    have hinter : ∀ {α : Type} [Key α] [DecidableEq α] (s : SortedSet α), s.inter s = s := fun s =>
      SortedSet.eq_of_mem_iff fun a => by simp
    have hfilter : F.requirements.filter F.requirements.contains = F.requirements :=
      List.filter_eq_self.mpr fun r hr => by simpa using hr
    simp only [meet, hF, Bool.false_eq_true, if_false, hcommon Nat.min_self, hcommon Nat.max_self,
      hinter, hfilter]
    rw [← hF]

/-- Two meets in opposite order list the same requirements, each once if the facts do. -/
theorem meet_requirements_perm {F G : Facts} (hF : F.bottom = false) (hG : G.bottom = false)
    (hFonce : F.requirements.Nodup) (hGonce : G.requirements.Nodup) :
    (F.meet G).requirements.Perm (G.meet F).requirements := by
  have hfilter : ∀ {H K : Facts}, H.bottom = false → K.bottom = false →
      (H.meet K).requirements = H.requirements.filter K.requirements.contains := by
    intro H K hH hK
    simp [meet, hH, hK]
  rw [hfilter hF hG, hfilter hG hF,
    List.perm_ext_iff_of_nodup (hFonce.filter _) (hGonce.filter _)]
  intro r
  simp [and_comm]

theorem settled_settle (F : Facts) : F.settle.Settled := by
  cases hcontra : F.contradictory with
  | true => exact .inl (by simp [settle, hcontra])
  | false =>
    refine .inr fun f c hf hc => Nat.le_of_not_lt fun hlt => ?_
    have htrue : F.contradictory = true := contradictory_iff.mpr ⟨f, c, hf, hc, hlt⟩
    rw [hcontra] at htrue
    cases htrue

theorem settled_raiseFloor (F : Facts) (v : Level) : (F.raiseFloor v).Settled :=
  settled_settle _

theorem settled_lowerCeiling (F : Facts) (v : Level) : (F.lowerCeiling v).Settled :=
  settled_settle _

theorem Settled.meet {F G : Facts} (hF : F.Settled) (hG : G.Settled) : (F.meet G).Settled := by
  cases bF : F.bottom with
  | true => rwa [meet_of_bottom_left bF]
  | false =>
    cases bG : G.bottom with
    | true => rwa [meet_of_bottom_right bF bG]
    | false =>
      have hbounds := hF.resolve_left (by simp [bF])
      refine .inr fun f c hf hc => ?_
      -- The first facts have both bounds, and the meet's are no tighter.
      have hincludes := (entails_meet_left F G).includes bF
      obtain ⟨f', hf', hle⟩ := hincludes.floor f hf
      obtain ⟨c', hc', hge⟩ := hincludes.ceiling c hc
      exact Nat.le_trans hle (Nat.le_trans (hbounds f' c' hf' hc') hge)

theorem Settled.assume_leaf {F : Facts} (hF : F.Settled) {g : Guard} (hg : g.IsLeaf) (t : Bool) :
    (F.assume g t).Settled := by
  refine assume_leaf_of_step hF hg t fun _ step hstep => ?_
  cases hstep with
  | keep | hold _ | exclude _ => exact hF
  | fail => exact .inl rfl
  | raise v => exact settled_raiseFloor F v
  | lower v => exact settled_lowerCeiling F v
  | pin v => exact settled_lowerCeiling _ v

theorem Settled.assume {F : Facts} (hF : F.Settled) (g : Guard) (t : Bool) :
    (F.assume g t).Settled :=
  Stable.assume ⟨fun _ _ t hg hH => hH.assume_leaf hg t, fun _ _ hH hK => hH.meet hK⟩ hF g t

/-- The laws of an analysis by meets and assumptions.

Entailment is an order up to `Alike`, and the facts whose bounds leave some level are closed
under both operations. The meet is a least upper bound, so it is associative, commutative and
idempotent, and any contradiction is neutral. Assumptions only go down, and both operations
are monotone. -/
structure MonotoneLattice (F G H : Facts) (g : Guard) (t : Bool) : Prop where
  refl : F.Entails F
  trans : F.Entails G → G.Entails H → F.Entails H
  antisymm : F.Entails G ∧ G.Entails F ↔ F.Alike G
  settled_meet : F.Settled → G.Settled → (F.meet G).Settled
  settled_assume : F.Settled → (F.assume g t).Settled
  meet_least : (F.meet G).Entails H ↔ F.Entails H ∧ G.Entails H
  meet_assoc : (F.meet G).meet H = F.meet (G.meet H)
  meet_comm : (F.meet G).Alike (G.meet F)
  requirements_perm : F.bottom = false → G.bottom = false → F.requirements.Nodup →
    G.requirements.Nodup → (F.meet G).requirements.Perm (G.meet F).requirements
  meet_idem : F.meet F = F
  meet_bottom : F.bottom = true → F.meet G = G ∧ (G.meet F).Alike G
  assume_le : (F.assume g t).Entails F
  assume_mono : F.Entails G → (F.assume g t).Entails (G.assume g t)
  meet_mono : F.Entails G → (F.meet H).Entails (G.meet H) ∧ (H.meet F).Entails (H.meet G)

theorem meet_assume_monotone_lattice (F G H : Facts) (g : Guard) (t : Bool) :
    MonotoneLattice F G H g t where
  refl := .refl F
  trans h h' := h.trans h'
  antisymm := alike_iff.symm
  settled_meet := Settled.meet
  settled_assume h := h.assume g t
  meet_least := meet_entails_iff
  meet_assoc := meet_assoc F G H
  meet_comm := meet_comm_alike F G
  requirements_perm := meet_requirements_perm
  meet_idem := meet_self F
  meet_bottom hF := by
    have hleft : F.meet G = G := meet_of_bottom_left hF
    have hcomm := meet_comm_alike G F
    rw [hleft] at hcomm
    exact ⟨hleft, hcomm⟩
  assume_le := assume_entails F g t
  assume_mono h := assume_mono h g t
  meet_mono h := ⟨meet_mono h (.refl H), meet_mono (.refl H) h⟩

/-- Facts behind a check of the level and a permission, in a method with two requirements. -/
def checkedFacts : Facts :=
  { floor := some 26
    held := .ofList ["p.P"]
    requirements := [⟨.single "p.A", none⟩, ⟨.single "p.B", none⟩] }

/-- Facts before that check, in a method that lists a requirement of it and another. -/
def uncheckedFacts : Facts :=
  { ceiling := some 30
    requirements := [⟨.single "p.C", none⟩, ⟨.single "p.B", none⟩, ⟨.single "p.A", none⟩] }

/-- A contradiction that still has both of its bounds. -/
def contradiction : Facts := top.assume (.and [.atLeast 24, .atMost 21]) true

theorem meet_assume_monotone_lattice_sample :
    contradiction.Entails checkedFacts ∧
    (checkedFacts.meet uncheckedFacts).Settled ∧
    (checkedFacts.assume (.atMost 28) true).Settled ∧
    (checkedFacts.meet uncheckedFacts).requirements.Perm
      (uncheckedFacts.meet checkedFacts).requirements ∧
    (checkedFacts.meet uncheckedFacts).requirements ≠
      (uncheckedFacts.meet checkedFacts).requirements ∧
    (uncheckedFacts.meet contradiction).Alike uncheckedFacts ∧
    ((checkedFacts.assume (.atMost 28) true).assume (.or [.held "p.Q", .atLeast 27]) true).Entails
      (checkedFacts.assume (.or [.held "p.Q", .atLeast 27]) true) ∧
    ((checkedFacts.assume (.atMost 28) true).meet uncheckedFacts).Entails
      (checkedFacts.meet uncheckedFacts) := by
  have hbottom : contradiction.bottom = true := by decide +kernel
  have hchecked : checkedFacts.Settled := .inr fun _ _ _ hc => by cases hc
  have hunchecked : uncheckedFacts.Settled := .inr fun _ _ hf _ => by cases hf
  have hless : (checkedFacts.assume (.atMost 28) true).Entails checkedFacts :=
    assume_entails _ _ _
  have hpair := meet_assume_monotone_lattice checkedFacts uncheckedFacts top (.atMost 28) true
  exact ⟨(meet_assume_monotone_lattice _ _ _ .unknown true).trans (.of_bottom hbottom) hless,
    hpair.settled_meet hchecked hunchecked, hpair.settled_assume hchecked,
    hpair.requirements_perm rfl rfl (by decide +kernel) (by decide +kernel), by decide +kernel,
    ((meet_assume_monotone_lattice contradiction uncheckedFacts top .unknown true).meet_bottom hbottom).2,
    (meet_assume_monotone_lattice _ _ top _ true).assume_mono hless,
    ((meet_assume_monotone_lattice _ _ uncheckedFacts .unknown true).meet_mono hless).1⟩

end LevelGuard.Facts
