import LevelGuard.Facts.Basic

/-!
# The order of facts

Facts entail others if they say at least as much; contradictory facts entail all.
`meet` is the least upper bound of this order: what two paths have in common is the
strongest statement that both of them entail. Refining facts by a guard makes them
stronger, and refining stronger facts gives stronger facts.

The order only compares what facts say. Two fact sets that entail each other are
equal or both contradictory, as long as they list the same requirements: the order
does not see in which order requirements are listed.
-/
namespace LevelGuard

/-- Two sets in increasing order with the same members are the same list. -/
theorem SortedSet.eq_of_mem_iff {α : Type} [Key α] {s t : SortedSet α}
    (h : ∀ a, a ∈ s ↔ a ∈ t) : s = t := by
  obtain ⟨l, hl⟩ := s
  obtain ⟨m, hm⟩ := t
  apply SortedSet.ext
  change ∀ a, a ∈ l ↔ a ∈ m at h
  change l = m
  induction l generalizing m with
  | nil =>
    cases m with
    | nil => rfl
    | cons b m => exact absurd ((h b).mpr (by simp)) (by simp)
  | cons a l ih =>
    cases m with
    | nil => exact absurd ((h a).mp (by simp)) (by simp)
    | cons b m =>
      have ha := List.pairwise_cons.mp hl
      have hb := List.pairwise_cons.mp hm
      have not_lt : ¬ a < b := by
        intro hab
        rcases List.mem_cons.mp ((h a).mp (by simp)) with rfl | ham
        · exact Key.lt_irrefl _ hab
        · exact Key.lt_irrefl _ (Key.lt_trans hab (hb.1 a ham))
      have not_gt : ¬ b < a := by
        intro hba
        rcases List.mem_cons.mp ((h b).mpr (by simp)) with rfl | hbl
        · exact Key.lt_irrefl _ hba
        · exact Key.lt_irrefl _ (Key.lt_trans hba (ha.1 b hbl))
      obtain rfl := Key.eq_of_not_lt not_lt not_gt
      have tails : ∀ x, x ∈ l ↔ x ∈ m := by
        intro x
        constructor
        · intro hx
          rcases List.mem_cons.mp ((h x).mp (by simp [hx])) with rfl | hxm
          · exact absurd (ha.1 x hx) (Key.lt_irrefl x)
          · exact hxm
        · intro hx
          rcases List.mem_cons.mp ((h x).mpr (by simp [hx])) with rfl | hxl
          · exact absurd (hb.1 x hx) (Key.lt_irrefl x)
          · exact hxl
      rw [ih ha.2 m hb.2 tails]

/-- A guard that combines no others. -/
def Guard.IsLeaf : Guard → Prop
  | .and _ | .or _ | .not _ => False
  | _ => True

namespace Facts

/-- The second bound from below is there and no smaller, if the first is there. -/
def FloorLe (a b : Option Level) : Prop := ∀ x, a = some x → ∃ y, b = some y ∧ x ≤ y

/-- The second bound from above is there and no greater, if the first is there. -/
def CeilingLe (a b : Option Level) : Prop := ∀ x, a = some x → ∃ y, b = some y ∧ y ≤ x

theorem FloorLe.refl (a : Option Level) : FloorLe a a := fun x hx => ⟨x, hx, Nat.le_refl x⟩

theorem CeilingLe.refl (a : Option Level) : CeilingLe a a := fun x hx => ⟨x, hx, Nat.le_refl x⟩

theorem FloorLe.trans {a b c : Option Level} (hab : FloorLe a b) (hbc : FloorLe b c) :
    FloorLe a c := by
  intro x hx
  obtain ⟨y, hy, hxy⟩ := hab x hx
  obtain ⟨z, hz, hyz⟩ := hbc y hy
  exact ⟨z, hz, Nat.le_trans hxy hyz⟩

theorem CeilingLe.trans {a b c : Option Level} (hab : CeilingLe a b) (hbc : CeilingLe b c) :
    CeilingLe a c := by
  intro x hx
  obtain ⟨y, hy, hxy⟩ := hab x hx
  obtain ⟨z, hz, hyz⟩ := hbc y hy
  exact ⟨z, hz, Nat.le_trans hyz hxy⟩

theorem FloorLe.antisymm {a b : Option Level} (hab : FloorLe a b) (hba : FloorLe b a) :
    a = b := by
  cases a with
  | none =>
    cases b with
    | none => rfl
    | some y => obtain ⟨x, hx, _⟩ := hba y rfl; cases hx
  | some x =>
    obtain ⟨y, rfl, hxy⟩ := hab x rfl
    obtain ⟨z, hz, hyz⟩ := hba y rfl
    cases hz
    rw [Nat.le_antisymm hxy hyz]

theorem CeilingLe.antisymm {a b : Option Level} (hab : CeilingLe a b) (hba : CeilingLe b a) :
    a = b := by
  cases a with
  | none =>
    cases b with
    | none => rfl
    | some y => obtain ⟨x, hx, _⟩ := hba y rfl; cases hx
  | some x =>
    obtain ⟨y, rfl, hyx⟩ := hab x rfl
    obtain ⟨z, hz, hzy⟩ := hba y rfl
    cases hz
    rw [Nat.le_antisymm hzy hyx]

/-- Whatever the second facts say, the first say too; contradictions aside. -/
structure Includes (F G : Facts) : Prop where
  floor : FloorLe G.floor F.floor
  annotationFloor : FloorLe G.annotationFloor F.annotationFloor
  ceiling : CeilingLe G.ceiling F.ceiling
  held : ∀ p ∈ G.held, p ∈ F.held
  excluded : ∀ t ∈ G.excluded, t ∈ F.excluded
  suppressed : ∀ c ∈ G.suppressed, c ∈ F.suppressed
  requirements : ∀ r ∈ G.requirements, r ∈ F.requirements

/-- The first facts are contradictory or say all that the second say. -/
def Entails (F G : Facts) : Prop := F.bottom = true ∨ G.bottom = false ∧ F.Includes G

theorem Includes.refl (F : Facts) : F.Includes F :=
  ⟨.refl _, .refl _, .refl _, fun _ h => h, fun _ h => h, fun _ h => h, fun _ h => h⟩

theorem Includes.trans {F G H : Facts} (h₁ : F.Includes G) (h₂ : G.Includes H) : F.Includes H where
  floor := h₂.floor.trans h₁.floor
  annotationFloor := h₂.annotationFloor.trans h₁.annotationFloor
  ceiling := h₂.ceiling.trans h₁.ceiling
  held p hp := h₁.held p (h₂.held p hp)
  excluded t ht := h₁.excluded t (h₂.excluded t ht)
  suppressed c hc := h₁.suppressed c (h₂.suppressed c hc)
  requirements r hr := h₁.requirements r (h₂.requirements r hr)

theorem Entails.of_bottom {F G : Facts} (h : F.bottom = true) : F.Entails G := .inl h

theorem Entails.refl (F : Facts) : F.Entails F := by
  cases h : F.bottom with
  | true => exact .inl h
  | false => exact .inr ⟨h, .refl F⟩

theorem Entails.trans {F G H : Facts} (h₁ : F.Entails G) (h₂ : G.Entails H) : F.Entails H := by
  rcases h₁ with hF | ⟨hG, h₁⟩
  · exact .inl hF
  · rcases h₂ with hG' | ⟨hH, h₂⟩
    · rw [hG] at hG'; cases hG'
    · exact .inr ⟨hH, h₁.trans h₂⟩

theorem Entails.includes {F G : Facts} (h : F.Entails G) (hF : F.bottom = false) : F.Includes G := by
  rcases h with hF' | h
  · rw [hF] at hF'; cases hF'
  · exact h.2

theorem Entails.bottom_eq_false {F G : Facts} (h : F.Entails G) (hF : F.bottom = false) :
    G.bottom = false := by
  rcases h with hF' | h
  · rw [hF] at hF'; cases hF'
  · exact h.1

theorem Entails.bottom_eq_true {F G : Facts} (h : F.Entails G) (hG : G.bottom = true) :
    F.bottom = true := by
  rcases h with hF | h
  · exact hF
  · rw [h.1] at hG; cases hG

theorem entails_top (F : Facts) : F.Entails top := by
  refine .inr ⟨rfl, ⟨?_, ?_, ?_, ?_, ?_, ?_, ?_⟩⟩
  · intro x hx; cases hx
  · intro x hx; cases hx
  · intro x hx; cases hx
  · intro p hp; cases hp
  · intro t ht; cases ht
  · intro c hc; cases hc
  · intro r hr; cases hr

/-- Facts that say the same: the same facts, or two contradictions. -/
def Agrees (F G : Facts) : Prop := F = G ∨ F.bottom = true ∧ G.bottom = true

theorem Agrees.symm {F G : Facts} (h : F.Agrees G) : G.Agrees F := by
  rcases h with rfl | ⟨hF, hG⟩
  · exact .inl rfl
  · exact .inr ⟨hG, hF⟩

theorem Agrees.trans {F G H : Facts} (h : F.Agrees G) (h' : G.Agrees H) : F.Agrees H := by
  rcases h with rfl | ⟨hF, hG⟩
  · exact h'
  · rcases h' with rfl | ⟨_, hH⟩
    · exact .inr ⟨hF, hG⟩
    · exact .inr ⟨hF, hH⟩

theorem Agrees.entails {F G : Facts} (h : F.Agrees G) : F.Entails G := by
  rcases h with rfl | ⟨hF, _⟩
  · exact .refl F
  · exact .of_bottom hF

theorem Entails.antisymm {F G : Facts} (h₁ : F.Entails G) (h₂ : G.Entails F)
    (hr : F.requirements = G.requirements) : F.Agrees G := by
  cases hF : F.bottom with
  | true => exact .inr ⟨hF, h₂.bottom_eq_true hF⟩
  | false =>
    have hG := h₁.bottom_eq_false hF
    have s₁ := h₁.includes hF
    have s₂ := h₂.includes hG
    have hfloor := s₂.floor.antisymm s₁.floor
    have hdeclared := s₂.annotationFloor.antisymm s₁.annotationFloor
    have hceiling := s₂.ceiling.antisymm s₁.ceiling
    have hheld := SortedSet.eq_of_mem_iff fun p => ⟨s₂.held p, s₁.held p⟩
    have hexcluded := SortedSet.eq_of_mem_iff fun t => ⟨s₂.excluded t, s₁.excluded t⟩
    have hsuppressed := SortedSet.eq_of_mem_iff fun c => ⟨s₂.suppressed c, s₁.suppressed c⟩
    left
    cases F
    cases G
    simp_all

theorem floorLe_common_left (a b : Option Level) : FloorLe (common min a b) a := by
  intro x hx
  cases a with
  | none => cases hx
  | some y =>
    cases b with
    | none => cases hx
    | some z =>
      cases hx
      exact ⟨y, rfl, Nat.min_le_left y z⟩

theorem floorLe_common_right (a b : Option Level) : FloorLe (common min a b) b := by
  intro x hx
  cases a with
  | none => cases hx
  | some y =>
    cases b with
    | none => cases hx
    | some z =>
      cases hx
      exact ⟨z, rfl, Nat.min_le_right y z⟩

theorem floorLe_common {a b c : Option Level} (ha : FloorLe c a) (hb : FloorLe c b) :
    FloorLe c (common min a b) := by
  intro x hx
  obtain ⟨y, rfl, hxy⟩ := ha x hx
  obtain ⟨z, rfl, hxz⟩ := hb x hx
  exact ⟨min y z, rfl, Nat.le_min.mpr ⟨hxy, hxz⟩⟩

theorem ceilingLe_common_left (a b : Option Level) : CeilingLe (common max a b) a := by
  intro x hx
  cases a with
  | none => cases hx
  | some y =>
    cases b with
    | none => cases hx
    | some z =>
      cases hx
      exact ⟨y, rfl, Nat.le_max_left y z⟩

theorem ceilingLe_common_right (a b : Option Level) : CeilingLe (common max a b) b := by
  intro x hx
  cases a with
  | none => cases hx
  | some y =>
    cases b with
    | none => cases hx
    | some z =>
      cases hx
      exact ⟨z, rfl, Nat.le_max_right y z⟩

theorem ceilingLe_common {a b c : Option Level} (ha : CeilingLe c a) (hb : CeilingLe c b) :
    CeilingLe c (common max a b) := by
  intro x hx
  obtain ⟨y, rfl, hyx⟩ := ha x hx
  obtain ⟨z, rfl, hzx⟩ := hb x hx
  exact ⟨max y z, rfl, Nat.max_le.mpr ⟨hyx, hzx⟩⟩

theorem meet_of_bottom_left {F G : Facts} (h : F.bottom = true) : F.meet G = G := by
  simp [meet, h]

theorem meet_of_bottom_right {F G : Facts} (hF : F.bottom = false) (hG : G.bottom = true) :
    F.meet G = F := by
  simp [meet, hF, hG]

theorem entails_meet_left (F G : Facts) : F.Entails (F.meet G) := by
  cases hF : F.bottom with
  | true => exact .of_bottom hF
  | false =>
    cases hG : G.bottom with
    | true =>
      rw [meet_of_bottom_right hF hG]
      exact .refl F
    | false =>
      simp only [meet, hF, hG, Bool.false_eq_true, if_false]
      refine .inr ⟨rfl, ⟨floorLe_common_left _ _, floorLe_common_left _ _,
        ceilingLe_common_left _ _, ?_, ?_, ?_, ?_⟩⟩
      · intro p hp; exact (SortedSet.mem_inter.mp hp).1
      · intro t ht; exact (SortedSet.mem_inter.mp ht).1
      · intro c hc; exact (SortedSet.mem_inter.mp hc).1
      · intro r hr; exact (List.mem_filter.mp hr).1

theorem entails_meet_right (F G : Facts) : G.Entails (F.meet G) := by
  cases hF : F.bottom with
  | true =>
    rw [meet_of_bottom_left hF]
    exact .refl G
  | false =>
    cases hG : G.bottom with
    | true => exact .of_bottom hG
    | false =>
      simp only [meet, hF, hG, Bool.false_eq_true, if_false]
      refine .inr ⟨rfl, ⟨floorLe_common_right _ _, floorLe_common_right _ _,
        ceilingLe_common_right _ _, ?_, ?_, ?_, ?_⟩⟩
      · intro p hp; exact (SortedSet.mem_inter.mp hp).2
      · intro t ht; exact (SortedSet.mem_inter.mp ht).2
      · intro c hc; exact (SortedSet.mem_inter.mp hc).2
      · intro r hr; simpa using (List.mem_filter.mp hr).2

/-- The meet is the strongest of what both sides entail. -/
theorem meet_entails {F G H : Facts} (hF : F.Entails H) (hG : G.Entails H) :
    (F.meet G).Entails H := by
  rcases hF with hF | ⟨hH, hF'⟩
  · rwa [meet_of_bottom_left hF]
  · cases bF : F.bottom with
    | true => rwa [meet_of_bottom_left bF]
    | false =>
      rcases hG with hG | ⟨-, hG'⟩
      · rw [meet_of_bottom_right bF hG]
        exact .inr ⟨hH, hF'⟩
      · cases bG : G.bottom with
        | true =>
          rw [meet_of_bottom_right bF bG]
          exact .inr ⟨hH, hF'⟩
        | false =>
          simp only [meet, bF, bG, Bool.false_eq_true, if_false]
          refine .inr ⟨hH, ⟨floorLe_common hF'.floor hG'.floor,
            floorLe_common hF'.annotationFloor hG'.annotationFloor,
            ceilingLe_common hF'.ceiling hG'.ceiling, ?_, ?_, ?_, ?_⟩⟩
          · intro p hp; exact SortedSet.mem_inter.mpr ⟨hF'.held p hp, hG'.held p hp⟩
          · intro t ht; exact SortedSet.mem_inter.mpr ⟨hF'.excluded t ht, hG'.excluded t ht⟩
          · intro c hc
            exact SortedSet.mem_inter.mpr ⟨hF'.suppressed c hc, hG'.suppressed c hc⟩
          · intro r hr
            refine List.mem_filter.mpr ⟨hF'.requirements r hr, ?_⟩
            simpa using hG'.requirements r hr

theorem meet_mono {F F' G G' : Facts} (hF : F.Entails F') (hG : G.Entails G') :
    (F.meet G).Entails (F'.meet G') :=
  meet_entails (hF.trans (entails_meet_left F' G')) (hG.trans (entails_meet_right F' G'))

/-- What facts say about the code itself and not about the device. -/
def frame (F : Facts) : Option Level × SortedSet Category × List Permission.Requirement :=
  (F.annotationFloor, F.suppressed, F.requirements)

theorem meet_frame {F G : Facts} (h : F.frame = G.frame) : (F.meet G).frame = G.frame := by
  cases hF : F.bottom with
  | true => rw [meet_of_bottom_left hF]
  | false =>
    cases hG : G.bottom with
    | true => rw [meet_of_bottom_right hF hG, h]
    | false =>
      simp only [frame, Prod.mk.injEq] at h
      obtain ⟨hdeclared, hsuppressed, hrequirements⟩ := h
      have hcommon : common min G.annotationFloor G.annotationFloor = G.annotationFloor := by
        cases G.annotationFloor with
        | none => rfl
        | some v => simp [common]
      have hinter : G.suppressed.inter G.suppressed = G.suppressed :=
        SortedSet.eq_of_mem_iff fun c => by simp
      have hfilter : G.requirements.filter G.requirements.contains = G.requirements :=
        List.filter_eq_self.mpr fun r hr => by simpa using hr
      simp only [meet, frame, hF, hG, Bool.false_eq_true, if_false, hdeclared, hsuppressed,
        hrequirements, hcommon, hinter, hfilter]

theorem floorLe_raised (a : Option Level) (v : Level) : FloorLe a (some (raised a v)) := by
  rintro x rfl
  exact ⟨_, rfl, Nat.le_max_left x v⟩

theorem raised_mono {a b : Option Level} (h : FloorLe a b) (v : Level) :
    raised a v ≤ raised b v := by
  cases a with
  | none =>
    cases b with
    | none => exact Nat.le_refl v
    | some y => exact Nat.le_max_right y v
  | some x =>
    obtain ⟨y, rfl, hxy⟩ := h x rfl
    exact Nat.max_le.mpr ⟨Nat.le_trans hxy (Nat.le_max_left y v), Nat.le_max_right y v⟩

theorem ceilingLe_lowered (a : Option Level) (v : Level) : CeilingLe a (some (lowered a v)) := by
  rintro x rfl
  exact ⟨_, rfl, Nat.min_le_left x v⟩

theorem lowered_mono {a b : Option Level} (h : CeilingLe a b) (v : Level) :
    lowered b v ≤ lowered a v := by
  cases a with
  | none =>
    cases b with
    | none => exact Nat.le_refl v
    | some y => exact Nat.min_le_right y v
  | some x =>
    obtain ⟨y, rfl, hyx⟩ := h x rfl
    exact Nat.le_min.mpr ⟨Nat.le_trans (Nat.min_le_left y v) hyx, Nat.min_le_right y v⟩

theorem contradictory_iff {F : Facts} :
    F.contradictory = true ↔ ∃ f c, F.floor = some f ∧ F.ceiling = some c ∧ c < f := by
  unfold contradictory
  cases F.floor <;> cases F.ceiling <;> simp

/-- Tighter bounds contradict each other whenever looser ones do. -/
theorem Includes.contradictory {F G : Facts} (h : F.Includes G) (hG : G.contradictory = true) :
    F.contradictory = true := by
  obtain ⟨f, c, hf, hc, hlt⟩ := contradictory_iff.mp hG
  obtain ⟨f', hf', hle⟩ := h.floor f hf
  obtain ⟨c', hc', hge⟩ := h.ceiling c hc
  exact contradictory_iff.mpr
    ⟨f', c', hf', hc', Nat.lt_of_le_of_lt hge (Nat.lt_of_lt_of_le hlt hle)⟩

theorem settle_entails (F : Facts) : F.settle.Entails F := by
  cases hF : F.bottom with
  | true => exact .of_bottom (by simp [settle, hF])
  | false => exact .inr ⟨hF, ⟨.refl _, .refl _, .refl _, fun _ h => h, fun _ h => h,
      fun _ h => h, fun _ h => h⟩⟩

theorem settle_mono {F G : Facts} (h : F.Entails G) : F.settle.Entails G.settle := by
  rcases h with hF | ⟨hG, h⟩
  · exact .of_bottom (by simp [settle, hF])
  · cases hc : G.contradictory with
    | true => exact .of_bottom (by simp [settle, h.contradictory hc])
    | false =>
      refine .inr ⟨by simp [settle, hG, hc], ⟨h.floor, h.annotationFloor, h.ceiling, h.held,
        h.excluded, h.suppressed, h.requirements⟩⟩

theorem raiseFloor_entails (F : Facts) (v : Level) : (F.raiseFloor v).Entails F := by
  refine (settle_entails _).trans ?_
  cases hF : F.bottom with
  | true => exact .of_bottom rfl
  | false => exact .inr ⟨hF, ⟨floorLe_raised _ _, .refl _, .refl _, fun _ h => h, fun _ h => h,
      fun _ h => h, fun _ h => h⟩⟩

theorem lowerCeiling_entails (F : Facts) (v : Level) : (F.lowerCeiling v).Entails F := by
  refine (settle_entails _).trans ?_
  cases hF : F.bottom with
  | true => exact .of_bottom rfl
  | false => exact .inr ⟨hF, ⟨.refl _, .refl _, ceilingLe_lowered _ _, fun _ h => h, fun _ h => h,
      fun _ h => h, fun _ h => h⟩⟩

theorem raiseFloor_mono {F G : Facts} (h : F.Entails G) (v : Level) :
    (F.raiseFloor v).Entails (G.raiseFloor v) := by
  apply settle_mono
  rcases h with hF | ⟨hG, h⟩
  · exact .of_bottom hF
  · refine .inr ⟨hG, ⟨?_, h.annotationFloor, h.ceiling, h.held, h.excluded, h.suppressed,
      h.requirements⟩⟩
    rintro x hx
    cases hx
    exact ⟨_, rfl, raised_mono h.floor v⟩

theorem lowerCeiling_mono {F G : Facts} (h : F.Entails G) (v : Level) :
    (F.lowerCeiling v).Entails (G.lowerCeiling v) := by
  apply settle_mono
  rcases h with hF | ⟨hG, h⟩
  · exact .of_bottom hF
  · refine .inr ⟨hG, ⟨h.floor, h.annotationFloor, ?_, h.held, h.excluded, h.suppressed,
      h.requirements⟩⟩
    rintro x hx
    cases hx
    exact ⟨_, rfl, lowered_mono h.ceiling v⟩

theorem assume_of_bottom {F : Facts} (h : F.bottom = true) (g : Guard) (t : Bool) :
    F.assume g t = F := by
  unfold assume
  rw [if_pos h]

theorem assumeAll_of_bottom {F : Facts} (h : F.bottom = true) (gs : List Guard) (t : Bool) :
    F.assumeAll gs t = F := by
  induction gs with
  | nil => rfl
  | cons g gs ih => rw [assumeAll, assume_of_bottom h, ih]

theorem assumeSome_of_bottom {F : Facts} (h : F.bottom = true) (gs : List Guard) (t : Bool) :
    F.assumeSome F gs t = F := by
  induction gs with
  | nil => rfl
  | cons g gs ih => rw [assumeSome, assume_of_bottom h, meet_of_bottom_left h, ih]

theorem assume_not (F : Facts) (g : Guard) (t : Bool) : F.assume (.not g) t = F.assume g (!t) := by
  cases hF : F.bottom with
  | true => rw [assume_of_bottom hF, assume_of_bottom hF]
  | false => cases t <;> simp only [assume, hF, Bool.false_eq_true, if_false]

/-- To negate a guard is to expect the other value of it. -/
theorem assume_negate (F : Facts) (g : Guard) (t : Bool) :
    F.assume g.negate t = F.assume g (!t) := by
  cases g with
  | not inner => rw [Guard.negate, assume_not, Bool.not_not]
  | unknown => cases hF : F.bottom <;> cases t <;> simp [Guard.negate, assume, hF]
  | _ => exact assume_not F _ t

theorem assume_and_true (F : Facts) (gs : List Guard) :
    F.assume (.and gs) true = F.assumeAll gs true := by
  cases hF : F.bottom with
  | true => rw [assume_of_bottom hF, assumeAll_of_bottom hF]
  | false => simp only [assume, hF, Bool.false_eq_true, if_false]

theorem assume_or_false (F : Facts) (gs : List Guard) :
    F.assume (.or gs) false = F.assumeAll gs false := by
  cases hF : F.bottom with
  | true => rw [assume_of_bottom hF, assumeAll_of_bottom hF]
  | false => simp only [assume, hF, Bool.false_eq_true, if_false]

theorem assume_or_true (F : Facts) (g : Guard) (gs : List Guard) :
    F.assume (.or (g :: gs)) true = F.assumeSome (F.assume g true) gs true := by
  cases hF : F.bottom with
  | true => rw [assume_of_bottom hF, assume_of_bottom hF, assumeSome_of_bottom hF]
  | false => simp only [assume, hF, Bool.false_eq_true, if_false]

theorem assume_and_false (F : Facts) (g : Guard) (gs : List Guard) :
    F.assume (.and (g :: gs)) false = F.assumeSome (F.assume g false) gs false := by
  cases hF : F.bottom with
  | true => rw [assume_of_bottom hF, assume_of_bottom hF, assumeSome_of_bottom hF]
  | false => simp only [assume, hF, Bool.false_eq_true, if_false]

theorem assume_or_nil (F : Facts) : F.assume (.or []) true = F := by
  cases hF : F.bottom <;> simp [assume, hF]

theorem assume_and_nil (F : Facts) : F.assume (.and []) false = F := by
  cases hF : F.bottom <;> simp [assume, hF]

/-- The ways in which a leaf refines facts. -/
inductive LeafStep : (Facts → Facts) → Prop
  | keep : LeafStep fun F => F
  | fail : LeafStep fun F => { F with bottom := true }
  | raise (v : Level) : LeafStep fun F => F.raiseFloor v
  | lower (v : Level) : LeafStep fun F => F.lowerCeiling v
  | pin (v : Level) : LeafStep fun F => (F.raiseFloor v).lowerCeiling v
  | hold (p : String) : LeafStep fun F => { F with held := F.held.insert p }
  | exclude (e : String) : LeafStep fun F => { F with excluded := F.excluded.insert e }

theorem exists_leafStep {g : Guard} (hg : g.IsLeaf) (t : Bool) :
    ∃ step, LeafStep step ∧ ∀ F : Facts, F.bottom = false → F.assume g t = step F := by
  cases g with
  | and | or | not => exact absurd hg id
  | atLeast v =>
    cases t with
    | true => exact ⟨_, .raise v, fun F hF => by simp [assume, hF]⟩
    | false =>
      cases v with
      | zero => exact ⟨_, .fail, fun F hF => by simp [assume, hF]⟩
      | succ v => exact ⟨_, .lower v, fun F hF => by simp [assume, hF]⟩
  | atMost v =>
    cases t with
    | true => exact ⟨_, .lower v, fun F hF => by simp [assume, hF]⟩
    | false => exact ⟨_, .raise v.up, fun F hF => by simp [assume, hF]⟩
  | exactly v =>
    cases t with
    | true => exact ⟨_, .pin v, fun F hF => by simp [assume, hF]⟩
    | false => exact ⟨_, .keep, fun F hF => by simp [assume, hF]⟩
  | held p =>
    cases t with
    | true => exact ⟨_, .hold p, fun F hF => by simp [assume, hF]⟩
    | false => exact ⟨_, .keep, fun F hF => by simp [assume, hF]⟩
  | excluded e =>
    cases t with
    | true => exact ⟨_, .exclude e, fun F hF => by simp [assume, hF]⟩
    | false => exact ⟨_, .keep, fun F hF => by simp [assume, hF]⟩
  | unknown => exact ⟨_, .keep, fun F hF => by simp [assume, hF]⟩

/-- What holds of facts before a leaf and is kept in all its ways holds after it. -/
theorem assume_leaf_of_step {P : Facts → Prop} {F : Facts} (hF : P F) {g : Guard} (hg : g.IsLeaf)
    (t : Bool) (h : F.bottom = false → ∀ step, LeafStep step → P (step F)) : P (F.assume g t) := by
  cases hb : F.bottom with
  | true => rwa [assume_of_bottom hb]
  | false =>
    obtain ⟨step, hstep, hassume⟩ := exists_leafStep hg t
    rw [hassume F hb]
    exact h hb step hstep

/-- Outcomes of guards of a kind that has the parts of its guards too. -/
structure Inherited (kind : Guard → Bool → Prop) : Prop where
  and : ∀ gs t, kind (.and gs) t → ∀ g ∈ gs, kind g t
  or : ∀ gs t, kind (.or gs) t → ∀ g ∈ gs, kind g t
  not : ∀ g t, kind (.not g) t → kind g (!t)

/-- Leaves of a kind, and meets, keep a relation between facts. -/
structure Parallel (kind : Guard → Bool → Prop) (R : Facts → Facts → Prop) : Prop
    extends Inherited kind where
  leaf : ∀ (F G : Facts) (g : Guard) (t : Bool), g.IsLeaf → kind g t → R F G →
    R (F.assume g t) (G.assume g t)
  meet : ∀ F F' G G' : Facts, R F G → R F' G' → R (F.meet F') (G.meet G')

namespace Parallel

variable {kind : Guard → Bool → Prop} {R : Facts → Facts → Prop}

mutual

/-- A relation that leaves of a kind and meets keep is kept by all guards of this kind. -/
theorem assume (h : Parallel kind R) {F G : Facts} (hR : R F G) : (g : Guard) → (t : Bool) →
    kind g t → R (F.assume g t) (G.assume g t)
  | .and gs, true, hkind => by
    rw [assume_and_true, assume_and_true]
    exact h.assumeAll hR gs true (h.and gs true hkind)
  | .or gs, false, hkind => by
    rw [assume_or_false, assume_or_false]
    exact h.assumeAll hR gs false (h.or gs false hkind)
  | .or (g :: gs), true, hkind => by
    obtain ⟨hg, hgs⟩ := List.forall_mem_cons.mp (h.or (g :: gs) true hkind)
    rw [assume_or_true, assume_or_true]
    exact h.assumeSome hR (h.assume hR g true hg) gs true hgs
  | .and (g :: gs), false, hkind => by
    obtain ⟨hg, hgs⟩ := List.forall_mem_cons.mp (h.and (g :: gs) false hkind)
    rw [assume_and_false, assume_and_false]
    exact h.assumeSome hR (h.assume hR g false hg) gs false hgs
  | .or [], true, _ => by
    rw [assume_or_nil, assume_or_nil]
    exact hR
  | .and [], false, _ => by
    rw [assume_and_nil, assume_and_nil]
    exact hR
  | .not inner, t, hkind => by
    rw [assume_not, assume_not]
    exact h.assume hR inner (!t) (h.not inner t hkind)
  | .atLeast _, t, hkind | .atMost _, t, hkind | .exactly _, t, hkind | .held _, t, hkind
  | .excluded _, t, hkind | .unknown, t, hkind => h.leaf F G _ t trivial hkind hR

theorem assumeAll (h : Parallel kind R) {F G : Facts} (hR : R F G) : (gs : List Guard) →
    (t : Bool) → (∀ g ∈ gs, kind g t) → R (F.assumeAll gs t) (G.assumeAll gs t)
  | [], _, _ => hR
  | g :: gs, t, hkind => by
    obtain ⟨hg, hgs⟩ := List.forall_mem_cons.mp hkind
    exact h.assumeAll (h.assume hR g t hg) gs t hgs

theorem assumeSome (h : Parallel kind R) {F G M N : Facts} (hR : R F G) (hM : R M N) :
    (gs : List Guard) → (t : Bool) → (∀ g ∈ gs, kind g t) →
      R (F.assumeSome M gs t) (G.assumeSome N gs t)
  | [], _, _ => hM
  | g :: gs, t, hkind => by
    obtain ⟨hg, hgs⟩ := List.forall_mem_cons.mp hkind
    exact h.assumeSome hR (h.meet _ _ _ _ hM (h.assume hR g t hg)) gs t hgs

end

end Parallel

theorem Inherited.any : Inherited fun _ _ => True :=
  ⟨fun _ _ _ _ _ => trivial, fun _ _ _ _ _ => trivial, fun _ _ _ => trivial⟩

/-- Leaves and meets keep a property of facts. -/
structure Stable (P : Facts → Prop) : Prop where
  leaf : ∀ (F : Facts) (g : Guard) (t : Bool), g.IsLeaf → P F → P (F.assume g t)
  meet : ∀ F G : Facts, P F → P G → P (F.meet G)

/-- What leaves and meets keep, all guards keep. -/
theorem Stable.assume {P : Facts → Prop} (h : Stable P) {F : Facts} (hF : P F) (g : Guard) (t : Bool) :
    P (F.assume g t) := by
  have hparallel : Parallel (fun _ _ => True) fun F _ => P F :=
    { Inherited.any with
      leaf := fun F _ g t hg _ => h.leaf F g t hg
      meet := fun F F' _ _ => h.meet F F' }
  exact hparallel.assume (G := F) hF g t trivial

/-- Facts refined by a guard say at least what they said before. -/
theorem assume_entails (F : Facts) (g : Guard) (t : Bool) : (F.assume g t).Entails F := by
  have insert_includes (s : NameSet) (a : String) : ∀ x ∈ s, x ∈ s.insert a :=
    fun x hx => SortedSet.mem_insert.mpr (.inr hx)
  have leaf_entails (H : Facts) (g : Guard) (t : Bool) (hg : g.IsLeaf) : (H.assume g t).Entails H := by
    refine assume_leaf_of_step (P := fun K => K.Entails H) (.refl H) hg t fun hb step hstep => ?_
    cases hstep with
    | keep => exact .refl H
    | fail => exact .of_bottom rfl
    | raise v => exact raiseFloor_entails H v
    | lower v => exact lowerCeiling_entails H v
    | pin v => exact (lowerCeiling_entails _ v).trans (raiseFloor_entails H v)
    | hold p =>
      exact .inr ⟨hb, ⟨.refl _, .refl _, .refl _, insert_includes _ p, fun _ h => h, fun _ h => h,
        fun _ h => h⟩⟩
    | exclude e =>
      exact .inr ⟨hb, ⟨.refl _, .refl _, .refl _, fun _ h => h, insert_includes _ e, fun _ h => h,
        fun _ h => h⟩⟩
  have hstable : Stable fun H => H.Entails F :=
    { leaf := fun H g t hg hH => (leaf_entails H g t hg).trans hH
      meet := fun _ _ => meet_entails }
  exact hstable.assume (.refl F) g t

theorem assumeAll_entails (F : Facts) (gs : List Guard) (t : Bool) :
    (F.assumeAll gs t).Entails F := by
  induction gs generalizing F with
  | nil => exact .refl F
  | cons g gs ih => exact (ih (F.assume g t)).trans (assume_entails F g t)

theorem mem_insert_mono {s t : NameSet} (h : ∀ x ∈ t, x ∈ s) (a : String) :
    ∀ x ∈ t.insert a, x ∈ s.insert a := by
  intro x hx
  rcases SortedSet.mem_insert.mp hx with rfl | hx
  · exact SortedSet.mem_insert.mpr (.inl rfl)
  · exact SortedSet.mem_insert.mpr (.inr (h x hx))

/-- Stronger facts stay stronger when both are refined by a guard. -/
theorem assume_mono {F G : Facts} (h : F.Entails G) (g : Guard) (t : Bool) :
    (F.assume g t).Entails (G.assume g t) := by
  have hparallel : Parallel (fun _ _ => True) Entails :=
    { Inherited.any with
      leaf := fun F G g t hg _ h => by
        cases hF : F.bottom with
        | true =>
          rw [assume_of_bottom hF]
          exact .of_bottom hF
        | false =>
          have hG := h.bottom_eq_false hF
          have hincl := h.includes hF
          obtain ⟨step, hstep, hassume⟩ := exists_leafStep hg t
          rw [hassume F hF, hassume G hG]
          cases hstep with
          | keep => exact h
          | fail => exact .of_bottom rfl
          | raise v => exact raiseFloor_mono h v
          | lower v => exact lowerCeiling_mono h v
          | pin v => exact lowerCeiling_mono (raiseFloor_mono h v) v
          | hold p =>
            exact .inr ⟨hG, ⟨hincl.floor, hincl.annotationFloor, hincl.ceiling,
              mem_insert_mono hincl.held p, hincl.excluded, hincl.suppressed, hincl.requirements⟩⟩
          | exclude e =>
            exact .inr ⟨hG, ⟨hincl.floor, hincl.annotationFloor, hincl.ceiling, hincl.held,
              mem_insert_mono hincl.excluded e, hincl.suppressed, hincl.requirements⟩⟩
      meet := fun _ _ _ _ => meet_mono }
  exact hparallel.assume h g t trivial

theorem entails_assumeSome (F M : Facts) (gs : List Guard) (t : Bool) :
    M.Entails (F.assumeSome M gs t) := by
  induction gs generalizing M with
  | nil => exact .refl M
  | cons g gs ih =>
    rw [assumeSome]
    exact (entails_meet_left M _).trans (ih _)

theorem assume_entails_assumeSome {F : Facts} {g : Guard} {gs : List Guard} (hg : g ∈ gs)
    (M : Facts) (t : Bool) : (F.assume g t).Entails (F.assumeSome M gs t) := by
  induction gs generalizing M with
  | nil => cases hg
  | cons g' gs ih =>
    rw [assumeSome]
    rcases List.mem_cons.mp hg with rfl | hg
    · exact (entails_meet_right M _).trans (entails_assumeSome F _ gs t)
    · exact ih hg _

/-- A part of a disjunction that came true says all that the disjunction says. -/
theorem assume_entails_or {F : Facts} {g : Guard} {gs : List Guard} (hg : g ∈ gs) :
    (F.assume g true).Entails (F.assume (.or gs) true) := by
  cases gs with
  | nil => cases hg
  | cons g' gs =>
    rw [assume_or_true]
    rcases List.mem_cons.mp hg with rfl | hg
    · exact entails_assumeSome F _ gs true
    · exact assume_entails_assumeSome hg _ true

/-- A part of a conjunction that came out false says all that the conjunction says. -/
theorem assume_entails_and {F : Facts} {g : Guard} {gs : List Guard} (hg : g ∈ gs) :
    (F.assume g false).Entails (F.assume (.and gs) false) := by
  cases gs with
  | nil => cases hg
  | cons g' gs =>
    rw [assume_and_false]
    rcases List.mem_cons.mp hg with rfl | hg
    · exact entails_assumeSome F _ gs false
    · exact assume_entails_assumeSome hg _ false

/-- Only a handler that is assumed adds to the handlers that facts know of. -/
theorem assume_leaf_excluded {g : Guard} (hg : g.IsLeaf) (hne : ∀ e, g ≠ .excluded e) (F : Facts)
    (t : Bool) : (F.assume g t).excluded = F.excluded := by
  cases hF : F.bottom with
  | true => rw [assume_of_bottom hF]
  | false =>
    cases g with
    | and | or | not => exact absurd hg id
    | excluded e => exact absurd rfl (hne e)
    | atLeast v => cases t <;> cases v <;> simp [assume, hF, raiseFloor, lowerCeiling, settle]
    | _ => cases t <;> simp [assume, hF, raiseFloor, lowerCeiling, settle]

/-- A guard says nothing about the code itself. -/
theorem assume_frame (F : Facts) (g : Guard) (t : Bool) : (F.assume g t).frame = F.frame := by
  have hstable : Stable fun H => H.frame = F.frame :=
    { leaf := fun H g t hg hH =>
        assume_leaf_of_step (P := fun K => K.frame = F.frame) hH hg t fun _ step hstep => by
          cases hstep <;> exact hH
      meet := fun _ _ hH hK => (meet_frame (hH.trans hK.symm)).trans hK }
  exact hstable.assume rfl g t

end Facts
end LevelGuard
