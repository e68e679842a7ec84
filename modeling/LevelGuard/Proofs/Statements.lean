import LevelGuard.Proofs.FactLattice
import Mathlib.Order.MinMax

/-!
# Facts as statements

What facts say of a device is a set of statements: bounds of its level, permissions that it
holds and exceptions that are caught. A guard is known to tell certain statements, those of
its leaves, and whatever it adds to facts follows from one of them. A choice adds only what
all its alternatives tell, but for those that clash with the facts.

So the same guard adds the same to two sets of facts, one stronger than the other, unless
the stronger ones rule out an alternative that the weaker ones leave open.
-/
namespace LevelGuard

/-- What facts can say of a device. -/
inductive Statement where
  | atLeast (level : Level)
  | atMost (level : Level)
  | held (permission : String)
  | excluded (type : String)

namespace Statement

/-- Whether the second statement follows from the first. -/
def Implies : Statement → Statement → Prop
  | atLeast v, atLeast w => w ≤ v
  | atMost v, atMost w => v ≤ w
  | held p, held q => p = q
  | excluded e, excluded f => e = f
  | _, _ => False

/-- Whether no level can have both. -/
def clashes : Statement → Statement → Bool
  | atLeast v, atMost w => w < v
  | atMost v, atLeast w => v < w
  | _, _ => false

theorem Implies.refl (s : Statement) : s.Implies s := by
  cases s with
  | atLeast v => exact Nat.le_refl v
  | atMost v => exact Nat.le_refl v
  | held p => rfl
  | excluded e => rfl

/-- What clashes with a statement clashes with all from which it follows. -/
theorem Implies.clashes {r s s' : Statement} (h : s'.Implies s) (hr : r.clashes s = true) :
    r.clashes s' = true := by
  cases r <;> cases s <;> cases s' <;> simp [Implies, Statement.clashes] at h hr ⊢
  · exact Nat.lt_of_le_of_lt h hr
  · exact Nat.lt_of_lt_of_le hr h

end Statement

namespace Guard

mutual

/-- The statements that the outcome of a guard can add to facts. -/
def told : Guard → Bool → List Statement
  | .atLeast v, true => [.atLeast v]
  | .atLeast 0, false => [.atLeast 1, .atMost 0]
  | .atLeast (v + 1), false => [.atMost v]
  | .atMost v, true => [.atMost v]
  | .atMost v, false => [.atLeast (Level.up v)]
  | .exactly v, true => [.atLeast v, .atMost v]
  | .held p, true => [.held p]
  | .excluded e, true => [.excluded e]
  | .exactly _, false | .held _, false | .excluded _, false | .unknown, _ => []
  | .and parts, t | .or parts, t => toldAll parts t
  | .not inner, t => inner.told (!t)

def toldAll : List Guard → Bool → List Statement
  | [], _ => []
  | g :: gs, t => g.told t ++ toldAll gs t

end

end Guard

namespace Facts

open Guard

variable {F G H : Facts} {g : Guard} {t : Bool} {s s' : Statement} {S : List Statement}

/-- What facts say of the device, bounds also in a weaker form. -/
def States (F : Facts) : Statement → Prop
  | .atLeast v => ∃ f, F.floor = some f ∧ v ≤ f
  | .atMost v => ∃ c, F.ceiling = some c ∧ c ≤ v
  | .held p => p ∈ F.held
  | .excluded e => e ∈ F.excluded

theorem States.of_implies (h : F.States s) (hs : s.Implies s') : F.States s' := by
  cases s <;> cases s' <;> simp only [Statement.Implies] at hs
  · obtain ⟨f, hf, hle⟩ := h
    exact ⟨f, hf, Nat.le_trans hs hle⟩
  · obtain ⟨c, hc, hle⟩ := h
    exact ⟨c, hc, Nat.le_trans hle hs⟩
  · exact hs ▸ h
  · exact hs ▸ h

theorem Entails.states (h : F.Entails G) (hF : F.bottom = false) (hs : G.States s) : F.States s := by
  have hincludes := h.includes hF
  cases s with
  | atLeast v =>
    obtain ⟨f, hf, hle⟩ := hs
    obtain ⟨f', hf', hle'⟩ := hincludes.floor f hf
    exact ⟨f', hf', Nat.le_trans hle hle'⟩
  | atMost v =>
    obtain ⟨c, hc, hle⟩ := hs
    obtain ⟨c', hc', hle'⟩ := hincludes.ceiling c hc
    exact ⟨c', hc', Nat.le_trans hle' hle⟩
  | held p => exact hincludes.held p hs
  | excluded e => exact hincludes.excluded e hs

/-- Facts that say the same of the code entail others if they say all of the device that the
others say. -/
theorem entails_of_states (hframe : F.frame = G.frame) (hG : G.bottom = false)
    (h : ∀ s, G.States s → F.States s) : F.Entails G := by
  simp only [frame, Prod.mk.injEq] at hframe
  obtain ⟨hdeclared, hsuppressed, hrequirements⟩ := hframe
  refine .inr ⟨hG, ⟨fun f hf => h (.atLeast f) ⟨f, hf, Nat.le_refl f⟩, ?_,
    fun c hc => h (.atMost c) ⟨c, hc, Nat.le_refl c⟩, fun p => h (.held p),
    fun e => h (.excluded e), ?_, ?_⟩⟩
  · rw [hdeclared]
    exact .refl _
  · rw [hsuppressed]
    exact fun _ hc => hc
  · rw [hrequirements]
    exact fun _ hr => hr

theorem states_meet (hF : F.bottom = false) (hG : G.bottom = false) :
    (F.meet G).States s ↔ F.States s ∧ G.States s := by
  constructor
  · intro h
    exact ⟨(entails_meet_left F G).states hF h, (entails_meet_right F G).states hG h⟩
  · rintro ⟨hsF, hsG⟩
    simp only [meet, hF, hG, Bool.false_eq_true, if_false]
    cases s with
    | atLeast v =>
      obtain ⟨f, hf, hle⟩ := hsF
      obtain ⟨f', hf', hle'⟩ := hsG
      exact ⟨min f f', by rw [hf, hf']; rfl, Nat.le_min.mpr ⟨hle, hle'⟩⟩
    | atMost v =>
      obtain ⟨c, hc, hle⟩ := hsF
      obtain ⟨c', hc', hle'⟩ := hsG
      exact ⟨max c c', by rw [hc, hc']; rfl, Nat.max_le.mpr ⟨hle, hle'⟩⟩
    | held p => exact SortedSet.mem_inter.mpr ⟨hsF, hsG⟩
    | excluded e => exact SortedSet.mem_inter.mpr ⟨hsF, hsG⟩

theorem Settled.not_clashes (h : F.Settled) (hF : F.bottom = false) (hs : F.States s)
    (hs' : F.States s') : s.clashes s' = false := by
  have hbounds := h.resolve_left (by simp [hF])
  cases s <;> cases s' <;> simp only [Statement.clashes, decide_eq_false_iff_not]
  · obtain ⟨f, hf, hle⟩ := hs
    obtain ⟨c, hc, hle'⟩ := hs'
    exact Nat.not_lt.mpr (Nat.le_trans hle (Nat.le_trans (hbounds f c hf hc) hle'))
  · obtain ⟨c, hc, hle⟩ := hs
    obtain ⟨f, hf, hle'⟩ := hs'
    exact Nat.not_lt.mpr (Nat.le_trans hle' (Nat.le_trans (hbounds f c hf hc) hle))

theorem states_raiseFloor {v : Level} :
    (F.raiseFloor v).States s ↔ F.States s ∨ (Statement.atLeast v).Implies s := by
  cases s with
  | atLeast w =>
    cases hf : F.floor <;>
      simp [States, raiseFloor, settle, raised, hf, Statement.Implies]
  | _ => simp [States, raiseFloor, settle, Statement.Implies]

theorem states_lowerCeiling {v : Level} :
    (F.lowerCeiling v).States s ↔ F.States s ∨ (Statement.atMost v).Implies s := by
  cases s with
  | atMost w =>
    cases hc : F.ceiling <;>
      simp [States, lowerCeiling, settle, lowered, hc, Statement.Implies]
  | _ => simp [States, lowerCeiling, settle, Statement.Implies]

/-- A leaf adds what it tells and nothing else. -/
theorem states_assume_leaf (hg : g.IsLeaf) (h : (F.assume g t).bottom = false) :
    (F.assume g t).States s ↔ F.States s ∨ ∃ s' ∈ g.told t, s'.Implies s := by
  have hF : F.bottom = false := (assume_entails F g t).bottom_eq_false h
  cases g with
  | and | or | not => exact absurd hg id
  | atLeast v =>
    cases t with
    | true => simp [assume, hF, told, states_raiseFloor]
    | false =>
      cases v with
      | zero => simp [assume, hF] at h
      | succ v => simp [assume, hF, told, states_lowerCeiling]
  | atMost v => cases t <;> simp [assume, hF, told, states_raiseFloor, states_lowerCeiling]
  | exactly v => cases t <;> simp [assume, hF, told, states_raiseFloor, states_lowerCeiling, or_assoc]
  | held p =>
    cases t with
    | false => simp [assume, hF, told]
    | true => cases s <;> simp [assume, hF, told, States, Statement.Implies, or_comm, eq_comm]
  | excluded e =>
    cases t with
    | false => simp [assume, hF, told]
    | true => cases s <;> simp [assume, hF, told, States, Statement.Implies, or_comm, eq_comm]
  | unknown => cases t <;> simp [assume, hF, told]

theorem Settled.raiseFloor_clash (h : F.Settled) (hF : F.bottom = false) {v : Level}
    (hbottom : (F.raiseFloor v).bottom = true) :
    ∃ s, (Statement.atLeast v).clashes s = true ∧ F.States s := by
  have hbounds := h.resolve_left (by simp [hF])
  simp only [raiseFloor, settle, hF, Bool.false_or] at hbottom
  obtain ⟨f, c, hf, hc, hlt⟩ := contradictory_iff.mp hbottom
  have hlt' : c < v := by
    cases hfloor : F.floor with
    | none =>
      simp only [hfloor, raised, Option.some.injEq] at hf
      exact hf ▸ hlt
    | some f' =>
      simp only [hfloor, raised, Option.some.injEq] at hf
      exact (lt_max_iff.mp (hf ▸ hlt)).resolve_left (Nat.not_lt.mpr (hbounds f' c hfloor hc))
  exact ⟨.atMost c, decide_eq_true hlt', c, hc, Nat.le_refl c⟩

theorem Settled.lowerCeiling_clash (h : F.Settled) (hF : F.bottom = false) {v : Level}
    (hbottom : (F.lowerCeiling v).bottom = true) :
    ∃ s, (Statement.atMost v).clashes s = true ∧ F.States s := by
  have hbounds := h.resolve_left (by simp [hF])
  simp only [lowerCeiling, settle, hF, Bool.false_or] at hbottom
  obtain ⟨f, c, hf, hc, hlt⟩ := contradictory_iff.mp hbottom
  have hlt' : v < f := by
    cases hceiling : F.ceiling with
    | none =>
      simp only [hceiling, lowered, Option.some.injEq] at hc
      exact hc ▸ hlt
    | some c' =>
      simp only [hceiling, lowered, Option.some.injEq] at hc
      exact (min_lt_iff.mp (hc ▸ hlt)).resolve_left (Nat.not_lt.mpr (hbounds f c' hf hceiling))
  exact ⟨.atLeast f, decide_eq_true hlt', f, hf, Nat.le_refl f⟩

/-- A leaf contradicts facts only through what it tells. -/
theorem Settled.assume_leaf_clash (h : F.Settled) (hF : F.bottom = false) (hg : g.IsLeaf)
    (hbottom : (F.assume g t).bottom = true) :
    ∃ s ∈ g.told t, ∃ s', s.clashes s' = true ∧ (F.States s' ∨ s' ∈ g.told t) := by
  have hraise : ∀ v : Level, (F.raiseFloor v).bottom = true → .atLeast v ∈ g.told t →
      ∃ s ∈ g.told t, ∃ s', s.clashes s' = true ∧ (F.States s' ∨ s' ∈ g.told t) := by
    intro v hv htold
    obtain ⟨s', hclash, hs'⟩ := h.raiseFloor_clash hF hv
    exact ⟨_, htold, s', hclash, .inl hs'⟩
  have hlower : ∀ v : Level, (F.lowerCeiling v).bottom = true → .atMost v ∈ g.told t →
      ∃ s ∈ g.told t, ∃ s', s.clashes s' = true ∧ (F.States s' ∨ s' ∈ g.told t) := by
    intro v hv htold
    obtain ⟨s', hclash, hs'⟩ := h.lowerCeiling_clash hF hv
    exact ⟨_, htold, s', hclash, .inl hs'⟩
  cases g with
  | and | or | not => exact absurd hg id
  | atLeast v =>
    cases t with
    | true => exact hraise v (by simpa [Facts.assume, hF] using hbottom) (by simp [told])
    | false =>
      cases v with
      | zero => exact ⟨.atLeast 1, by simp [told], .atMost 0, rfl, .inr (by simp [told])⟩
      | succ v => exact hlower v (by simpa [Facts.assume, hF] using hbottom) (by simp [told])
  | atMost v =>
    cases t with
    | true => exact hlower v (by simpa [Facts.assume, hF] using hbottom) (by simp [told])
    | false => exact hraise (Level.up v) (by simpa [Facts.assume, hF] using hbottom) (by simp [told])
  | exactly v =>
    cases t with
    | false => simp [Facts.assume, hF] at hbottom
    | true =>
      simp only [Facts.assume, hF, Bool.false_eq_true, if_false] at hbottom
      cases hraised : (F.raiseFloor v).bottom with
      | true => exact hraise v hraised (by simp [told])
      | false =>
        obtain ⟨s', hclash, hs'⟩ := (settled_raiseFloor F v).lowerCeiling_clash hraised hbottom
        refine ⟨.atMost v, by simp [told], ?_⟩
        rcases states_raiseFloor.mp hs' with hs' | himplies
        · exact ⟨s', hclash, .inl hs'⟩
        · exact ⟨.atLeast v, himplies.clashes hclash, .inr (by simp [told])⟩
  | held _ | excluded _ | unknown => cases t <;> simp [Facts.assume, hF] at hbottom

theorem told_subset_toldAll {gs : List Guard} (hg : g ∈ gs) : g.told t ⊆ toldAll gs t := by
  induction gs with
  | nil => cases hg
  | cons g' gs ih =>
    rw [toldAll]
    rcases List.mem_cons.mp hg with rfl | hg
    · exact List.subset_append_left _ _
    · exact List.subset_append_of_subset_right _ (ih hg)

/-- The guards that tell no more than some statements. -/
theorem Inherited.told (S : List Statement) : Inherited fun g t => g.told t ⊆ S where
  and _ _ h _ hg := List.Subset.trans (told_subset_toldAll hg) (by rwa [Guard.told] at h)
  or _ _ h _ hg := List.Subset.trans (told_subset_toldAll hg) (by rwa [Guard.told] at h)
  not _ _ h := by rwa [Guard.told] at h

/-- The facts are contradictory, or say no more than others do and some statements tell. -/
def AddsOnly (S : List Statement) (F G : Facts) : Prop :=
  G.bottom = true ∨ ∀ s, G.States s → F.States s ∨ ∃ s' ∈ S, s'.Implies s

theorem AddsOnly.parallel (S : List Statement) (F : Facts) :
    Parallel (fun g t => g.told t ⊆ S) fun _ G => AddsOnly S F G where
  toInherited := .told S
  leaf _ G g t hg hS hG := by
    cases hbottom : (G.assume g t).bottom with
    | true => exact .inl hbottom
    | false =>
      have hGbottom := (assume_entails G g t).bottom_eq_false hbottom
      have hadds := hG.resolve_left (by simp [hGbottom])
      refine .inr fun s hs => ?_
      rcases (states_assume_leaf hg hbottom).mp hs with hs | ⟨s', hs', himplies⟩
      · exact hadds s hs
      · exact .inr ⟨s', hS hs', himplies⟩
  meet _ _ G G' hG hG' := by
    rcases hG with hbottom | hadds
    · rwa [meet_of_bottom_left hbottom]
    · cases hGbottom : G.bottom with
      | true => rwa [meet_of_bottom_left hGbottom]
      | false => exact .inr fun s hs => hadds s ((entails_meet_left G G').states hGbottom hs)

/-- Stronger facts say nothing more that clashes with some statements. -/
def Quiet (S : List Statement) (G F : Facts) : Prop :=
  ∀ s ∈ S, ∀ s', s.clashes s' = true → G.States s' → F.States s'

theorem Quiet.refl (S : List Statement) (F : Facts) : Quiet S F F := fun _ _ _ _ hs' => hs'

theorem Quiet.mono {S' : List Statement} (h : Quiet S G F) (hS : S' ⊆ S) : Quiet S' G F :=
  fun s hs => h s (hS hs)

/-- What one guard makes of two sets of facts: the first says no more than `G₀` and the second
do, and the second still says what `F₀` does, unless it is contradictory. -/
def Beside (G₀ F₀ G F : Facts) : Prop :=
  G.Settled ∧ F.Settled ∧ (F.bottom = true ∨ G.bottom = false ∧
    (∀ s, G.States s → G₀.States s ∨ F.States s) ∧ ∀ s, F₀.States s → F.States s)

theorem Beside.assume_leaf {G₀ F₀ : Facts} (hquiet : Quiet S G₀ F₀) (hg : g.IsLeaf)
    (hS : g.told t ⊆ S) (h : Beside G₀ F₀ G F) :
    Beside G₀ F₀ (G.assume g t) (F.assume g t) := by
  obtain ⟨hG, hF, h⟩ := h
  refine ⟨hG.assume g t, hF.assume g t, ?_⟩
  cases hFt : (F.assume g t).bottom with
  | true => exact .inl rfl
  | false =>
    have hFbottom := (assume_entails F g t).bottom_eq_false hFt
    obtain ⟨hGbottom, hstates, hkept⟩ := h.resolve_left (by simp [hFbottom])
    have hsame : ∀ s, F.States s → (F.assume g t).States s := fun s hs =>
      (assume_entails F g t).states hFt hs
    have htold : ∀ s ∈ g.told t, (F.assume g t).States s := fun s hs =>
      (states_assume_leaf hg hFt).mpr (.inr ⟨s, hs, .refl s⟩)
    have hGt : (G.assume g t).bottom = false := by
      by_contra hcontra
      obtain ⟨s, hs, s', hclash, hs'⟩ :=
        hG.assume_leaf_clash hGbottom hg (by simpa using hcontra)
      have hsaid : (F.assume g t).States s' := by
        rcases hs' with hs' | hs'
        · rcases hstates s' hs' with hs' | hs'
          · exact hsame s' (hkept s' (hquiet s (hS hs) s' hclash hs'))
          · exact hsame s' hs'
        · exact htold s' hs'
      have hnot := (hF.assume g t).not_clashes hFt (htold s hs) hsaid
      rw [hclash] at hnot
      cases hnot
    refine .inr ⟨hGt, fun s hs => ?_, fun s hs => hsame s (hkept s hs)⟩
    rcases (states_assume_leaf hg hGt).mp hs with hs | ⟨s', hs', himplies⟩
    · exact (hstates s hs).imp_right (hsame s)
    · exact .inr ((htold s' hs').of_implies himplies)

theorem Beside.meet {G₀ F₀ G' F' : Facts} (h : Beside G₀ F₀ G F) (h' : Beside G₀ F₀ G' F') :
    Beside G₀ F₀ (G.meet G') (F.meet F') := by
  obtain ⟨hG, hF, h⟩ := h
  obtain ⟨hG', hF', h'⟩ := h'
  refine ⟨hG.meet hG', hF.meet hF', ?_⟩
  cases hFbottom : F.bottom with
  | true =>
    -- The first alternative is ruled out for the weaker facts, and for the others or not.
    rw [meet_of_bottom_left hFbottom]
    rcases h' with hbottom | ⟨hbottom, hstates, hkept⟩
    · exact .inl hbottom
    · refine .inr ⟨?_, fun s hs => hstates s ((entails_meet_right G G').states hbottom hs), hkept⟩
      exact (entails_meet_right G G').bottom_eq_false hbottom
  | false =>
    obtain ⟨hGbottom, hstates, hkept⟩ := h.resolve_left (by simp [hFbottom])
    have hfalse := (entails_meet_left G G').bottom_eq_false hGbottom
    have hleft : ∀ s, (G.meet G').States s → G.States s := fun s hs =>
      (entails_meet_left G G').states hGbottom hs
    cases hFbottom' : F'.bottom with
    | true =>
      rw [meet_of_bottom_right hFbottom hFbottom']
      exact .inr ⟨hfalse, fun s hs => hstates s (hleft s hs), hkept⟩
    | false =>
      obtain ⟨hGbottom', hstates', hkept'⟩ := h'.resolve_left (by simp [hFbottom'])
      refine .inr ⟨hfalse, fun s hs => ?_, fun s hs => ?_⟩
      · obtain ⟨hsG, hsG'⟩ := (states_meet hGbottom hGbottom').mp hs
        rcases hstates s hsG with hs₀ | hsF
        · exact .inl hs₀
        · exact (hstates' s hsG').imp_right fun hsF' =>
            (states_meet hFbottom hFbottom').mpr ⟨hsF, hsF'⟩
      · exact (states_meet hFbottom hFbottom').mpr ⟨hkept s hs, hkept' s hs⟩

/-- What a guard adds to stronger facts it adds to weaker ones, if what the stronger ones say
in addition rules out no alternative. -/
theorem states_assume_of_quiet (hG : G.Settled) (hF : F.Settled) (hGbottom : G.bottom = false)
    (hquiet : Quiet (g.told t) G F) (hFt : (F.assume g t).bottom = false) :
    (G.assume g t).bottom = false ∧ ∀ s, (G.assume g t).States s → G.States s ∨ (F.assume g t).States s := by
  have hparallel : Parallel (fun g' t' => g'.told t' ⊆ g.told t) (Beside G F) :=
    ⟨.told _, fun _ _ _ _ hg hS h => h.assume_leaf hquiet hg hS, fun _ _ _ _ h h' => h.meet h'⟩
  have hstart : Beside G F G F :=
    ⟨hG, hF, .inr ⟨hGbottom, fun _ hs => .inl hs, fun _ hs => hs⟩⟩
  obtain ⟨-, -, hbeside⟩ := hparallel.assume hstart g t (List.Subset.refl _)
  obtain ⟨hbottom, hstates, -⟩ := hbeside.resolve_left (by simp [hFt])
  exact ⟨hbottom, hstates⟩

end Facts
end LevelGuard
