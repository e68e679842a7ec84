import LevelGuard.Check.Symbols
import LevelGuard.Proofs.Demands

/-!
# Permissions that the user may refuse

What a module asks for in its manifest is not what it has: the user can take some of the
permissions back. A place can count on those that cannot be taken back and on those it has
made sure of. Where the check is silent about a demand, these permissions meet the demand,
or the demand is passed on to the callers, or a refusal is handled.

A check of one permission counts for the whole demand, so this needs that the code did not
stop halfway: once it makes sure of one revocable permission of a demand, it covers every
part of the demand that other revocable permissions could make fail, or another part that
will do as well.
-/
namespace LevelGuard

namespace Permission.Expr

variable {held sure held' : NameSet}

/-- The permissions made sure of cover a demand: no part of it that must hold can fail
because a `loose` permission is taken back. -/
inductive Covered (held sure : NameSet) (loose : String → Prop) : Expr → Prop
  /-- Nothing loose is named. -/
  | firm {e : Expr} : (∀ p ∈ e.names, ¬ loose p) → Covered held sure loose e
  /-- The permissions made sure of are enough by themselves. -/
  | met {e : Expr} : e.Positive → e.satisfied .empty sure = true → Covered held sure loose e
  | allOf {parts : List Expr} : (∀ e ∈ parts, Covered held sure loose e) →
      Covered held sure loose (.allOf parts)
  /-- One part that is satisfied is enough. -/
  | anyOf {parts : List Expr} {e : Expr} : e ∈ parts → e.satisfied held sure = true →
      Covered held sure loose e → Covered held sure loose (.anyOf parts)
  | conditional (inner : Expr) : Covered held sure loose (.conditional inner)

variable {e : Expr} {loose : String → Prop} (hkept : ∀ p, p ∈ held' ↔ p ∈ held ∧ ¬ loose p)
include hkept

/-- A demand that is met stays met without the loose permissions, if it is covered. -/
theorem Covered.satisfied (h : e.Covered held sure loose) (hmet : e.satisfied held sure = true) :
    e.satisfied held' sure = true := by
  induction h with
  | firm hfirm =>
    rw [satisfied_congr _ fun p hp => ?_]
    · exact hmet
    · simp [hkept, hfirm p hp]
  | met hpositive hsure => exact hpositive.satisfied_mono (fun _ hp => .inr (hp.resolve_left List.not_mem_nil)) hsure
  | allOf _ ih =>
    refine allSatisfied_iff.mpr fun e he => ?_
    exact ih e he (allSatisfied_iff.mp hmet e he)
  | anyOf he hpart _ ih => exact anySatisfied_iff.mpr ⟨_, he, ih hpart⟩
  | conditional inner => rfl

/-- Where no choice is exclusive, nothing but a covered demand stays met. -/
theorem Positive.covered (h : e.Positive) (hmet : e.satisfied held' sure = true) :
    e.Covered held sure loose := by
  induction h with
  | single name =>
    rcases satisfied_single_iff.mp hmet with hheld | hsure
    · refine .firm fun p hp => ?_
      rw [List.mem_singleton.mp hp]
      exact ((hkept name).mp hheld).2
    · exact .met (.single name) (satisfied_single_iff.mpr (.inr hsure))
  | allOf _ ih => exact .allOf fun e he => ih e he (allSatisfied_iff.mp hmet e he)
  | anyOf hparts ih =>
    obtain ⟨e, he, hpart⟩ := anySatisfied_iff.mp hmet
    have hheld := (hparts e he).satisfied_mono (fun p hp => hp.imp_left fun h => ((hkept p).mp h).1) hpart
    exact .anyOf he hheld (ih e he hpart)

end Permission.Expr

namespace Check.Setting

open Permission

variable (C : Setting) (F : Facts)

/-- Whether the user can take a permission back. -/
def isRevocable (p : String) : Bool :=
  isPlatformRevocable p || (C.baseline.revocable.union C.catalog.revocable).contains p

theorem mem_revocableNames {r : Requirement} {p : String} :
    p ∈ C.revocableNames r ↔ p ∈ r.expr.names ∧ C.isRevocable p = true := by
  simp [revocableNames, Expr.revocable, Expr.permissions, isRevocable]

/-- The module asks for the permission, but the user may have taken it back, and the place
has not made sure of it. -/
def Loose (p : String) : Prop :=
  p ∈ C.baseline.permissions ∧ C.isRevocable p = true ∧ p ∉ established F

/-- The permissions of the module that it still has at a place, whatever the user does. -/
def lasting : NameSet :=
  C.baseline.permissions.filter fun p => !C.isRevocable p || (established F).contains p

theorem mem_lasting {p : String} :
    p ∈ C.lasting F ↔ p ∈ C.baseline.permissions ∧ ¬ C.Loose F p := by
  unfold lasting Loose
  rw [SortedSet.mem_filter]
  refine and_congr_right fun hp => ?_
  cases C.isRevocable p with
  | false => simp
  | true => by_cases hsure : p ∈ established F <;> simp [hp, hsure]

variable {C F} {r : Requirement} {span : Span}

/-- Where no finding is made about revocable permissions, the demand names none or the
place is prepared for a refusal. -/
theorem checkRevocable_eq_nil (htarget : revocableLevel ≤ C.baseline.target)
    (hrevocable : F.isSuppressed .revocablePermission = false)
    (hsilent : C.checkRevocable F r span = []) :
    (C.revocableNames r).isEmpty = true ∨ preparedFor F r (C.revocableNames r) = true := by
  simp only [checkRevocable, hrevocable, Nat.not_lt.mpr htarget, decide_false, Bool.false_or] at hsilent
  rw [← Bool.or_eq_true]
  cases h : (C.revocableNames r).isEmpty || preparedFor F r (C.revocableNames r) with
  | true => rfl
  | false => simp [h] at hsilent

/-- A demand about which the check is silent is met, and no finding is made about the
revocable permissions in it. -/
theorem checkPermission_eq_nil {s : Project.Resolved}
    (happlies : r.appliesTo C.baseline.min C.baseline.target = true)
    (hhard : r.expr.isConditional = false)
    (hmissing : F.isSuppressed .missingPermission = false)
    (hsilent : C.checkPermission F s r span = []) :
    C.meets F r r.expr = true ∧ C.checkRevocable F r span = [] := by
  have hinner : r.expr.conditionalInner? = none := by
    simpa [Expr.isConditional] using hhard
  simp only [checkPermission, happlies, hinner, hmissing, Bool.not_true, Bool.false_eq_true,
    if_false] at hsilent
  cases hmeets : C.meets F r r.expr with
  | true => exact ⟨rfl, by simpa [hmeets] using hsilent⟩
  | false => simp [hmeets] at hsilent

/-- Where the check is silent about a demand, the permissions that the place can count on
meet it, or the method makes the same demand of its callers, or a refusal is handled. -/
theorem silence_means_granted (C : Setting) (F : Facts) (s : Project.Resolved) (r : Requirement)
    (span : Span) (happlies : r.appliesTo C.baseline.min C.baseline.target = true)
    (hhard : r.expr.isConditional = false) (htarget : revocableLevel ≤ C.baseline.target)
    (hmissing : F.isSuppressed .missingPermission = false)
    (hrevocable : F.isSuppressed .revocablePermission = false)
    (hcovered : (∃ p ∈ C.revocableNames r, p ∈ established F) →
      r.expr.Covered C.baseline.permissions (established F) (C.Loose F))
    (hsilent : C.checkPermission F s r span = []) :
    r.expr.satisfied (C.lasting F) (established F) = true ∨
      (∃ own ∈ F.requirements, own.expr = r.expr) ∨ handlesRefusal F.excluded = true := by
  have hpassed : passedOn F r = true → ∃ own ∈ F.requirements, own.expr = r.expr := by
    simp [passedOn]
  obtain ⟨hmeets, hsilent⟩ := checkPermission_eq_nil happlies hhard hmissing hsilent
  rcases Bool.or_eq_true_iff.mp hmeets with hown | hmet
  · exact .inr (.inl (hpassed hown))
  rcases checkRevocable_eq_nil htarget hrevocable hsilent with hnone | hprepared
  · -- No name in the demand is revocable, so none of them is loose.
    have hfirm : r.expr.Covered C.baseline.permissions (established F) (C.Loose F) := by
      refine .firm fun p hp hloose => ?_
      have hmem : p ∈ C.revocableNames r := C.mem_revocableNames.mpr ⟨hp, hloose.2.1⟩
      rw [SortedSet.isEmpty, List.isEmpty_iff] at hnone
      rw [SortedSet.mem_def, hnone] at hmem
      exact List.not_mem_nil hmem
    exact .inl (hfirm.satisfied (fun _ => C.mem_lasting F) hmet)
  rcases Bool.or_eq_true_iff.mp hprepared with hprepared | hhandled
  · rcases Bool.or_eq_true_iff.mp hprepared with hown | hchecked
    · exact .inr (.inl (hpassed hown))
    · obtain ⟨p, hp, hsure⟩ := List.any_eq_true.mp hchecked
      have hcover := hcovered ⟨p, hp, SortedSet.contains_iff.mp hsure⟩
      exact .inl (hcover.satisfied (fun _ => C.mem_lasting F) hmet)
  · exact .inr (.inr hhandled)

def camera : String := "android.permission.CAMERA"

def fineLocation : String := "android.permission.ACCESS_FINE_LOCATION"

def coarseLocation : String := "android.permission.ACCESS_COARSE_LOCATION"

/-- A module for level 23 that asks for the camera and for both kinds of location. -/
def cameraSetting : Setting where
  path := ⟨"T.java"⟩
  catalog := .empty
  index := .ofCatalog .empty
  baseline :=
    { (Baseline.ofRange 1 23) with
      permissions := .ofList [camera, fineLocation, coarseLocation] }

/-- A demand for the camera and one kind of location. -/
def taggedPhoto : Requirement where
  expr := .allOf [.single camera, .anyOf [.single fineLocation, .single coarseLocation]]

def takePhoto : Project.Resolved :=
  .plain (.method "p.Api" "takePhoto") [.permission taggedPhoto]

/-- A place that has made sure of these permissions. -/
def afterChecks (checked : List String) : Facts := { held := .ofList checked }

theorem silence_means_granted_photo :
    cameraSetting.checkPermission (afterChecks [camera, fineLocation]) takePhoto taggedPhoto {} = [] ∧
      coarseLocation ∉ cameraSetting.lasting (afterChecks [camera, fineLocation]) ∧
      (taggedPhoto.expr.satisfied (cameraSetting.lasting (afterChecks [camera, fineLocation]))
          (established (afterChecks [camera, fineLocation])) = true ∨
        (∃ own ∈ (afterChecks [camera, fineLocation]).requirements, own.expr = taggedPhoto.expr) ∨
        handlesRefusal (afterChecks [camera, fineLocation]).excluded = true) := by
  have hsilent : cameraSetting.checkPermission (afterChecks [camera, fineLocation]) takePhoto
      taggedPhoto {} = [] := by decide +kernel
  have hcovered : taggedPhoto.expr.Covered cameraSetting.baseline.permissions
      (established (afterChecks [camera, fineLocation]))
      (cameraSetting.Loose (afterChecks [camera, fineLocation])) := by
    have hpositive : taggedPhoto.expr.Positive :=
      .allOf (by simp [Expr.Positive.single, Expr.Positive.anyOf])
    exact .met hpositive (by decide +kernel)
  exact ⟨hsilent, by decide +kernel, silence_means_granted cameraSetting _ takePhoto taggedPhoto {}
    (by decide +kernel) (by decide +kernel) (by decide +kernel) (by decide +kernel)
    (by decide +kernel) (fun _ => hcovered) hsilent⟩

/-- A check that stops halfway is taken for a whole one: the location may be refused, and
nothing is found. -/
theorem halfway_check_accepted :
    cameraSetting.checkPermission (afterChecks [camera]) takePhoto taggedPhoto {} = [] ∧
      taggedPhoto.expr.satisfied (cameraSetting.lasting (afterChecks [camera]))
        (established (afterChecks [camera])) = false ∧
      (∀ own ∈ (afterChecks [camera]).requirements, own.expr ≠ taggedPhoto.expr) ∧
      handlesRefusal (afterChecks [camera]).excluded = false := by
  refine ⟨by decide +kernel, by decide +kernel, nofun, by decide +kernel⟩

end Check.Setting

end LevelGuard
