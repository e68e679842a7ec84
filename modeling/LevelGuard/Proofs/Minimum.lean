import Mathlib.Data.List.Forall2
import Mathlib.Order.MinMax
import LevelGuard.Check.Resources
import LevelGuard.Check.Sources
import LevelGuard.Proofs.ReportOrder
import LevelGuard.Proofs.Visits

/-!
# Raising the minimum

A module that installs on fewer devices has no more findings: whatever is found with a
higher minimum is found with a lower one too, at the same place and of the same category.
Only the messages differ, since they cite the minimum.

The steps of a check do not depend on the minimum, so each of them is compared with
itself. In a resource file it is the floors of the elements that are compared.
-/
namespace LevelGuard

def Baseline.withMin (B : Baseline) (min : Level) (h : min ≤ B.target) : Baseline :=
  { B with min := min, min_le_target := h }

namespace Diagnostic

def key (d : Diagnostic) : Path × Span × Category := (d.path, d.span, d.category)

/-- Every finding of the one list has a finding at the same place in the other. -/
def Within (ds ds' : List Diagnostic) : Prop := ds.map key ⊆ ds'.map key

namespace Within

theorem refl (ds : List Diagnostic) : Within ds ds := List.Subset.refl _

theorem nil (ds : List Diagnostic) : Within [] ds := List.nil_subset _

theorem singleton {path : Path} {span : Span} {category : Category} (m m' : String) :
    Within [.of path span category m] [.of path span category m'] :=
  List.Subset.refl [(path, span, category)]

theorem append {ds₁ ds₂ ds₁' ds₂' : List Diagnostic} (h₁ : Within ds₁ ds₁')
    (h₂ : Within ds₂ ds₂') : Within (ds₁ ++ ds₂) (ds₁' ++ ds₂') := by
  unfold Within at *
  rw [List.map_append, List.map_append]
  exact List.append_subset.mpr
    ⟨List.subset_append_of_subset_left _ h₁, List.subset_append_of_subset_right _ h₂⟩

theorem flatMap {α : Type} (l : List α) {f g : α → List Diagnostic} (h : ∀ a, Within (f a) (g a)) :
    Within (l.flatMap f) (l.flatMap g) := by
  induction l with
  | nil => exact nil _
  | cons a l ih =>
    rw [List.flatMap_cons, List.flatMap_cons]
    exact (h a).append ih

/-- Findings that are made under a weaker condition. -/
theorem guarded {p q : Prop} [Decidable p] [Decidable q] (h : p → q) {ds ds' : List Diagnostic}
    (hds : Within ds ds') : Within (if p then ds else []) (if q then ds' else []) := by
  by_cases hp : p
  · rw [if_pos hp, if_pos (h hp)]
    exact hds
  · rw [if_neg hp]
    exact nil _

/-- Findings that are left out under a stronger condition. -/
theorem leftOut {p q : Prop} [Decidable p] [Decidable q] (h : q → p) {ds ds' : List Diagnostic}
    (hds : Within ds ds') : Within (if p then [] else ds) (if q then [] else ds') := by
  by_cases hp : p
  · rw [if_pos hp]
    exact nil _
  · rw [if_neg hp, if_neg fun hq => hp (h hq)]
    exact hds

theorem found {α : Type} (a : Option α) {f g : α → List Diagnostic}
    (h : ∀ a, Within (f a) (g a)) : Within ((a.map f).getD []) ((a.map g).getD []) := by
  cases a with
  | none => exact nil _
  | some a => exact h a

end Within

theorem Within.report {ds ds' : List Diagnostic} (h : Within ds ds') :
    Within (Diagnostic.report ds) (Diagnostic.report ds') := by
  intro k hk
  obtain ⟨d, hd, rfl⟩ := List.mem_map.mp hk
  obtain ⟨d', hd', hkey⟩ := List.mem_map.mp (h (List.mem_map_of_mem (mem_report.mp hd)))
  exact List.mem_map.mpr ⟨d', mem_report.mpr hd', hkey⟩

end Diagnostic

namespace Check

open Java Project Resource LevelGuard.Flow Diagnostic

namespace Setting

def withMin (C : Setting) (min : Level) (h : min ≤ C.baseline.target) : Setting :=
  { C with baseline := C.baseline.withMin min h }

variable {C : Setting} {low high : Level} (hle : low ≤ high) (hlow : low ≤ C.baseline.target)
  (hhigh : high ≤ C.baseline.target)

include hle

theorem lacksLevel_withMin {F : Facts} {category : Category} {level : Level}
    (h : (C.withMin high hhigh).lacksLevel F category level = true) :
    (C.withMin low hlow).lacksLevel F category level = true := by
  unfold lacksLevel at *
  have heffective : F.effectiveFloor low ≤ F.effectiveFloor high := by
    unfold Facts.effectiveFloor Facts.raised
    cases F.floor with
    | none => exact hle
    | some f => exact max_le_max le_rfl hle
  simp only [Bool.and_eq_true, decide_eq_true_eq] at h ⊢
  exact ⟨h.1, Nat.lt_of_le_of_lt heffective h.2⟩

theorem checkLevel_withMin (F : Facts) (s : Resolved) (level : Level) (span : Span) :
    Within ((C.withMin high hhigh).checkLevel F s level span)
      ((C.withMin low hlow).checkLevel F s level span) :=
  .guarded (lacksLevel_withMin hle hlow hhigh) (.singleton _ _)

theorem checkResources_withMin (F : Facts) (span : Span) :
    Within ((C.withMin high hhigh).checkResources F span)
      ((C.withMin low hlow).checkResources F span) :=
  .guarded (lacksLevel_withMin hle hlow hhigh) (.singleton _ _)

theorem checkDatePattern_withMin (F : Facts) (e : Expr) :
    Within ((C.withMin high hhigh).checkDatePattern F e)
      ((C.withMin low hlow).checkDatePattern F e) := by
  unfold checkDatePattern
  split
  · split
    · exact .nil _
    · split
      · exact .guarded (lacksLevel_withMin hle hlow hhigh) (.singleton _ _)
      · exact .nil _
  · exact .nil _

theorem appliesTo_withMin {r : Permission.Requirement} {target : Level}
    (h : r.appliesTo high target = true) : r.appliesTo low target = true := by
  unfold Permission.Requirement.appliesTo at *
  cases hr : r.apis with
  | none => rfl
  | some range =>
    simp only [hr, Permission.ApiRange.overlaps, Bool.and_eq_true, decide_eq_true_eq] at h ⊢
    exact ⟨Nat.le_trans hle h.1, h.2⟩

/-- A permission is asked for or not; what is found then has nothing to do with the
minimum. -/
theorem checkPermission_withMin (F : Facts) (s : Resolved) (r : Permission.Requirement)
    (span : Span) : Within ((C.withMin high hhigh).checkPermission F s r span)
      ((C.withMin low hlow).checkPermission F s r span) := by
  refine .leftOut (fun h => ?_) (.refl _)
  cases happlies : r.appliesTo high C.baseline.target with
  | false => exact congrArg not happlies
  | true =>
    have happlies' : r.appliesTo low C.baseline.target = true := appliesTo_withMin hle happlies
    have hnot : (!r.appliesTo low C.baseline.target) = true := h
    rw [happlies'] at hnot
    cases hnot

theorem checkSymbol_withMin (F : Facts) (s : Resolved) (span : Span) :
    Within ((C.withMin high hhigh).checkSymbol F s span)
      ((C.withMin low hlow).checkSymbol F s span) := by
  refine .flatMap s.demands fun demand => ?_
  cases demand with
  | version level => exact checkLevel_withMin hle hlow hhigh F s level span
  | permission r => exact checkPermission_withMin hle hlow hhigh F s r span

theorem perform_withMin (u : CompilationUnit) (v : Visit) :
    Within ((C.withMin high hhigh).perform u v) ((C.withMin low hlow).perform u v) := by
  have hsymbol := checkSymbol_withMin hle hlow hhigh
  cases v with
  | type F locals d =>
    refine .leftOut id (.flatMap d.supertypes fun t => ?_)
    exact Within.found _ fun s => hsymbol _ s t.span
  | member P F owner m => cases m <;> exact .refl _
  | site P F event =>
    cases event with
    | reference e =>
      refine Within.found _ fun s => (hsymbol F s e.span).append ?_
      split
      · exact checkDatePattern_withMin hle hlow hhigh F e
      · exact .nil _
    | typeUse t => exact Within.found _ fun s => hsymbol F s t.span
    | caseLabel label selector => exact Within.found _ fun s => hsymbol F s label.span
    | tryWithResources span => exact checkResources_withMin hle hlow hhigh F span
    | lambda params body => exact .refl _
    | classBody d => exact .refl _

theorem checkUnit_withMin (u : CompilationUnit) :
    Within ((C.withMin high hhigh).checkUnit u) ((C.withMin low hlow).checkUnit u) := by
  rw [checkUnit_eq_flatMap, checkUnit_eq_flatMap]
  exact .flatMap _ fun v => perform_withMin hle hlow hhigh u v

end Setting

namespace ResourceSetting

def withMin (C : ResourceSetting) (min : Level) (h : min ≤ C.baseline.target) : ResourceSetting :=
  { C with baseline := C.baseline.withMin min h }

variable {C : ResourceSetting} {low high : Level} (hle : low ≤ high)
  (hlow : low ≤ C.baseline.target) (hhigh : high ≤ C.baseline.target)

section Checks

variable {floor floor' : Level} (hfloor : floor ≤ floor')

include hfloor

theorem checkView_withMin (e : Element) :
    Within ((C.withMin high hhigh).checkView floor' e) ((C.withMin low hlow).checkView floor e) := by
  unfold checkView
  cases viewClass? e with
  | none => exact .nil _
  | some name =>
    dsimp only
    split
    · refine .guarded (fun h => ?_) (.singleton _ _)
      simp only [Bool.and_eq_true, decide_eq_true_eq] at h ⊢
      exact ⟨h.1, Nat.lt_of_le_of_lt hfloor h.2⟩
    · have hlevel : (C.withMin high hhigh).viewLevel? name = (C.withMin low hlow).viewLevel? name := rfl
      rw [hlevel]
      split
      · exact .leftOut (fun h => Nat.le_trans h hfloor) (.singleton _ _)
      · exact .nil _

theorem checkDrawable_withMin (e : Element) :
    Within ((C.withMin high hhigh).checkDrawable floor' e)
      ((C.withMin low hlow).checkDrawable floor e) := by
  unfold checkDrawable
  split
  · exact .guarded (Nat.lt_of_le_of_lt hfloor) (.singleton _ _)
  · exact .nil _

theorem checkAttributeName_withMin (a : Attribute) :
    Within ((C.withMin high hhigh).checkAttributeName floor' a)
      ((C.withMin low hlow).checkAttributeName floor a) := by
  unfold checkAttributeName
  cases a.platformName? with
  | none => exact .nil _
  | some name =>
    dsimp only
    split
    · refine .guarded (fun h => ?_) (.singleton _ _)
      simp only [readByCrashing, Bool.and_eq_true, decide_eq_true_eq] at h ⊢
      exact ⟨h.1, Nat.lt_of_le_of_lt hfloor h.2⟩
    · have hlevel : (C.withMin high hhigh).attributeLevel? name =
          (C.withMin low hlow).attributeLevel? name := rfl
      rw [hlevel]
      split
      · exact .guarded (Nat.lt_of_le_of_lt hfloor) (.singleton _ _)
      · exact .nil _

/-- The finding with a note on the attribute and the one without are at the same place. -/
theorem checkReference_withMin (a : Attribute) :
    Within ((C.withMin high hhigh).checkReference floor' a)
      ((C.withMin low hlow).checkReference floor a) := by
  have hreference : (C.withMin high hhigh).referenceLevel? (Text.trimmed a.value) =
      (C.withMin low hlow).referenceLevel? (Text.trimmed a.value) := rfl
  unfold checkReference
  dsimp only
  rw [hreference]
  cases (C.withMin low hlow).referenceLevel? (Text.trimmed a.value) with
  | none => exact .nil _
  | some found =>
    refine .leftOut (fun h => Nat.le_trans h hfloor) ?_
    cases a.platformName? with
    | none => exact .singleton _ _
    | some own =>
      have hattribute : (C.withMin high hhigh).attributeLevel? own =
          (C.withMin low hlow).attributeLevel? own := rfl
      dsimp only
      rw [hattribute]
      cases (C.withMin low hlow).attributeLevel? own with
      | none => exact .singleton _ _
      | some readFrom =>
        refine .leftOut id ?_
        split <;> split <;> exact .singleton _ _

theorem checkPlatformName_withMin (a : Attribute) (level? : String → Option Level) :
    Within ((C.withMin high hhigh).checkPlatformName floor' a level?)
      ((C.withMin low hlow).checkPlatformName floor a level?) := by
  unfold checkPlatformName
  split
  · exact .nil _
  · split
    · exact .guarded (Nat.lt_of_le_of_lt hfloor) (.singleton _ _)
    · exact .nil _

theorem checkItemText_withMin (text : String) (span : Span) :
    Within ((C.withMin high hhigh).checkItemText floor' text span)
      ((C.withMin low hlow).checkItemText floor text span) := by
  have hreference : (C.withMin high hhigh).referenceLevel? text =
      (C.withMin low hlow).referenceLevel? text := rfl
  unfold checkItemText
  rw [hreference]
  split
  · exact .guarded (Nat.lt_of_le_of_lt hfloor) (.singleton _ _)
  · exact .nil _

theorem checkValues_withMin (e : Element) :
    Within ((C.withMin high hhigh).checkValues floor' e)
      ((C.withMin low hlow).checkValues floor e) := by
  unfold checkValues
  split
  · cases e.attribute? "parent" with
    | none => exact .nil _
    | some a => exact checkPlatformName_withMin hlow hhigh hfloor a _
  · refine .append (.found _ fun a => ?_) (.found _ fun t => ?_)
    · exact checkPlatformName_withMin hlow hhigh hfloor a _
    · exact checkItemText_withMin hlow hhigh hfloor t.1 t.2
  · exact .nil _

theorem checkElement_withMin (e : Element) :
    Within ((C.withMin high hhigh).checkElement floor' e)
      ((C.withMin low hlow).checkElement floor e) := by
  have hnames := Within.flatMap e.attributes (checkAttributeName_withMin hlow hhigh hfloor)
  have hreferences := Within.flatMap e.attributes (checkReference_withMin hlow hhigh hfloor)
  have hfolder : (C.withMin high hhigh).folder? = (C.withMin low hlow).folder? := rfl
  unfold checkElement
  rw [hfolder]
  refine .append ?_ hreferences
  split
  · exact .nil _
  · exact (checkView_withMin hlow hhigh hfloor e).append hnames
  · exact (checkDrawable_withMin hlow hhigh hfloor e).append hnames
  · exact checkValues_withMin hlow hhigh hfloor e
  · exact hnames

end Checks

include hle

theorem floorOf_withMin {floors floors' : List Level} (h : List.Forall₂ (· ≤ ·) floors floors')
    (e : Element) :
    (C.withMin low hlow).floorOf floors e ≤ (C.withMin high hhigh).floorOf floors' e := by
  have hgetD : ∀ {fs fs' : List Level}, List.Forall₂ (· ≤ ·) fs fs' → ∀ p,
      fs.getD p low ≤ fs'.getD p high := by
    intro fs fs' hfs
    induction hfs with
    | nil => exact fun _ => hle
    | cons hhead _ ih =>
      intro p
      cases p with
      | zero => exact hhead
      | succ p => exact ih p
  have hinherited : e.parent.elim low (fun p => floors.getD p low) ≤
      e.parent.elim high (fun p => floors'.getD p high) := by
    cases e.parent with
    | none => exact hle
    | some p => exact hgetD h p
  unfold floorOf
  cases targetLevel? e with
  | none => exact hinherited
  | some v => exact max_le_max hinherited le_rfl

theorem floors_withMin (elements : List Element) :
    List.Forall₂ (· ≤ ·) ((C.withMin low hlow).floors elements)
      ((C.withMin high hhigh).floors elements) := by
  have hfold : ∀ {fs fs' : List Level}, List.Forall₂ (· ≤ ·) fs fs' →
      List.Forall₂ (· ≤ ·)
        (elements.foldl (fun fs e => fs ++ [(C.withMin low hlow).floorOf fs e]) fs)
        (elements.foldl (fun fs e => fs ++ [(C.withMin high hhigh).floorOf fs e]) fs') := by
    induction elements with
    | nil => exact fun h => h
    | cons e elements ih =>
      intro fs fs' h
      exact ih (List.rel_append h (.cons (floorOf_withMin hle hlow hhigh h e) .nil))
  exact hfold .nil

theorem check_withMin (d : Document) :
    Within ((C.withMin high hhigh).check d) ((C.withMin low hlow).check d) := by
  have hfloors := floors_withMin hle hlow hhigh d.elements
  unfold check
  generalize (C.withMin low hlow).floors d.elements = fs at hfloors
  generalize (C.withMin high hhigh).floors d.elements = fs' at hfloors
  generalize d.elements = elements
  induction hfloors generalizing elements with
  | nil => simpa using Within.nil []
  | @cons floor floor' _ _ hfloor _ ih =>
    cases elements with
    | nil => exact .nil _
    | cons e elements =>
      rw [List.zip_cons_cons, List.zip_cons_cons, List.flatMap_cons, List.flatMap_cons]
      refine .append (checkElement_withMin hlow hhigh ?_ e) (ih elements)
      exact max_le_max hfloor le_rfl

end ResourceSetting

/-- Whatever is reported in a source or in a resource file of a module is reported at the
same place and in the same category if the module has a lower minimum. -/
theorem raising_minimum_adds_nothing (K : Platform.Catalog) (I : Index) (B : Baseline)
    {low high : Level} (hle : low ≤ high) (hhigh : high ≤ B.target) :
    (∀ s : Source, (s.check K I (B.withMin high hhigh)).map key ⊆
        (s.check K I (B.withMin low (Nat.le_trans hle hhigh))).map key) ∧
      ∀ (path : Path) (d : Document), (checkDocument K (B.withMin high hhigh) path d).map key ⊆
        (checkDocument K (B.withMin low (Nat.le_trans hle hhigh)) path d).map key := by
  have hlow := Nat.le_trans hle hhigh
  constructor
  · intro s
    unfold Source.check
    cases s.syntaxError with
    | some span => exact List.Subset.refl _
    | none => exact (Setting.checkUnit_withMin (C := ⟨s.path, K, I, B⟩) hle hlow hhigh s.unit).report
  · intro path d
    exact (ResourceSetting.check_withMin (C := ⟨path, K, B⟩) hle hlow hhigh d).report

/-- A view that the platform has from level 21 on. -/
def toolbarCatalog : Platform.Catalog := .ofClasses [{ name := "android.widget.Toolbar", since := 21 }]

/-- A layout with the view alone. -/
def toolbarLayout : Document := ⟨[{ tag := "Toolbar", attributes := [], parent := none, span := {} }]⟩

theorem raising_minimum_adds_nothing_toolbar :
    (⟨"res/layout/main.xml"⟩, {}, .newApi) ∈
        (checkDocument toolbarCatalog ((Baseline.ofRange 1 21).withMin 20 (by decide))
          ⟨"res/layout/main.xml"⟩ toolbarLayout).map key ∧
      (⟨"res/layout/main.xml"⟩, {}, .newApi) ∈
        (checkDocument toolbarCatalog ((Baseline.ofRange 1 21).withMin 4 (by decide))
          ⟨"res/layout/main.xml"⟩ toolbarLayout).map key := by
  have hreported : (⟨"res/layout/main.xml"⟩, {}, .newApi) ∈
      (checkDocument toolbarCatalog ((Baseline.ofRange 1 21).withMin 20 (by decide))
        ⟨"res/layout/main.xml"⟩ toolbarLayout).map key := by decide +kernel
  have hle : 4 ≤ 20 := by decide
  exact ⟨hreported, (raising_minimum_adds_nothing toolbarCatalog (.ofCatalog toolbarCatalog)
    (.ofRange 1 21) hle (by decide)).2 _ _ hreported⟩

end Check

end LevelGuard
