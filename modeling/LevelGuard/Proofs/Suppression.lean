import LevelGuard.Proofs.Trimming

/-!
# Silencing a category for one declaration

An annotation that silences a category, added to one declaration of a file, takes away
what the check of that declaration found in the category. All else that is found stays as
it is and where it is: the other declarations are checked with the same facts, whether
they are around it or beside it.
-/
namespace LevelGuard

namespace Java

/-- The annotation is there in addition. -/
def Gains (a : Annotation) (annotations annotations' : List Annotation) : Prop :=
  ∃ before after, annotations = before ++ after ∧ annotations' = before ++ a :: after

/-- The second file is the first with an annotation added to one of its declarations: the
files are the same up to annotations, and all other declarations have the same ones. -/
structure CompilationUnit.Annotates (u u' : CompilationUnit) (D : Declaration) (a : Annotation) :
    Prop where
  plain : u.plain = u'.plain
  declarations : ∃ before after before' D' after',
    u.declarations = before ++ D :: after ∧ u'.declarations = before' ++ D' :: after' ∧
    before.map Declaration.annotations = before'.map Declaration.annotations ∧
    Gains a D.annotations D'.annotations ∧
    after.map Declaration.annotations = after'.map Declaration.annotations

/-- The annotation silences the category and nothing else. -/
def Annotation.Silences (a : Annotation) (c : Category) : Prop :=
  a.simpleName = "SuppressLint" ∧
    ∃ value, a.arg? "value" = some value ∧ valuesOf Expr.stringLiteral? value = [c.id]

end Java

namespace Check

open Java Project LevelGuard.Flow

/-- Annotations of other names do not see the one that silences. -/
theorem annotationsNamed_of_gains {a : Annotation} {l l' : List Annotation} (h : Gains a l l')
    {name : String} (hname : a.simpleName ≠ name) :
    annotationsNamed l' name = annotationsNamed l name := by
  obtain ⟨before, after, rfl, rfl⟩ := h
  simp [annotationsNamed, hname]

def silencedBy (a : Annotation) : List Category :=
  if a.simpleName = "SuppressLint" || a.simpleName = "SuppressWarnings" then
    match a.arg? "value" with
    | some value => (valuesOf Expr.stringLiteral? value).flatMap categoriesOf
    | none => []
  else []

theorem silencedBy_of_silences {a : Annotation} {c : Category} (hc : c ∈ Category.suppressible)
    (ha : a.Silences c) : silencedBy a = [c] := by
  obtain ⟨hname, value, hvalue, htexts⟩ := ha
  have hcategories : ∀ c ∈ Category.suppressible, categoriesOf c.id = [c] := by decide +kernel
  simp [silencedBy, hname, hvalue, htexts, hcategories c hc]

theorem mem_silenced_of_gains {a : Annotation} {c : Category} (hc : c ∈ Category.suppressible)
    (ha : a.Silences c) {l l' : List Annotation} (h : Gains a l l') (k : Category) :
    k ∈ silenced l' ↔ k ∈ silenced l ∨ k = c := by
  obtain ⟨before, after, rfl, rfl⟩ := h
  change k ∈ SortedSet.ofList (List.flatMap silencedBy _) ↔
    k ∈ SortedSet.ofList (List.flatMap silencedBy _) ∨ _
  simp only [SortedSet.mem_ofList, List.flatMap_append, List.flatMap_cons,
    silencedBy_of_silences hc ha, List.mem_append, List.mem_singleton]
  rw [← or_assoc]
  exact or_right_comm

theorem quiets_of_gains {a : Annotation} {c : Category} (hc : c ∈ Category.suppressible)
    (ha : a.Silences c) {l l' : List Annotation} (h : Gains a l l') : Quiets c l l' := by
  have hnamed : ∀ name, "SuppressLint" ≠ name → annotationsNamed l' name = annotationsNamed l name :=
    fun name hname => annotationsNamed_of_gains h (ha.1 ▸ hname)
  have hfloor : floorLevel? l' = floorLevel? l := by
    unfold floorLevel? requiredLevel? targetLevel?
    rw [hnamed _ (by decide), hnamed _ (by decide)]
  refine ⟨fun F => ?_, ?_⟩
  · rw [annotated_suppress]
    unfold annotated
    rw [hfloor]
    generalize (floorLevel? l).elim F F.raiseAnnotationFloor = G
    have hset : G.suppressed.insertAll (silenced l').toList =
        (G.suppressed.insertAll (silenced l).toList).insertAll [c] :=
      SortedSet.eq_of_mem_iff fun k => by
        simp only [SortedSet.mem_insertAll, ← SortedSet.mem_def, mem_silenced_of_gains hc ha h k,
          List.mem_singleton]
        tauto
    exact congrArg (fun s => { G with suppressed := s }) hset
  · unfold requiredPermission?
    rw [hnamed _ (by decide)]

/-- An annotation that silences a category, added to a declaration of a file, takes the
findings of the category away from what is found while the declaration is checked, and
nothing else. -/
theorem silencing_is_local (C : Setting) {u u' : CompilationUnit} {D : Declaration}
    {a : Annotation} {c : Category} (hc : c ∈ Category.suppressible) (ha : a.Silences c)
    (h : u.Annotates u' D a) :
    ∃ before inside after, C.checkUnit u = before ++ inside ++ after ∧
      C.checkUnit u' = before ++ othersThan c inside ++ after ∧
      ∃ v ∈ unitVisits C.catalog C.index u,
        v.subject? = some (.declaration D) ∧ inside = C.findings u v := by
  obtain ⟨hu, before, after, before', D', after', hdecls, hdecls', hbefore, hgains, hafter⟩ := h
  have hquiet := quiets_of_gains hc ha hgains
  have htypes : u.types.map plainDecl = u'.types.map plainDecl :=
    (congrArg CompilationUnit.types hu :)
  have hmarked : Marked D D' true (u.types.flatMap fun d => declared (declNodes d))
      (u'.types.flatMap fun d => declared (declNodes d)) := by
    rw [← declared_flatMap, ← declared_flatMap]
    change Marked D D' true u.declarations u'.declarations
    rw [hdecls, hdecls']
    exact .of_split hbefore hafter
  -- Both files are checked down to a depth that is enough for either.
  have hdeep : ∀ v : CompilationUnit, v.depth ≤ max u.depth u'.depth →
      C.checkUnit v = v.types.flatMap fun d =>
        C.checkInner v (max u.depth u'.depth) .top (.type .empty d) := fun v hv =>
    List.flatMap_congr fun d hd => C.checkInner_eq_of_depth_le v hv _ (declDepth_le_depth hd)
  have hvisits : unitVisits C.catalog C.index u = u.types.flatMap fun d =>
      innerVisits C.catalog C.index u (max u.depth u'.depth) .top (.type .empty d) :=
    List.flatMap_congr fun d hd =>
      innerVisits_eq_of_depth_le _ _ _ (Nat.le_max_left _ _) _ _ (declDepth_le_depth hd)
  rw [hdeep u (Nat.le_max_left _ _), hdeep u' (Nat.le_max_right _ _), hvisits]
  refine Trimmed.flatMap plainDecl (fun d => declared (declNodes d)) htypes
    (fun _ _ => length_declared_type) hmarked fun d hd d' hplain marked hm => ?_
  refine trimsTo hu hquiet _ .top (.type .empty d) (.type .empty d') marked ?_ hm ?_
  · exact congrArg (Inner.type .empty) hplain
  · exact Nat.le_trans (declDepth_le_depth hd) (Nat.le_max_left _ _)

def apiClass (name : String) (annotations : List Annotation) (members : List Member) : TypeDecl :=
  { name, annotations, members, qualified := name, kind := .classType
    superClass := some ⟨"p.Api", {}⟩, interfaces := [], span := {} }

def innerClass (annotations : List Annotation) : TypeDecl :=
  apiClass "Inner" annotations [.type (apiClass "Innermost" [] [])]

/-- Three classes that extend `p.Api`, each a member of the one before. -/
def nestedUnit (annotations : List Annotation) : CompilationUnit :=
  ⟨"T.java", none, [], [apiClass "Outer" [] [.type (innerClass annotations)]]⟩

def suppressNewApi : Annotation :=
  ⟨"SuppressLint", [⟨"value", .literal {} (.str Category.newApi.id)⟩], {}⟩

/-- The class in the middle and the one inside it are silenced, and the one around them is
not. -/
theorem silencing_is_local_nested :
    (Setting.sampleSetting.checkUnit (nestedUnit [])).length = 3 ∧
    (Setting.sampleSetting.checkUnit (nestedUnit [suppressNewApi])).length = 1 ∧
    ∃ before inside after,
      Setting.sampleSetting.checkUnit (nestedUnit []) = before ++ inside ++ after ∧
      Setting.sampleSetting.checkUnit (nestedUnit [suppressNewApi]) =
        before ++ othersThan .newApi inside ++ after ∧
      ∃ v ∈ unitVisits Setting.sampleCatalog (.ofCatalog Setting.sampleCatalog) (nestedUnit []),
        v.subject? = some (.declaration (.type (innerClass []))) ∧
          inside = Setting.sampleSetting.findings (nestedUnit []) v := by
  have hadded : (nestedUnit []).Annotates (nestedUnit [suppressNewApi])
      (.type (innerClass [])) suppressNewApi :=
    ⟨rfl, [_, _], [_, _], [_, _], .type (innerClass [suppressNewApi]), [_, _],
      rfl, rfl, rfl, ⟨[], [], rfl, rfl⟩, rfl⟩
  exact ⟨by decide +kernel, by decide +kernel, silencing_is_local Setting.sampleSetting (by decide)
    ⟨by decide +kernel, _, rfl, rfl⟩ hadded⟩

end Check

end LevelGuard
