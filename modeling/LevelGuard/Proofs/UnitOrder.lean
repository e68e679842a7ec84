import LevelGuard.Check.Sources
import LevelGuard.Proofs.IndexOrder
import LevelGuard.Proofs.ReportOrder
import LevelGuard.Proofs.Visits

/-!
# The order of files

What is reported for a project does not depend on the order in which its files are checked
and in which the classes of the platform are listed. Every file is checked against the same
index, and no finding of one file ties with one of another.
-/
namespace LevelGuard.Check

open Java Project

namespace Setting

/-- All findings are in the file of the setting. -/
def Own (C : Setting) (ds : List Diagnostic) : Prop := ∀ d ∈ ds, d.path = C.path

variable {C : Setting}

namespace Own

theorem nil : C.Own [] := nofun

theorem finding {span : Span} {category : Category} {message : String} :
    C.Own [C.finding span category message] := fun d hd => by
  rw [List.mem_singleton.mp hd]
  rfl

theorem append {ds es : List Diagnostic} (hds : C.Own ds) (hes : C.Own es) : C.Own (ds ++ es) :=
  fun d hd => (List.mem_append.mp hd).elim (hds d) (hes d)

theorem flatMap {α : Type} {as : List α} {f : α → List Diagnostic} (h : ∀ a, C.Own (f a)) :
    C.Own (as.flatMap f) := fun d hd => by
  obtain ⟨a, -, hd⟩ := List.mem_flatMap.mp hd
  exact h a d hd

theorem found {α : Type} {a : Option α} {f : α → List Diagnostic} (h : ∀ a, C.Own (f a)) :
    C.Own ((a.map f).getD []) := by
  cases a with
  | none => exact nil
  | some a => exact h a

theorem ite {p : Prop} [Decidable p] {ds es : List Diagnostic} (hds : C.Own ds) (hes : C.Own es) :
    C.Own (if p then ds else es) := by
  split
  · exact hds
  · exact hes

end Own

theorem own_checkPermission (F : Facts) (s : Resolved) (r : Permission.Requirement) (span : Span) :
    C.Own (C.checkPermission F s r span) := by
  have hrevocable : C.Own (C.checkRevocable F r span) := .ite .nil .finding
  refine .ite .nil ?_
  split
  · exact .ite .nil fun d hd => List.mem_singleton.mp hd ▸ rfl
  · exact .ite hrevocable (.ite .nil .finding)

theorem own_checkSymbol (F : Facts) (s : Resolved) (span : Span) : C.Own (C.checkSymbol F s span) := by
  refine .flatMap fun demand => ?_
  cases demand with
  | version level => exact .ite .finding .nil
  | permission r => exact own_checkPermission F s r span

theorem own_checkDatePattern (F : Facts) (e : Expr) : C.Own (C.checkDatePattern F e) := by
  unfold checkDatePattern
  split
  · split
    · exact .nil
    · split
      · exact .ite .finding .nil
      · exact .nil
  · exact .nil

theorem own_checkOverride (F : Facts) (owner : String) (m : MethodDecl) :
    C.Own (C.checkOverride F owner m) := by
  unfold checkOverride
  split
  · exact .ite .nil .finding
  · exact .nil

/-- Each step of a check finds something in its own file only. -/
theorem own_perform (u : CompilationUnit) (v : Visit) : C.Own (C.perform u v) := by
  cases v with
  | type F locals d => exact .ite .nil (.flatMap fun t => .found fun s => own_checkSymbol _ s t.span)
  | member P F owner m =>
    cases m with
    | method m => exact own_checkOverride _ owner m
    | _ => exact .nil
  | site P F event =>
    cases event with
    | reference e =>
      exact .found fun s => (own_checkSymbol F s e.span).append (.ite (own_checkDatePattern F e) .nil)
    | typeUse t => exact .found fun s => own_checkSymbol F s t.span
    | caseLabel label selector => exact .found fun s => own_checkSymbol F s label.span
    | tryWithResources span => exact .ite .finding .nil
    | lambda params body => exact .nil
    | classBody d => exact .nil

theorem own_checkUnit (C : Setting) (u : CompilationUnit) : C.Own (C.checkUnit u) := by
  rw [C.checkUnit_eq_flatMap u]
  exact .flatMap fun v => own_perform u v

end Setting

namespace Source

variable {K L : Platform.Catalog} {I J : Index} {B : Baseline}

theorem check_congr (hcatalog : K.Alike L) (hindex : I.Alike J) (s : Source) :
    s.check K I B = s.check L J B := by
  have hunit := Setting.Alike.checkUnit (C := ⟨s.path, K, I, B⟩) (D := ⟨s.path, L, J, B⟩)
    ⟨rfl, hcatalog, hindex, rfl⟩
  simp only [check, hunit]

theorem path_of_mem_check {s : Source} {d : Diagnostic} (h : d ∈ s.check K I B) :
    d.path = s.path := by
  unfold check at h
  split at h
  · rw [List.mem_singleton.mp h]
    rfl
  · exact Setting.own_checkUnit _ _ d (Diagnostic.mem_report.mp h)

/-- No finding of a source ties with one of a source with another path. -/
theorem apart_of_path {s t : Source} (h : s.path.same t.path = false) (o : Options) :
    Diagnostic.Apart (fun s : Source => o.keep (s.check K I B)) s t := by
  intro d hd e he hties
  have hcompare := (Ordering.then_eq_eq.mp (Diagnostic.ties_iff.mp hties)).1
  rw [path_of_mem_check (List.mem_filter.mp hd).1, path_of_mem_check (List.mem_filter.mp he).1,
    Path.compare_eq_iff, h] at hcompare
  exact Bool.false_ne_true hcompare

end Source

/-- The order of the files, and that of the classes of the platform, does not show in the
report, as long as paths and type names are distinct and no type is made a member of a type
in another file. -/
theorem report_independent_of_order {K : Platform.Catalog} (hK : K.Tidy)
    {classes : Table String Platform.ApiClass} (hclasses : classes.entries.Perm K.classes.entries)
    {sources files : List Source} (hperm : files.Perm sources)
    (hpaths : sources.Pairwise fun s t => s.path.same t.path = false)
    (hnames : ((declarations (sources.map Source.unit)).map (·.2.qualified)).Nodup)
    (htogether : Index.MembersTogether (sources.map Source.unit)) (B : Baseline)
    (o : Options) : checkSources (K.withClasses classes) B o files = checkSources K B o sources := by
  have hcatalog := Platform.Catalog.alike_withClasses hK hclasses
  have hindex := Index.alike_ofUnits hK hclasses (hperm.map Source.unit) hnames htogether
  have hcheck := funext (Source.check_congr (B := B) hcatalog hindex)
  have hsort := Diagnostic.sort_flatMap_perm hperm.symm
    (hpaths.imp fun hpath => Source.apart_of_path (K := K) (B := B)
      (I := .ofUnits K (sources.map Source.unit)) hpath o)
  unfold checkSources
  split
  · rfl
  · dsimp only
    rw [hcheck, Options.keep, Options.keep, List.filter_flatMap, List.filter_flatMap]
    exact hsort.symm

/-- `@RequiresApi(19) class … {}` -/
def newClass (name qualified : String) : TypeDecl :=
  ⟨name, qualified, .classType, [⟨"RequiresApi", [⟨"value", .literal {} (.int 19)⟩], {}⟩], none, [], [],
    {}⟩

/-- `class … { Object x = new …(); }` -/
def userClass (name type : String) : TypeDecl :=
  ⟨name, name, .classType, [], none, [], [.field ⟨"x", ⟨"Object", {}⟩, false, false, false, [],
    some (.new {} ⟨type, {}⟩ [] none), {}⟩], {}⟩

def plainFile (path : String) (d : TypeDecl) : Source := { path := ⟨path⟩, unit := ⟨path, none, [], [d]⟩ }

/-- A file with a syntax error after the class. -/
def brokenFile (path : String) (d : TypeDecl) : Source :=
  { plainFile path d with syntaxError := some { line := 2 } }

def twoClasses : Platform.Catalog :=
  .ofClasses [{ name := "q.Base", since := 1 }, { name := "q.Api", since := 1, superClass := "q.Base" }]

/-- A class in a file with a syntax error is known in the other file. -/
theorem report_independent_of_order_swapped :
    checkSources (twoClasses.withClasses ⟨twoClasses.classes.entries.reverse⟩) (.ofRange 1 1)
        { disabled := [.parserError] }
        [brokenFile "Tool.java" (newClass "Tool" "Tool"), plainFile "User.java" (userClass "User" "Tool")] =
      checkSources twoClasses (.ofRange 1 1) { disabled := [.parserError] }
        [plainFile "User.java" (userClass "User" "Tool"), brokenFile "Tool.java" (newClass "Tool" "Tool")] ∧
    (checkSources twoClasses (.ofRange 1 1) { disabled := [.parserError] }
        [plainFile "User.java" (userClass "User" "Tool"),
          brokenFile "Tool.java" (newClass "Tool" "Tool")]).map (·.path.text) = ["User.java"] := by
  refine ⟨report_independent_of_order (.ofClasses _) (List.reverse_perm _) (.swap _ _ _)
    (by decide +kernel) (by decide +kernel) ?_ _ _, by decide +kernel⟩
  unfold Index.MembersTogether
  decide +kernel

/-- `package p; class F { void m() { @RequiresApi(19) class Local {} } }` -/
def localFile : Source :=
  { path := ⟨"F.java"⟩
    unit := ⟨"F.java", some "p", [], [⟨"F", "p.F", .classType, [], none, [],
      [.method ⟨"m", false, false, [], [], false, none, [],
        some ⟨[.localClass {} (newClass "Local" "p.F$1Local")], {}⟩, {}, {}⟩], {}⟩]⟩ }

/-- A class that is named like a package gets the local classes of this package as members,
but only those in files that come later. -/
theorem order_of_files_shows :
    (plainFile "p.java" (userClass "p" "Local")).path.same localFile.path = false ∧
      ((declarations ([plainFile "p.java" (userClass "p" "Local"), localFile].map
        Source.unit)).map (·.2.qualified)).Nodup ∧
      (checkSources .empty (.ofRange 1 1) {}
        [plainFile "p.java" (userClass "p" "Local"), localFile]).map (·.category) = [.newApi] ∧
      checkSources .empty (.ofRange 1 1) {}
        [localFile, plainFile "p.java" (userClass "p" "Local")] = [] := by
  decide +kernel

end LevelGuard.Check
