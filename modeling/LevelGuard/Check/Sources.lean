import LevelGuard.Check.Unit
import LevelGuard.Java.Read

/-!
# Checking the sources of a project

All sources are indexed together and then checked one by one. A source with a syntax
error is indexed like any other and gets one finding, which says so.
-/
namespace LevelGuard.Check

open Java Project

/-- A source file as it was read. -/
structure Source where
  path : Path
  /-- What the file declares, as far as it was made out. -/
  unit : CompilationUnit
  /-- The first place that does not parse. -/
  syntaxError : Option Span := none

namespace Source

/-- Nothing is made out of a text that does not parse. -/
def ofText (path : Path) (text : String) : Source :=
  match readUnit? path.text text with
  | some u => ⟨path, u, none⟩
  | none => ⟨path, ⟨path.text, none, [], []⟩, some {}⟩

def check (K : Platform.Catalog) (I : Index) (B : Baseline) (s : Source) : List Diagnostic :=
  match s.syntaxError with
  | some span => [.unreadable s.path span]
  | none => Diagnostic.report (Setting.checkUnit ⟨s.path, K, I, B⟩ s.unit)

end Source

structure Options where
  disabled : List Category := []
  /-- Set when a run is to stop before the next file. -/
  cancelled : Bool := false

def Options.keep (o : Options) (ds : List Diagnostic) : List Diagnostic :=
  ds.filter fun d => !o.disabled.contains d.category

def checkSources (K : Platform.Catalog) (B : Baseline) (o : Options) (sources : List Source) :
    List Diagnostic :=
  let I := Index.ofUnits K (sources.map Source.unit)
  if o.cancelled then []
  else Diagnostic.sort (o.keep (sources.flatMap (Source.check K I B)))

end LevelGuard.Check
