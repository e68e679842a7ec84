import LevelGuard.BuildFile
import LevelGuard.Check.Files
import LevelGuard.Command.Options
import LevelGuard.Config
import LevelGuard.Manifest
import LevelGuard.Platform.Locate
import LevelGuard.Report.Json
import LevelGuard.Report.Terminal

/-!
# A run of the command

A run reads the configuration, finds the files, takes the baseline from the
manifest, loads the catalog, checks and reports. What it prints and which file it
writes are a function of the files it sees; only the time it took is added by the
caller. A run that cannot begin ends with a message and prints nothing.
-/
namespace LevelGuard.Command

inductive Failure where
  | config (fault : ConfigFault)
  | choice (message : String)
  | exclusion (pattern : String)
  | manifest (fault : ManifestFault)
  | resource
  | output (path : Path) (fault : FileFault)
  deriving Repr

def Failure.message : Failure → String
  | config fault => fault.message
  | choice message => message
  | exclusion pattern => "Invalid exclude pattern: " ++ pattern
  | manifest fault => fault.message
  | resource => "A resource file could not be cut into pieces"
  | output path fault => "Failed to write " ++ path.text ++ ": " ++ fault.message

structure World where
  files : FileTree
  kits : List Path := []
  coloured : Bool := false

structure Outcome where
  exitCode : Nat
  printed : String
  /-- The last line up to the time it took. -/
  closing : Option String := none
  coloured : Bool := false
  written : Option (Path × String) := none

/-- All that is printed by a run that took some time. -/
def Outcome.text (o : Outcome) (seconds : String) : String :=
  match o.closing with
  | none => o.printed
  | some line =>
    o.printed ++ Report.paint o.coloured .faint (line ++ " in " ++ seconds ++ "s") ++ "\n"

def override (o : Options) (c : Config) : Config :=
  { c with
    apiDatabase := o.apiDatabase.or c.apiDatabase
    permissionDatabase := o.permissionDatabase.or c.permissionDatabase
    manifest := o.manifest.or c.manifest
    minLevel := o.minLevel.or c.minLevel
    targetLevel := o.targetLevel.or c.targetLevel
    compileLevel := o.compileLevel.or c.compileLevel
    disabled := c.disabled ++ o.disabled
    report :=
      { c.report with
        format := (o.format.map ReportFormat.name).getD c.report.format
        output := o.output.or c.report.output } }

def configOf (t : FileTree) (o : Options) (root : Path) : Except Failure Config :=
  ((match o.config with
    | some p => Config.ofFile t p
    | none => Config.ofProject t root).map (override o)).mapError .config

/-- The folder of the module a manifest belongs to: the one that holds the sources
around it, or its own. -/
def moduleRoot (root : Path) (manifest : Option Path) : Path :=
  match manifest with
  | none => root
  | some m =>
    ((m.ancestors.find? fun p => p.endsWith "src").bind Path.parent?).getD (m.parent?.getD root)

/-- The declared baseline. A manifest that was only found may fail to be read. -/
def declared (t : FileTree) (c : Config) (manifest : Option Path) : Except Failure Baseline :=
  match manifest with
  | none => .ok default
  | some m =>
    match Baseline.ofManifest t m with
    | .ok B => .ok B
    | .error e => if c.manifest.isSome then .error (.manifest e) else .ok default

def baselineOf (t : FileTree) (c : Config) (root : Path) (files : List SourceFile) :
    Except Failure Baseline := do
  let manifest := c.manifest.or (Discovery.findManifest? files)
  let B ← declared t c manifest
  let compile :=
    (c.compileLevel.or (BuildFile.compileLevel? t (moduleRoot root manifest))).or
      (BuildFile.compileLevel? t root)
  return (B.override c.minLevel c.targetLevel).compiledAgainst compile

/-- What is printed of a report that goes to a file, if one is given, and that file. -/
def deliver (t : FileTree) (output : Option Path) (title report : String) :
    Except Failure (String × Option (Path × String)) :=
  match output with
  | none => .ok (report ++ "\n", none)
  | some p =>
    match t.write p report with
    | .ok _ => .ok (title ++ " written to: " ++ p.text ++ "\n", some (p, report))
    | .error e => .error (.output p e)

def reportOf (w : World) (format : ReportFormat) (grouping : Grouping) (output : Option Path)
    (ds : List Diagnostic) : Except Failure (String × Option (Path × String)) :=
  match format with
  | .terminal => .ok (Report.terminal w.coloured grouping ds, none)
  | .json => deliver w.files output "Report" (Report.json ds)
  | .sarif => deliver w.files output "SARIF report" (Report.sarif ds)

def nothingFound (w : World) (interactive : Bool) : Outcome where
  exitCode := 0
  printed :=
    if interactive then
      Report.paint w.coloured (.counted .warning) "No Java or resource files found." ++ "\n"
    else ""

def closingLine (B : Baseline) (files : List SourceFile) : String :=
  s!"Checked {files.length} files against API {B.min} (target {B.target})"

def run (w : World) (o : Options) : Except Failure Outcome := do
  let t := w.files
  let root := o.path.getD ⟨"."⟩
  let c ← configOf t o root
  let format ← (ReportFormat.ofName c.report.format).mapError .choice
  let grouping ← (Grouping.ofName c.report.groupBy).mapError .choice
  let interactive := format = .terminal && !o.quiet
  let files ← (Discovery.findFiles t c.targets c.exclude root).mapError .exclusion
  if Discovery.count files .java + Discovery.count files .resource = 0 then
    return nothingFound w interactive
  let B ← baselineOf t c root files
  let K := Platform.Catalog.load t c.apiDatabase c.permissionDatabase w.kits
  let ds ← (Check.run t root K B { disabled := c.disabled } files).mapError fun _ => .resource
  let (printed, written) ← reportOf w format grouping c.report.output ds
  return {
    exitCode := if ds.any Diagnostic.isError then 1 else 0
    printed
    closing := if interactive then some (closingLine B files) else none
    coloured := w.coloured
    written }

end LevelGuard.Command
