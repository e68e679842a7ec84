import LevelGuard.Report.Json

/-!
# The report for readers

The format of a report and the grouping of a report for readers are chosen by name, in letters
of either case.

Findings are listed under the file or the category they belong to, followed by a
line of counts and by tips for what was found. Emphasis is written as escape
codes where colours are wanted; a reset code inside an emphasised text is followed
by the style again, so that the style reaches to the end of the text.
-/
namespace LevelGuard

inductive ReportFormat where
  | terminal
  | json
  | sarif
  deriving DecidableEq, Repr

namespace ReportFormat

def name : ReportFormat → String
  | terminal => "Terminal"
  | json => "Json"
  | sarif => "Sarif"

def ofName (s : String) : Except String ReportFormat :=
  match s.toLower with
  | "terminal" | "text" => .ok terminal
  | "json" => .ok json
  | "sarif" => .ok sarif
  | other => .error ("unknown report format: " ++ other)

end ReportFormat

inductive Grouping where
  | file
  | category
  deriving DecidableEq, Repr

namespace Grouping

def name : Grouping → String
  | file => "File"
  | category => "Category"

def ofName (s : String) : Except String Grouping :=
  match s.toLower with
  | "file" => .ok file
  | "category" | "issue" => .ok category
  | other => .error ("unknown grouping: " ++ other)

end Grouping
end LevelGuard

namespace LevelGuard.Report

inductive Style where
  | heading
  | faint
  | success
  | label (severity : Severity)
  | counted (severity : Severity)
  deriving DecidableEq, Repr

namespace Style

def colour : Severity → String
  | .error => "31"
  | .warning => "33"
  | .info => "34"

def code : Style → String
  | heading => "1;36"
  | faint => "2"
  | success => "1;32"
  | label s => "1;" ++ colour s
  | counted s => colour s

end Style

def reset : List Char := ['\x1b', '[', '0', 'm']

/-- The text with the style after each reset code in it. -/
def resume (style : List Char) : List Char → List Char
  | '\x1b' :: '[' :: '0' :: 'm' :: cs => reset ++ style ++ resume style cs
  | c :: cs => c :: resume style cs
  | [] => []

def paint (coloured : Bool) (style : Style) (s : String) : String :=
  if coloured then
    let start := '\x1b' :: '[' :: style.code.toList ++ ['m']
    String.ofList (start ++ resume start s.toList ++ reset)
  else s

namespace Terminal

def severityLabel (coloured : Bool) (s : Severity) : String := paint coloured (.label s) s.text

def place (s : Span) : String := s!"{s.line}:{s.column}"

def fileLine (coloured : Bool) (d : Diagnostic) : String :=
  "  " ++ paint coloured .faint (place d.span) ++ " " ++ severityLabel coloured d.severity ++ " "
    ++ d.message ++ " [" ++ paint coloured .faint d.category.id ++ "]"

/-- The lines of findings that follow one in the file `current`, or the first ones.
A heading stands wherever the file changes. -/
def byFile (coloured : Bool) : (current : Option Path) → List Diagnostic → List String
  | _, [] => [""]
  | current, d :: ds =>
    let heading := paint coloured .heading d.path.text
    let lead :=
      match current with
      | none => [heading]
      | some p => if p.same d.path then [] else ["", heading]
    lead ++ fileLine coloured d :: byFile coloured (some d.path) ds

def categoryLine (coloured : Bool) (d : Diagnostic) : String :=
  "  " ++ paint coloured .faint (d.path.text ++ ":" ++ place d.span) ++ " "
    ++ severityLabel coloured d.severity ++ " " ++ d.message

def categoryLines (coloured : Bool) (ds : List Diagnostic) (c : Category) : List String :=
  let own := ds.filter fun d => d.category = c
  let n := own.length
  if own.isEmpty then []
  else
    (paint coloured .heading c.id ++ " " ++ paint coloured .faint s!"({n})")
      :: own.map (categoryLine coloured) ++ [""]

def byCategory (coloured : Bool) (ds : List Diagnostic) : List String :=
  Category.all.flatMap (categoryLines coloured ds)

def countPart (coloured : Bool) (ds : List Diagnostic) (s : Severity) (noun : String) :
    List String :=
  let n := countSeverity ds s
  if n = 0 then [] else [paint coloured (.counted s) (toString n ++ " " ++ noun)]

def guardTip : String :=
  "Tip: Guard calls with `if (Build.VERSION.SDK_INT >= N)` or annotate the method with "
    ++ "@RequiresApi(N)"

def permissionTip : String :=
  "Tip: Check with checkSelfPermission(...) or declare the permission in AndroidManifest.xml"

def tip (coloured : Bool) (ds : List Diagnostic) (cs : List Category) (s : String) : List String :=
  if ds.any fun d => cs.contains d.category then [paint coloured .faint s] else []

def summary (coloured : Bool) (ds : List Diagnostic) : List String :=
  let parts := countPart coloured ds .error "errors" ++ countPart coloured ds .warning "warnings"
    ++ countPart coloured ds .info "info"
  [paint coloured .faint (String.ofList (List.replicate 60 '─')),
    "Summary: " ++ Text.joinWith ", " parts]
    ++ tip coloured ds [.newApi, .inlinedApi] guardTip
    ++ tip coloured ds [.missingPermission] permissionTip

def lines (coloured : Bool) (grouping : Grouping) (ds : List Diagnostic) : List String :=
  if ds.isEmpty then [paint coloured .success "No issues found."]
  else
    let body :=
      match grouping with
      | .file => byFile coloured none ds
      | .category => byCategory coloured ds
    "" :: body ++ summary coloured ds

end Terminal

def terminal (coloured : Bool) (grouping : Grouping) (ds : List Diagnostic) : String :=
  String.join ((Terminal.lines coloured grouping ds).map (· ++ "\n"))

end LevelGuard.Report
