import LevelGuard.Diagnostic
import LevelGuard.Format.Pretty

/-!
# The reports for programs

The plain report has all findings in order, and a summary that counts them by severity and by
category. The summary names every category, in the order of the names.

The exchange format for results of static analysis has a single run with a rule for
each category and a result for each finding. Places in it count from one, also
for findings without a place.
-/
namespace LevelGuard.Report

open Format

def countSeverity (ds : List Diagnostic) (s : Severity) : Nat :=
  (ds.filter fun d => d.severity = s).length

def countCategory (ds : List Diagnostic) (c : Category) : Nat :=
  (ds.filter fun d => d.category = c).length

namespace Json

def issue (d : Diagnostic) : Value :=
  .map [("id", .text d.category.id), ("severity", .text d.severity.text),
    ("message", .text d.message), ("file", .text d.path.text), ("line", .nat d.span.line),
    ("column", .nat d.span.column), ("end_line", .nat d.span.endLine),
    ("end_column", .nat d.span.endColumn)]

def categories : List Category :=
  [.inlinedApi, .lintError, .missingPermission, .newApi, .override, .parserError,
    .revocablePermission, .unusedAttribute]

def summary (ds : List Diagnostic) : Value :=
  .map [("errors", .nat (countSeverity ds .error)), ("warnings", .nat (countSeverity ds .warning)),
    ("infos", .nat (countSeverity ds .info)),
    ("by_category", .map (categories.map fun c => (c.id, .nat (countCategory ds c))))]

def document (ds : List Diagnostic) : Value :=
  .map [("version", .text "1.0"), ("total_issues", .nat ds.length),
    ("issues", .list (ds.map issue)), ("summary", summary ds)]

end Json

def json (ds : List Diagnostic) : String := (Json.document ds).pretty

open Format

namespace Sarif

def level : Severity → String
  | .error => "error"
  | .warning => "warning"
  | .info => "note"

def description : Category → String
  | .newApi => "Calling new methods on older versions"
  | .inlinedApi => "Using inlined constants on older versions"
  | .missingPermission => "Missing permissions"
  | .revocablePermission => "Unchecked use of a revocable permission"
  | .override => "Method would override a newer platform method"
  | .unusedAttribute => "Attribute unused on older versions"
  | .lintError => "Analysis could not be performed"
  | .parserError => "Source file could not be parsed"

def message (s : String) : Value := .map [("text", .text s)]

def rule (c : Category) : Value :=
  .map [("id", .text c.id), ("shortDescription", message (description c)),
    ("defaultConfiguration", .map [("level", .text (level c.defaultSeverity))])]

def region (s : Span) : Value :=
  .map [("startLine", .nat (max s.line 1)), ("startColumn", .nat (max s.column 1))]

def location (d : Diagnostic) : Value :=
  let uri := Text.replaceAll (· == '\\') '/' d.path.text
  .map [("physicalLocation",
    .map [("artifactLocation", .map [("uri", .text uri)]), ("region", region d.span)])]

def result (d : Diagnostic) : Value :=
  .map [("ruleId", .text d.category.id), ("level", .text (level d.severity)),
    ("message", message d.message), ("locations", .list [location d])]

def tool : Value :=
  .map [("driver",
    .map [("name", .text "apicheck"), ("version", .text "0.1.0"),
      ("informationUri", .text "https://github.com/KevinDoremy/apicheck"),
      ("rules", .list (Category.all.map rule))])]

def schema : String :=
  "https://raw.githubusercontent.com/oasis-tcs/sarif-spec/master/Schemata/sarif-schema-2.1.0.json"

def document (ds : List Diagnostic) : Value :=
  .map [("$schema", .text schema), ("version", .text "2.1.0"),
    ("runs", .list [.map [("tool", tool), ("results", .list (ds.map result))]])]

end Sarif

def sarif (ds : List Diagnostic) : String := (Sarif.document ds).pretty

end LevelGuard.Report
