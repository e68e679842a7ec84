import LevelGuard.Data.SortedSet
import LevelGuard.Files.Path
import LevelGuard.Text.Position

/-!
# Diagnostics

A diagnostic says what is wrong where: a path, a span, one of eight categories, a
severity and a message. Lists of diagnostics are ordered by path, then line and
column, then category, then message; the order is stable, so equal keys keep the
order in which they were found.
-/
namespace LevelGuard

/-- Kinds of findings. All but the last two can be silenced by an annotation. -/
inductive Category where
  | newApi
  | inlinedApi
  | missingPermission
  | revocablePermission
  | override
  | unusedAttribute
  | lintError
  | parserError
  deriving DecidableEq, Repr, Inhabited

inductive Severity where
  | info
  | warning
  | error
  deriving DecidableEq, Repr, Inhabited

def Severity.text : Severity → String
  | info => "info"
  | warning => "warning"
  | error => "error"

def Severity.ofText? : String → Option Severity
  | "info" => some info
  | "warning" => some warning
  | "error" => some error
  | _ => none

namespace Category

def all : List Category :=
  [newApi, inlinedApi, missingPermission, revocablePermission, override, unusedAttribute,
    lintError, parserError]

def id : Category → String
  | newApi => "NewApi"
  | inlinedApi => "InlinedApi"
  | missingPermission => "MissingPermission"
  | revocablePermission => "RevocablePermission"
  | override => "Override"
  | unusedAttribute => "UnusedAttribute"
  | lintError => "LintError"
  | parserError => "ParserError"

def rank : Category → Nat
  | newApi => 0
  | inlinedApi => 1
  | missingPermission => 2
  | revocablePermission => 3
  | override => 4
  | unusedAttribute => 5
  | lintError => 6
  | parserError => 7

theorem rank_injective {a b : Category} (h : a.rank = b.rank) : a = b := by
  cases a <;> cases b <;> first | rfl | exact absurd h (by decide)

instance : Key Category where
  lt a b := a.rank < b.rank
  decideLt a b := inferInstanceAs (Decidable (a.rank < b.rank))
  lt_trans := Nat.lt_trans
  lt_irrefl a := Nat.lt_irrefl a.rank
  eq_of_not_lt h₁ h₂ :=
    rank_injective (Nat.le_antisymm (Nat.not_lt.mp h₂) (Nat.not_lt.mp h₁))

/-- The category with this identifier, whatever the case of its letters. -/
def ofId? (text : String) : Option Category := all.find? fun c => c.id.toLower == text.toLower

def suppressible : List Category :=
  [newApi, inlinedApi, missingPermission, revocablePermission, override, unusedAttribute]

def defaultSeverity : Category → Severity
  | inlinedApi | unusedAttribute | parserError => .warning
  | _ => .error

end Category

structure Diagnostic where
  path : Path
  span : Span
  category : Category
  severity : Severity
  message : String
  deriving DecidableEq, Repr, Inhabited

namespace Diagnostic

def of (path : Path) (span : Span) (category : Category) (message : String) : Diagnostic :=
  ⟨path, span, category, category.defaultSeverity, message⟩

def notPerformed (path : Path) (reason : String) : Diagnostic := of path {} .lintError reason

def unreadable (path : Path) (span : Span) : Diagnostic :=
  of path span .parserError "Could not parse file; API check not performed for this file"

def isError (d : Diagnostic) : Bool := d.severity = .error

def compare (a b : Diagnostic) : Ordering :=
  (a.path.compare b.path).then <|
    (Ord.compare a.span.line b.span.line).then <|
      (Ord.compare a.span.column b.span.column).then <|
        (Ord.compare a.category.rank b.category.rank).then (Ord.compare a.message b.message)

/-- Diagnostics in the order of reports; the order of equal ones is kept. -/
def sort (ds : List Diagnostic) : List Diagnostic :=
  ds.mergeSort fun a b => (a.compare b).isLE

/-- Keep the first of adjacent equal diagnostics. -/
def dropRepeats : List Diagnostic → List Diagnostic
  | [] => []
  | [d] => [d]
  | d :: e :: ds => if d = e then dropRepeats (d :: ds) else d :: dropRepeats (e :: ds)
termination_by ds => ds.length

/-- The reported form of the findings in one file: sorted, each once. -/
def report (ds : List Diagnostic) : List Diagnostic := dropRepeats (sort ds)

end Diagnostic
end LevelGuard
