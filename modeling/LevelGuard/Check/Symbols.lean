import LevelGuard.Baseline
import LevelGuard.Facts.Basic
import LevelGuard.Project.Resolve

/-!
# Checking what symbols demand

A use of a symbol is compared with the facts at the place of use and with the
baseline of the module. A level is met if every device that reaches the place has
it. A permission is met if the module holds it or a check has established it; one
that the user can revoke also needs a check or a handler at the place, unless the
caller passes the demand on to its own callers.
-/
namespace LevelGuard.Check

open Java Project

structure Setting where
  path : Path
  catalog : Platform.Catalog
  index : Index
  baseline : Baseline

namespace Setting

def finding (C : Setting) (span : Span) (category : Category) (message : String) : Diagnostic :=
  .of C.path span category message

/-- Whether the facts leave a demand for a level open: it is not silenced, and some
device that reaches the place does not have the level. -/
def lacksLevel (C : Setting) (F : Facts) (category : Category) (level : Level) : Bool :=
  !F.isSuppressed category && F.effectiveFloor C.baseline.min < level

def levelClause (C : Setting) (F : Facts) (level : Level) : String :=
  " requires API level " ++ toString level ++ " (current min is "
    ++ toString (F.reportedMin C.baseline.min) ++ ")"

/-- A symbol that is newer than the devices that reach its use. -/
def checkLevel (C : Setting) (F : Facts) (s : Resolved) (level : Level) (span : Span) :
    List Diagnostic :=
  let category := if s.inlined then Category.inlinedApi else .newApi
  if C.lacksLevel F category level then
    [C.finding span category
      (s.display.kind.noun ++ C.levelClause F level ++ ": " ++ s.display.text)]
  else []

def resourcesLevel : Level := 19

def checkResources (C : Setting) (F : Facts) (span : Span) : List Diagnostic :=
  if C.lacksLevel F .newApi resourcesLevel then
    [C.finding span .newApi ("Try-with-resources" ++ C.levelClause F resourcesLevel)]
  else []

/-- The first letter of a date pattern, outside quoted text, that stands for a month
or weekday on its own. -/
def standaloneLetter? : (quoted : Bool) → List Char → Option Char
  | _, [] => none
  | quoted, c :: cs =>
    if c = '\'' then standaloneLetter? (!quoted) cs
    else if !quoted && (c = 'L' || c = 'c') then some c
    else standaloneLetter? quoted cs

def dateFormatClass : String := "java.text.SimpleDateFormat"

def dateLettersLevel : Level := 9

def checkDatePattern (C : Setting) (F : Facts) : Expr → List Diagnostic
  | .new _ _ (arg :: _) _ =>
    match arg.stringLiteral? with
    | none => []
    | some pattern =>
      match standaloneLetter? false pattern.toList with
      | some letter =>
        if C.lacksLevel F .newApi dateLettersLevel then
          [C.finding arg.span .newApi
            ("The pattern character '" ++ String.singleton letter ++ "'"
              ++ C.levelClause F dateLettersLevel ++ " : \"" ++ pattern ++ "\"")]
        else []
      | none => []
  | _ => []

/-- The level from which on users can revoke permissions. -/
def revocableLevel : Level := 23

def refusalHandlers : List String :=
  ["SecurityException", "RuntimeException", "Exception", "Throwable"]

def handlesRefusal (excluded : NameSet) : Bool :=
  excluded.toList.any fun name =>
    let simple := Text.lastSegment '.' name
    refusalHandlers.contains simple && (name = simple || Text.startsWith name "java.lang.")

def established (F : Facts) : NameSet := F.held.union F.impliedPermissions

/-- Whether the enclosing method makes the same demand of its callers. -/
def passedOn (F : Facts) (r : Permission.Requirement) : Bool :=
  F.requirements.any fun own => own.expr = r.expr

def missingMessage (C : Setting) (F : Facts) (s : Resolved) (r : Permission.Requirement) : String :=
  "Missing permissions required by " ++ s.display.shortName ++ ": "
    ++ r.expr.describeMissing C.baseline.permissions (established F)

def revocableMessage : String :=
  "Call requires permission which may be rejected by user: code should explicitly check to see if permission is available (with checkPermission) or handle a potential SecurityException"

/-- Whether an expression is met by the module and the facts, or passed on. -/
def meets (C : Setting) (F : Facts) (r : Permission.Requirement) (e : Permission.Expr) : Bool :=
  passedOn F r || e.satisfied C.baseline.permissions (established F)

def revocableNames (C : Setting) (r : Permission.Requirement) : NameSet :=
  r.expr.revocable (C.baseline.revocable.union C.catalog.revocable)

def preparedFor (F : Facts) (r : Permission.Requirement) (names : NameSet) : Bool :=
  passedOn F r || names.toList.any (established F).contains || handlesRefusal F.excluded

/-- A permission that is held but may have been revoked. -/
def checkRevocable (C : Setting) (F : Facts) (r : Permission.Requirement) (span : Span) :
    List Diagnostic :=
  let names := C.revocableNames r
  if C.baseline.target < revocableLevel || F.isSuppressed .revocablePermission || names.isEmpty
      || preparedFor F r names then []
  else [C.finding span .revocablePermission revocableMessage]

/-- A permission that is missing or may have been revoked. A demand that is made
only sometimes gives no more than information. -/
def checkPermission (C : Setting) (F : Facts) (s : Resolved) (r : Permission.Requirement)
    (span : Span) : List Diagnostic :=
  if !r.appliesTo C.baseline.min C.baseline.target then []
  else
    let missing := C.finding span .missingPermission (C.missingMessage F s r)
    let silenced := F.isSuppressed .missingPermission
    match r.expr.conditionalInner? with
    | some inner =>
      if C.meets F r inner || silenced then [] else [{ missing with severity := .info }]
    | none =>
      if C.meets F r r.expr then C.checkRevocable F r span
      else if silenced then [] else [missing]

def checkSymbol (C : Setting) (F : Facts) (s : Resolved) (span : Span) : List Diagnostic :=
  s.demands.flatMap fun
    | .version level => C.checkLevel F s level span
    | .permission r => C.checkPermission F s r span

def overriddenLevel? (C : Setting) (owner : String) (m : MethodDecl) : Option Level :=
  ((C.index.ancestors owner).filterMap fun a =>
    ((C.catalog.class? a).bind fun c => c.methods.get? m.name).bind fun overloads =>
      ((overloads.filter (·.arity = m.params.length)).map (·.since)).min?).min?

/-- A method that overrides nothing yet on the platform compiled against. -/
def checkOverride (C : Setting) (F : Facts) (owner : String) (m : MethodDecl) : List Diagnostic :=
  match C.baseline.compile, C.overriddenLevel? owner m with
  | some compile, some level =>
    if m.isConstructor || m.isStatic || F.isSuppressed .override || level ≤ compile then []
    else
      [C.finding m.nameSpan .override
        ("This method is not overriding anything with the current build target, but will in API level "
          ++ toString level ++ " (current target is " ++ toString compile ++ "): "
          ++ owner ++ "#" ++ m.name)]
  | _, _ => []

end Setting
end LevelGuard.Check
