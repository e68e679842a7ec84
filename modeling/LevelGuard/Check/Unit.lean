import LevelGuard.Check.Symbols
import LevelGuard.Flow.Propagate
import LevelGuard.Java.Depth
import LevelGuard.Project.Code

/-!
# Checking a file

Every piece of code of a file is checked with the facts its declarations give it:
annotations of the types and members around it, the exceptions its method declares
and the permissions the method demands. Lambdas and classes inside code start from
the facts at the place where they are created, except for its handlers, which do
not cover code that runs later.

The check of such inner code is handed to the check of the outer code as a
function, and the depth of nesting bounds how often that is done.
-/
namespace LevelGuard.Check

open Java Project LevelGuard.Flow

/-- Where code stands: what its names mean and which conditions are guards. -/
structure Place where
  resolver : Resolver
  locals : Locals
  recognizer : Recognizer

namespace Place

def inside (P : Place) (c : Code) : Place :=
  { P with
    locals := P.locals.insertAll c.locals.entries
    recognizer := c.recognizer P.recognizer }

end Place

/-- Code that is checked on its own, with the facts it starts from. -/
inductive Inner where
  | lambda (place : Place) (code : Code)
  /-- A type and the variables its bodies can see. -/
  | type (locals : Locals) (decl : TypeDecl)

abbrev InnerCheck := Facts → Inner → List Diagnostic

def annotated (F : Facts) (annotations : List Annotation) : Facts :=
  ((floorLevel? annotations).elim F F.raiseAnnotationFloor).suppress (silenced annotations).toList

def methodFacts (F : Facts) (m : MethodDecl) : Facts :=
  let F := m.throwsTypes.foldl (fun F t => F.assume (.excluded t.name) true)
    (annotated F m.annotations)
  (requiredPermission? m.annotations).elim F F.declareRequirement

def memberFacts (F : Facts) : Member → Facts
  | .method m => methodFacts F m
  | .field f => annotated F f.annotations
  | .constant c => annotated F c.annotations
  | .initializer .. | .type _ => F

namespace Setting

/-- A symbol and, where it constructs a date format, its pattern. -/
def checkReference (C : Setting) (F : Facts) (s : Resolved) (e : Expr) : List Diagnostic :=
  C.checkSymbol F s e.span ++
    if s.declaring = .constructor dateFormatClass then C.checkDatePattern F e else []

def checkEvent (C : Setting) (inner : InnerCheck) (P : Place) (F : Facts) :
    Event → List Diagnostic
  | .reference e =>
    ((P.resolver.reference? P.locals e).map fun s => C.checkReference F s e).getD []
  | .typeUse t => ((P.resolver.typeUse? t).map fun s => C.checkSymbol F s t.span).getD []
  | .caseLabel label selector =>
    ((P.resolver.caseLabel? P.locals label selector).map fun s =>
      C.checkSymbol F s label.span).getD []
  | .tryWithResources span => C.checkResources F span
  | .lambda params body => inner { F with excluded := .empty } (.lambda P (.ofLambda params body))
  | .classBody d => inner { F with excluded := .empty } (.type P.locals d)

def checkSite (C : Setting) (inner : InnerCheck) (P : Place) (F : Facts) (s : Site) :
    List Diagnostic :=
  C.checkEvent inner P (s.inside F) s.event

def checkGraph (C : Setting) (inner : InnerCheck) (P : Place) (seed : Facts) (G : Graph) :
    List Diagnostic :=
  let facts := G.propagate seed
  (List.range G.size).flatMap fun b =>
    (G.sitesOf b).flatMap (C.checkSite inner P (facts.getD b seed))

def checkCode (C : Setting) (inner : InnerCheck) (P : Place) (seed : Facts) (c : Code) :
    List Diagnostic :=
  C.checkGraph inner (P.inside c) seed (c.graph (P.inside c).recognizer)

/-- The supertypes of a type; an anonymous one is covered by its creation. -/
def checkSupertypes (C : Setting) (R : Resolver) (F : Facts) (d : TypeDecl) : List Diagnostic :=
  if d.kind = .anonymous then []
  else
    d.supertypes.flatMap fun t =>
      ((R.typeUse? t).map fun s => C.checkSymbol F s t.span).getD []

def checkMember (C : Setting) (inner : InnerCheck) (P : Place) (F : Facts) (owner : String)
    (m : Member) : List Diagnostic :=
  let G := memberFacts F m
  let code := ((Code.ofMember? m).map (C.checkCode inner P G)).getD []
  match m with
  | .method d => C.checkOverride G owner d ++ code
  | .field _ | .initializer .. => code
  | .constant c => code ++ (c.body.map fun d => inner G (.type P.locals d)).getD []
  | .type d => inner F (.type .empty d)

def checkType (C : Setting) (u : CompilationUnit) (inner : InnerCheck) (outer : Facts)
    (locals : Locals) (d : TypeDecl) : List Diagnostic :=
  let F := annotated outer d.annotations
  let R := Resolver.ofScope C.catalog (.inside C.index u d.qualified)
  let unitRecognizer := Recognizer.ofUnit u
  let P : Place := ⟨R, locals, unitRecognizer.withVariables (unitRecognizer.fieldVariables d)⟩
  C.checkSupertypes R F d ++ d.members.flatMap (C.checkMember inner P F d.qualified)

def checkInner (C : Setting) (u : CompilationUnit) : (depth : Nat) → InnerCheck
  | 0, _, _ => []
  | depth + 1, F, .lambda P c => C.checkCode (C.checkInner u depth) P F c
  | depth + 1, F, .type locals d => C.checkType u (C.checkInner u depth) F locals d

def checkUnit (C : Setting) (u : CompilationUnit) : List Diagnostic :=
  u.types.flatMap fun d => C.checkInner u u.depth .top (.type .empty d)

end Setting
end LevelGuard.Check
