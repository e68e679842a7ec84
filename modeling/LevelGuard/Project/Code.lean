import LevelGuard.Flow.Build
import LevelGuard.Project.Locals

/-!
# Pieces of code

A piece of code is what runs as one: the body of a method, an initializer or a
lambda, the initial value of a field, the arguments of an enum constant. It has
variables of its own, a graph, and its own view of the conditions that are guards:
its variables hide those around it, and those of them that hold a guard count.
-/
namespace LevelGuard.Project

open Java LevelGuard.Flow

inductive Steps where
  | block (body : Block)
  | exprs (exprs : List Expr)

structure Code where
  params : List Param := []
  steps : Steps

namespace Code

def block? (c : Code) : Option Block :=
  match c.steps with
  | .block b => some b
  | .exprs _ => none

def locals (c : Code) : Locals := .ofBody c.params c.block?

/-- The recogniser around the code as far as the code's variables do not hide it. -/
def outerRecognizer (c : Code) (R : Recognizer) : Recognizer := R.without c.locals.keys

def guards (c : Code) (R : Recognizer) : Table String Guard :=
  match c.block? with
  | some b => (c.outerRecognizer R).localVariables b
  | none => .empty

def recognizer (c : Code) (R : Recognizer) : Recognizer :=
  (c.outerRecognizer R).withVariables (c.guards R)

def graph (c : Code) (R : Recognizer) : Graph :=
  match c.steps with
  | .block b => .ofBlock R b
  | .exprs es => .ofExprs R es

def ofLambda (params : List Param) : LambdaBody → Code
  | .expr e => ⟨params, .exprs [e]⟩
  | .block b => ⟨params, .block b⟩

def ofMember? : Member → Option Code
  | .method m => m.body.map fun b => ⟨m.params, .block b⟩
  | .field f => f.init.map fun e => ⟨[], .exprs [e]⟩
  | .initializer _ b => some ⟨[], .block b⟩
  | .constant c => some ⟨[], .exprs c.args⟩
  | .type _ => none

def label (position : Nat) : Member → String
  | .method m => s!"{m.name}/{m.params.length}"
  | .field f => f.name
  | .initializer .. => s!"init{position}"
  | .constant c => c.name
  | .type d => d.name

def ofType (d : TypeDecl) : List (String × Code) :=
  d.members.zipIdx.filterMap fun (m, i) =>
    (ofMember? m).map fun c => (d.qualified ++ "#" ++ label i m, c)

end Code
end LevelGuard.Project
