import LevelGuard.Java.Naming
import LevelGuard.Java.Nested
import LevelGuard.Java.Parser.Declarations

/-!
# Source files

A source file is a list of package and import declarations, types, and anything
else that can stand in a block; of the last nothing is kept. Files that do not
follow the grammar to their end have a syntax error, wherever it is. The types of a file
that is parsed are named after the package it declares.
-/
namespace LevelGuard.Java

open Rule

def grammar : (depth : Nat) → Grammar
  | 0 => .bare
  | depth + 1 =>
    let g := grammar depth
    { type := typeRule g
      annotationTree := annotationRule g
      elementValue := elementValueRule g
      expr := exprRule g
      operand := operandRule g (switchRule g)
      variableInit := variableInitRule g
      recordPattern := recordPatternRule g
      stmt := stmtRule g
      block := blockRule g
      classBody := classBodyRule g
      typeDecl := typeDeclRule g }

inductive UnitItem where
  | package (name : String)
  | import (path : Import)
  | type (decl : TypeDecl)
  | other

def looseMethod (g : Grammar) : Rule MethodDecl := do
  let start ← here
  let mods ← declarationModifiers g
  methodDecl g (if mods.isEmpty then blockWords else wordsAfterModifiers mods) start mods

def unitItem (g : Grammar) : Rule UnitItem :=
  (do return .package (← packageDecl g))
    <|> (do return .import (← importDecl))
    <|> (do moduleDecl g; return .other)
    <|> (do return .type (← g.typeDecl))
    <|> (do let _ ← mark ";"; return .other)
    <|> (do let _ ← looseMethod g; return .other)
    <|> (do let _ ← g.stmt; return .other)

structure UnitSyntax where
  package : Option String
  imports : List Import
  types : List TypeDecl

def UnitSyntax.ofItems (items : List UnitItem) : UnitSyntax where
  package := items.findSome? fun
    | .package name => some name
    | _ => none
  imports := items.filterMap fun
    | .import i => some i
    | _ => none
  types := items.filterMap fun
    | .type d => some d
    | _ => none

def nestingDepth (tokens : Nat) : Nat := 4 * tokens + 16

def parseUnit? (source : String) : Option UnitSyntax := do
  let chars := source.toList
  let tokens ← Token.readAll? chars
  let g := grammar (nestingDepth tokens.length)
  let (items, s) ← (many (unitItem g)) ⟨tokens, tokens.length, Mark.start chars⟩
  if s.rest.isEmpty then some (.ofItems items) else none

def readUnit? (path source : String) : Option CompilationUnit :=
  (parseUnit? source).map fun u =>
    ⟨path, u.package, u.imports, u.types.map (nameTopType u.package)⟩

/-- Read the characters of a source. Evaluating this takes no literal apart into characters,
which is slow where the literal is long. -/
def readChars? (path : String) (chars : List Char) : Option CompilationUnit :=
  let raw : Option UnitSyntax := do
    let tokens ← Token.readAll? chars
    let g := grammar (nestingDepth tokens.length)
    let (items, s) ← (Rule.many (unitItem g)) ⟨tokens, tokens.length, Mark.start chars⟩
    if s.rest.isEmpty then some (.ofItems items) else none
  raw.map fun u => ⟨path, u.package, u.imports, u.types.map (nameTopType u.package)⟩

theorem readUnit?_eq_readChars? (path source : String) :
    readUnit? path source = readChars? path source.toList := rfl

/-- What can be decided of a file is decided on the characters of its source. -/
theorem exists_readUnit? {path source : String} {chars : List Char} {P : CompilationUnit → Prop}
    [DecidablePred P] (hchars : source.toList = chars)
    (h : (readChars? path chars).any (fun u => decide (P u)) = true) :
    ∃ u, readUnit? path source = some u ∧ P u := by
  rw [← hchars, ← readUnit?_eq_readChars?] at h
  obtain ⟨u, hread, hu⟩ := (Option.any_eq_true _ _).mp h
  exact ⟨u, hread, of_decide_eq_true hu⟩

end LevelGuard.Java
