import LevelGuard.Java.Syntax
import LevelGuard.Java.Token
import LevelGuard.Java.Words

/-!
# Rules of the grammar

A rule reads tokens from a cursor and may fail, in which case another rule is
tried from the same place. Rules that refer to each other do so through a
`Grammar`, a record of the rules for the nested parts; reading a source ties the
record to itself a bounded number of times, so every rule is a plain definition.
-/
namespace LevelGuard.Java

/-- A place between tokens: what is left to read, and where the last token read ends. -/
structure Cursor where
  rest : List Token
  left : Nat
  last : Mark

abbrev Rule (α : Type) := StateT Cursor Option α

namespace Token

def is (t : Token) (mark : String) : Bool := t.kind = .punctuation && t.text = mark

def isWord (t : Token) (word : String) : Bool := t.kind = .word && t.text = word

def span (t : Token) : Span := t.start.spanTo t.stop

end Token

namespace Rule

variable {α β : Type}

def ahead : Rule (Option Token) := do return (← get).rest.head?

def take : Rule Token := do
  let s ← get
  match s.rest with
  | [] => failure
  | t :: ts =>
    set (⟨ts, s.left - 1, t.stop⟩ : Cursor)
    return t

def satisfy (p : Token → Bool) : Rule Token := do
  let t ← take
  if p t then return t else failure

def mark (text : String) : Rule Token := satisfy (·.is text)

def keyword (word : String) : Rule Token := satisfy (·.isWord word)

def anyWord : Rule Token := satisfy (·.kind = .word)

def nameBut (taken : List String) : Rule Token :=
  satisfy fun t => t.kind = .word && !taken.contains t.text

def here : Rule Mark := do
  let s ← get
  match s.rest with
  | [] => return s.last
  | t :: _ => return t.start

def spanFrom (start : Mark) : Rule Span := do return start.spanTo (← get).last

def textFrom (start : Mark) : Rule (List Char) := do return start.textTo (← get).last

def isAhead (p : Token → Bool) : Rule Bool := do
  match ← ahead with
  | some t => return p t
  | none => return false

def opt (p : Rule α) : Rule (Option α) := fun s =>
  match p s with
  | some (a, s') => some (some a, s')
  | none => some (none, s)

def manyUpTo (p : Rule α) : (bound : Nat) → Rule (List α)
  | 0 => return []
  | bound + 1 => do
    match ← opt p with
    | none => return []
    | some a => return a :: (← manyUpTo p bound)

def many (p : Rule α) : Rule (List α) := do manyUpTo p (← get).left

def many1 (p : Rule α) : Rule (List α) := do return (← p) :: (← many p)

def sepBy1 (separator : String) (p : Rule α) : Rule (List α) := do
  return (← p) :: (← many do let _ ← mark separator; p)

def sepBy (separator : String) (p : Rule α) : Rule (List α) := sepBy1 separator p <|> pure []

def between (opening closing : String) (p : Rule α) : Rule α := do
  let _ ← mark opening
  let a ← p
  let _ ← mark closing
  return a

end Rule

/-- How a dotted type name reads where an expression is expected. -/
inductive NameShape where
  | simple
  | dotted
  /-- A class literal, or what begins with one. -/
  | classLiteral
  /-- No expression; `generic` if it ends in type arguments. -/
  | typeOnly (generic : Bool)
  deriving DecidableEq, Inhabited

/-- A written type with its parts, as far as expressions can refer to them. -/
inductive TypeTree where
  | primitive (ref : TypeRef)
  | named (ref : TypeRef) (shape : NameShape)
  | array (ref : TypeRef) (element : TypeTree) (dimensions : Expr)
  deriving Inhabited

/-- A dotted name as a chain of field accesses, all with the same span. -/
def nameChain (span : Span) (text : String) : Expr :=
  match Text.splitAll '.' text with
  | [] => .name span text
  | first :: rest => rest.foldl (fun target name => .fieldAccess span target name) (.name span first)

namespace TypeTree

def ref : TypeTree → TypeRef
  | primitive ref | named ref _ | array ref _ _ => ref

def shape : TypeTree → NameShape
  | named _ shape => shape
  | _ => .typeOnly false

/-- Whether the type could also be read as an expression. -/
def isPlain (t : TypeTree) : Bool :=
  match t.shape with
  | .typeOnly _ => false
  | _ => true

def toExpr : TypeTree → Expr
  | primitive ref => .unknown ref.span []
  | named ref _ => nameChain ref.span ref.name
  | array ref element dimensions => .unknown ref.span [element.toExpr, dimensions]

end TypeTree

/-- What is known of the place of an expression beyond the expression itself. -/
structure Place where
  /-- In a case label, which an arrow, a colon or a condition may end. -/
  label : Bool := false
  /-- Whether names before an arrow can begin a lambda in a label. -/
  lambdas : Bool := true
  /-- Whether `when` and a parenthesis are a call after a name in parentheses in a label. -/
  whenCalls : Bool := false
  /-- To the right of the operator of a sum. -/
  sum : Bool := false
  /-- After the arrow of a label that could also be the parameter of a lambda. -/
  afterLabel : Bool := false

/-- An operand; `closed` if it is a primary expression or a lambda. -/
structure Operand where
  expr : Expr
  closed : Bool
  /-- Whether a name in parentheses before a sign is a cast in it, which it would not be
  to the right of the operator of a sum. -/
  castsSign : Bool := false

/-- An annotation, and how it reads where an expression is expected. -/
structure AnnotationTree where
  item : Annotation
  parts : Expr

/-- The value of an annotation's element, and how it reads where an expression is
expected. -/
structure ElementTree where
  value : Expr
  parts : Expr

/-- The rules for nested parts. The rule for types takes the words that name no type
at its place. -/
structure Grammar where
  type : (taken : List String) → Rule TypeTree
  annotationTree : Rule AnnotationTree
  elementValue : Rule ElementTree
  expr : Place → Rule Expr
  operand : Place → Rule Operand
  variableInit : Rule Expr
  recordPattern : (taken : List String) → Rule (TypeRef × Expr)
  stmt : Rule Stmt
  block : Rule Block
  classBody : Rule (List Member)
  typeDecl : Rule TypeDecl

def Grammar.bare : Grammar where
  type _ := failure
  annotationTree := failure
  elementValue := failure
  expr _ := failure
  operand _ := failure
  variableInit := failure
  recordPattern _ := failure
  stmt := failure
  block := failure
  classBody := failure
  typeDecl := failure

end LevelGuard.Java
