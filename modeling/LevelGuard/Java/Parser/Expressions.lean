import LevelGuard.Java.Parser.Types
import LevelGuard.Platform.Symbol

/-!
# Expressions

Operators bind by ten levels, from the disjunction at the loosest to products.
Below them stand unary operators and casts, then operands: lambdas, assignments
and primary expressions with what follows them. An assignment counts as an operand
whose value reaches as far as it can, so `a + b = c` assigns to `b`.

A parenthesised expression is the expression inside, but constructs around it begin
at the parenthesis. A text such as `(a) - b` can be read as a difference or as a cast
of a negative value; `castRule` says which reading is meant.
-/
namespace LevelGuard.Java

open Rule

def arguments (g : Grammar) : Rule (List Expr) := between "(" ")" (sepBy "," (g.expr {}))

def parenthesized (g : Grammar) : Rule Expr := between "(" ")" (g.expr {})

def stringRule (g : Grammar) : Rule Expr := do
  let start ← here
  let quote := satisfy (·.kind = .quote)
  let _ ← quote
  let _ ← many (between "\\\x7b" "\x7d" (g.expr {}))
  let _ ← quote
  return .literal (← spanFrom start) (.str (stringValue (← textFrom start)))

def literalRule (g : Grammar) : Rule Expr := do
  if ← isAhead (·.kind = .quote) then stringRule g
  else
    let t ← take
    let chars := t.text.toList
    match t.kind with
    | .integer =>
      match integerValue? chars with
      | some n => return .literal t.span (.int n)
      | none => return .unknown t.span []
    | .float => return .literal t.span (.float (floatValue chars))
    | .char => return .literal t.span (.char t.text)
    | .word =>
      match t.text with
      | "true" => return .literal t.span (.bool true)
      | "false" => return .literal t.span (.bool false)
      | "null" => return .literal t.span .null
      | _ => failure
    | .quote | .punctuation => failure

def anonymousClass (g : Grammar) (superType : TypeRef) : Rule TypeDecl := do
  let start ← here
  let members ← g.classBody
  return { name := "", qualified := "", kind := .anonymous, annotations := [],
           superClass := some superType, interfaces := [], members, span := ← spanFrom start }

/-- An array dimension with an expression in it; its first part stands for it, which
is an annotation if it has one. -/
def dimensionExpr (g : Grammar) : Rule Expr := do
  let annotations ← many g.annotationTree
  let size ← between "[" "]" (g.expr {})
  return (annotations.head?.map (·.parts)).getD size

/-- What follows the element type of a new array. After a dimension without an
expression there is none with one, and no index either. -/
def arrayCreation (g : Grammar) (start : Mark) (type : TypeRef) : Rule Expr := do
  match ← opt (many1 (dimensionExpr g)) with
  | some dims =>
    let bare ← opt (dimensions g)
    if bare.isSome && (← isAhead (·.is "[")) then failure
    return .newArray (← spanFrom start) type dims []
  | none =>
    let _ ← dimensions g
    let init ← bracedList g.variableInit
    return .newArray (← spanFrom start) type [] init

def objectCreation (g : Grammar) (start : Mark) (type : TypeRef) : Rule Expr := do
  let args ← arguments g
  let body ← opt (anonymousClass g type)
  return .new (← spanFrom start) type args body

/-- A new object, or a new array if `arrays` may be made here. The whole begins at
`start`. -/
def creation (g : Grammar) (start : Mark) (arrays : Bool) : Rule Expr := do
  let _ ← keyword "new"
  let _ ← many g.annotationTree
  let typeArgs ← opt (typeArguments g)
  let _ ← many g.annotationTree
  let type := (← simpleType g [] []).ref
  if ← isAhead (·.is "(") then objectCreation g start type
  else if arrays && typeArgs.isNone then arrayCreation g start type
  else failure

/-- A primary expression, and whether a value can be assigned to it. -/
structure Primary where
  expr : Expr
  assignable : Bool := false

/-- The method a reference names: a constructor if its text ends in `new`. -/
def referencedName (text : String) : String :=
  if Text.endsWith text "new" then constructorName else text

def methodReference (g : Grammar) (start : Mark) (target : Expr) : Rule Primary := do
  let _ ← mark "::"
  let _ ← opt (typeArguments g)
  let name ← anyWord
  return ⟨.methodRef (← spanFrom start) target (referencedName name.text), false⟩

/-- The name of a field or method after the dot, with the arguments of a call. -/
def memberAccess (g : Grammar) (start : Mark) (target : Expr) : Rule Primary := do
  let typeArgs ← opt (typeArguments g)
  let name ← anyWord
  match ← opt (arguments g) with
  | some args =>
    if name.text = "this" && typeArgs.isNone then failure
    return ⟨.call (← spanFrom start) (some target) name.text args, false⟩
  | none =>
    if typeArgs.isSome then failure
    return ⟨.fieldAccess (← spanFrom start) target name.text, true⟩

def dotted (g : Grammar) (start : Mark) (target : Expr) : Rule Primary := do
  let _ ← mark "."
  match ← ahead with
  | none => failure
  | some t =>
    if t.isWord "new" then return ⟨← creation g start false, false⟩
    else if t.isWord "super" then
      let _ ← take
      let _ ← mark "."
      memberAccess g start target
    else if t.kind = .quote then
      let text ← stringRule g
      return ⟨.unknown (← spanFrom start) [target, text], false⟩
    else memberAccess g start target

def indexed (g : Grammar) (start : Mark) (array : Expr) : Rule Primary := do
  let index ← between "[" "]" (g.expr {})
  return ⟨.arrayAccess (← spanFrom start) array index, true⟩

def extension (g : Grammar) (start : Mark) (target : Expr) : Rule Primary :=
  dotted g start target <|> indexed g start target <|> methodReference g start target

def extended (g : Grammar) (start : Mark) : (bound : Nat) → Primary → Rule Primary
  | 0, p => return p
  | bound + 1, p => do
    match ← opt (extension g start p.expr) with
    | none => return p
    | some q => extended g start bound q

/-! ### Operators -/

/-- The number of `>` tokens at the head that touch, and whether `=` touches the last. -/
def closingRun : List Token → Nat × Bool
  | a :: b :: rest =>
    if a.is ">" then
      if a.adjoins b && b.is ">" then
        let (n, assigned) := closingRun (b :: rest)
        (n + 1, assigned)
      else (1, a.adjoins b && b.is "=")
    else (0, false)
  | [a] => (if a.is ">" then 1 else 0, false)
  | [] => (0, false)

def operatorAhead (tokens : List Token) : Option (String × Nat) :=
  match tokens with
  | [] => none
  | t :: _ =>
    if t.is ">" then
      match closingRun tokens with
      | (1, false) => some (">", 1)
      | (1, true) => some (">=", 2)
      | (2, false) => some (">>", 2)
      | (2, true) => some (">>=", 3)
      | (3, false) => some (">>>", 3)
      | (3, true) => some (">>>=", 4)
      | _ => none
    else if t.kind = .punctuation then some (t.text, 1)
    else none

def takeTokens : Nat → Rule Unit
  | 0 => return ()
  | n + 1 => do
    let _ ← take
    takeTokens n

def operatorIsAhead (operators : List String) : Rule Bool := do
  match operatorAhead (← get).rest with
  | some (text, _) => return operators.contains text
  | none => return false

def operatorOf (operators : List String) : Rule String := do
  match operatorAhead (← get).rest with
  | some (text, size) =>
    if operators.contains text then
      takeTokens size
      return text
    else failure
  | none => failure

def assignmentOperators : List String :=
  ["=", "+=", "-=", "*=", "/=", "&=", "|=", "^=", "%=", "<<=", ">>=", ">>>="]

/-- The binary operators of a level, from products at 0 to the disjunction at 9. -/
def operatorsAt : Nat → List String
  | 0 => ["*", "/", "%"]
  | 1 => ["+", "-"]
  | 2 => ["<<", ">>", ">>>"]
  | 3 => ["<", ">", "<=", ">="]
  | 4 => ["==", "!="]
  | 5 => ["&"]
  | 6 => ["^"]
  | 7 => ["|"]
  | 8 => ["&&"]
  | _ => ["||"]

def productLevel : Nat := 0

def sumLevel : Nat := 1

def comparisonLevel : Nat := 3

def BinaryOp.ofText : String → BinaryOp
  | "&&" => .and
  | "||" => .or
  | "==" => .eq
  | "!=" => .ne
  | "<" => .lt
  | "<=" => .le
  | ">" => .gt
  | ">=" => .ge
  | _ => .other

def UnaryOp.ofText : String → UnaryOp
  | "!" => .not
  | "-" => .neg
  | _ => .other

def signOperators : List String := ["+", "-"]

def updateOperators : List String := ["++", "--"]

def prefixOperators : List String := ["!", "~"] ++ signOperators ++ updateOperators

/-! ### Primary expressions -/

/-- The class literal of a type. Before an argument list or an assignment the word
`class` names a member instead. -/
def classLiteral (start : Mark) (type : TypeTree) : Rule Primary := do
  let _ ← mark "."
  let _ ← keyword "class"
  let span ← spanFrom start
  if ← operatorIsAhead ("(" :: assignmentOperators) then failure
  return ⟨.classLit span type.ref, false⟩

/-- A class literal, or a method reference to a type that is no expression. -/
def typePrimary (g : Grammar) (start : Mark) : Rule Primary := do
  let type ← typeUpTo g ["class"] operandWords
  match ← opt (classLiteral start type) with
  | some p => return p
  | none => if type.isPlain then failure else methodReference g start type.toExpr

def annotatedPrimary (g : Grammar) (start : Mark) : Rule Primary := do
  let annotations ← many1 g.annotationTree
  let type ← g.type []
  let target : Expr :=
    .unknown (← spanFrom start) (annotations.map (·.parts) ++ [type.toExpr])
  methodReference g start target

def namePrimary (g : Grammar) : Rule Primary := do
  let start ← here
  let name ← nameBut (expressionWords ++ primitiveTypes)
  match ← opt (arguments g) with
  | some args => return ⟨.call (← spanFrom start) none name.text args, false⟩
  | none => return ⟨.name name.span name.text, true⟩

/-- A member of the superclass, or a reference to one of its methods. -/
def superPrimary (g : Grammar) (start : Mark) : Rule Primary := do
  let t ← keyword "super"
  let target : Expr := .super t.span
  let outer : Rule Unit := do
    let _ ← keyword "super"
    let _ ← mark "."
  let member : Rule Primary := do
    let _ ← mark "."
    match ← opt outer with
    | some _ => memberAccess g start target
    | none => if ← isAhead (·.isWord "super") then failure else memberAccess g start target
  member <|> methodReference g start target

/-- An expression in parentheses, which begins with no modifier. -/
def parenthesizedPrimary (g : Grammar) : Rule Primary := do
  let _ ← mark "("
  if ← modifierAhead then failure
  let e ← g.expr {}
  let _ ← mark ")"
  return ⟨e, false⟩

def primaryBase (g : Grammar) (start : Mark) : Rule Primary := do
  match ← ahead with
  | none => failure
  | some t =>
    if t.is "(" then parenthesizedPrimary g
    else if t.is "@" || t.is "@interface" then annotatedPrimary g start
    else if t.isWord "this" then
      let _ ← take
      return ⟨.this t.span, false⟩
    else if t.isWord "super" then superPrimary g start
    else if t.isWord "new" then return ⟨← creation g start true, false⟩
    else
      (do return ⟨← literalRule g, false⟩) <|> typePrimary g start <|> namePrimary g

def primaryRule (g : Grammar) (start : Mark) : Rule Primary := do
  let base ← primaryBase g start
  extended g start (← get).left base

/-! ### Operands -/

def assignment (g : Grammar) (place : Place) (start : Mark) : Rule Operand := do
  let p ← primaryRule g start
  if p.assignable then
    match ← opt (operatorOf assignmentOperators) with
    | none => return ⟨p.expr, true, false⟩
    | some _ =>
      let value ← g.expr { place with sum := false }
      return ⟨.assign (← spanFrom start) p.expr value, false, false⟩
  else return ⟨p.expr, true, false⟩

/-- Whether a case label can end further on: an arrow, or a colon that belongs to no
condition, before the statement or the case ends. Brackets and braces, of which
`depth` are open, are passed over, and so are the colons of `conditions`. -/
def labelEndAhead (depth conditions : Nat) : List Token → Bool
  | [] => false
  | t :: ts =>
    if t.is "(" || t.is "[" || t.is "\x7b" then labelEndAhead (depth + 1) conditions ts
    else if t.is ")" || t.is "]" || t.is "\x7d" then
      depth ≠ 0 && !(depth = 1 && beginsCase ts) && labelEndAhead (depth - 1) conditions ts
    else if depth ≠ 0 then labelEndAhead depth conditions ts
    else if t.is "->" then true
    else if t.is "?" then labelEndAhead depth (conditions + 1) ts
    else if t.is ":" then conditions = 0 || labelEndAhead depth (conditions - 1) ts
    else !t.is ";" && labelEndAhead depth conditions ts
where
  beginsCase : List Token → Bool
    | u :: _ => u.isWord "case" || u.isWord "default"
    | [] => false

def lambdaParams (g : Grammar) : Rule (List Param) := do
  let name (taken : List String) : Rule Param := do
    return ⟨(← nameBut taken).text, none⟩
  let words := expressionWords ++ primitiveTypes
  let modifiersOnly := modifierWords.filter (!reservedNames.contains ·)
  let inferred : Rule (List Param) := do
    let first ← name (words ++ modifiersOnly)
    let rest ← many do
      let _ ← mark ","
      name []
    return first :: rest
  let arrow : Rule Unit := do
    let _ ← mark "->"
  (do let p ← name words; arrow; return [p])
    <|> (do let ps ← between "(" ")" inferred; arrow; return ps)
    <|> (do let (ps, _) ← formalParams g lambdaParamWords; arrow; return ps)

/-- A lambda. In a label, the arrow must not be the one that ends it. -/
def lambda (g : Grammar) (place : Place) (start : Mark) : Rule Expr := do
  let params ← lambdaParams g
  if place.label && !(place.lambdas && labelEndAhead 0 0 (← get).rest) then failure
  if ← isAhead (·.is "\x7b") then
    let body ← g.block
    return .lambda (← spanFrom start) params (.block body)
  else
    let body ← g.expr { place with sum := false }
    return .lambda (← spanFrom start) params (.expr body)

/-- An operand with the increments and decrements after it, at most `bound`. -/
def updated (start : Mark) : (bound : Nat) → Expr → Rule Expr
  | 0, e => return e
  | bound + 1, e => do
    match ← opt (operatorOf updateOperators) with
    | none => return e
    | some _ => updated start bound (.unary (← spanFrom start) .other e)

/-- What the tokens after a name in parentheses make of it. -/
inductive CastSign where
  /-- They begin no operand. -/
  | none
  /-- They begin an operand and continue no expression. -/
  | certain
  /-- A sign follows, which can begin an operand or continue an expression. -/
  | open

/-- What follows a name in parentheses, after any increments and decrements. -/
def castSign (place : Place) : List Token → CastSign
  | [] => .none
  | t :: rest =>
    match t.kind with
    | .punctuation =>
      if updateOperators.contains t.text then castSign place rest
      else if signOperators.contains t.text then .open
      else if ["(", "!", "~", "@", "@interface"].contains t.text then .certain
      else .none
    | .word =>
      if t.text = "instanceof" then
        match rest with
        | u :: _ => if u.kind = .word || u.is "@" then .none else .certain
        | [] => .none
      else if place.label && t.text = "when" then
        match rest with
        | u :: _ =>
          if u.is "->" || u.is ":" || u.is "," || (place.whenCalls && u.is "(") then .certain
          else .none
        | [] => .none
      else .certain
    | _ => .certain

/-- What a cast applies to. Increments after a closed operand belong to the cast, those
after any other to the operand. -/
def castValue (g : Grammar) (place : Place) : Rule Operand := do
  let start ← here
  let o ← g.operand place
  if o.closed then return o else return { o with expr := ← updated start (← get).left o.expr }

def narrowValue (g : Grammar) (place : Place) : Rule Operand := do
  let start ← here
  let e ← lambda g place start <|> (do return (← primaryRule g start).expr)
  return ⟨e, true, false⟩

/-- Where a rule ends, if it applies; nothing is read. -/
def endOf {α : Type} (p : Rule α) : Rule (Option Cursor) := fun s => some ((p s).map (·.2), s)

def signedOperand (g : Grammar) (place : Place) : Rule Operand := do
  let _ ← many (operatorOf updateOperators)
  let _ ← operatorOf signOperators
  g.operand place

/-- How much is left to read after the operand of a sign that is a summand. -/
def leftAfterSummand (g : Grammar) (place : Place) (s : Cursor) : Option Nat :=
  (signedOperand g { place with sum := true } s).map (·.2.left)

/-- A value with a sign, to which a name in parentheses is a cast: one that is a factor
of a product, or reaches further than a summand would, or is the last in a case whose
label could be the parameter of a lambda. -/
def signedValue (g : Grammar) (place : Place) : Rule Operand := do
  let before ← get
  let start ← here
  let o ← g.operand place
  let stop ← get
  let e ← updated start stop.left o.expr
  let further := o.castsSign && leftAfterSummand g place before ≠ some stop.left
  let ends := stop.rest.head?.any (·.is ";")
  let multiplied ← operatorIsAhead (operatorsAt productLevel)
  if further || multiplied || (place.afterLabel && ends) then return ⟨e, false, true⟩ else failure

/-- A cast. A dotted name before a sign is a cast unless it belongs to a sum, and a
simple name before a sign is one only as `signedValue` says. -/
def castRule (g : Grammar) (place : Place) (start : Mark) : Rule Operand := do
  let _ ← mark "("
  let typeStart ← here
  let annotations ← many g.annotationTree
  let tree ← g.type (if annotations.isEmpty then parenthesisWords else modifierWords)
  let type : TypeRef := ⟨typeName (← textFrom typeStart), ← spanFrom typeStart⟩
  let further ← many do
    let _ ← mark "&"
    let own ← many g.annotationTree
    return own.isEmpty && (← g.type []).isPlain
  let _ ← mark ")"
  let value : Rule Operand := if further.isEmpty then castValue g place else narrowValue g place
  let castTo (sign : Bool) (value : Rule Operand) : Rule Operand := do
    let v ← value
    return ⟨.cast (← spanFrom start) type v.expr, false, sign || v.castsSign⟩
  if !(annotations.isEmpty && tree.isPlain && further.all id) then castTo false value
  else
    match castSign place (← get).rest, further.isEmpty && !place.sum, tree.shape with
    | .certain, _, _ => castTo false value
    | .open, true, .dotted => castTo true value
    | .open, true, .simple => castTo true (signedValue g place)
    | _, _, _ => failure

/-- An operand: a prefix operator and its operand, a switch, a lambda, a cast, or an
assignment or primary expression. -/
def operandRule (g : Grammar) (switchRule : Rule (Expr × List SwitchCase)) (place : Place) :
    Rule Operand := do
  let start ← here
  match ← opt (operatorOf prefixOperators) with
  | some op =>
    let o ← g.operand place
    return ⟨.unary (← spanFrom start) (.ofText op) o.expr, false, o.castsSign⟩
  | none =>
    if ← isAhead (·.isWord "switch") then
      let (selector, cases) ← switchRule
      return ⟨.switch (← spanFrom start) selector cases, false, false⟩
    else
      (do return ⟨← lambda g place start, true, false⟩)
        <|> castRule g place start
        <|> assignment g place start

def unaryRule (g : Grammar) (place : Place) : Rule Expr := do
  let start ← here
  let o ← g.operand place
  updated start (← get).left o.expr

/-! ### Type tests -/

/-- Whether an expression that ends here is not cut short by what follows. -/
def endsExpr (place : Place) : List Token → Bool
  | [] => true
  | t :: _ =>
    match t.kind with
    | .punctuation =>
      !(["(", "[", ".", "!", "~", "@", "::", "\x7b", "->"] ++ assignmentOperators).contains t.text
        || (place.label && t.is "->")
    | .word => t.text = "instanceof" || (place.label && t.text = "when")
    | _ => false

/-- The type that a value is tested for. A type with arguments is preferred to a
comparison with the type's name, where both can be read. -/
def typeTest (g : Grammar) (place : Place) : Rule TypeRef := do
  let _ ← keyword "instanceof"
  let _ ← opt (keyword "final")
  let record : Rule TypeRef := do
    let (type, _) ← g.recordPattern []
    if endsExpr place (← get).rest then return type else failure
  let named : Rule TypeRef := do
    let type ← annotatedType g reservedNames
    let _ ← opt (nameBut ["instanceof", "when"])
    if endsExpr place (← get).rest then return type else failure
  let bare : Rule TypeRef := do
    let word ← nameBut reservedNames
    let start := word.start
    let _ ← many do
      let _ ← mark "."
      anyWord
    if ← isAhead (·.is "<") then return ⟨typeName (← textFrom start), ← spanFrom start⟩
    else failure
  record <|> named <|> bare

/-! ### Binary operators -/

/-- Operands joined by the operators of a level, to the left, at most `bound`. -/
def joined (operand : Rule Expr) (level : Nat) (start : Mark) : (bound : Nat) → Expr → Rule Expr
  | 0, lhs => return lhs
  | bound + 1, lhs => do
    match ← opt (operatorOf (operatorsAt level)) with
    | none => return lhs
    | some op =>
      let rhs ← operand
      joined operand level start bound (.binary (← spanFrom start) (.ofText op) lhs rhs)

def beginsSignedName : List Token → Bool
  | t :: u :: rest => t.is "(" && u.kind = .word && signAfterName rest
  | _ => false
where
  signAfterName : List Token → Bool
    | t :: rest =>
      if t.is "." then
        match rest with
        | u :: rest => u.kind = .word && signAfterName rest
        | [] => false
      else t.is ")" && signAfterUpdates rest
    | [] => false
  signAfterUpdates : List Token → Bool
    | t :: rest =>
      t.kind = .punctuation &&
        (signOperators.contains t.text
          || (updateOperators.contains t.text && signAfterUpdates rest))
    | [] => false

def beginsWithCast : Expr → Bool
  | .binary _ _ lhs _ => beginsWithCast lhs
  | .cast .. => true
  | _ => false

/-- An expression whose operators are all of the first levels, below comparisons. The
summands after the first belong to a sum, unless the first begins with a name in
parentheses that is a cast there. -/
def arithmetic (g : Grammar) (place : Place) : (levels : Nat) → Rule Expr
  | 0 => unaryRule g place
  | level + 1 => do
    let start ← here
    let signed := beginsSignedName (← get).rest
    let lhs ← arithmetic g place level
    let sum := level = sumLevel && !(signed && beginsWithCast lhs)
    let operand := arithmetic g { place with sum := place.sum || sum } level
    joined operand level start (← get).left lhs

/-- A type test as an operand of what follows it: it goes on with operators of any
level. -/
def resumed (g : Grammar) (place : Place) (start : Mark) (test : Expr) : Rule Expr := do
  let bound := (← get).left
  let e ← updated start bound test
  let e ← joined (arithmetic g place 0) 0 start bound e
  let e ← joined (arithmetic g { place with sum := true } 1) 1 start bound e
  joined (arithmetic g place 2) 2 start bound e

def compared (g : Grammar) (place : Place) (start : Mark) : (bound : Nat) → Expr → Rule Expr
  | 0, lhs => return lhs
  | bound + 1, lhs => do
    let comparison : Rule Expr := do
      let op ← operatorOf (operatorsAt comparisonLevel)
      let rhs ← arithmetic g place comparisonLevel
      return .binary (← spanFrom start) (.ofText op) lhs rhs
    let test : Rule Expr := do
      let type ← typeTest g place
      resumed g place start (.instanceOf (← spanFrom start) lhs type)
    match ← opt (comparison <|> test) with
    | none => return lhs
    | some e => compared g place start bound e

/-- An expression whose operators are comparisons or bind more tightly, or are of so
many levels above them. -/
def binaryRule (g : Grammar) (place : Place) : (levels : Nat) → Rule Expr
  | 0 => do
    let start ← here
    let lhs ← arithmetic g place comparisonLevel
    compared g place start (← get).left lhs
  | level + 1 => do
    let start ← here
    let lhs ← binaryRule g place level
    joined (binaryRule g place level) (comparisonLevel + 1 + level) start (← get).left lhs

def exprRule (g : Grammar) (place : Place) : Rule Expr := do
  let start ← here
  let cond ← binaryRule g place 6
  match ← opt (mark "?") with
  | none => return cond
  | some _ =>
    let yes ← g.expr {}
    let _ ← mark ":"
    let no ← g.expr place
    return .conditional (← spanFrom start) cond yes no

def variableInitRule (g : Grammar) : Rule Expr := do
  let start ← here
  match ← opt (bracedList g.variableInit) with
  | some items => return .arrayInit (← spanFrom start) items
  | none => g.expr {}

end LevelGuard.Java
