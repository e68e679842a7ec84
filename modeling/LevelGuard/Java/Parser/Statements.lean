import LevelGuard.Java.Parser.Expressions

/-!
# Statements

A statement is told by its first word, or else is a local declaration, a labelled
statement or an expression. A semicolon alone is no statement of a block; as the
body of a branch or loop it is the empty statement.
-/
namespace LevelGuard.Java

open Rule

/-- One declared variable of a declaration: name, value and range. -/
structure Declarator where
  name : String
  init : Option Expr
  span : Span

def declarator (g : Grammar) (taken : List String) : Rule Declarator := do
  let start ← here
  let name ← variableName g taken
  let value := do
    let _ ← mark "="
    g.variableInit
  let init ← opt value
  return ⟨name, init, ← spanFrom start⟩

/-- Words that name no variable after a type, which are `taken` if the type may be an
expression as well. -/
def wordsAfterType (mods : Modifiers) (type : TypeTree) (taken : List String) : List String :=
  if mods.isEmpty && type.shape = .simple then taken else []

structure DeclarationWords where
  /-- The modifiers that can stand before the type. -/
  modifiers : Grammar → Rule Modifiers
  /-- Words that name no type without modifiers. -/
  types : List String
  /-- Words that name no type after modifiers. -/
  modified : Modifiers → List String
  /-- Words that name no variable after a type that may be an expression. -/
  names : List String

def localVars (g : Grammar) (words : DeclarationWords) : Rule Stmt := do
  let start ← here
  let mods ← words.modifiers g
  let type ← g.type (if mods.isEmpty then words.types else words.modified mods)
  let first ← declarator g (wordsAfterType mods type words.names)
  let rest ← many do
    let _ ← mark ","
    declarator g []
  let _ ← mark ";"
  let vars (annotations : List Annotation) (d : Declarator) : LocalVar :=
    ⟨d.name, type.ref, mods.isFinal, d.init, d.span, annotations⟩
  return .vars (← spanFrom start) (vars mods.annotations first :: rest.map (vars []))

/-- Words that name no type after the modifier `sealed`, which may be a name itself. -/
def wordsAfterSealed (mods : Modifiers) : List String :=
  if mods.last = some "sealed" then ["instanceof"] else []

/-- Words that name no type after modifiers in a block. A single annotation may also
belong to a package or module. -/
def wordsAfterModifiers (mods : Modifiers) : List String :=
  let declared := "record" :: declarationWords
  let grouped :=
    if mods.words = 0 && mods.annotations.length = 1 then ["open", "module", "package"] else []
  declared ++ grouped ++ wordsAfterSealed mods

/-- The words to look out for at the beginning of a declaration in a block, -/
def blockDeclarationWords : DeclarationWords :=
  ⟨declarationModifiers, blockWords, wordsAfterModifiers, ["instanceof"]⟩

/-- and in the head of a loop. -/
def loopDeclarationWords : DeclarationWords :=
  ⟨modifiers, parenthesisWords, wordsAfterSealed, ["instanceof", "when"]⟩

def exprStmtAt (g : Grammar) (place : Place) : Rule Stmt := do
  let start ← here
  let e ← g.expr place
  let _ ← mark ";"
  return .expr (← spanFrom start) e

def exprStmt (g : Grammar) : Rule Stmt := exprStmtAt g {}

def throwStmt (g : Grammar) : Rule Stmt := do
  let start ← here
  let _ ← keyword "throw"
  let e ← g.expr {}
  let _ ← mark ";"
  return .throws (← spanFrom start) e

def blockStmt (g : Grammar) : Rule Stmt := do
  let b ← g.block
  return .block b.span b

def bodyStmt (g : Grammar) : Rule Stmt := do
  match ← opt (mark ";") with
  | some t => return .empty t.span
  | none => g.stmt

/-- Statements of a block; semicolons that stand alone are left out. -/
def blockItems (item : Rule Stmt) : Rule (List Stmt) := do
  let items ← many ((do let _ ← mark ";"; return none) <|> (do return some (← item)))
  return items.filterMap id

def blockRule (g : Grammar) : Rule Block := do
  let start ← here
  let stmts ← between "\x7b" "\x7d" (blockItems g.stmt)
  return ⟨stmts, ← spanFrom start⟩

/-! ### Switches and patterns -/

def typePattern (g : Grammar) (taken : List String) (start : Mark) : Rule Expr := do
  let type ← g.type taken
  let name ← nameBut (if type.shape = .simple then ["instanceof", "when"] else [])
  return .unknown (← spanFrom start) [type.toExpr, .name name.span name.text]

/-- A part of a record pattern: a typed name, an underscore or another pattern. The
words in `taken` name no type. -/
def patternPart (g : Grammar) (taken : List String) : Rule Expr := do
  let start ← here
  let nested : Rule Expr := do return (← g.recordPattern ("_" :: taken)).2
  let typed : Rule Expr := do
    let type ← g.type ("_" :: reservedNames ++ taken)
    let name ← anyWord
    return .unknown (← spanFrom start) [type.toExpr, .name name.span name.text]
  let underscore : Rule Expr := do
    let t ← keyword "_"
    return .unknown t.span [.unknown t.span []]
  nested <|> typed <|> underscore

/-- A record pattern: the type it names, which is one word or has type arguments, and
the pattern as an expression. -/
def recordPatternRule (g : Grammar) (taken : List String) : Rule (TypeRef × Expr) := do
  let start ← here
  let reserved ← isAhead fun t => t.kind = .word && reservedNames.contains t.text
  let head ← namedType g (taken ++ primitiveTypes) []
  if !(head.shape = .simple || (head.shape = .typeOnly true && !reserved)) then failure
  let bodyStart ← here
  let some : Rule (List Expr) := do
    let first ← patternPart g taken
    let rest ← many do
      let _ ← mark ","
      patternPart g []
    return first :: rest
  let parts ← between "(" ")" (some <|> pure [])
  let body : Expr := .unknown (← spanFrom bodyStart) parts
  return (head.ref, .unknown (← spanFrom start) [head.toExpr, body])

def guard (g : Grammar) (place : Place) : Rule (List Expr) := do
  let start ← here
  match ← opt (keyword "when") with
  | none => return []
  | some _ =>
    let cond ← g.expr { place with whenCalls := true }
    return [.unknown (← spanFrom start) [cond]]

/-- What a case matches, with the condition if it may be `guarded`, and the mark that
ends its label. -/
def labelled (g : Grammar) (place : Place) (ending : String) (items : Rule (List Expr))
    (guarded : Bool) : Rule (List Expr) := do
  let es ← items
  let cond ← if guarded then guard g place else pure []
  let _ ← mark ending
  return es ++ cond

/-- The first tokens of a record pattern whose first part is an underscore. -/
def beginsUnderscorePattern : List Token → Bool
  | t :: u :: v :: _ => t.kind = .word && u.is "(" && v.isWord "_"
  | _ => false

/-- The expressions of a case label up to its end. A typed name is a pattern; what could
be a call or a record pattern is a call if a condition follows, and a pattern otherwise.
What could be the cast of a call of `when` or a condition is the cast. -/
def caseLabels (g : Grammar) (place : Place) (ending : String) : Rule (List Expr) := do
  let start ← here
  let asPattern (inner : Rule Expr) : Rule (List Expr) := do
    let e ← inner
    return [.unknown e.span [e]]
  let typed := asPattern (typePattern g operandWords start)
  let record := asPattern (do return (← g.recordPattern expressionWords).2)
  let exprs (whenCalls : Bool) : Rule (List Expr) := do
    if beginsUnderscorePattern (← get).rest then failure
    sepBy1 "," (g.expr { place with whenCalls })
  labelled g place ending typed true <|> labelled g place ending record false
    <|> labelled g place ending (exprs true) true <|> labelled g place ending (exprs false) true
    <|> labelled g place ending record true

/-- The expressions of a label with the mark that ends it, and whether it is the default
one. -/
def switchLabel (g : Grammar) (place : Place) (ending : String) : Rule (List Expr × Bool) := do
  match ← opt (keyword "case") with
  | some _ => return (← caseLabels g place ending, false)
  | none =>
    let _ ← keyword "default"
    let _ ← mark ending
    return ([], true)

def labelAhead : Rule Bool := isAhead fun t => t.isWord "case" || t.isWord "default"

/-- Whether two arrows stand ahead where the first may end a label. -/
def severalArrows (depth : Nat) : List Token → Bool
  | [] => false
  | t :: ts =>
    if t.is "(" || t.is "[" || t.is "\x7b" then severalArrows (depth + 1) ts
    else if t.is ")" || t.is "]" || t.is "\x7d" then depth ≠ 0 && severalArrows (depth - 1) ts
    else if depth ≠ 0 then severalArrows depth ts
    else if t.is "->" then labelEndAhead 0 0 ts
    else if t.is ";" || t.is ":" then false
    else severalArrows depth ts

def endsInName : Expr → Bool
  | .name .. => true
  | .binary _ _ _ e | .assign _ _ e | .conditional _ _ _ e | .unary _ _ e | .cast _ _ e
  | .lambda _ _ (.expr e) | .unknown _ [e] => endsInName e
  | _ => false

/-- Whether the last tokens are a word or a word in parentheses, as the parameter of a
lambda is. -/
def endsInParameter (tokens : List Token) : Bool :=
  match tokens.reverse with
  | t :: u :: v :: _ => t.kind = .word || (t.is ")" && u.kind = .word && v.is "(")
  | t :: _ => t.kind = .word
  | [] => false

def caseResult (g : Grammar) (place : Place) : Rule Stmt := do
  if ← isAhead (·.isWord "throw") then throwStmt g else blockStmt g <|> exprStmtAt g place

def switchRuleCase (g : Grammar) : Rule SwitchCase := do
  let start ← here
  let attempt (lambdas : Bool) : Rule SwitchCase := do
    let before ← get
    let (labels, isDefault) ← switchLabel g { label := true, lambdas } "->"
    let label := before.rest.take (before.left - (← get).left - 1)
    let afterLabel := labels.getLast?.any endsInName && endsInParameter label
    let body ← caseResult g { afterLabel }
    if ← isAhead (fun t => t.is "\x7d" || t.isWord "case" || t.isWord "default") then
      return ⟨labels, isDefault, true, [body], ← spanFrom start⟩
    else failure
  if severalArrows 0 (← get).rest then attempt true <|> attempt false else attempt true

/-- A case written with a colon. Of several labels in a row only the last has
statements. -/
def switchGroup (g : Grammar) : Rule SwitchCase := do
  let start ← here
  let (labels, isDefault) ← switchLabel g { label := true } ":"
  let body ← blockItems do
    if ← labelAhead then failure else g.stmt
  return ⟨labels, isDefault, false, body, ← spanFrom start⟩

def switchRule (g : Grammar) : Rule (Expr × List SwitchCase) := do
  let _ ← keyword "switch"
  let selector ← parenthesized g
  let cases ← between "\x7b" "\x7d" (many1 (switchRuleCase g))
    <|> between "\x7b" "\x7d" (many (switchGroup g))
  return (selector, cases)

/-- Whether an operand that ends here goes on as an expression or ends one. -/
def continuesExpr : List Token → Bool
  | [] => false
  | t :: _ =>
    t.isWord "instanceof" ||
      (t.kind = .punctuation &&
        !(["(", ")", "[", "]", "\x7b", "\x7d", "!", "~", "@", "@interface"].contains t.text))

/-- A switch that stands as a statement, or begins an expression that does. -/
def switchStmt (g : Grammar) : Rule Stmt := do
  let start ← here
  let before ← get
  let (selector, cases) ← switchRule g
  let alone : Stmt := .switch (← spanFrom start) selector cases
  if continuesExpr (← get).rest then
    let after ← get
    set before
    match ← opt (exprStmt g) with
    | some st => return st
    | none =>
      set after
      return alone
  else return alone

/-! ### Loops, branches and handlers -/

def ifStmt (g : Grammar) : Rule Stmt := do
  let start ← here
  let _ ← keyword "if"
  let cond ← parenthesized g
  let yes ← bodyStmt g
  match ← opt (keyword "else") with
  | none => return .ifElse (← spanFrom start) cond yes none
  | some _ =>
    let no ← bodyStmt g
    return .ifElse (← spanFrom start) cond yes (some no)

def whileStmt (g : Grammar) : Rule Stmt := do
  let start ← here
  let _ ← keyword "while"
  let cond ← parenthesized g
  let body ← bodyStmt g
  return .whileLoop (← spanFrom start) cond body

def doStmt (g : Grammar) : Rule Stmt := do
  let start ← here
  let _ ← keyword "do"
  let body ← bodyStmt g
  let _ ← keyword "while"
  let cond ← parenthesized g
  let _ ← mark ";"
  return .doWhile (← spanFrom start) body cond

/-- The parts of a loop over the items of a collection, after its parenthesis. -/
def forEachStmt (g : Grammar) (start : Mark) : Rule Stmt := do
  let mods ← modifiers g
  let words := loopDeclarationWords
  let type ← g.type (if mods.isEmpty then words.types else words.modified mods)
  let name ← variableName g (wordsAfterType mods type words.names)
  let _ ← mark ":"
  let iterable ← g.expr {}
  let _ ← mark ")"
  let body ← bodyStmt g
  let span ← spanFrom start
  return .forEach span ⟨name, type.ref, mods.isFinal, none, span, mods.annotations⟩ iterable body

def forInit (g : Grammar) : Rule (List Stmt) := do
  let exprs : Rule (List Stmt) := do
    if ← modifierAhead then failure
    let es ← sepBy "," do
      let start ← here
      let e ← g.expr {}
      return Stmt.expr (← spanFrom start) e
    let _ ← mark ";"
    return es
  (do return [← localVars g loopDeclarationWords]) <|> exprs

def countingStmt (g : Grammar) (start : Mark) : Rule Stmt := do
  let init ← forInit g
  let cond ← opt (g.expr {})
  let _ ← mark ";"
  let update ← sepBy "," (g.expr {})
  let _ ← mark ")"
  let body ← bodyStmt g
  return .forLoop (← spanFrom start) init cond update body

def forStmt (g : Grammar) : Rule Stmt := do
  let start ← here
  let _ ← keyword "for"
  let _ ← mark "("
  forEachStmt g start <|> countingStmt g start

/-- A resource that is declared, or one that is named. -/
def resource (g : Grammar) : Rule Stmt := do
  let start ← here
  let declared : Rule Stmt := do
    let mods ← modifiers g
    let type := (← g.type (if mods.isEmpty then resourceWords else [])).ref
    let name ← variableName g []
    let _ ← mark "="
    let init ← g.expr {}
    let span ← spanFrom start
    return .vars span [⟨name, type, true, some init, span, []⟩]
  let ends : Rule Unit := do
    if ← isAhead (fun t => t.is ";" || t.is ")") then return () else failure
  let simple : Rule Stmt := do
    let name ← nameBut (resourceWords ++ primitiveTypes)
    ends
    return .expr name.span (.name name.span name.text)
  let member : Rule Stmt := do
    if ← modifierAhead then failure
    let p ← primaryRule g start
    match p.expr, p.assignable with
    | .fieldAccess .., true => return .expr (← spanFrom start) p.expr
    | _, _ => failure
  declared <|> simple <|> member

def catchClause (g : Grammar) : Rule CatchClause := do
  let start ← here
  let _ ← keyword "catch"
  let _ ← mark "("
  let mods ← modifiers g
  let first ← g.type (if mods.isEmpty then modifierWords else [])
  let rest ← many do
    let _ ← mark "|"
    g.type []
  let name ← variableName g []
  let _ ← mark ")"
  let body ← g.block
  return ⟨(first :: rest).map (·.ref), name, body, ← spanFrom start⟩

def finallyClause (g : Grammar) : Rule Block := do
  let _ ← keyword "finally"
  g.block

def tryStmt (g : Grammar) : Rule Stmt := do
  let start ← here
  let _ ← keyword "try"
  let resources ← opt <| between "(" ")" do
    let items ← sepBy1 ";" (resource g)
    let _ ← opt (mark ";")
    return items
  let body ← g.block
  let catches ← many (catchClause g)
  let always ← opt (finallyClause g)
  if resources.isNone && catches.isEmpty && always.isNone then failure
  return .tryCatch (← spanFrom start) resources.isSome (resources.getD []) body catches always

/-! ### Other statements -/

def returnStmt (g : Grammar) : Rule Stmt := do
  let start ← here
  let _ ← keyword "return"
  let value ← opt (g.expr {})
  let _ ← mark ";"
  return .returns (← spanFrom start) value

def jumpStmt (word : String) (node : Span → Option String → Stmt) : Rule Stmt := do
  let start ← here
  let _ ← keyword word
  let label ← opt anyWord
  let _ ← mark ";"
  return node (← spanFrom start) (label.map (·.text))

def assertStmt (g : Grammar) : Rule Stmt := do
  let start ← here
  let _ ← keyword "assert"
  let cond ← g.expr {}
  let text := do
    let _ ← mark ":"
    g.expr {}
  let message ← opt text
  let _ ← mark ";"
  return .asserts (← spanFrom start) cond message

def synchronizedStmt (g : Grammar) : Rule Stmt := do
  let start ← here
  let _ ← keyword "synchronized"
  let lock ← parenthesized g
  let body ← g.block
  return .synchronized (← spanFrom start) lock body

/-- A labelled statement; a semicolon after the label has the label's range. -/
def labeledStmt (g : Grammar) : Rule Stmt := do
  let start ← here
  let label ← nameBut (blockWords ++ primitiveTypes)
  let _ ← mark ":"
  match ← opt (mark ";") with
  | some _ => return .labeled (← spanFrom start) label.text (.empty label.span)
  | none =>
    let body ← g.stmt
    return .labeled (← spanFrom start) label.text body

def localClassStmt (g : Grammar) : Rule Stmt := do
  let d ← g.typeDecl
  return .localClass d.span d

/-- A package declaration; its name. After several annotations a name of one word is
rather that of a variable. -/
def packageDecl (g : Grammar) : Rule String := do
  let annotations ← many (annotationOfDeclaration g)
  let _ ← keyword "package"
  let before := (← get).left
  let name ← qualifiedName
  if 2 ≤ annotations.length && (← get).left + 1 = before then failure
  let _ ← mark ";"
  return name

def importDecl : Rule Import := do
  let _ ← keyword "import"
  let isStatic ← opt (keyword "static")
  let path ← qualifiedName
  let all := do
    let _ ← mark "."
    mark "*"
  let onDemand ← opt all
  let _ ← mark ";"
  return ⟨path, isStatic.isSome, onDemand.isSome⟩

def moduleDirective : Rule Unit := do
  let word ← anyWord
  match word.text with
  | "requires" =>
    let _ ← many (keyword "transitive" <|> keyword "static")
    let _ ← qualifiedName
  | "exports" | "opens" =>
    let targets := do
      let _ ← keyword "to"
      sepBy1 "," qualifiedName
    let _ ← qualifiedName
    let _ ← opt targets
  | "uses" => let _ ← qualifiedName
  | "provides" =>
    let _ ← qualifiedName
    let _ ← keyword "with"
    let _ ← sepBy1 "," qualifiedName
  | _ => failure
  let _ ← mark ";"

def moduleDecl (g : Grammar) : Rule Unit := do
  let _ ← many (annotationOfDeclaration g)
  let _ ← opt (keyword "open")
  let _ ← keyword "module"
  let _ ← qualifiedName
  let _ ← between "\x7b" "\x7d" (many moduleDirective)

/-- A declaration that means nothing inside a block. -/
def strayDecl (g : Grammar) : Rule Stmt := do
  let start ← here
  (do let _ ← packageDecl g) <|> (do let _ ← importDecl) <|> moduleDecl g
  return .empty (← spanFrom start)

def declarationStmt (g : Grammar) : Rule Stmt :=
  localClassStmt g <|> localVars g blockDeclarationWords <|> strayDecl g

/-- A statement that begins with none of the words that tell a statement. -/
def otherStmt (g : Grammar) : Rule Stmt :=
  declarationStmt g <|> labeledStmt g <|> exprStmt g

/-- A product whose first factor is a name in parentheses and a value with a sign. -/
def signedProduct (g : Grammar) : Rule Unit := do
  let _ ← many (operatorOf prefixOperators)
  let _ ← between "(" ")" anyWord
  let _ ← signedOperand g { sum := true }
  let _ ← operatorOf (operatorsAt productLevel)

/-- A value handed on by a switch, or an expression that begins with the name `yield`.
The first is meant where both can be read, unless the value is such a product. -/
def yieldStmt (g : Grammar) : Rule Stmt := do
  let value : Rule Stmt := do
    let start ← here
    let _ ← keyword "yield"
    if ← isAhead (·.isWord "instanceof") then failure
    let e ← g.expr {}
    let _ ← mark ";"
    return .yields (← spanFrom start) e
  let product : Rule Unit := do
    let _ ← keyword "yield"
    signedProduct g
  if (← endOf product).isSome then exprStmt g <|> value else value <|> exprStmt g

def stmtRule (g : Grammar) : Rule Stmt := do
  match ← ahead with
  | none => failure
  | some t =>
    if t.is "\x7b" then blockStmt g
    else if t.is "@interface" then declarationStmt g
    else if t.kind ≠ .word then otherStmt g
    else
      match t.text with
      | "if" => ifStmt g
      | "while" => whileStmt g
      | "do" => doStmt g
      | "for" => forStmt g
      | "switch" => switchStmt g
      | "try" => tryStmt g
      | "return" => returnStmt g
      | "throw" => throwStmt g
      | "yield" => yieldStmt g
      | "break" => jumpStmt "break" .breaks
      | "continue" => jumpStmt "continue" .continues
      | "assert" => assertStmt g
      | "import" | "package" => strayDecl g
      | "synchronized" => synchronizedStmt g <|> declarationStmt g
      | word =>
        if declarationWords.contains word || (← modifierAhead) then declarationStmt g
        else otherStmt g

end LevelGuard.Java
