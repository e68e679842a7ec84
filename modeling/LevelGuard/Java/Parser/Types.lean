import LevelGuard.Java.Parser.Basic

/-!
# Types, annotations and modifiers

A written type is a primitive one or a dotted name whose segments may carry type
arguments and annotations, with array dimensions after it. What is kept of it is
its name; the rest is read so that the tokens after it are found.
-/
namespace LevelGuard.Java

open Rule

/-- One or more array dimensions, with the annotations between them. -/
def dimensions (g : Grammar) : Rule Expr := do
  let start ← here
  let groups ← many1 do
    let annotations ← many g.annotationTree
    let _ ← mark "["
    let _ ← mark "]"
    return annotations.map (·.parts)
  return .unknown (← spanFrom start) groups.flatten

/-- A type that may be annotated; an annotation frees all words for the type's name. -/
def annotatedType (g : Grammar) (taken : List String) : Rule TypeRef := do
  let start ← here
  let annotations ← many g.annotationTree
  let _ ← g.type (if annotations.isEmpty then taken else [])
  return ⟨typeName (← textFrom start), ← spanFrom start⟩

def typeList (g : Grammar) : Rule (List TypeRef) := sepBy1 "," (annotatedType g [])

def typeArgument (g : Grammar) : Rule Unit := do
  let _ ← many g.annotationTree
  match ← opt (mark "?") with
  | none => let _ ← g.type []
  | some _ =>
    let bound := do
      let _ ← keyword "extends" <|> keyword "super"
      annotatedType g []
    let _ ← opt bound

def typeArguments (g : Grammar) : Rule Unit := do
  let _ ← between "<" ">" (sepBy "," (typeArgument g))

/-- Words that name no member after a dot, so that a name with them is a type. -/
def typeSegmentWords : List String := ["new", "super"]

def NameShape.extend (shape : NameShape) (word : String) (annotated generic : Bool) : NameShape :=
  if generic then .typeOnly true
  else if annotated || typeSegmentWords.contains word then .typeOnly false
  else
    match shape with
    | .typeOnly _ => .typeOnly false
    | .classLiteral => .classLiteral
    | .simple | .dotted => if word = "class" then .classLiteral else .dotted

/-- Further segments of a dotted name, at most `bound`; none of them is one of the
words that `stop`. -/
def typeSegments (g : Grammar) (stop : List String) : (bound : Nat) → NameShape → Rule NameShape
  | 0, shape => return shape
  | bound + 1, shape => do
    let segment : Rule NameShape := do
      let _ ← mark "."
      let annotations ← many g.annotationTree
      let word ← nameBut stop
      let args ← opt (typeArguments g)
      return shape.extend word.text (!annotations.isEmpty) args.isSome
    match ← opt segment with
    | none => return shape
    | some next => typeSegments g stop bound next

/-- A dotted type name whose first word is not `taken` and whose others do not `stop`. -/
def namedType (g : Grammar) (taken stop : List String) : Rule TypeTree := do
  let start ← here
  let _ ← nameBut taken
  let args ← opt (typeArguments g)
  let first : NameShape := if args.isSome then .typeOnly true else .simple
  let shape ← typeSegments g stop (← get).left first
  return .named ⟨typeName (← textFrom start), ← spanFrom start⟩ shape

def simpleType (g : Grammar) (taken stop : List String) : Rule TypeTree := do
  match ← opt (satisfy fun t => t.kind = .word && primitiveTypes.contains t.text) with
  | some t => return .primitive ⟨t.text, t.span⟩
  | none => namedType g taken stop

def typeUpTo (g : Grammar) (stop taken : List String) : Rule TypeTree := do
  let start ← here
  let element ← simpleType g taken stop
  match ← opt (dimensions g) with
  | none => return element
  | some dims =>
    return .array ⟨typeName (← textFrom start), ← spanFrom start⟩ element dims

def typeRule (g : Grammar) (taken : List String) : Rule TypeTree := typeUpTo g [] taken

def qualifiedName : Rule String := do
  let start ← here
  let _ ← anyWord
  let _ ← many do
    let _ ← mark "."
    anyWord
  return String.ofList (← textFrom start)

/-! ### Annotations -/

/-- An argument of an annotation, and how it reads where an expression is expected. -/
structure AnnotationArgTree where
  item : AnnotationArg
  parts : Expr

def annotationPair (g : Grammar) (taken : List String) : Rule AnnotationArgTree := do
  let start ← here
  let key ← nameBut taken
  let _ ← mark "="
  let v ← g.elementValue
  return ⟨⟨key.text, v.value⟩, .unknown (← spanFrom start) [.name key.span key.text, v.parts]⟩

/-- Named arguments. The first name is no word that can begin an expression. -/
def annotationPairs (g : Grammar) : Rule (List AnnotationArgTree) := do
  let first ← annotationPair g (operandWords ++ primitiveTypes)
  let rest ← many do
    let _ ← mark ","
    annotationPair g []
  return first :: rest

def annotationArgs (g : Grammar) : Rule (List AnnotationArgTree) :=
  let single : Rule (List AnnotationArgTree) := do
    let v ← g.elementValue
    return [⟨⟨"value", v.value⟩, v.parts⟩]
  between "(" ")" (annotationPairs g) <|> between "(" ")" single <|> between "(" ")" (pure [])

/-- An annotation up to its name; where the name begins. Where no annotation type can
be declared, the mark of such a declaration is the beginning of a name. -/
def annotationName : Rule Mark := do
  let t ← mark "@" <|> mark "@interface"
  let plain := t.text = "@"
  let start ← if plain then here else pure (t.start.skip 1)
  if plain || (← isAhead fun u => u.kind = .word && t.adjoins u) then
    let _ ← anyWord
  let _ ← many do
    let _ ← mark "."
    anyWord
  return start

def annotationRule (g : Grammar) : Rule AnnotationTree := do
  let start ← here
  let nameStart ← annotationName
  let name := String.ofList (← textFrom nameStart)
  let nameExpr := nameChain (← spanFrom nameStart) (typeName name.toList)
  let argsStart ← here
  match ← opt (annotationArgs g) with
  | none =>
    let span ← spanFrom start
    return ⟨⟨name, [], span⟩, .unknown span [nameExpr]⟩
  | some args =>
    let argsExpr : Expr := .unknown (← spanFrom argsStart) (args.map (·.parts))
    let span ← spanFrom start
    return ⟨⟨name, args.map (·.item), span⟩, .unknown span [nameExpr, argsExpr]⟩

/-- The items of a list in braces, after which a comma may stand. -/
def bracedList {α : Type} (item : Rule α) : Rule (List α) :=
  between "\x7b" "\x7d" do
    let items ← sepBy "," item
    let _ ← opt (mark ",")
    return items

/-- The value of an annotation's element. An annotation that begins a method
reference is read as that expression. -/
def elementValueRule (g : Grammar) : Rule ElementTree := do
  let start ← here
  match ← opt (bracedList g.elementValue) with
  | some items =>
    let span ← spanFrom start
    return ⟨.arrayInit span (items.map (·.value)), .unknown span (items.map (·.parts))⟩
  | none =>
    let annotation : Rule ElementTree := do
      let a ← g.annotationTree
      if ← isAhead (fun t => t.is "," || t.is ")" || t.is "\x7d" || t.is ";") then
        return ⟨.unknown a.item.span [], a.parts⟩
      else failure
    let expr : Rule ElementTree := do
      let e ← g.expr {}
      return ⟨e, e⟩
    annotation <|> expr

/-! ### Modifiers -/

structure Modifiers where
  annotations : List Annotation := []
  /-- How many of the modifiers are words. -/
  words : Nat := 0
  /-- The last modifier, if it is a word. -/
  last : Option String := none
  isStatic : Bool := false
  isFinal : Bool := false
  isPrivate : Bool := false
  deriving Inhabited

namespace Modifiers

def isEmpty (m : Modifiers) : Bool := m.annotations.isEmpty && m.words = 0

def withWord (m : Modifiers) (word : String) : Modifiers :=
  { m with
    words := m.words + 1
    last := some word
    isStatic := m.isStatic || word = "static"
    isFinal := m.isFinal || word = "final"
    isPrivate := m.isPrivate || word = "private" }

end Modifiers

def beginsNonSealed : List Token → Bool
  | a :: b :: c :: _ =>
    a.isWord "non" && b.is "-" && c.isWord "sealed" && a.adjoins b && b.adjoins c
  | _ => false

def nonSealedAhead : Rule Bool := do return beginsNonSealed (← get).rest

def modifierAhead : Rule Bool := do
  if ← nonSealedAhead then return true
  isAhead fun t => t.kind = .word && modifierWords.contains t.text && !reservedNames.contains t.text

/-- An annotation of a declaration, where annotation types can be declared as well. -/
def annotationOfDeclaration (g : Grammar) : Rule AnnotationTree := do
  if ← isAhead (·.is "@interface") then failure else g.annotationTree

def modifier (tagged : Rule AnnotationTree) : Rule (Modifiers → Modifiers) := do
  match ← opt tagged with
  | some a => return fun m => { m with annotations := m.annotations ++ [a.item], last := none }
  | none =>
    if ← nonSealedAhead then
      let _ ← take
      let _ ← take
      let _ ← take
      return (·.withWord "non-sealed")
    else
      let t ← satisfy fun t => t.kind = .word && modifierWords.contains t.text
      return (·.withWord t.text)

def modifiers (g : Grammar) : Rule Modifiers := do
  return (← many (modifier g.annotationTree)).foldl (fun m f => f m) {}

def declarationModifiers (g : Grammar) : Rule Modifiers := do
  return (← many (modifier (annotationOfDeclaration g))).foldl (fun m f => f m) {}

def variableName (g : Grammar) (taken : List String) : Rule String := do
  let name ← nameBut taken
  let _ ← opt (dimensions g)
  return name.text

/-! ### Parameters -/

/-- A parameter; `spread` if it takes any number of arguments. -/
structure FormalParam where
  param : Param
  spread : Bool

/-- The receiver, which is no parameter of the method. -/
def receiverParam (g : Grammar) (taken : List String) : Rule Unit := do
  let annotations ← many g.annotationTree
  let _ ← g.type (if annotations.isEmpty then taken else modifierWords)
  let owner : Rule Unit := do
    let _ ← nameBut ("this" :: if annotations.isEmpty then "_" :: reservedNames else [])
    let _ ← mark "."
    let _ ← many do
      let _ ← nameBut ["this"]
      mark "."
  let _ ← opt owner
  let _ ← keyword "this"

/-- The words that mean something else where parameters are read. -/
structure ParamWords where
  /-- Words that name no type of a first parameter without modifiers. -/
  types : List String
  /-- Words that name no first parameter after a type of one word. -/
  names : List String

/-- The words to look out for in the parameters of a declaration, -/
def declaredParamWords : ParamWords := ⟨modifierWords, []⟩

/-- and in those of a lambda, which may also be an expression in parentheses. -/
def lambdaParamWords : ParamWords := ⟨parenthesisWords, ["instanceof"]⟩

def formalParam (g : Grammar) (words : ParamWords) : Rule FormalParam := do
  let mods ← modifiers g
  let type ← g.type (if mods.isEmpty then words.types else [])
  match ← opt (mark "...") with
  | none =>
    let taken := if mods.isEmpty && type.shape = .simple then words.names else []
    return ⟨⟨← variableName g taken, some type.ref⟩, false⟩
  | some _ =>
    let name ← variableName g []
    let value := do
      let _ ← mark "="
      g.variableInit
    let _ ← opt value
    return ⟨⟨name, some type.ref⟩, true⟩

def formalParamList (g : Grammar) (words : ParamWords) : Rule (List FormalParam) := do
  let first ← formalParam g words
  let rest ← many do
    let _ ← mark ","
    formalParam g declaredParamWords
  return first :: rest

/-- Parameters in parentheses, and whether one of them takes any number of arguments.
The receiver stands before them; one with annotations is rather taken for a parameter
called `this`. -/
def formalParams (g : Grammar) (words : ParamWords) : Rule (List Param × Bool) := do
  let plain : Rule (List FormalParam) :=
    between "(" ")" (formalParamList g words <|> pure [])
  let withReceiver : Rule (List FormalParam) :=
    between "(" ")" do
      receiverParam g words.types
      match ← opt (mark ",") with
      | none => return []
      | some _ => formalParamList g declaredParamWords <|> pure []
  let annotated := beginsAnnotated (← get).rest
  let items ← if annotated then plain <|> withReceiver else withReceiver <|> plain
  return (items.map (·.param), items.any (·.spread))
where
  beginsAnnotated : List Token → Bool
    | _ :: t :: _ => t.is "@" || t.is "@interface"
    | _ => false

def typeParameters (g : Grammar) : Rule Unit := do
  let parameter := do
    let _ ← many g.annotationTree
    let _ ← anyWord
    let bound := do
      let _ ← keyword "extends"
      sepBy1 "&" (annotatedType g [])
    opt bound
  let _ ← between "<" ">" (sepBy1 "," parameter)

end LevelGuard.Java
