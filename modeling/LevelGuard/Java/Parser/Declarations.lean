import LevelGuard.Java.Parser.Statements

/-!
# Declarations

Classes, interfaces, enums, records and annotation types, with the members their
bodies may hold. Names within the project are left empty here; they depend on
where a type stands and are given afterwards.
-/
namespace LevelGuard.Java

open Rule

def throwsClause (g : Grammar) : Rule (List TypeRef) := do
  let _ ← keyword "throws"
  typeList g

def constructorArgs (g : Grammar) (start : Mark) (target : Expr) : Rule Stmt := do
  let args ← arguments g
  let _ ← mark ";"
  let span ← spanFrom start
  return .expr span (.call span (some target) constructorName args)

/-- The call of a superclass constructor on an outer object, of which `p` and at most
`bound` further parts are read before. -/
def outerConstructorCall (g : Grammar) (start : Mark) : (bound : Nat) → Primary → Rule Stmt
  | 0, _ => failure
  | bound + 1, p =>
    let here : Rule Stmt := do
      let _ ← mark "."
      let _ ← opt (typeArguments g)
      let t ← keyword "super"
      constructorArgs g start (.super t.span)
    here <|> (do outerConstructorCall g start bound (← extension g start p.expr))

def constructorCall (g : Grammar) : Rule Stmt := do
  let start ← here
  let own : Rule Stmt := do
    let _ ← opt (typeArguments g)
    let t ← keyword "this" <|> keyword "super"
    constructorArgs g start (if t.text = "super" then .super t.span else .this t.span)
  let outer : Rule Stmt := do
    let base ← primaryBase g start
    outerConstructorCall g start (← get).left base
  own <|> outer

def constructorBody (g : Grammar) : Rule Block := do
  let start ← here
  let stmts ← between "\x7b" "\x7d" do
    let first ← opt (constructorCall g)
    return first.toList ++ (← blockItems g.stmt)
  return ⟨stmts, ← spanFrom start⟩

def constructorDecl (g : Grammar) (start : Mark) (mods : Modifiers) : Rule MethodDecl := do
  let _ ← opt (typeParameters g)
  let name ← nameBut primitiveTypes
  let (params, isVarargs) ← formalParams g declaredParamWords
  let throwsTypes ← opt (throwsClause g)
  let body ← constructorBody g
  return { name := constructorName, isConstructor := true, isStatic := mods.isStatic,
           annotations := mods.annotations, params, isVarargs, returnType := none,
           throwsTypes := throwsTypes.getD [], body := some body, span := ← spanFrom start,
           nameSpan := name.span }

/-- A constructor of a record that names no parameters, after its modifiers. -/
def compactConstructorDecl (g : Grammar) (start : Mark) (mods : Modifiers) :
    Rule MethodDecl := do
  let name ← nameBut primitiveTypes
  let body ← g.block
  return { name := constructorName, isConstructor := true, isStatic := mods.isStatic,
           annotations := mods.annotations, params := [], isVarargs := false,
           returnType := none, throwsTypes := [], body := some body,
           span := ← spanFrom start, nameSpan := name.span }

/-- A method after its modifiers. An underscore names a method only after type
parameters, since otherwise it names a variable. -/
def methodDecl (g : Grammar) (taken : List String) (start : Mark) (mods : Modifiers) :
    Rule MethodDecl := do
  let generic := do
    typeParameters g
    many g.annotationTree
  let isGeneric := (← opt generic).isSome
  let type := (← g.type (if isGeneric then [] else taken)).ref
  let name ← nameBut (if isGeneric then [] else ["_"])
  let (params, isVarargs) ← formalParams g declaredParamWords
  let _ ← opt (dimensions g)
  let throwsTypes ← opt (throwsClause g)
  let noBody : Rule (Option Block) := do
    let _ ← mark ";"
    return none
  let body ← noBody <|> (do return some (← g.block))
  return { name := name.text, isConstructor := false, isStatic := mods.isStatic,
           annotations := mods.annotations, params, isVarargs, returnType := some type,
           throwsTypes := throwsTypes.getD [], body, span := ← spanFrom start,
           nameSpan := name.span }

def elementDecl (g : Grammar) (start : Mark) (mods : Modifiers) : Rule MethodDecl := do
  let type := (← g.type []).ref
  let name ← nameBut ["_"]
  let _ ← mark "("
  let _ ← mark ")"
  let _ ← opt (dimensions g)
  let default := do
    let _ ← keyword "default"
    g.elementValue
  let _ ← opt default
  let _ ← mark ";"
  return { name := name.text, isConstructor := false, isStatic := mods.isStatic,
           annotations := mods.annotations, params := [], isVarargs := false,
           returnType := some type, throwsTypes := [], body := none,
           span := ← spanFrom start, nameSpan := name.span }

def fieldDecls (g : Grammar) (mods : Modifiers) : Rule (List Member) := do
  let type := (← g.type []).ref
  let decls ← sepBy1 "," (declarator g [])
  let _ ← mark ";"
  return decls.map fun d =>
    .field { name := d.name, type, isStatic := mods.isStatic, isFinal := mods.isFinal,
             isPrivate := mods.isPrivate, annotations := mods.annotations, init := d.init,
             span := d.span }

def typeMember (g : Grammar) : Rule (List Member) := do return [.type (← g.typeDecl)]

def nothing : Rule (List Member) := do
  let _ ← mark ";"
  return []

/-- A member that begins with modifiers, by one of the given rules. After them none of
the words that begin a type declaration can name anything. -/
def modified (g : Grammar) (declared : List String)
    (rules : List (Mark → Modifiers → Rule (List Member))) : Rule (List Member) := do
  let start ← here
  let mods ← declarationModifiers g
  if ← isAhead (fun t => t.kind = .word && declared.contains t.text) then failure
  rules.foldr (fun r rest => r start mods <|> rest) failure

def methodMember (rule : Mark → Modifiers → Rule MethodDecl) (start : Mark) (mods : Modifiers) :
    Rule (List Member) := do
  return [.method (← rule start mods)]

def initializer (g : Grammar) : Rule (List Member) := do
  let isStatic ← opt (keyword "static")
  let body ← g.block
  return [.initializer isStatic.isSome body]

def classMember (g : Grammar) : Rule (List Member) :=
  nothing <|> initializer g <|> typeMember g <|>
    modified g ("record" :: declarationWords)
      [methodMember (constructorDecl g), methodMember (compactConstructorDecl g),
        methodMember (methodDecl g []), fun _ mods => fieldDecls g mods]

def interfaceMember (g : Grammar) : Rule (List Member) :=
  nothing <|> typeMember g <|>
    modified g ("record" :: declarationWords)
      [methodMember (methodDecl g []), fun _ mods => fieldDecls g mods]

def annotationMember (g : Grammar) : Rule (List Member) := do
  let elements := modified g declarationWords
    [methodMember (elementDecl g), fun _ mods => fieldDecls g mods]
  let types : Rule (List Member) := do
    let d ← g.typeDecl
    if d.kind = .recordType then failure else return [.type d]
  nothing <|> types <|> elements

def bodyOf (member : Rule (List Member)) : Rule (List Member) :=
  between "\x7b" "\x7d" (do return (← many member).flatten)

def classBodyRule (g : Grammar) : Rule (List Member) := bodyOf (classMember g)

def enumConstant (g : Grammar) : Rule Member := do
  let start ← here
  let mods ← modifiers g
  let name ← anyWord
  let args ← opt (arguments g)
  let body ← opt (anonymousClass g ⟨"", {}⟩)
  return .constant { name := name.text, annotations := mods.annotations, args := args.getD [],
                     body, span := ← spanFrom start }

def enumBody (g : Grammar) : Rule (List Member) :=
  between "\x7b" "\x7d" do
    let constants ← sepBy "," (enumConstant g)
    let _ ← opt (mark ",")
    match ← opt (mark ";") with
    | none => return constants
    | some _ => return constants ++ (← many (classMember g)).flatten

def implementsClause (g : Grammar) : Rule (List TypeRef) := do
  let _ ← keyword "implements"
  typeList g

def permitsClause (g : Grammar) : Rule (List TypeRef) := do
  let _ ← keyword "permits"
  typeList g

structure TypeParts where
  superClass : Option TypeRef := none
  interfaces : List TypeRef := []
  members : List Member

def classParts (g : Grammar) : Rule TypeParts := do
  let _ ← opt (typeParameters g)
  let extending := do
    let _ ← keyword "extends"
    annotatedType g []
  let superClass ← opt extending
  let interfaces ← opt (implementsClause g)
  let _ ← opt (permitsClause g)
  let members ← g.classBody
  return ⟨superClass, interfaces.getD [], members⟩

def interfaceParts (g : Grammar) : Rule TypeParts := do
  let _ ← opt (typeParameters g)
  let extending := do
    let _ ← keyword "extends"
    typeList g
  let interfaces ← opt extending
  let _ ← opt (permitsClause g)
  let members ← bodyOf (interfaceMember g)
  return ⟨none, interfaces.getD [], members⟩

def enumParts (g : Grammar) : Rule TypeParts := do
  let interfaces ← opt (implementsClause g)
  let members ← enumBody g
  return ⟨none, interfaces.getD [], members⟩

def recordParts (g : Grammar) : Rule TypeParts := do
  let _ ← opt (typeParameters g)
  let _ ← formalParams g declaredParamWords
  let interfaces ← opt (implementsClause g)
  let members ← g.classBody
  return ⟨none, interfaces.getD [], members⟩

def annotationParts (g : Grammar) : Rule TypeParts := do
  let members ← bodyOf (annotationMember g)
  return ⟨none, [], members⟩

def typeKeyword (g : Grammar) : Rule (TypeKind × Rule TypeParts) := do
  let t ← take
  if t.is "@interface" then return (.annotationType, annotationParts g)
  else if t.kind ≠ .word then failure
  else
    match t.text with
    | "class" => return (.classType, classParts g)
    | "interface" => return (.interfaceType, interfaceParts g)
    | "enum" => return (.enumType, enumParts g)
    | "record" => return (.recordType, recordParts g)
    | _ => failure

def typeDeclRule (g : Grammar) : Rule TypeDecl := do
  let start ← here
  let mods ← declarationModifiers g
  let (kind, rest) ← typeKeyword g
  let name ← anyWord
  let parts ← rest
  return { name := name.text, qualified := "", kind, annotations := mods.annotations,
           superClass := parts.superClass, interfaces := parts.interfaces,
           members := parts.members, span := ← spanFrom start }

end LevelGuard.Java
