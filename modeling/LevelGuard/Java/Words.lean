import LevelGuard.Number.Binary64
import LevelGuard.Text.Basic

/-!
# Words, written types and literals

Few words are reserved everywhere. A word has its special meaning where the grammar
can make use of it and is an ordinary name elsewhere, so `new` names a type between
angle brackets and `class` a variable after a type. The lists here say which words
have a meaning at the places where names are read.

The dotted name of a type is read off the written type by leaving out what stands between
angle brackets, annotations up to the blank that ends them, white space, array dimensions
and the mark of a variable arity parameter.

Literals keep their written text apart from what their value needs: underscores
and suffixes of integers, the suffix of a floating-point number, and the quotes
of a string go away. An integer above the greatest 64-bit one has no value.
-/
namespace LevelGuard.Java

def primitiveTypes : List String :=
  ["int", "long", "short", "byte", "char", "boolean", "float", "double", "void"]

def expressionWords : List String := ["this", "super", "new", "true", "false", "null", "switch"]

/-- Words with a meaning in some places that still name variables and methods there. -/
def reservedNames : List String := ["open", "module", "record", "with", "sealed", "yield"]

def modifierWords : List String :=
  ["public", "protected", "private", "abstract", "static", "final", "strictfp", "default",
    "synchronized", "native", "transient", "volatile", "sealed"]

def declarationWords : List String := ["class", "interface", "enum"]

def statementWords : List String :=
  ["assert", "break", "continue", "do", "for", "if", "import", "package", "return", "throw", "try",
    "while"]

/-- Words that name no type where an operand is expected. -/
def operandWords : List String := expressionWords ++ reservedNames

/-- Words that name no type after a parenthesis that may open a cast, a lambda or a loop. -/
def parenthesisWords : List String := operandWords ++ modifierWords

/-- Words that name no type at the beginning of a resource. -/
def resourceWords : List String := parenthesisWords.filter (· ≠ "switch")

/-- Words that name no type at the beginning of a statement. -/
def blockWords : List String := parenthesisWords ++ declarationWords ++ statementWords

/-- What stands outside `depth` angle brackets, annotations and blanks. -/
def bareType (depth : Nat) (skipping : Bool) : List Char → List Char
  | [] => []
  | c :: cs =>
    if skipping && !Text.isBlank c then bareType depth true cs
    else if c = '<' then bareType (depth + 1) false cs
    else if c = '>' then bareType (depth - 1) false cs
    else if depth = 0 && c = '@' then bareType depth true cs
    else if depth = 0 && !Text.isBlank c then c :: bareType depth false cs
    else bareType depth false cs

def dropDimensions : List Char → List Char
  | ']' :: '[' :: cs => dropDimensions cs
  | cs => cs

/-- Drop the marks of variable arity from the end of a reversed type. -/
def dropEllipsis : List Char → List Char
  | '.' :: '.' :: '.' :: cs => dropEllipsis cs
  | cs => cs

def typeName (text : List Char) : String :=
  String.ofList (dropEllipsis (dropDimensions (bareType 0 false text).reverse)).reverse

inductive Literal where
  | int (value : Nat)
  /-- The IEEE bits of a binary64 number. -/
  | float (bits : Nat)
  | bool (value : Bool)
  /-- A character as written, quotes included. -/
  | char (text : String)
  | str (text : String)
  | null
  deriving DecidableEq, Repr, Inhabited

def greatestInt : Nat := 9223372036854775807

def dropEnd (p : Char → Bool) (cs : List Char) : List Char := (cs.reverse.dropWhile p).reverse

def integerDigits : List Char → Nat × List Char
  | '0' :: 'x' :: cs | '0' :: 'X' :: cs => (16, cs)
  | '0' :: 'b' :: cs | '0' :: 'B' :: cs => (2, cs)
  | '0' :: c :: cs => (8, c :: cs)
  | cs => (10, cs)

def integerValue? (text : List Char) : Option Nat :=
  let digits := dropEnd (fun c => c = 'l' || c = 'L') (text.filter (· ≠ '_'))
  let (base, digits) := integerDigits digits
  (Text.numeral? base digits).bind fun n => if n ≤ greatestInt then some n else none

/-- The bits of a floating-point literal; one that is not plainly decimal counts as zero. -/
def floatValue (text : List Char) : Nat :=
  (Number.decimalBits? (dropEnd ("fFdD".toList.contains ·) text)).getD 0

def stringValue (text : List Char) : String :=
  String.ofList (dropEnd (· = '"') (text.dropWhile (· = '"')))

end LevelGuard.Java
