import LevelGuard.Permission.Expr
import LevelGuard.Text.Basic

/-!
# Reading permission expressions

The written form uses `||`, `&&`, `^`, parentheses and dotted names. Of the three
operators `^` binds closest and `||` least; chains of `||` and `&&` become one
n-ary node, a chain of `^` associates to the left, and parentheses leave no trace.

A text is first split into tokens by longest match, then read by the four rules
`disjunction`, `conjunction`, `exclusion` and `primary`. The first three are chains
of operands that the next one reads; the last one goes back to the first inside of
parentheses, to a depth that the token count bounds.
-/
namespace LevelGuard.Permission

/-- Why a permission expression or an API range cannot be read. -/
inductive ParseError where
  | empty
  | unexpectedToken (token input : String)
  | unbalanced (input : String)
  | invalidRange (text : String)
  deriving DecidableEq, Repr

def ParseError.message : ParseError → String
  | .empty => "empty permission expression"
  | .unexpectedToken token input =>
    "unexpected token `" ++ token ++ "` in permission expression `" ++ input ++ "`"
  | .unbalanced input =>
    "unbalanced parentheses in permission expression `" ++ input ++ "`"
  | .invalidRange text => "invalid API range `" ++ text ++ "`"

inductive Token where
  | or
  | and
  | xor
  | opening
  | closing
  | name (text : String)
  deriving DecidableEq, Repr

namespace Token

def text : Token → String
  | .or => "||"
  | .and => "&&"
  | .xor => "^"
  | .opening => "("
  | .closing => ")"
  | .name text => text

def isNameStart (c : Char) : Bool := c.isAlpha || c == '_'

def isNameChar (c : Char) : Bool := c.isAlpha || c.isDigit || c == '_' || c == '.'

/-- The token at the head of a text without leading blanks, and what follows it. -/
def next? : List Char → Option (Token × List Char)
  | '|' :: '|' :: cs => some (.or, cs)
  | '&' :: '&' :: cs => some (.and, cs)
  | '^' :: cs => some (.xor, cs)
  | '(' :: cs => some (.opening, cs)
  | ')' :: cs => some (.closing, cs)
  | c :: cs =>
    if isNameStart c then
      some (.name (String.ofList (c :: cs.takeWhile isNameChar)), cs.dropWhile isNameChar)
    else none
  | [] => none

/-- The tokens of a text of which at most `bound` are read. Text that begins with
no token is reported by its first eight characters. -/
def readAll (input : String) : (bound : Nat) → List Char → Except ParseError (List Token)
  | 0, _ => .ok []
  | bound + 1, cs =>
    match Text.trimStart cs with
    | [] => .ok []
    | rest =>
      match next? rest with
      | none => .error (.unexpectedToken (String.ofList ((Text.trim rest).take 8)) input)
      | some (t, rest) =>
        match readAll input bound rest with
        | .ok ts => .ok (t :: ts)
        | .error e => .error e

end Token

namespace Expr

abbrev Rule (α : Type) := List Token → Except ParseError (α × List Token)

def operands (op : Token) (operand : Rule Expr) : (bound : Nat) → Rule (Expr × List Expr)
  | 0, ts => do
    let (e, rest) ← operand ts
    return ((e, []), rest)
  | bound + 1, ts => do
    let (e, rest) ← operand ts
    match rest with
    | [] => return ((e, []), [])
    | t :: rest =>
      if t = op then do
        let ((e', es), rest) ← operands op operand bound rest
        return ((e, e' :: es), rest)
      else return ((e, []), t :: rest)

def chain (op : Token) (join : Expr → List Expr → Expr) (operand : Rule Expr) : Rule Expr :=
  fun ts => do
    let ((e, es), rest) ← operands op operand ts.length ts
    return (join e es, rest)

/-- A single operand stands for itself; several make one node. -/
def gather (node : List Expr → Expr) (first : Expr) : List Expr → Expr
  | [] => first
  | others => node (first :: others)

/-- A name, or in parentheses what `inner` reads. -/
def primary (input : String) (inner : Rule Expr) : Rule Expr
  | .opening :: ts => do
    match ← inner ts with
    | (e, .closing :: rest) => return (e, rest)
    | _ => .error (.unbalanced input)
  | .name text :: ts => .ok (.single text, ts)
  | t :: _ => .error (.unexpectedToken t.text input)
  | [] => .error (.unexpectedToken "<end>" input)

def exclusion (input : String) (inner : Rule Expr) : Rule Expr :=
  chain .xor (fun first others => others.foldl .xor first) (primary input inner)

def conjunction (input : String) (inner : Rule Expr) : Rule Expr :=
  chain .and (gather .allOf) (exclusion input inner)

/-- An expression with parentheses that are less than `depth` deep. -/
def disjunction (input : String) : (depth : Nat) → Rule Expr
  | 0 => fun _ => .error (.unbalanced input)
  | depth + 1 => chain .or (gather .anyOf) (conjunction input (disjunction input depth))

def parse (input : String) : Except ParseError Expr := do
  let tokens ← Token.readAll input input.length input.toList
  if tokens.isEmpty then .error .empty
  else
    match ← disjunction input (tokens.length + 1) tokens with
    | (e, []) => return e
    | (_, .closing :: _) => .error (.unbalanced input)
    | (_, t :: _) => .error (.unexpectedToken t.text input)

end Expr
end LevelGuard.Permission
