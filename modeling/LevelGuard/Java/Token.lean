import LevelGuard.Text.IdentifierChars
import LevelGuard.Text.Basic
import LevelGuard.Text.Position

/-!
# Tokens of Java source

Source text is split into words, literals and punctuation by longest match, and
white space and comments between them are dropped. A word is not yet a keyword or
an identifier, since that depends on where it stands. A `>` is always a token of
its own, because it may close a list of type arguments; operators that begin with
it are put together where an operator is expected.

Expressions may be embedded in strings. A string is therefore read as its two
quotes, with the tokens of the embedded expressions between them; the text of the
string itself belongs to no token.
-/
namespace LevelGuard.Java

structure Mark where
  byte : Nat
  line : Nat
  column : Nat
  ahead : List Char
  deriving Inhabited

namespace Mark

def start (source : List Char) : Mark := ⟨0, 1, 1, source⟩

def skip : Nat → Mark → Mark
  | 0, m => m
  | n + 1, m =>
    match m.ahead with
    | [] => m
    | c :: cs =>
      let next : Mark :=
        if c = '\n' then ⟨m.byte + 1, m.line + 1, 1, cs⟩
        else ⟨m.byte + c.utf8Size, m.line, m.column + c.utf8Size, cs⟩
      skip n next

def spanTo (m stop : Mark) : Span :=
  ⟨m.line, m.column, stop.line, stop.column, m.byte, stop.byte⟩

def textTo (m stop : Mark) : List Char :=
  (Text.takeBytes? (stop.byte - m.byte) m.ahead).getD []

end Mark

inductive TokenKind where
  | word
  | integer
  | float
  | char
  | quote
  | punctuation
  deriving DecidableEq, Repr, Inhabited

structure Token where
  kind : TokenKind
  text : String
  start : Mark
  stop : Mark
  deriving Inhabited

def Token.adjoins (a b : Token) : Bool := a.stop.byte = b.start.byte

/-- The character that no token contains. -/
def nul : Char := '\x00'

/-- A lexeme gives the lengths of all its matches at the head of a text. -/
abbrev Lexeme := List Char → List Nat

namespace Lexeme

def one (p : Char → Bool) : Lexeme
  | [] => []
  | c :: _ => if p c then [1] else []

def char (c : Char) : Lexeme := one (· == c)

def oneOf (chars : String) : Lexeme := one chars.toList.contains

def seq (a b : Lexeme) : Lexeme := fun cs =>
  (a cs).flatMap fun n => (b (cs.drop n)).map (n + ·)

def opt (a : Lexeme) : Lexeme := fun cs => 0 :: a cs

def anyOf (forms : List Lexeme) : Lexeme := fun cs => forms.flatMap (· cs)

def all : List Lexeme → Lexeme
  | [] => fun _ => [0]
  | a :: as => seq a (all as)

def exact (text : List Char) : Lexeme := all (text.map char)

def longest? (a : Lexeme) (cs : List Char) : Option Nat := (a cs).max?

/-- The lengths at which digits with single underscores between them can end, after
`n` characters of which the last is a digit. -/
def moreDigits (p : Char → Bool) (n : Nat) : Lexeme
  | '_' :: d :: cs => if p d then (n + 2) :: moreDigits p (n + 2) cs else []
  | c :: cs => if p c then (n + 1) :: moreDigits p (n + 1) cs else []
  | [] => []

/-- Digits with single underscores between them. -/
def digits (p : Char → Bool) : Lexeme
  | [] => []
  | c :: cs => if p c then 1 :: moreDigits p 1 cs else []

/-- The lengths at which digits with runs of underscores between them can end, after
`n` characters. -/
def moreGroups (p : Char → Bool) (n : Nat) : Lexeme
  | [] => []
  | c :: cs =>
    if p c then (n + 1) :: moreGroups p (n + 1) cs
    else if c = '_' then moreGroups p (n + 1) cs
    else []

/-- Digits with runs of underscores between them. -/
def groups (p : Char → Bool) : Lexeme
  | [] => []
  | c :: cs => if p c then 1 :: moreGroups p 1 cs else []

def isHexDigit (c : Char) : Bool := (Text.digitValue? 16 c).isSome

def isOctalDigit (c : Char) : Bool := (Text.digitValue? 8 c).isSome

def isBinaryDigit (c : Char) : Bool := (Text.digitValue? 2 c).isSome

def decimal : Lexeme := digits Text.isDigit

def hexadecimal : Lexeme := digits isHexDigit

/-- A zero, or digits that do not begin with one. After the first digit at most one
underscore may stand, further on any number between two digits. -/
def count : Lexeme
  | '0' :: _ => [1]
  | c :: cs =>
    if Text.isDigit c then
      (opt (seq (opt (char '_')) (groups Text.isDigit)) cs).map (· + 1)
    else []
  | [] => []

def radix (letters : String) : Lexeme := seq (char '0') (oneOf letters)

def exponent (letters : String) (value : Lexeme) : Lexeme :=
  all [oneOf letters, opt (oneOf "+-"), value]

def longSuffix : Lexeme := opt (oneOf "lL")

def floatSuffix : Lexeme := opt (oneOf "fFdD")

def integer : Lexeme :=
  anyOf
    [seq count longSuffix,
      all [radix "xX", hexadecimal, longSuffix],
      all [char '0', digits isOctalDigit, longSuffix],
      all [radix "oO", digits isOctalDigit, longSuffix],
      all [radix "bB", digits isBinaryDigit, longSuffix]]

def float : Lexeme :=
  let power := exponent "eE" decimal
  let mantissa := anyOf [seq hexadecimal (opt (char '.')), all [opt hexadecimal, char '.', hexadecimal]]
  anyOf
    [all [decimal, char '.', opt decimal, opt power, floatSuffix],
      all [char '.', decimal, opt power, floatSuffix],
      all [count, power, floatSuffix],
      all [count, opt power, oneOf "fFdD"],
      all [radix "xX", mantissa, opt (seq (exponent "eEpP" count) floatSuffix)]]

/-- The longer of an integer and a floating-point literal; an integer if they tie. -/
def number? (cs : List Char) : Option (TokenKind × Nat) :=
  match integer.longest? cs, float.longest? cs with
  | some a, some b => if a < b then some (.float, b) else some (.integer, a)
  | some a, none => some (.integer, a)
  | none, b => b.map (.float, ·)

/-- The rest of a character with its closing quote; `begun` once something stands in it. -/
def characterRest? (begun : Bool) : List Char → Option Nat
  | '\'' :: _ => if begun then some 1 else none
  | '\\' :: c :: cs => if c = nul then none else (characterRest? true cs).map (2 + ·)
  | c :: cs => if c = '\n' || c = nul then none else (characterRest? true cs).map (1 + ·)
  | [] => none

/-- Punctuation, longer marks before their beginnings. -/
def marks : List String :=
  ["@interface", "...", "<<=", "->", "::", "++", "--", "&&", "||", "==", "!=", "<=", "<<", "+=",
    "-=", "*=", "/=", "&=", "|=", "^=", "%=", "(", ")", "\x7b", "\x7d", "[", "]", ";", ",", ".",
    "@", "=", ">", "<", "!", "~", "?", ":", "+", "-", "*", "/", "&", "|", "^", "%"]

def punctuation : Lexeme := anyOf (marks.map fun m => exact m.toList)

def startsWord (c : Char) : Bool := Text.startsIdentifier c || c == '_' || c == '$'

def inWord (c : Char) : Bool := Text.continuesIdentifier c || c == '$' || c == '¢'

/-- The kind and length of the token at the head of a text that begins no string. -/
def token? (cs : List Char) : Option (TokenKind × Nat) :=
  match cs with
  | [] => none
  | '\'' :: rest => (characterRest? false rest).map fun n => (.char, n + 1)
  | c :: rest =>
    if startsWord c then some (.word, (rest.takeWhile inWord).length + 1)
    else
      match number? cs with
      | some t => some t
      | none => (punctuation.longest? cs).map (.punctuation, ·)

def isSpace (c : Char) : Bool := (9 ≤ c.toNat && c.toNat ≤ 13) || c == ' '

def commentRest? : List Char → Option Nat
  | [] => none
  | '*' :: '/' :: _ => some 2
  | c :: cs => if c = nul then none else (commentRest? cs).map (1 + ·)

def comment? : List Char → Option Nat
  | '/' :: '/' :: cs => some ((cs.takeWhile fun c => c ≠ '\n' && c ≠ nul).length + 2)
  | '/' :: '*' :: cs => (commentRest? cs).map (2 + ·)
  | _ => none

def gap? (cs : List Char) : Option Nat :=
  match (cs.takeWhile isSpace).length with
  | 0 => comment? cs
  | n => some n

/-! ### Text of strings -/

def escape? (cs : List Char) : Option Nat :=
  let hex := one isHexDigit
  let octal := one isOctalDigit
  match cs with
  | [] => none
  | 'x' :: _ => (all [char 'x', hex, hex]).longest? cs
  | 'u' :: '\x7b' :: rest =>
    let n := (rest.takeWhile isHexDigit).length
    if 0 < n && (rest.drop n).head? = some '\x7d' then some (n + 3) else none
  | 'u' :: _ => (all [char 'u', hex, hex, hex, hex]).longest? cs
  | c :: _ =>
    if isOctalDigit c then (all [octal, opt octal, opt octal]).longest? cs
    else if c = nul then none
    else some 1

/-- How many characters of plain text stand before a quote or a backslash. -/
def plainText? (cs : List Char) : Option Nat :=
  match (cs.takeWhile fun c => c ≠ '"' && c ≠ '\\' && c ≠ nul).length with
  | 0 => none
  | n => some n

/-- How many characters follow a quote inside a text block up to the next quote or
backslash, where a backslash before a quote counts as plain text. -/
def quotedText : List Char → Nat
  | '\\' :: '"' :: cs => quotedText cs + 2
  | c :: cs => if c = '"' || c = '\\' || c = nul then 0 else quotedText cs + 1
  | [] => 0

/-- Plain text of a text block at the beginning of a piece. A comment that begins
there is part of the text, and so are the quotes in it. -/
def blockText? (cs : List Char) : Option Nat :=
  match cs with
  | [] => none
  | c :: _ =>
    if isSpace c then some 1
    else (plainText? cs).map fun n => max n ((comment? cs).getD 0)

end Lexeme

inductive Region where
  /-- Code, after so many opening braces that are not closed yet. -/
  | code (depth : Nat)
  | string
  | textBlock

/-- A piece of the source: its length, the kind of token it is, if any, and the
regions around the place after it, the innermost first. -/
structure Piece where
  size : Nat
  kind : Option TokenKind
  regions : List Region

namespace Piece

def inString? (outer : List Region) : List Char → Option Piece
  | '"' :: _ => some ⟨1, some .quote, outer⟩
  | '\\' :: '\x7b' :: _ => some ⟨2, some .punctuation, .code 0 :: .string :: outer⟩
  | '\\' :: cs => (Lexeme.escape? cs).map fun n => ⟨n + 1, none, .string :: outer⟩
  | cs => (Lexeme.plainText? cs).map fun n => ⟨n, none, .string :: outer⟩

def inTextBlock? (outer : List Region) : List Char → Option Piece
  | '"' :: '"' :: '"' :: _ => some ⟨3, some .quote, outer⟩
  | '"' :: cs => some ⟨Lexeme.quotedText cs + 1, none, .textBlock :: outer⟩
  | '\\' :: '\x7b' :: _ => some ⟨2, some .punctuation, .code 0 :: .textBlock :: outer⟩
  | '\\' :: c :: cs =>
    if c = nul then none
    else some ⟨(Lexeme.escape? (c :: cs)).getD 1 + 1, none, .textBlock :: outer⟩
  | cs => (Lexeme.blockText? cs).map fun n => ⟨n, none, .textBlock :: outer⟩

/-- The piece at the head of a text in code. A brace that closes none of this code
ends the embedded expression that the code is. -/
def inCode? (depth : Nat) (outer : List Region) (cs : List Char) : Option Piece :=
  match Lexeme.gap? cs with
  | some n => some ⟨n, none, .code depth :: outer⟩
  | none =>
    match cs, depth with
    | '"' :: '"' :: '"' :: _, _ => some ⟨3, some .quote, .textBlock :: .code depth :: outer⟩
    | '"' :: _, _ => some ⟨1, some .quote, .string :: .code depth :: outer⟩
    | '\x7b' :: _, _ => some ⟨1, some .punctuation, .code (depth + 1) :: outer⟩
    | '\x7d' :: _, 0 =>
      some ⟨1, some .punctuation, if outer.isEmpty then [.code 0] else outer⟩
    | '\x7d' :: _, depth + 1 => some ⟨1, some .punctuation, .code depth :: outer⟩
    | _, _ => (Lexeme.token? cs).map fun (kind, n) => ⟨n, some kind, .code depth :: outer⟩

def next? (regions : List Region) (cs : List Char) : Option Piece :=
  match regions with
  | [] => none
  | .code depth :: outer => inCode? depth outer cs
  | .string :: outer => inString? outer cs
  | .textBlock :: outer => inTextBlock? outer cs

end Piece

namespace Token

def readFrom? : (bound : Nat) → List Region → Mark → Option (List Token)
  | 0, _, _ => none
  | bound + 1, regions, m =>
    if m.ahead.isEmpty then some []
    else
      (Piece.next? regions m.ahead).bind fun p =>
        let stop := m.skip p.size
        let rest := readFrom? bound p.regions stop
        match p.kind with
        | none => rest
        | some kind => rest.map (⟨kind, String.ofList (m.ahead.take p.size), m, stop⟩ :: ·)

/-- A byte order mark at the beginning of a source is no part of it. -/
def afterOrderMark (m : Mark) : Mark := if m.ahead.head? = some '\uFEFF' then m.skip 1 else m

def readAll? (source : List Char) : Option (List Token) :=
  readFrom? (source.length + 1) [.code 0] (afterOrderMark (Mark.start source))

end Token
end LevelGuard.Java
