import LevelGuard.Format.Value

/-!
# Laid out JSON

A value is written over several lines with two blanks for each level. Empty lists
and maps stay on one line. In strings only quotes, backslashes and the control
characters below the blank are escaped.
-/
namespace LevelGuard.Format

def hexDigit (n : Nat) : Char := Char.ofNat (if n < 10 then 48 + n else 87 + n)

def escape (c : Char) : List Char :=
  match c with
  | '"' => ['\\', '"']
  | '\\' => ['\\', '\\']
  | '\x08' => ['\\', 'b']
  | '\x0c' => ['\\', 'f']
  | '\n' => ['\\', 'n']
  | '\r' => ['\\', 'r']
  | '\t' => ['\\', 't']
  | c =>
    if c.toNat < 32 then ['\\', 'u', '0', '0', hexDigit (c.toNat / 16), hexDigit (c.toNat % 16)]
    else [c]

def quote (s : String) : String := String.ofList ('"' :: s.toList.flatMap escape ++ ['"'])

def lineAt (depth : Nat) : String := String.ofList ('\n' :: List.replicate (2 * depth) ' ')

namespace Value

mutual

def writeAt (depth : Nat) : Value → String
  | .null | .other => "null"
  | .bool b => if b then "true" else "false"
  | .int n => toString n
  | .text s => quote s
  | .scalar s => quote s.text
  | .list [] => "[]"
  | .list (v :: vs) =>
    "[" ++ lineAt (depth + 1) ++ writeAt (depth + 1) v ++ writeItems (depth + 1) vs
      ++ lineAt depth ++ "]"
  | .map [] => "\x7b\x7d"
  | .map ((k, v) :: es) =>
    "\x7b" ++ lineAt (depth + 1) ++ quote k ++ ": " ++ writeAt (depth + 1) v
      ++ writeEntries (depth + 1) es ++ lineAt depth ++ "\x7d"

def writeItems (depth : Nat) : List Value → String
  | [] => ""
  | v :: vs => "," ++ lineAt depth ++ writeAt depth v ++ writeItems depth vs

def writeEntries (depth : Nat) : List (String × Value) → String
  | [] => ""
  | (k, v) :: es =>
    "," ++ lineAt depth ++ quote k ++ ": " ++ writeAt depth v ++ writeEntries depth es

end

def pretty (v : Value) : String := v.writeAt 0

def nat (n : Nat) : Value := .int n

end Value
end LevelGuard.Format
