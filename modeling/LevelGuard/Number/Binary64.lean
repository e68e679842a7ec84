import LevelGuard.Text.Basic

/-!
# Decimal text as a binary64 number

A number is kept as the 64 bits of its IEEE representation, read as a natural
number. Scaled by 2^1074 every finite value is a natural number with at most 53
significant binary digits, and the bits of a positive value are then its rounded
leading digits plus 2^52 for every digit dropped: the steps from subnormal to
normal numbers and from one binade to the next need no case of their own.
-/
namespace LevelGuard.Number

def infinityBits : Nat := 0x7FF0000000000000

/-- A quotient rounded to the nearest natural number, ties to even. -/
def roundedQuotient (num den : Nat) : Nat :=
  let q := num / den
  let twice := 2 * (num % den)
  if den < twice || (twice = den && q % 2 = 1) then q + 1 else q

/-- The bits of the binary64 number nearest to a quotient. -/
def ratioBits (num den : Nat) : Nat :=
  let scaled := num * Nat.pow 2 1074
  let dropped := (scaled / den).log2 - 52
  min infinityBits (dropped * Nat.pow 2 52 + roundedQuotient scaled (den * Nat.pow 2 dropped))

/-- The bits of the binary64 number nearest to `mantissa` times a power of ten. -/
def scientificBits (mantissa : Nat) (exponent : Int) : Nat :=
  let digits : Int := (Nat.toDigits 10 mantissa).length
  if mantissa = 0 || digits + exponent < -400 then 0
  else if digits + exponent > 400 then infinityBits
  else
    match exponent with
    | .ofNat e => ratioBits (mantissa * Nat.pow 10 e) 1
    | .negSucc e => ratioBits mantissa (Nat.pow 10 (e + 1))

/-- A decimal exponent with its optional sign. -/
def exponent? : List Char → Option Int
  | '-' :: cs => (Text.numeral? 10 cs).map fun n => -(n : Int)
  | '+' :: cs => (Text.numeral? 10 cs).map fun n => (n : Int)
  | cs => (Text.numeral? 10 cs).map fun n => (n : Int)

/-- The bits of a number in digits, a point with digits and an exponent, of which
the point and the exponent may be missing. -/
def decimalBits? (text : List Char) : Option Nat :=
  let whole := text.takeWhile Text.isDigit
  let rest := text.dropWhile Text.isDigit
  let (fraction, rest) :=
    match rest with
    | '.' :: cs => (cs.takeWhile Text.isDigit, cs.dropWhile Text.isDigit)
    | cs => ([], cs)
  let shift : Int := fraction.length
  (Text.numeral? 10 (whole ++ fraction)).bind fun mantissa =>
    match rest with
    | [] => some (scientificBits mantissa (-shift))
    | c :: cs =>
      if c = 'e' || c = 'E' then
        (exponent? cs).map fun e => scientificBits mantissa (e - shift)
      else none

def bitsText (bits : Nat) : String :=
  let digits := Nat.toDigits 16 bits
  String.ofList (List.replicate (16 - digits.length) '0' ++ digits)

end LevelGuard.Number
