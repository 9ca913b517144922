/-!
# Decimal fractions

A decimal fraction is a whole number scaled by a power of ten. It is read from digits with an
optional sign, point and exponent. The nearest floating-point number may be infinite; such a
fraction is *too large*.

The readers of settings need such fractions only to tell which numerals they admit, and to cut off
the fraction of one that is given for a tab width. So a fraction is kept exactly, and whether it is
too large is decided on whole numbers.
-/

namespace Offside

/-- The number `digits * 10 ^ exponent`, or its negative. -/
structure Decimal where
  negative : Bool
  digits : Nat
  exponent : Int
  deriving DecidableEq, Repr

namespace Decimal

/-- An ASCII decimal digit. -/
def isDigit (c : Char) : Bool :=
  '0' ≤ c && c ≤ '9'

/-- The value of a digit string. -/
def value (ds : List Char) : Nat :=
  ds.foldl (fun n d => 10 * n + (d.toNat - '0'.toNat)) 0

/-- Takes an optional sign off the front; the flag tells a minus sign. -/
def takeSign : List Char → Bool × List Char
  | '-' :: rest => (true, rest)
  | '+' :: rest => (false, rest)
  | cs => (false, cs)

/-- The exponent at the end of a fraction: nothing, or a mark, an optional sign and digits. -/
def readExponent? : List Char → Option Int
  | [] => some 0
  | mark :: rest =>
    if mark == 'e' || mark == 'E' then
      let (negative, ds) := takeSign rest
      if ds.isEmpty || !ds.all isDigit then none
      else some (if negative then -(value ds : Int) else value ds)
    else none

/-- Reads a whole text as a decimal fraction. -/
def read? (cs : List Char) : Option Decimal :=
  let (negative, cs) := takeSign cs
  let whole := cs.takeWhile isDigit
  let rest := cs.dropWhile isDigit
  let (fraction, rest) :=
    match rest with
    | '.' :: rest => (rest.takeWhile isDigit, rest.dropWhile isDigit)
    | rest => ([], rest)
  if whole.isEmpty && fraction.isEmpty then none
  else (readExponent? rest).map fun e => ⟨negative, value (whole ++ fraction), e - fraction.length⟩

/-- The number of digits in front of the point, as far as the first digit that is not zero tells. -/
def magnitude (d : Decimal) : Int :=
  (Nat.toDigits 10 d.digits).length + d.exponent

/-- Whether the nearest floating-point number of 64 bits is infinite. -/
def tooLarge (d : Decimal) : Bool :=
  let bound : Nat := Nat.pow 2 1024 - Nat.pow 2 970
  if d.digits = 0 || d.magnitude < 300 then false
  else if 320 < d.magnitude then true
  else
    match d.exponent with
    | .ofNat e => bound ≤ d.digits * Nat.pow 10 e
    | .negSucc e => bound * Nat.pow 10 (e + 1) ≤ d.digits

/-- The nearest floating-point number. -/
def toFloat (d : Decimal) : Float :=
  let size : Float :=
    if d.digits = 0 || d.magnitude < -400 then 0
    else if d.tooLarge then 1 / 0
    else
      match d.exponent with
      | .ofNat e => Float.ofScientific (d.digits * Nat.pow 10 e) false 0
      | .negSucc e => Float.ofScientific d.digits true (e + 1)
  if d.negative then -size else size

end Decimal

end Offside
