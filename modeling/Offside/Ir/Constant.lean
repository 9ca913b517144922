import Offside.Text.Basic

/-!
# Integer constants

Model of how the text of a module shows an integer constant.

A constant is written in decimal, unless its hexadecimal numeral is markedly plainer. How plain a
numeral is, is measured by its *variety*: the share of different digits among its digits. A large
constant is written in hexadecimal when few of its hexadecimal digits differ and the variety of its
decimal numeral is greater by a fifth.

* `variety` is the share, and `plainDigits` the number of different digits that a plain hexadecimal
  numeral of some length may have.
* `prefersHex` is the decision. It is made with floating-point numbers, as rounding decides some
  cases: two fifths and a fifth come to a little more than three fifths.
* `integer` and `typedInteger` write the constant without and with its type. A negative constant is
  always decimal.

Out of scope: constants of other widths than 64 bits.
-/

namespace Offside.Ir

/-- The share of different digits among the digits of a numeral, of which at most `cap` count. -/
def variety (digits : List Char) (cap : Nat) : Float :=
  Float.ofNat digits.eraseDups.length / Float.ofNat (min digits.length cap)

/-- How many different digits a plain hexadecimal numeral of a given length may have. -/
def plainDigits (length : Nat) : Nat :=
  if length ≤ 6 then 2 else if length ≤ 10 then 3 else 4

/-- Whether the hexadecimal numeral of a number is markedly plainer than the decimal one. -/
def prefersHex (n : Nat) : Bool :=
  let hex := Nat.toDigits 16 n
  let hexVariety := variety hex 16
  let decVariety := variety (Nat.toDigits 10 n) 10
  let bound := Float.ofNat (plainDigits hex.length) / Float.ofNat hex.length
  0x1000 ≤ n && decide (hexVariety ≤ bound + 0.01) && decide (hexVariety + 0.2 ≤ decVariety)

/-- The text of an integer constant. -/
def integer (value : Int64) : Text :=
  match value.toInt with
  | .ofNat n => if prefersHex n then "u0x" ++ Text.upper (Text.hexOfNat n) else Text.ofNat n
  | .negSucc n => Text.ofInt (.negSucc n)

/-- An integer constant with its type. -/
def typedInteger (value : Int64) : Text :=
  "i64 " ++ integer value

end Offside.Ir
