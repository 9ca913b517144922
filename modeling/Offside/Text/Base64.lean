import Offside.Text.Basic

/-!
# Base 64

Bytes written as digits of six bits each, four digits for three bytes. One or two bytes at the end
have two or three digits, and equals signs fill up the four. Line ends do not count.

A YAML scalar with the tag for binary data is written so, and a setting with such a value is the
text of its bytes.
-/

namespace Offside.Text.Base64

/-- The value of a digit. -/
def digit? (b : UInt8) : Option Nat :=
  let n := b.toNat
  if 0x41 ≤ n && n ≤ 0x5A then some (n - 0x41)
  else if 0x61 ≤ n && n ≤ 0x7A then some (n - 0x61 + 26)
  else if 0x30 ≤ n && n ≤ 0x39 then some (n - 0x30 + 52)
  else if n == 0x2B then some 62
  else if n == 0x2F then some 63
  else none

/-- The sign that fills up the last four digits. -/
def filler : UInt8 := 0x3D

/-- The number that four digits make. -/
def number (a b c d : Nat) : Nat :=
  64 * (64 * (64 * a + b) + c) + d

/-- The bytes of a number of 24 bits. -/
def bytes (n : Nat) : Text :=
  [UInt8.ofNat (n / 0x10000), UInt8.ofNat (n / 0x100), UInt8.ofNat n]

/-- The bytes that digits stand for. -/
def ofDigits? : Text → Option Text
  | [] => some []
  | a :: b :: c :: d :: rest => do
    let a ← digit? a
    let b ← digit? b
    if d == filler && rest.isEmpty then
      if c == filler then some ((bytes (number a b 0 0)).take 1)
      else some ((bytes (number a b (← digit? c) 0)).take 2)
    else
      let c ← digit? c
      let d ← digit? d
      return bytes (number a b c d) ++ (← ofDigits? rest)
  | _ => none

/-- The bytes that a text stands for. -/
def decode? (t : Text) : Option Text :=
  ofDigits? (t.filter fun b => b != Text.newline && b != Text.carriageReturn)

end Offside.Text.Base64
