/-!
# Numerals

Digits in a base up to sixteen, the characters that such digits number, and the range of signed
words. The readers of settings and the scanner share these; the scanner's `numberState` needs the
greatest word, the readers need the rest.

* `Numeral.digit?` is the value of a digit in either case, and `Numeral.inBase?` the value of
  digits, of which there has to be at least one.
* `Numeral.char?` is the character that an escape by its code point means.
* `Word.least`, `Word.greatest` and `Word.count` are the bounds of the signed words of 64 bits and
  their number.

Results:
* `Word.ofInt?_eq_some_iff`: a number is a word if and only if it lies in the range of words.
-/

namespace Offside

namespace Numeral

/-- The value of a hexadecimal digit. -/
def digit? (c : Char) : Option Nat :=
  if '0' ≤ c && c ≤ '9' then some (c.toNat - '0'.toNat)
  else if 'a' ≤ c && c ≤ 'f' then some (c.toNat - 'a'.toNat + 10)
  else if 'A' ≤ c && c ≤ 'F' then some (c.toNat - 'A'.toNat + 10)
  else none

/-- The value of digits in a base, if they are digits of it and there is at least one. -/
def inBase? (base : Nat) (ds : List Char) : Option Nat := do
  if ds.isEmpty then none
  else
    let values ← ds.mapM digit?
    if values.all (· < base) then some (values.foldl (fun n d => base * n + d) 0) else none

/-- The character whose code point hexadecimal digits give. -/
def char? (ds : List Char) : Option Char := do
  let n ← inBase? 16 ds
  if h : n.isValidChar then some (Char.ofNatAux n h) else none

end Numeral

namespace Word

/-- The least signed word. -/
def least : Int := -9223372036854775808

/-- The greatest signed word. -/
def greatest : Nat := 9223372036854775807

/-- The number of words. -/
def count : Nat := 18446744073709551616

/-- The signed word with a value. -/
def ofInt? (n : Int) : Option Int64 :=
  if least ≤ n ∧ n ≤ greatest then some (Int64.ofInt n) else none

theorem ofInt?_eq_some_iff {n : Int} {w : Int64} : ofInt? n = some w ↔ w.toInt = n := by
  unfold ofInt? least greatest
  constructor
  · intro h
    split at h
    · next hn =>
      obtain rfl := Option.some.inj h
      exact Int64.toInt_ofInt_of_le (by omega) (by omega)
    · cases h
  · intro h
    have lower : -9223372036854775808 ≤ w.toInt := w.le_toInt
    have upper : w.toInt < 9223372036854775808 := w.toInt_lt
    rw [if_pos (by omega)]
    subst h
    simp

end Word

end Offside
