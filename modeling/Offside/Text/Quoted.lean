import Offside.Text.Printable

/-!
# Quoted texts and runes

Model of how messages show a text or a character in quotes: the illegal character of a lexical
error, the unknown format of the settings, and the texts of log lines and listings.

A quoted text stands between double quotes, a quoted rune between single quotes. Inside, the quote
mark in use and the backslash are escaped by a backslash, the seven control characters with a letter
of their own by that letter, every other character that is not printable by its code point in
lower-case hexadecimal, and a stray byte by its value.

* `escapeChar` and `escapeRune` are a character and a rune between quote marks of either sort.
* `quote` is a text in quotes. `quoteRune` is a code point in quotes, so a stray byte shows as the
  replacement character there.
-/

namespace Offside.Text

/-- The lower-case hexadecimal numeral of `n` with leading zeros up to `width` digits. -/
def hexField (width n : Nat) : Text :=
  padLeft width 0x30 (hexOfNat n)

/-- The letter that stands for a control character after a backslash. -/
def controlLetter? (c : Char) : Option UInt8 :=
  match c.toNat with
  | 0x07 => some 0x61
  | 0x08 => some 0x62
  | 0x0C => some 0x66
  | 0x0A => some 0x6E
  | 0x0D => some 0x72
  | 0x09 => some 0x74
  | 0x0B => some 0x76
  | _ => none

/-- A character as it stands between quote marks `mark`. -/
def escapeChar (mark c : Char) : Text :=
  if c = mark ∨ c = '\\' then "\\" ++ String.utf8EncodeChar c
  else if isPrintableCode c.toNat then String.utf8EncodeChar c
  else match controlLetter? c with
    | some letter => "\\" ++ [letter]
    | none =>
      if c.toNat < 0x80 then "\\x" ++ hexField 2 c.toNat
      else if c.toNat < 0x10000 then "\\u" ++ hexField 4 c.toNat
      else "\\U" ++ hexField 8 c.toNat

/-- A rune as it stands between quote marks `mark`. -/
def escapeRune (mark : Char) : Rune → Text
  | .char c => escapeChar mark c
  | .stray b => "\\x" ++ hexField 2 b.toNat

/-- The text between double quotes. -/
def quote (t : Text) : Text :=
  "\"" ++ (Rune.decode t).flatMap (escapeRune '"') ++ "\""

/-- The code point of a rune between single quotes; a stray byte shows as U+FFFD. -/
def quoteRune (r : Rune) : Text :=
  "'" ++ escapeChar '\'' (Char.ofNat r.code) ++ "'"

end Offside.Text
