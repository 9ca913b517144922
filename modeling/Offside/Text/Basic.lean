/-!
# Texts as byte strings

Sources, names, messages and file contents are sequences of bytes, which need not be valid UTF-8. A
`Text` is such a sequence. A string literal is read as the text of its UTF-8 bytes.

The module holds the plain operations on texts: numerals, cutting, joining and padding. Cutting and
joining are those of lists, at the line feed and with a separator.

* `Text.lines` cuts a text at its line feeds, as the snippet of a fault does: a text that ends in a
  line feed has an empty last line, and the empty text has one line.
* `Text.dropEnd` is the cutting of bytes at the right end only.
* `Text.digitsValue` is the value of decimal digits without regard to any bound.

Reading a text as characters is the matter of `Text/Rune`.
-/

namespace Offside

/-- A byte string. -/
abbrev Text := List UInt8

namespace Text

/-- The UTF-8 bytes of a string. -/
def ofString (s : String) : Text :=
  s.toUTF8.data.toList

instance : Coe String Text := ⟨ofString⟩

/-- Line feed, the byte that ends a line. -/
def newline : UInt8 := 0x0A

/-- Carriage return, which may stand before a line feed. -/
def carriageReturn : UInt8 := 0x0D

/-- One blank. -/
def blank : UInt8 := 0x20

/-! ## Numerals -/

/-- The decimal numeral of a natural number. -/
def ofNat (n : Nat) : Text :=
  (Nat.toDigits 10 n).map fun c => c.val.toUInt8

/-- The decimal numeral of an integer, with a minus sign in front of a negative one. -/
def ofInt : Int → Text
  | .ofNat n => ofNat n
  | .negSucc n => 0x2D :: ofNat (n + 1)

/-- The decimal numeral of a signed word. -/
def ofInt64 (n : Int64) : Text :=
  ofInt n.toInt

/-- The lower-case hexadecimal numeral of a natural number. -/
def hexOfNat (n : Nat) : Text :=
  (Nat.toDigits 16 n).map fun c => c.val.toUInt8

/-- The upper-case form of an ASCII letter; other bytes are unchanged. -/
def upperByte (b : UInt8) : UInt8 :=
  if 0x61 ≤ b && b ≤ 0x7A then b - 0x20 else b

/-- The lower-case form of an ASCII letter; other bytes are unchanged. -/
def lowerByte (b : UInt8) : UInt8 :=
  if 0x41 ≤ b && b ≤ 0x5A then b + 0x20 else b

/-- The text with its ASCII letters in upper case. -/
def upper (t : Text) : Text :=
  t.map upperByte

/-- The text with its ASCII letters in lower case. -/
def lower (t : Text) : Text :=
  t.map lowerByte

/-- An ASCII decimal digit. -/
def isDigitByte (b : UInt8) : Bool :=
  0x30 ≤ b && b ≤ 0x39

/-- The value of a digit string in base ten. -/
def digitsValue (ds : Text) : Nat :=
  ds.foldl (fun n d => 10 * n + (d.toNat - 0x30)) 0

/-! ## Padding -/

/-- The text with copies of `fill` in front, up to `width` bytes. -/
def padLeft (width : Nat) (fill : UInt8) (t : Text) : Text :=
  List.replicate (width - t.length) fill ++ t

/-- The text with blanks behind it, up to `width` bytes. -/
def padRight (width : Nat) (t : Text) : Text :=
  t ++ List.replicate (width - t.length) blank

/-! ## Cutting and joining -/

/-- The lines of a text: the pieces between its line feeds. -/
def lines (t : Text) : List Text :=
  List.splitOn newline t

/-- The pieces one after another with `sep` between neighbours. -/
def join (sep : Text) (parts : List Text) : Text :=
  List.intercalate sep parts

/-- The text without the bytes at its end that satisfy `p`. -/
def dropEnd (p : UInt8 → Bool) (t : Text) : Text :=
  (t.reverse.dropWhile p).reverse

/-- Whether `t` ends in `ending`. -/
def endsWith (t ending : Text) : Bool :=
  ending.isSuffixOf t

/-- The text with every `old` byte replaced by `new`. -/
def replaceByte (old new : UInt8) (t : Text) : Text :=
  t.map fun b => if b = old then new else b

end Text

end Offside
