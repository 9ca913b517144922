import Offside.Text.Basic

/-!
# Runes: a text as characters and stray bytes

Model of how the scanner's `peek` and `next` decode a source (specification, 3: columns count
runes).

A text is read from the front. Where a UTF-8 encoded character stands, it is taken whole; a byte
that begins no such character is a *stray* byte, a rune of its own. A stray byte counts as the
replacement character U+FFFD wherever a code point is asked for, but it keeps its byte, so nothing
of the text is lost.

* `Rune.decode` is the whole text as runes. Decoding goes on behind a stray byte at the next byte.
* `Rune.code` is the code point that the scanner sees, `Rune.bytes` what the rune takes up in the
  text and `Rune.width` how many bytes these are.
* `Rune.encode` writes runes out again.
* `Text.chars?` is for readers that refuse a text with a stray byte.

Results:
* `length_bytes`, `width_pos`: a rune takes up as many bytes as its width says, at least one.
* `eq_append_of_leading?`: a leading character stands in the text with all its bytes.
* `encode_decode`: the runes of a text, written out again, are the text.

An encoded U+FFFD and a stray byte have the same code point and are different runes, told apart by
their width.
-/

namespace Offside

/-- A character, or a byte that belongs to no character. -/
inductive Rune where
  | char (c : Char)
  | stray (b : UInt8)
  deriving DecidableEq, Repr

namespace Rune

instance : Inhabited Rune := ⟨.stray 0⟩

/-- The bytes a rune takes up in the text. -/
def bytes : Rune → Text
  | .char c => String.utf8EncodeChar c
  | .stray b => [b]

/-- The number of bytes a rune takes up. -/
def width : Rune → Nat
  | .char c => c.utf8Size
  | .stray _ => 1

/-- The code point of a rune; a stray byte counts as U+FFFD. -/
def code : Rune → Nat
  | .char c => c.toNat
  | .stray _ => 0xFFFD

/-- Whether the rune is the character `c`. -/
def is (r : Rune) (c : Char) : Bool :=
  r == .char c

/-- The line feed. -/
def isNewline (r : Rune) : Bool :=
  r.is '\n'

/-- An ASCII decimal digit. -/
def isDigit (r : Rune) : Bool :=
  0x30 ≤ r.code && r.code ≤ 0x39

theorem length_bytes (r : Rune) : r.bytes.length = r.width := by
  cases r with
  | char c => exact String.length_utf8EncodeChar c
  | stray b => rfl

theorem width_pos (r : Rune) : 0 < r.width := by
  cases r with
  | char c => exact Char.utf8Size_pos c
  | stray b => exact Nat.one_pos

/-- The character that the text begins with, if it begins with a whole encoded character. -/
def leading? (t : Text) : Option Char :=
  (t.take 4).toByteArray.utf8DecodeChar? 0

/-- The runes of a text in order. -/
def decode : Text → List Rune
  | [] => []
  | b :: rest =>
    match leading? (b :: rest) with
    | some c => .char c :: decode (rest.drop (c.utf8Size - 1))
    | none => .stray b :: decode rest
termination_by t => t.length
decreasing_by
  · simp only [List.length_drop, List.length_cons]; omega
  · simp

/-- The text that a list of runes spells. -/
def encode (rs : List Rune) : Text :=
  rs.flatMap bytes

@[simp] theorem encode_nil : encode [] = [] := rfl

@[simp] theorem encode_cons (r : Rune) (rs : List Rune) :
    encode (r :: rs) = r.bytes ++ encode rs := rfl

theorem encode_append (rs ss : List Rune) : encode (rs ++ ss) = encode rs ++ encode ss := by
  simp [encode]

/-- A leading character stands in the text with all its bytes. -/
theorem eq_append_of_leading? {t : Text} {c : Char} (h : leading? t = some c) :
    t = String.utf8EncodeChar c ++ t.drop c.utf8Size := by
  obtain ⟨l, hl⟩ := ByteArray.exists_of_utf8DecodeChar?_eq_some h
  have hd : t.take 4 = String.utf8EncodeChar c ++ l.data.toList := by
    have := congrArg (fun b : ByteArray => b.data.toList) hl
    simpa using this
  have ht : t = String.utf8EncodeChar c ++ (l.data.toList ++ t.drop 4) := by
    rw [← List.append_assoc, ← hd, List.take_append_drop]
  have hlen : (String.utf8EncodeChar c).length = c.utf8Size := String.length_utf8EncodeChar c
  have hdrop : t.drop c.utf8Size = l.data.toList ++ t.drop 4 := by
    conv => lhs; rw [ht, ← hlen, List.drop_left]
  rw [hdrop]
  exact ht

/-- The runes of a text, written out again, are the text. -/
theorem encode_decode (t : Text) : encode (decode t) = t := by
  fun_induction decode t with
  | case1 => rfl
  | case2 b rest c h ih =>
    have hc := eq_append_of_leading? h
    have hpos : 0 < c.utf8Size := Char.utf8Size_pos c
    have hdrop : (b :: rest).drop c.utf8Size = rest.drop (c.utf8Size - 1) := by
      obtain ⟨n, hn⟩ : ∃ n, c.utf8Size = n + 1 := ⟨c.utf8Size - 1, by omega⟩
      simp [hn]
    rw [hdrop] at hc
    simp only [encode_cons, bytes, ih]
    exact hc.symm
  | case3 b rest h ih => simp [bytes, ih]

end Rune

namespace Text

/-- The characters of a text that has no stray bytes. -/
def chars? (t : Text) : Option (List Char) :=
  (Rune.decode t).mapM fun
    | .char c => some c
    | .stray _ => none

/-- The text that some characters spell. -/
def ofChars (cs : List Char) : Text :=
  cs.flatMap String.utf8EncodeChar

end Text

end Offside
