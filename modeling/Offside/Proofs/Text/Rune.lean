import Offside.Text.Rune

/-!
# Characters are found again

Lemmas about `Rune.decode` in the other direction than `Rune.encode_decode`: what was encoded
character by character is read as these characters, whatever stands behind it. So a source that is
put together out of characters, such as a rendered program, has these runes.

Results:
* `decode_char_append`: an encoded character is read as this character.
* `decode_ofChars_append`: a text that begins with some characters is read as these characters.
* `decode_ofChars`: a text of characters alone is read as these characters.

Out of scope: stray bytes. Two of them can make up a character when they come to stand next to each
other; what can be said there is in `Proofs/Text/Boundary` and `Proofs/Text/Space`.
-/

namespace Offside

namespace Rune

theorem leading?_append (c : Char) (t : Text) :
    leading? (String.utf8EncodeChar c ++ t) = some c := by
  have hsize : (String.utf8EncodeChar c).length ≤ 4 := by
    rw [String.length_utf8EncodeChar]
    exact Char.utf8Size_le_four c
  unfold leading?
  rw [List.take_append, List.take_of_length_le hsize, List.toByteArray_append]
  exact ByteArray.utf8DecodeChar?_utf8EncodeChar_append

/-- An encoded character is read as this character. -/
theorem decode_char_append (c : Char) (t : Text) :
    decode (String.utf8EncodeChar c ++ t) = .char c :: decode t := by
  have hlen : (String.utf8EncodeChar c).length = c.utf8Size := String.length_utf8EncodeChar c
  have hpos := Char.utf8Size_pos c
  have hlead := leading?_append c t
  cases hw : String.utf8EncodeChar c with
  | nil => rw [hw] at hlen; simp at hlen; omega
  | cons b bs =>
    rw [hw] at hlead hlen
    rw [List.cons_append] at hlead ⊢
    rw [decode, hlead]
    have hdrop : (bs ++ t).drop (c.utf8Size - 1) = t := by
      rw [← hlen, List.length_cons, Nat.add_sub_cancel, List.drop_left]
    simp only [hdrop]

theorem decode_nil : decode [] = [] := by rw [decode]

/-- **A text that begins with some characters is read as these characters.** -/
theorem decode_ofChars_append (cs : List Char) (t : Text) :
    decode (Text.ofChars cs ++ t) = cs.map .char ++ decode t := by
  induction cs with
  | nil => rfl
  | cons c cs ih =>
    rw [Text.ofChars, List.flatMap_cons, List.append_assoc, decode_char_append]
    exact congrArg (Rune.char c :: ·) ih

theorem decode_ofChars (cs : List Char) : decode (Text.ofChars cs) = cs.map .char := by
  have h := decode_ofChars_append cs []
  rwa [List.append_nil, decode_nil, List.append_nil] at h

theorem ofString_eq (s : String) : Text.ofString s = Text.ofChars s.toList := by
  unfold Text.ofString Text.ofChars
  rw [String.toUTF8_eq_toByteArray, ← String.utf8Encode_toList]
  simp [List.utf8Encode]

theorem encode_chars (cs : List Char) : encode (cs.map .char) = Text.ofChars cs := by
  rw [encode, List.flatMap_map]
  rfl

end Rune

end Offside
