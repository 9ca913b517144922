import Offside.Proofs.Text.Rune
import Offside.Text.Space

/-!
# Trimmed texts

Lemmas about `Text.trim` and `Text.endsWith`, the two tests that a session does on the bytes of a
line, and about texts that are cut at an ASCII byte.

An ASCII byte is a character of its own wherever it stands in a text, so it never is a stray byte
and never belongs to another character. With this the runes of a text are known from what is left of
it when it is trimmed, and a text of whole characters can be taken apart at its line feeds.

Results:
* `Rune.le_of_stray`: stray bytes are no ASCII bytes.
* `Rune.decode_append_ascii`, `Rune.decode_append_newline`: an ASCII byte parts a text, in front of
  it always, and a line feed on both sides.
* `Text.decode_of_trim`: the runes of a text that is an ASCII word with white space around it.
* `Text.trim_endsWith_iff`: a trimmed text ends with an ASCII character if and only if its last rune
  that is no space character is this character.
* `Rune.split_newline`: a text of characters that is put together at a line feed consists of texts
  of characters.
-/

namespace Offside

namespace Rune

/-! ## ASCII bytes -/

/-- An ASCII byte of an encoded character is all of it. -/
theorem utf8EncodeChar_of_mem {c : Char} {b : UInt8} (hb : b ∈ String.utf8EncodeChar c)
    (h : b < 0x80) : String.utf8EncodeChar c = [b] := by
  rw [UInt8.lt_iff_toNat_lt] at h
  unfold String.utf8EncodeChar at hb ⊢
  dsimp only at hb ⊢
  split at hb
  · next hv =>
    rw [if_pos hv, List.mem_singleton.mp hb]
  -- all bytes of a longer encoding are beyond ASCII
  · exfalso
    split at hb
    · simp only [List.mem_cons, List.not_mem_nil, or_false] at hb
      rcases hb with rfl | rfl <;> simp at h <;> omega
    · split at hb
      · simp only [List.mem_cons, List.not_mem_nil, or_false] at hb
        rcases hb with rfl | rfl | rfl <;> simp at h <;> omega
      · simp only [List.mem_cons, List.not_mem_nil, or_false] at hb
        rcases hb with rfl | rfl | rfl | rfl <;> simp at h <;> omega

theorem utf8EncodeChar_injective {c d : Char}
    (h : String.utf8EncodeChar c = String.utf8EncodeChar d) : c = d := by
  have hc := leading?_append c []
  rw [h, leading?_append] at hc
  exact (Option.some.inj hc).symm

/-- **Stray bytes are no ASCII bytes.** -/
theorem le_of_stray {t : Text} {b : UInt8} (h : .stray b ∈ decode t) : 0x80 ≤ b := by
  fun_induction decode t with
  | case1 => exact absurd h List.not_mem_nil
  | case2 a rest c hc ih =>
    rcases List.mem_cons.mp h with h | h
    · cases h
    · exact ih h
  | case3 a rest hnone ih =>
    rcases List.mem_cons.mp h with h | h
    · obtain rfl := Rune.stray.inj h
      refine UInt8.not_lt.mp fun hlt => ?_
      rw [UInt8.lt_iff_toNat_lt] at hlt
      have hb : [b] = String.utf8EncodeChar (Char.ofNat b.toNat) := by
        have hvalid : b.toNat.isValidChar := Or.inl (by simp at hlt; omega)
        have hval : (Char.ofNat b.toNat).val.toNat = b.toNat := by
          rw [Char.ofNat, dif_pos hvalid]
          rfl
        unfold String.utf8EncodeChar
        dsimp only
        rw [hval, if_pos (by simp at hlt; omega), UInt8.ofNat_toNat]
      have hsome := leading?_append (Char.ofNat b.toNat) rest
      rw [← hb, List.singleton_append, hnone] at hsome
      cases hsome
    · exact ih h

/-- **An ASCII byte parts a text**: what stands in front of it is read on its own. -/
theorem decode_append_ascii (t : Text) {b : UInt8} (hb : b < 0x80) (u : Text) :
    decode (t ++ b :: u) = decode t ++ decode (b :: u) := by
  fun_induction decode t with
  | case1 => rfl
  | case2 a rest c hc ih =>
    have ht := eq_append_of_leading? hc
    have hdrop : (a :: rest).drop c.utf8Size = rest.drop (c.utf8Size - 1) := by
      obtain ⟨n, hn⟩ : ∃ n, c.utf8Size = n + 1 := ⟨c.utf8Size - 1, by have := c.utf8Size_pos; omega⟩
      simp [hn]
    rw [hdrop] at ht
    rw [ht, List.append_assoc, decode_char_append, ih]
    rfl
  | case3 a rest hnone ih =>
    have hmore : leading? (a :: (rest ++ b :: u)) = none := by
      rw [Option.eq_none_iff_forall_ne_some]
      intro c hc
      have hsplit : (a :: rest) ++ b :: u = _ := eq_append_of_leading? hc
      -- the character ends in front of the ASCII byte, or this is one of its bytes
      rcases List.append_eq_append_iff.mp hsplit with ⟨w, hw, hu⟩ | ⟨w, hw, -⟩
      · cases w with
        | nil =>
          rw [List.append_nil] at hw
          have hlead := leading?_append c []
          rw [List.append_nil, hw, hnone] at hlead
          cases hlead
        | cons x w =>
          obtain ⟨rfl, -⟩ := List.cons.inj hu
          have hmem : b ∈ String.utf8EncodeChar c := by simp [hw]
          rw [utf8EncodeChar_of_mem hmem hb] at hw
          exact absurd (congrArg List.length hw) (by simp)
      · have hlead := leading?_append c w
        rw [← hw, hnone] at hlead
        cases hlead
    rw [List.cons_append, decode, hmore, ih]
    rfl

/-- **A line feed parts a text**: what stands in front of it and behind it is read on its own. -/
theorem decode_append_newline (t u : Text) :
    decode (t ++ Text.newline :: u) = decode t ++ .char '\n' :: decode u := by
  rw [decode_append_ascii t (by decide)]
  exact congrArg (decode t ++ ·) (decode_char_append '\n' u)

/-! ## Texts of whole characters -/

/-- Runes without stray bytes are characters. -/
theorem chars_of_not_stray {rs : List Rune} (h : ∀ b, .stray b ∉ rs) :
    ∃ cs : List Char, rs = cs.map .char := by
  induction rs with
  | nil => exact ⟨[], rfl⟩
  | cons r rs ih =>
    obtain ⟨cs, rfl⟩ := ih fun b hb => h b (List.mem_cons_of_mem r hb)
    cases r with
    | char c => exact ⟨c :: cs, rfl⟩
    | stray b => exact absurd List.mem_cons_self (h b)

/-- Space characters are no stray bytes. -/
theorem chars_of_spaces {rs : List Rune} (h : ∀ r ∈ rs, r.isSpace = true) :
    ∃ cs : List Char, rs = cs.map .char :=
  chars_of_not_stray fun b hb => absurd (h _ hb) (show ¬ Text.isSpaceCode 0xFFFD = true by decide)

/-- **A text of characters that is put together at a line feed** consists of texts of characters. -/
theorem split_newline {cs : List Char} {a b : Text}
    (h : Text.ofChars cs = a ++ Text.newline :: b) :
    ∃ before behind, cs = before ++ '\n' :: behind ∧ a = Text.ofChars before ∧
      b = Text.ofChars behind := by
  induction cs generalizing a with
  | nil => exact absurd h (by simp [Text.ofChars])
  | cons c cs ih =>
    rw [Text.ofChars, List.flatMap_cons] at h
    -- the line feed stands behind the first character, or it is this character
    have hcases : (∃ a', a = String.utf8EncodeChar c ++ a' ∧
        Text.ofChars cs = a' ++ Text.newline :: b) ∨ Text.newline ∈ String.utf8EncodeChar c := by
      rcases List.append_eq_append_iff.mp h with ⟨a', ha, hcs⟩ | ⟨more, hc, hb⟩
      · exact Or.inl ⟨a', ha, hcs⟩
      · cases more with
        | nil => exact Or.inl ⟨[], by simpa using hc.symm, hb.symm⟩
        | cons x more =>
          obtain ⟨rfl, -⟩ := List.cons.inj hb
          exact Or.inr (hc ▸ by simp)
    rcases hcases with ⟨a', rfl, hcs⟩ | hmem
    · obtain ⟨before, behind, rfl, rfl, rfl⟩ := ih hcs
      exact ⟨c :: before, behind, rfl, rfl, rfl⟩
    · have hc : String.utf8EncodeChar c = [Text.newline] := utf8EncodeChar_of_mem hmem (by decide)
      obtain rfl : c = '\n' := utf8EncodeChar_injective hc
      rw [hc, List.singleton_append] at h
      cases a with
      | nil => exact ⟨[], cs, rfl, rfl, (List.cons.inj h).2.symm⟩
      | cons x a =>
        obtain ⟨rfl, hcs⟩ := List.cons.inj h
        obtain ⟨before, behind, rfl, rfl, rfl⟩ := ih hcs
        exact ⟨'\n' :: before, behind, rfl,
          by rw [Text.ofChars, Text.ofChars, List.flatMap_cons, hc]; rfl, rfl⟩

theorem ofChars_injective {cs ds : List Char} (h : Text.ofChars cs = Text.ofChars ds) :
    cs = ds := by
  have hd := congrArg decode h
  rw [decode_ofChars, decode_ofChars] at hd
  exact (List.map_inj_right fun _ _ => Rune.char.inj).mp hd

end Rune

namespace Text

/-- What is cut off and what is left when a text is trimmed. -/
theorem exists_trim (t : Text) : ∃ (lead trail : List Char) (core : List Rune),
    Rune.decode t = lead.map .char ++ (core ++ trail.map .char) ∧ t.trim = Rune.encode core ∧
      (∀ c ∈ lead, Rune.isSpace (.char c) = true) ∧ ∀ c ∈ trail, Rune.isSpace (.char c) = true := by
  have hspaces {rs : List Rune} {cs : List Char} (hcs : rs.takeWhile Rune.isSpace = cs.map .char) :
      ∀ c ∈ cs, Rune.isSpace (.char c) = true := fun c hc =>
    List.all_eq_true.mp List.all_takeWhile (Rune.char c) (hcs ▸ List.mem_map_of_mem hc)
  have hchars (rs : List Rune) : ∃ cs : List Char, rs.takeWhile Rune.isSpace = cs.map .char :=
    Rune.chars_of_spaces fun r hr => List.all_eq_true.mp List.all_takeWhile r hr
  obtain ⟨lead, hlead⟩ := hchars (Rune.decode t)
  generalize hinner : (Rune.decode t).dropWhile Rune.isSpace = inner
  obtain ⟨trail, htrail⟩ := hchars inner.reverse
  refine ⟨lead, trail.reverse, (inner.reverse.dropWhile Rune.isSpace).reverse, ?_, ?_,
    hspaces hlead,
    fun c hc => hspaces htrail c (List.mem_reverse.mp hc)⟩
  · rw [List.map_reverse, ← htrail, ← List.reverse_append, List.takeWhile_append_dropWhile,
      List.reverse_reverse, ← hlead, ← hinner, List.takeWhile_append_dropWhile]
  · rw [trim, hinner]

/-- **The runes of a text that is an ASCII word with white space around it.** -/
theorem decode_of_trim {t : Text} {word : List Char} (h : t.trim = ofChars word)
    (hascii : ∀ b ∈ ofChars word, b < 0x80) :
    ∃ lead trail : List Char, Rune.decode t = (lead ++ (word ++ trail)).map .char ∧
      (∀ c ∈ lead, Rune.isSpace (.char c) = true) ∧ ∀ c ∈ trail, Rune.isSpace (.char c) = true := by
  obtain ⟨lead, trail, core, hdecode, htrim, hlead, htrail⟩ := t.exists_trim
  rw [htrim] at h
  -- what is left holds no stray bytes, as these are no ASCII bytes
  obtain ⟨cs, rfl⟩ : ∃ cs : List Char, core = cs.map .char := by
    refine Rune.chars_of_not_stray fun b hb => ?_
    have hge : 0x80 ≤ b := Rune.le_of_stray (t := t) (by
      rw [hdecode]
      exact List.mem_append_right _ (List.mem_append_left _ hb))
    have hmem : b ∈ ofChars word := by
      rw [← h]
      exact List.mem_flatMap.mpr ⟨_, hb, List.mem_singleton_self b⟩
    exact absurd hge (UInt8.not_le.mpr (hascii b hmem))
  rw [Rune.encode_chars] at h
  obtain rfl := Rune.ofChars_injective h
  exact ⟨lead, trail, by rw [hdecode]; simp, hlead, htrail⟩

/-- The last character of a text of characters that is not white space. -/
theorem chars_of_trim_endsWith {cs : List Char} {c : Char} {b : UInt8}
    (hc : String.utf8EncodeChar c = [b]) (hb : b < 0x80)
    (h : (ofChars cs).trim.endsWith [b] = true) :
    ∃ front trail, cs = front ++ c :: trail ∧ ∀ c ∈ trail, Rune.isSpace (.char c) = true := by
  obtain ⟨lead, trail, core, hdecode, htrim, -, htrail⟩ := (ofChars cs).exists_trim
  rw [Rune.decode_ofChars] at hdecode
  obtain ⟨lead', rest, rfl, -, hrest⟩ := List.map_eq_append_iff.mp hdecode
  obtain ⟨inner, trail', rfl, rfl, htrail'⟩ := List.map_eq_append_iff.mp hrest
  obtain rfl : trail' = trail := (List.map_inj_right fun _ _ => Rune.char.inj).mp htrail'
  rw [htrim, Rune.encode_chars, endsWith, List.isSuffixOf_iff_suffix] at h
  obtain ⟨front, hfront⟩ := h
  -- the last byte belongs to the last character, and it is all of it
  rcases List.eq_nil_or_concat inner with rfl | ⟨inner, d, rfl⟩
  · exact absurd hfront (by simp [ofChars])
  · have hd : String.utf8EncodeChar d = [b] := by
      refine Rune.utf8EncodeChar_of_mem ?_ hb
      have hlast := congrArg List.getLast? hfront
      rw [List.getLast?_concat, List.concat_eq_append, ofChars, List.flatMap_append,
        List.flatMap_cons,
        List.flatMap_nil, List.append_nil, List.getLast?_append,
        List.getLast?_eq_some_getLast String.utf8EncodeChar_ne_nil, Option.some_or] at hlast
      exact Option.some.inj hlast ▸ List.getLast_mem _
    obtain rfl : d = c := Rune.utf8EncodeChar_injective (hd.trans hc.symm)
    exact ⟨lead' ++ inner, trail', by simp, htrail⟩

section Ends

variable {t : Text} {front back : List Rune} {r : Rune}

/-- A trimmed text ends with the last rune that is no space character. -/
theorem trim_eq (h : Rune.decode t = front ++ r :: back) (hr : r.isSpace = false)
    (hb : ∀ a ∈ back, a.isSpace = true) :
    t.trim = Rune.encode (front.dropWhile Rune.isSpace) ++ r.bytes := by
  have hinner : (Rune.decode t).dropWhile Rune.isSpace =
      front.dropWhile Rune.isSpace ++ r :: back := by
    rw [h, List.dropWhile_append]
    split
    · next hnil =>
      rw [List.isEmpty_iff.mp hnil, List.dropWhile_cons_of_neg (by simp [hr])]
      rfl
    · rfl
  have hcore :
      ((front.dropWhile Rune.isSpace ++ r :: back).reverse.dropWhile Rune.isSpace).reverse =
      front.dropWhile Rune.isSpace ++ [r] := by
    rw [List.reverse_append, List.reverse_cons, List.append_assoc,
      List.dropWhile_append_of_pos fun a ha => hb a (List.mem_reverse.mp ha), List.singleton_append,
      List.dropWhile_cons_of_neg (by simp [hr]), List.reverse_cons, List.reverse_reverse]
  rw [trim, hinner, hcore, Rune.encode_append]
  simp

/-- **How a trimmed text ends**: with an ASCII character if and only if this is its last rune. -/
theorem trim_endsWith_iff {c : Char} {b : UInt8} (hc : String.utf8EncodeChar c = [b])
    (hlt : b < 0x80)
    (h : Rune.decode t = front ++ r :: back) (hr : r.isSpace = false)
    (hb : ∀ a ∈ back, a.isSpace = true) : t.trim.endsWith [b] = true ↔ r = .char c := by
  rw [trim_eq h hr hb, endsWith, List.isSuffixOf_iff_suffix]
  constructor
  · rintro ⟨before, hbytes⟩
    have hlast := congrArg List.getLast? hbytes
    have hne : r.bytes ≠ [] := List.ne_nil_of_length_pos (r.length_bytes ▸ r.width_pos)
    rw [List.getLast?_concat, List.getLast?_append, List.getLast?_eq_some_getLast hne,
      Option.some_or] at hlast
    have hmem : b ∈ r.bytes := Option.some.inj hlast ▸ List.getLast_mem hne
    cases r with
    | char d =>
      have hd : String.utf8EncodeChar d = [b] := Rune.utf8EncodeChar_of_mem hmem hlt
      rw [Rune.utf8EncodeChar_injective (hd.trans hc.symm)]
    | stray a =>
      obtain rfl := List.mem_singleton.mp hmem
      have hge := Rune.le_of_stray (t := t) (b := b) (by rw [h]; simp)
      exact absurd hge (UInt8.not_le.mpr hlt)
  · rintro rfl
    exact ⟨_, congrArg _ hc.symm⟩

end Ends

end Text

end Offside
