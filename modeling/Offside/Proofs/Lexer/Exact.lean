import Offside.Proofs.Lexer.Calls
import Offside.Proofs.Text.Boundary

/-!
# Positions are exact

About the positions that the scanner gives to tokens and errors (specification, 3), and that its
calls deliver in order.

A position of a source is *exact* if no rune goes across it, and if its line and its column say how
many line feeds stand in front of it and how many runes behind the last of them. So the offset alone
determines an exact position. The results of a lexer, the tokens and the end of the source or a
fault, all have exact positions, and these grow along the stream (`Sited`).

* `Position.IsExact` is stated on the bytes of the source in front of the offset, without reference
  to how a lexer gets there.
* `Result` is a token or a fault. `Result.Precedes` says that offsets do not decrease, and grow
  behind a token that is no marker; `Announced` says that behind every marker there is a result at
  the same place.

Results:
* `Position.isExact_afterAll`: the position behind some of the runes of a source is exact. A lexer
  only ever stands at such positions.
* `Course.sited`: the results of a course have exact positions in order.
* `trace_ofSource`: what a lexer of a source answers with is what a course finds.
* `delivered_positions`: the positions of all that is delivered for a source, whatever the lexer is
  asked for: exact, in order, markers announced, the end of the source at its length.
-/

namespace Offside

open Lexer

/-- **An exact position of a source.** -/
structure Position.IsExact (src : Text) (p : Position) : Prop where
  nonneg : 0 ≤ p.offset
  le_length : p.offset ≤ src.length
  /-- No rune goes across the position. -/
  boundary : Rune.decode src =
    Rune.decode (src.take p.offset.toNat) ++ Rune.decode (src.drop p.offset.toNat)
  line_eq : p.line = 1 + (src.take p.offset.toNat).count Text.newline
  column_eq : p.column = 1 + (Rune.decode (Text.lastLine (src.take p.offset.toNat))).length

namespace Position

theorem offset_le_afterAll (rs : List Rune) (p : Position) :
    p.offset ≤ (p.afterAll rs).offset := by
  rw [afterAll_offset]
  exact Int.le_add_of_nonneg_right (Int.natCast_nonneg _)

/-- Every rune takes up a byte. -/
theorem offset_lt_afterAll {rs : List Rune} (h : rs ≠ []) (p : Position) :
    p.offset < (p.afterAll rs).offset := by
  cases rs with
  | nil => exact absurd rfl h
  | cons r rs =>
    refine lt_of_lt_of_le ?_ (offset_le_afterAll rs (p.after r))
    rw [after_offset]
    exact Int.lt_add_of_pos_right _ (Int.natCast_pos.mpr r.width_pos)

/-- The column counts the runes of the last line. -/
theorem afterAll_column (rs : List Rune) :
    (start.afterAll rs).column = 1 + (Rune.lastLine rs).length := by
  induction rs using List.reverseRecOn with
  | nil => rfl
  | append_singleton rs r ih =>
    rw [afterAll_append, Rune.lastLine, afterAll_cons, afterAll_nil, after]
    cases hr : r.isNewline with
    | true =>
      rw [if_pos rfl, List.rtakeWhile_concat_neg _ _ _ (by simp [hr])]
      rfl
    | false =>
      rw [if_neg (by simp), List.rtakeWhile_concat_pos _ _ _ (by simp [hr]), List.length_append, ih,
        Rune.lastLine, List.length_singleton, Nat.cast_add, Nat.cast_one, Int.add_assoc]

/-- **The position behind some of the runes of a source is exact.** -/
theorem isExact_afterAll {src : Text} {front back : List Rune}
    (h : Rune.decode src = front ++ back) : (start.afterAll front).IsExact src := by
  obtain ⟨hfront, hback⟩ := Rune.decode_encode_of_append h
  obtain ⟨htake, hdrop⟩ := Rune.take_drop_encode h
  have hoffset : (start.afterAll front).offset = (Rune.encode front).length := by
    rw [afterAll_offset, start, Int.zero_add]
  have hnat : (start.afterAll front).offset.toNat = (Rune.encode front).length := by
    rw [hoffset, Int.toNat_natCast]
  constructor
  · rw [hoffset]
    exact Int.natCast_nonneg _
  · have hlen := congrArg List.length htake
    rw [List.length_take] at hlen
    rw [hoffset]
    omega
  · rw [hnat, htake, hdrop, hfront, hback, h]
  · rw [hnat, htake, Text.count_newline, hfront, afterAll_line]
    rfl
  · rw [hnat, htake, Rune.decode_lastLine, hfront, afterAll_column]

end Position

namespace Lexer

/-! ## Results -/

/-- What a lexer answers with: a token, or a fault. -/
abbrev Result := Except LexicalError Token

namespace Result

/-- Where a token or a fault lies. -/
def pos : Result → Position
  | .ok t => t.pos
  | .error e => e.pos

/-- Whether it is a marker. -/
def isMarker : Result → Bool
  | .ok t => t.kind.isMarker
  | .error _ => false

/-- A result in front of another one. Behind a token that is no marker, offsets are greater. -/
def Precedes (a b : Result) : Prop :=
  a.pos.offset ≤ b.pos.offset ∧ (a.isMarker = false → a.pos.offset < b.pos.offset)

/-- Behind every marker there is a result at the same position. -/
def Announced : List Result → Prop
  | [] => True
  | a :: rs => (a.isMarker = true → ∃ b ∈ rs.head?, pos b = a.pos) ∧ Announced rs

end Result

/-- What is found for a source: the tokens, and the fault if there is one. -/
def resultsOf (ts : List Token) (e : Option LexicalError) : List Result :=
  ts.map .ok ++ e.toList.map .error

/-- **Results in their places**, none of them in front of an offset. -/
structure Sited (src : Text) (offset : Int) (rs : List Result) : Prop where
  exact : ∀ r ∈ rs, r.pos.IsExact src
  behind : ∀ r ∈ rs, offset ≤ r.pos.offset
  sorted : rs.Pairwise Result.Precedes
  announced : Result.Announced rs
  ends : ∀ t : Token, .ok t ∈ rs → t.kind = .eof → t.pos.offset = src.length

namespace Sited

variable {src : Text} {offset offset' : Int} {rs : List Result} {r : Result} {t : Token}
  {pos : Position}

theorem mono (h : Sited src offset rs) (hle : offset' ≤ offset) : Sited src offset' rs :=
  { h with behind := fun r hr => hle.trans (h.behind r hr) }

/-- A single result that is no marker. -/
theorem single (hr : r.pos.IsExact src) (hm : r.isMarker = false)
    (hend : ∀ t, r = .ok t → t.kind = .eof → t.pos.offset = src.length) :
    Sited src r.pos.offset [r] where
  exact := List.forall_mem_singleton.mpr hr
  behind := List.forall_mem_singleton.mpr (le_refl _)
  sorted := List.pairwise_singleton _ _
  announced := ⟨fun h => absurd (hm.symm.trans h) nofun, trivial⟩
  ends := fun t ht hk => hend t (List.mem_singleton.mp ht).symm hk

/-- The end of the source on its own. -/
theorem eof (hpos : pos.IsExact src) (hend : pos.offset = src.length) :
    Sited src pos.offset [.ok (.eofAt pos)] :=
  single (r := .ok (.eofAt pos)) hpos rfl fun _ ht _ => Except.ok.inj ht ▸ hend

/-- A fault on its own. -/
theorem fault {e : LexicalError} (he : e.pos.IsExact src) : Sited src e.pos.offset [.error e] :=
  single (r := .error e) he rfl fun _ ht _ => by cases ht

/-- A lexeme in front of what stands behind it. -/
theorem lexeme (h : Sited src offset rs) (ht : t.pos.IsExact src) (hlt : t.pos.offset < offset)
    (hk : t.kind ∈ spelled) : Sited src t.pos.offset (.ok t :: rs) where
  exact := List.forall_mem_cons.mpr ⟨ht, h.exact⟩
  behind := List.forall_mem_cons.mpr ⟨le_refl _, fun r hr => (le_of_lt hlt).trans (h.behind r hr)⟩
  sorted := List.pairwise_cons.mpr ⟨fun r hr => ⟨(le_of_lt hlt).trans (h.behind r hr),
    fun _ => lt_of_lt_of_le hlt (h.behind r hr)⟩, h.sorted⟩
  announced := ⟨fun hm => absurd ((isMarker_of_spelled hk).symm.trans hm) nofun, h.announced⟩
  ends := by
    intro u hu he
    rcases List.mem_cons.mp hu with hu | hu
    · obtain rfl := Except.ok.inj hu
      exact absurd he (ne_eof_of_spelled hk)
    · exact h.ends u hu he

/-- Markers in front of a result at the same position. -/
theorem markers (h : Sited src pos.offset rs) (hpos : pos.IsExact src)
    (hnext : ∃ r ∈ rs.head?, Result.pos r = pos) {kinds : List Kind}
    (hk : ∀ k ∈ kinds, k.isMarker = true) :
    Sited src pos.offset ((markersAt pos kinds).map Except.ok ++ rs) ∧
      ∃ r ∈ ((markersAt pos kinds).map Except.ok ++ rs).head?, Result.pos r = pos := by
  induction kinds with
  | nil => exact ⟨h, hnext⟩
  | cons k kinds ih =>
    obtain ⟨hmark, hk⟩ := List.forall_mem_cons.mp hk
    obtain ⟨hrest, hhead⟩ := ih hk
    refine ⟨⟨?_, ?_, ?_, ⟨fun _ => hhead, hrest.announced⟩, ?_⟩, ⟨_, rfl, rfl⟩⟩
    · exact List.forall_mem_cons.mpr ⟨hpos, hrest.exact⟩
    · exact List.forall_mem_cons.mpr ⟨le_refl _, hrest.behind⟩
    · refine List.pairwise_cons.mpr ⟨fun r hr => ⟨hrest.behind r hr, fun hm => ?_⟩, hrest.sorted⟩
      rw [show k.isMarker = false from hm] at hmark
      cases hmark
    · intro t ht he
      rcases List.mem_cons.mp ht with ht | ht
      · obtain rfl := Except.ok.inj ht
        rw [show k = .eof from he] at hmark
        cases hmark
      · exact hrest.ends t ht he

end Sited

/-! ## The results of a course -/

section Course

variable {tab : TabWidth} {src : Text} {s : Scan} {ts : List Token} {e : Option LexicalError}

theorem resultsOf_append (front ts : List Token) (e : Option LexicalError) :
    resultsOf (front ++ ts) e = front.map Except.ok ++ resultsOf ts e := by
  rw [resultsOf, List.map_append, List.append_assoc, resultsOf]

theorem Scan.Stands.isExact_next (h : s.Stands src) : s.next.IsExact src := by
  obtain ⟨⟨read, hsrc, hpos, -⟩, -⟩ := h
  rw [Scan.next, hpos, ← Position.afterAll_append]
  have hsplit : Rune.decode src = (read ++ s.gap) ++ s.rest := by
    rw [hsrc, List.append_assoc, s.gap_append_rest]
  exact Position.isExact_afterAll hsplit

/-- At the end of a source the offset is its length. -/
theorem Scan.Stands.next_offset (h : s.Stands src) (hr : s.rest = []) :
    s.next.offset = src.length := by
  obtain ⟨⟨read, hsrc, hpos, -⟩, -⟩ := h
  have hin : s.gap = s.input := by rw [← s.gap_append_rest, hr, List.append_nil]
  rw [Scan.next, hpos, ← Position.afterAll_append, hin, ← hsrc, Position.afterAll_offset,
    Rune.encode_decode, Position.start, Int.zero_add]

theorem Scan.pos_le_next (s : Scan) : s.pos.offset ≤ s.next.offset :=
  Position.offset_le_afterAll _ _

/-- In front of a lexeme, the next result lies there: the token of the lexeme, or the fault in it.
-/
theorem Course.head_pos {r : Rune} {rest : List Rune} (h : Course tab s ts e)
    (hf : s.fresh = false) (hin : s.input = r :: rest) (hr : Solid r) :
    ∃ x ∈ (resultsOf ts e).head?, Result.pos x = s.pos := by
  have hgap : s.gap = [] := by rw [Scan.gap, hin, splitGap_solid hr]
  have hrest : s.rest = r :: rest := by rw [Scan.rest, hin, splitGap_solid hr]
  have hnext : s.next = s.pos := by rw [Scan.next, hgap, Position.afterAll_nil]
  cases h with
  | finish he => exact absurd (hrest.symm.trans he) (List.cons_ne_nil _ _)
  | newline _ he hn _ =>
    obtain ⟨rfl, -⟩ := List.cons.inj (hrest.symm.trans he)
    exact absurd hn (ne_true_of_eq_false hr.1)
  | line he _ _ _ => exact absurd he (ne_true_of_eq_false hf)
  | lost he _ _ => exact absurd he (ne_true_of_eq_false hf)
  | lexeme _ _ _ hread _ => exact ⟨_, rfl, (readLexeme_spec hread).2.2.1.trans hnext⟩
  | fault _ _ _ hread => exact ⟨_, rfl, (readLexeme_error hread).trans hnext⟩

/-- **The results of a course have exact positions in order.** -/
theorem Course.sited (h : Course tab s ts e) (hs : s.Stands src) :
    Sited src s.next.offset (resultsOf ts e) := by
  induction h with
  | @finish s hr =>
    have hlast := Sited.eof hs.isExact_next (hs.next_offset hr)
    rw [resultsOf_append]
    exact (hlast.markers hs.isExact_next ⟨_, rfl, rfl⟩ (isMarker_dedents _)).1
  | @newline s r rest ts e hf hr hn _ ih =>
    refine (ih (hs.newline hr hn (Scan.depth_of_newline hf hr hn))).mono ?_
    exact (Position.offset_le_afterAll [r] s.next).trans (Scan.pos_le_next _)
  | @line s r rest kinds levels ts e hf hr ha hc ih =>
    have hrest := (ih (hs.move (by rw [← hr, s.gap_append_rest]) _ _)).mono (Scan.pos_le_next _)
    rw [resultsOf_append]
    exact (hrest.markers hs.isExact_next (hc.head_pos rfl rfl (Scan.solid_of_fresh hf hr))
      (isMarker_of_adjust ha)).1
  | @lost s r _ _ _ _ => exact .fault (e := ⟨r.code, s.next, _⟩) hs.isExact_next
  | @lexeme s r rest lexeme after t ts e _ hr _ hread _ ih =>
    obtain ⟨happ, hv, hpos, hl⟩ := readLexeme_spec hread
    have hin : s.input = (s.gap ++ lexeme) ++ after := by
      rw [← s.gap_append_rest, hr, List.append_assoc, happ]
    have hmove := hs.move hin s.levels (depthAfter s.depth t.kind)
    rw [Position.afterAll_append] at hmove
    have hlt : t.pos.offset < (s.next.afterAll lexeme).offset := by
      rw [hpos]
      exact Position.offset_lt_afterAll (hl.ne_nil hv) s.next
    rw [← hpos]
    exact (ih hmove).lexeme (hpos ▸ hs.isExact_next) (hlt.trans_le (Scan.pos_le_next _)) hl.spelled
  | fault _ _ _ hread =>
    have hpos := readLexeme_error hread
    rw [← hpos]
    exact .fault (hpos ▸ hs.isExact_next)

end Course

/-! ## The results of a lexer -/

/-- Asking for one token after another gives what a run to the stop gives. -/
theorem trace_eq (l : Lexer) (h : Tidy l) :
    l.trace = resultsOf l.stop.pending (faultOf l.stop.mode) := by
  have hfill := h.fill
  rw [← l.fill_stop]
  fun_induction trace l with
  | case1 l e l' hn =>
    rcases next_cases hn with ⟨t, ht, -⟩ | ⟨hl, hp, ⟨e', he, hm⟩ | ⟨pos, he, -⟩⟩
    · cases ht
    · obtain rfl := Except.error.inj he
      rw [hl, stop_of_inactive (by rw [hm]; rfl), hp, hm]
      rfl
    · cases he
  | case2 l t l' hn hk =>
    obtain ⟨hm, hp⟩ := next_end hfill hn hk
    rw [stop_of_inactive (by rw [hm]; rfl), hm, hp]
    rfl
  | case3 l t l' hn hk ih =>
    obtain ⟨hl, hl'⟩ := next_token hfill hn hk
    rw [ih hl' hl'.fill, fill_stop, hl, stop_after]
    rfl

/-- **What a lexer of a source answers with is what a course finds.** -/
theorem trace_ofSource (tab : TabWidth) (src : Text) :
    ∃ ts e, Course tab (Scan.ofSource src) ts e ∧ (ofSource tab src).trace = resultsOf ts e := by
  obtain ⟨ts, e, hc, hp, hm⟩ := (course_stop (ofSource tab src)).1 rfl
  refine ⟨ts, e, hc, ?_⟩
  rw [trace_eq _ (tidy_ofSource tab src), hp, hm]
  cases e <;> rfl

/-- Whatever a lexer is asked for, it answers with results of its stream. -/
theorem mem_trace_of_drawnBy {tab : TabWidth} {src : Text} {calls : List Call} {r : Result}
    (h : r ∈ (ofSource tab src).drawnBy calls) : r ∈ (ofSource tab src).trace := by
  obtain ⟨ts, last, hd, hends⟩ := delivers_ofSource tab src
  have hlast : IsLast last := by
    rintro t rfl
    rcases hends with hend | ⟨e, he⟩
    · rw [Except.ok.inj hend]
      rfl
    · cases he
  have hstart : Standing ts last (ofSource tab src) 0 :=
    ⟨hd, fun hlt => absurd hlt (Nat.not_lt_zero _)⟩
  rw [(hstart.calls hlast calls).1, List.mem_map] at h
  obtain ⟨n, -, rfl⟩ := h
  rw [(hd.readAll hlast).2.1]
  by_cases hn : n < ts.length
  · rw [streamAt_of_lt hn]
    exact List.mem_append_left _ (List.mem_map_of_mem (List.getElem_mem hn))
  · rw [streamAt_of_le (Nat.le_of_not_lt hn)]
    exact List.mem_append_right _ (List.mem_singleton_self last)

end Lexer

/-- **All positions are exact.** A lexer of a source has a stream of results, the tokens and the end
of the source or a fault, and whatever it is asked for, it answers with results of this stream. All
of them have exact positions. Offsets do not decrease along the stream, and behind a token that is
no marker they are greater. A marker has the position of the result behind it, and the end of the
source has the length of the source as its offset. -/
theorem delivered_positions (tab : TabWidth) (src : Text) :
    (∀ calls, ∀ r ∈ (ofSource tab src).drawnBy calls, r ∈ (ofSource tab src).trace) ∧
      (∀ r ∈ (ofSource tab src).trace, (Result.pos r).IsExact src) ∧
      (ofSource tab src).trace.Pairwise Result.Precedes ∧
      Result.Announced (ofSource tab src).trace ∧
      ∀ t : Token, .ok t ∈ (ofSource tab src).trace → t.kind = .eof →
        t.pos.offset = src.length := by
  obtain ⟨ts, e, hc, htrace⟩ := trace_ofSource tab src
  have hsited := hc.sited (Scan.stands_ofSource src)
  rw [← htrace] at hsited
  exact ⟨fun calls r hr => mem_trace_of_drawnBy hr, hsited.exact, hsited.sorted, hsited.announced,
    hsited.ends⟩

end Offside
