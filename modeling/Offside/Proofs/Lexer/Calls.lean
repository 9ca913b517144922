import Offside.Proofs.Lexer.Continue

/-!
# A lexer is one stream

The calls of a lexer are `Lexer.next` (`NextToken`) and `Lexer.readAll` (`Tokenize`). The scanner
promises that an exhausted lexer keeps answering with the end of the source and a faulty one with
its error; here is what that comes to for calls of both kinds in any order.

A lexer is asked for one token or for all tokens that are left, in any order and as often as one
likes. Asking for all of them comes down to asking for one after another. So there is only one
stream: some tokens, and behind them the end of the source or a fault for ever. Every answer can be
read off this stream and the number of tokens that were asked for before.

* `Call` is what a lexer is asked for, `drawnBy` the single results that some calls come down to,
  and `behindAll` the lexer they leave.
* `Delivers` says that a lexer delivers some tokens and then the same for ever, and `streamAt` is
  what stands at a place of such a stream.
* `Standing` is a lexer behind some of the tokens of a stream. It is what each call preserves.

Results:
* `all_eq_ones`: asking for all tokens comes down to asking for one after another.
* `Delivers.readAll`: reading all tokens takes the rest of the stream.
* `exists_delivers`: every lexer delivers some tokens and then the same for ever.
* `Course.ends`: the end of a source is delivered at the position behind its last rune.
* `Standing.calls`: a run of calls goes on along the stream.
* `delivered_stream`: the answers that a lexer of a source gives to any calls, and that no call
  behind the end changes the lexer.
-/

namespace Offside

namespace Lexer

/-! ## Calls -/

/-- What a lexer is asked for. -/
inductive Call where
  /-- The next token. -/
  | one
  /-- All tokens that are left. -/
  | all
  deriving DecidableEq, Repr

/-- The results of asking for one token after another until all are read. -/
def trace (l : Lexer) : List (Except LexicalError Token) :=
  match _h : l.next with
  | (.error e, _) => [.error e]
  | (.ok t, l') => if t.kind = .eof then [.ok t] else .ok t :: l'.trace
termination_by l.load
decreasing_by
  rename_i ht
  exact next_load_lt _h ht

/-- The results of asking for single tokens that a call comes down to. -/
def drawn (l : Lexer) : Call → List (Except LexicalError Token)
  | .one => [l.next.1]
  | .all => l.trace

/-- The lexer behind a call. -/
def behind (l : Lexer) : Call → Lexer
  | .one => l.next.2
  | .all => l.readAll.2

/-- The results of asking for single tokens that some calls come down to. -/
def drawnBy (l : Lexer) : List Call → List (Except LexicalError Token)
  | [] => []
  | call :: calls => l.drawn call ++ (l.behind call).drawnBy calls

/-- The lexer behind some calls. -/
def behindAll (l : Lexer) (calls : List Call) : Lexer :=
  calls.foldl behind l

/-- What stands at a place of the stream that consists of some tokens and of `last` for ever. -/
def streamAt (ts : List Token) (last : Except LexicalError Token) (n : Nat) :
    Except LexicalError Token :=
  ts[n]?.elim last .ok

theorem streamAt_of_lt {ts : List Token} {n : Nat} (h : n < ts.length)
    (last : Except LexicalError Token) : streamAt ts last n = .ok ts[n] := by
  rw [streamAt, List.getElem?_eq_getElem h]
  rfl

theorem streamAt_of_le {ts : List Token} {n : Nat} (h : ts.length ≤ n)
    (last : Except LexicalError Token) : streamAt ts last n = last := by
  rw [streamAt, List.getElem?_eq_none h]
  rfl

/-! ## What a lexer delivers -/

/-- **What a lexer delivers**: some tokens one after another, and then the same for ever. -/
inductive Delivers (last : Except LexicalError Token) : Lexer → List Token → Prop where
  | ended {l l' : Lexer} (first : l.next = (last, l')) (again : l'.next = (last, l')) :
      Delivers last l []
  | token {l l' : Lexer} {t : Token} {ts : List Token} (first : l.next = (.ok t, l'))
      (plain : t.kind ≠ .eof) (more : Delivers last l' ts) : Delivers last l (t :: ts)

/-- The end of a source or a fault. -/
def IsLast (last : Except LexicalError Token) : Prop :=
  ∀ t, last = .ok t → t.kind = .eof

section Delivers

variable {l l' : Lexer} {t : Token} {ts : List Token} {last : Except LexicalError Token}
  {e : LexicalError}

theorem readAll_of_error (h : l.next = (.error e, l')) :
    l.readAll = (.error e, l') ∧ l.trace = [.error e] := by
  constructor
  · rw [readAll]
    split <;> simp_all
  · rw [trace]
    split <;> simp_all

theorem readAll_of_eof (h : l.next = (.ok t, l')) (ht : t.kind = .eof) :
    l.readAll = (.ok [t], l') ∧ l.trace = [.ok t] := by
  constructor
  · rw [readAll]
    split <;> simp_all
  · rw [trace]
    split <;> simp_all

theorem readAll_of_token (h : l.next = (.ok t, l')) (ht : t.kind ≠ .eof) :
    l.readAll = (l'.readAll.1.map (t :: ·), l'.readAll.2) ∧ l.trace = .ok t :: l'.trace := by
  constructor
  · rw [readAll]
    split
    · simp_all
    · next u l'' hn =>
      obtain ⟨hu, rfl⟩ := Prod.mk.inj (h.symm.trans hn)
      obtain rfl := Except.ok.inj hu
      rw [if_neg ht]
      cases l'.readAll with
      | mk r l'' => cases r <;> rfl
  · rw [trace]
    split <;> simp_all

/-- **Asking for all tokens comes down to asking for one after another.** The answer is put together
from the results, and is the fault if there is one among them. -/
theorem all_eq_ones (l : Lexer) :
    l.trace = l.drawnBy (List.replicate l.trace.length .one) ∧
      l.readAll.2 = l.behindAll (List.replicate l.trace.length .one) ∧
      l.readAll.1 = l.trace.mapM id := by
  fun_induction trace l with
  | case1 l e l' hn =>
    rw [(readAll_of_error hn).1]
    exact ⟨by simp [drawnBy, drawn, hn], by simp [behindAll, behind, hn], rfl⟩
  | case2 l t l' hn ht =>
    rw [(readAll_of_eof hn ht).1]
    exact ⟨by simp [drawnBy, drawn, hn], by simp [behindAll, behind, hn], rfl⟩
  | case3 l t l' hn ht ih =>
    obtain ⟨htrace, hbehind, hanswer⟩ := ih
    rw [(readAll_of_token hn ht).1, List.length_cons, List.replicate_succ]
    refine ⟨?_, ?_, ?_⟩
    · rw [drawnBy, drawn, behind, hn, ← htrace]
      rfl
    · rw [hbehind, behindAll, behindAll, List.foldl_cons, behind, hn]
    · rw [hanswer, List.mapM_cons]
      cases l'.trace.mapM id <;> rfl

/-- Reading all tokens where the stream is over. -/
theorem readAll_of_last (h : l.next = (last, l')) (hlast : IsLast last) :
    l.readAll = (last.map ([·]), l') ∧ l.trace = [last] := by
  cases last with
  | error e => exact readAll_of_error h
  | ok t => exact readAll_of_eof h (hlast t rfl)

/-- **Reading all tokens takes the rest of the stream.** -/
theorem Delivers.readAll (h : Delivers last l ts) (hlast : IsLast last) :
    l.readAll.1 = last.map (ts ++ [·]) ∧ l.trace = ts.map .ok ++ [last] ∧
      l.readAll.2.next = (last, l.readAll.2) := by
  induction h with
  | ended first again =>
    obtain ⟨hr, ht⟩ := readAll_of_last first hlast
    rw [hr, ht]
    exact ⟨rfl, rfl, again⟩
  | token first plain _ ih =>
    obtain ⟨hr, ht⟩ := readAll_of_token first plain
    obtain ⟨hall, htrace, hagain⟩ := ih
    rw [hr, ht, hall, htrace]
    refine ⟨?_, rfl, hagain⟩
    cases last <;> rfl

/-- The end of the source is not among the tokens. -/
theorem Delivers.ne_eof (h : Delivers last l ts) : ∀ t ∈ ts, t.kind ≠ .eof := by
  induction h with
  | ended _ _ => exact List.forall_mem_nil _
  | token _ plain _ ih => exact List.forall_mem_cons.mpr ⟨plain, ih⟩

end Delivers

/-! ## Every lexer delivers a stream -/

theorem next_of_done {l : Lexer} (hp : l.pending = []) (hm : l.mode = .done) :
    l.next = (.ok (.eofAt l.pos), l) := by
  have hfill : l.fill = l := by
    rw [fill, if_neg (by simp [hm, Mode.isActive])]
  simp only [next, hfill, hp, hm]

theorem next_of_failed {l : Lexer} {e : LexicalError} (hp : l.pending = [])
    (hm : l.mode = .failed e) : l.next = (.error e, l) := by
  have hfill : l.fill = l := by
    rw [fill, if_neg (by simp [hm, Mode.isActive])]
  simp only [next, hfill, hp, hm]

/-- The end of the source comes last, and waits at the place where the lexer stands. -/
structure Placed (l : Lexer) : Prop extends Tidy l where
  place : ∀ t ∈ l.pending, t.kind = .eof → t = .eofAt l.pos

theorem Placed.step {l : Lexer} (h : Placed l) (ha : l.mode.isActive = true) : Placed l.step := by
  refine ⟨h.toTidy.step ha, fun t ht hk => ?_⟩
  have hplain := h.plain (by rintro hd; rw [hd] at ha; exact absurd ha (by decide))
  by_cases hm : l.mode = .finish
  · have hs : l.step = l.close := by rw [Lexer.step, hm]
    rw [hs] at ht ⊢
    rcases List.mem_append.mp ht with ht | ht
    · rcases List.mem_append.mp ht with ht | ht
      · exact absurd hk (hplain t ht)
      · obtain ⟨-, rfl⟩ := List.mem_replicate.mp ht
        cases hk
    · exact List.mem_singleton.mp ht
  · obtain ⟨-, new, hnew, hp⟩ := step_finds ha hm
    rw [hp, List.mem_append] at ht
    exact absurd hk (ht.elim (hplain t) (hnew.ne_eof t))

theorem Placed.fill {l : Lexer} (h : Placed l) : Placed l.fill := by
  fun_induction Lexer.fill l with
  | case1 l hl ih => exact ih (h.step hl.2)
  | case2 l hl => exact h

/-- **Every lexer delivers some tokens, and then the end of the source or a fault for ever.** -/
theorem exists_delivers (l : Lexer) (h : Placed l) : ∃ ts last, Delivers last l ts ∧
    ((∃ pos, last = .ok (.eofAt pos)) ∨ ∃ e, last = .error e) := by
  induction hw : l.load using Nat.strong_induction_on generalizing l with
  | _ n ih =>
    subst hw
    have hfill := h.fill
    cases hn : l.next with
    | mk r l' =>
      cases r with
      | error e =>
        rcases next_cases hn with ⟨t, ht, -⟩ | ⟨-, hp, ⟨e', he, hm⟩ | ⟨pos, he, -⟩⟩
        · cases ht
        · obtain rfl := Except.error.inj he
          exact ⟨[], .error e, .ended hn (next_of_failed hp hm), Or.inr ⟨e, rfl⟩⟩
        · cases he
      | ok t =>
        by_cases hk : t.kind = .eof
        · obtain ⟨hm, hp⟩ := next_end hfill.toTidy hn hk
          have ht : t = .eofAt l.fill.pos :=
            hfill.place t (by rw [hp]; exact List.mem_singleton_self t) hk
          -- the end of the source is what is left to deliver, and then it is made up again
          have hl' : l' = { l.fill with pending := [] } := by
            simp only [next, hp] at hn
            exact (Prod.mk.inj hn).2.symm
          refine ⟨[], .ok t, .ended hn ?_, Or.inl ⟨_, congrArg Except.ok ht⟩⟩
          rw [next_of_done (by rw [hl']) (by rw [hl']; exact hm), ht, hl']
        · obtain ⟨hl, htidy⟩ := next_token hfill.toTidy hn hk
          rw [hl] at hfill
          have hplaced : Placed l' :=
            ⟨htidy, fun u hu => hfill.place u (List.mem_append_right _ hu)⟩
          obtain ⟨ts, last, hd, hlast⟩ := ih _ (next_load_lt hn hk) l' hplaced rfl
          exact ⟨t :: ts, last, .token hn hk hd, hlast⟩

/-- **The end of a source has the position behind its last rune.** -/
theorem Course.ends {tab : TabWidth} {s : Scan} {ts : List Token} {e : Option LexicalError}
    (h : Course tab s ts e) (he : e = none) :
    ∃ front, ts = front ++ [.eofAt (s.pos.afterAll s.input)] := by
  have hnext (s : Scan) : s.next.afterAll s.rest = s.pos.afterAll s.input := by
    rw [Scan.next, ← Position.afterAll_append, s.gap_append_rest]
  induction h with
  | @finish s hr =>
    rw [← hnext s, hr]
    exact ⟨_, rfl⟩
  | @newline s r rest ts e _ hr _ _ ih =>
    rw [← hnext s, hr]
    exact ih he
  | @line s r rest kinds levels ts e _ hr _ _ ih =>
    obtain ⟨front, rfl⟩ := ih he
    rw [← hnext s, hr]
    exact ⟨markersAt s.next kinds ++ front, (List.append_assoc _ _ _).symm⟩
  | lost _ _ _ => cases he
  | @lexeme s r rest lexeme after t ts e _ hr _ hread _ ih =>
    obtain ⟨front, rfl⟩ := ih he
    refine ⟨t :: front, ?_⟩
    rw [← hnext s, hr, ← (readLexeme_spec hread).1, Position.afterAll_append]
    rfl
  | fault _ _ _ _ => cases he

/-! ## Calls along a stream -/

/-- **A lexer behind some of the tokens of a stream.** Where more was asked for than there are
tokens, it does not change any more. -/
structure Standing (ts : List Token) (last : Except LexicalError Token) (l : Lexer) (n : Nat) :
    Prop where
  delivers : Delivers last l (ts.drop n)
  settled : ts.length < n → l.next = (last, l)

section Standing

variable {ts : List Token} {last : Except LexicalError Token} {l : Lexer} {n : Nat}

/-- Asking for one token leads to the next place of the stream. -/
theorem Standing.next (h : Standing ts last l n) :
    l.next.1 = streamAt ts last n ∧ Standing ts last l.next.2 (n + 1) := by
  have hdelivers := h.delivers
  by_cases hlt : n < ts.length
  · rw [List.drop_eq_getElem_cons hlt] at hdelivers
    rw [streamAt_of_lt hlt]
    cases hdelivers with
    | token first _ more =>
      rw [first]
      exact ⟨rfl, more, fun hn => absurd hn (by omega)⟩
  · have hle : ts.length ≤ n := Nat.le_of_not_lt hlt
    rw [List.drop_eq_nil_of_le hle] at hdelivers
    rw [streamAt_of_le hle]
    cases hdelivers with
    | ended first again =>
      rw [first]
      refine ⟨rfl, ?_, fun _ => again⟩
      rw [List.drop_eq_nil_of_le (Nat.le_succ_of_le hle)]
      exact .ended again again

/-- What is left of the stream, in the order of its places. -/
theorem streamAt_drop (ts : List Token) (last : Except LexicalError Token) (n : Nat) :
    (ts.drop n).map .ok ++ [last] =
      (List.range' n ((ts.drop n).length + 1)).map (streamAt ts last) := by
  induction hk : (ts.drop n).length generalizing n with
  | zero =>
    have hnil := List.eq_nil_of_length_eq_zero hk
    rw [hnil, List.range'_one, List.map_singleton, streamAt_of_le (List.drop_eq_nil_iff.mp hnil)]
    rfl
  | succ k ih =>
    have hlt : n < ts.length := by
      rw [List.length_drop] at hk
      omega
    have hrest := ih (n + 1) (by rw [List.length_drop] at hk ⊢; omega)
    rw [List.drop_eq_getElem_cons hlt, List.map_cons, List.cons_append, hrest,
      List.range'_succ (n := k + 1), List.map_cons, streamAt_of_lt hlt]

/-- Asking for all tokens leads behind the first place at which the stream is over. -/
theorem Standing.readAll (h : Standing ts last l n) (hlast : IsLast last) :
    l.readAll.1 = last.map (ts.drop n ++ [·]) ∧
      l.trace = (List.range' n l.trace.length).map (streamAt ts last) ∧
      Standing ts last l.readAll.2 (n + l.trace.length) := by
  obtain ⟨hall, htrace, hagain⟩ := h.delivers.readAll hlast
  have hlen : l.trace.length = (ts.drop n).length + 1 := by
    rw [htrace, List.length_append, List.length_map, List.length_singleton]
  refine ⟨hall, ?_, ?_, fun _ => hagain⟩
  · rw [hlen, htrace, streamAt_drop]
  · rw [List.drop_eq_nil_of_le (by rw [hlen, List.length_drop]; omega)]
    exact .ended hagain hagain

/-- One call leads along the stream. -/
theorem Standing.call (h : Standing ts last l n) (hlast : IsLast last) (call : Call) :
    l.drawn call = (List.range' n (l.drawn call).length).map (streamAt ts last) ∧
      Standing ts last (l.behind call) (n + (l.drawn call).length) := by
  cases call with
  | one =>
    obtain ⟨hfirst, hnext⟩ := h.next
    exact ⟨congrArg (fun r => [r]) hfirst, hnext⟩
  | all => exact (h.readAll hlast).2

/-- **A run of calls goes on along the stream.** -/
theorem Standing.calls (h : Standing ts last l n) (hlast : IsLast last) (calls : List Call) :
    l.drawnBy calls = (List.range' n (l.drawnBy calls).length).map (streamAt ts last) ∧
      Standing ts last (l.behindAll calls) (n + (l.drawnBy calls).length) := by
  induction calls generalizing l n with
  | nil => exact ⟨rfl, h⟩
  | cons call calls ih =>
    obtain ⟨hone, hbehind⟩ := h.call hlast call
    obtain ⟨hmore, hend⟩ := ih hbehind
    constructor
    · rw [drawnBy, List.length_append, ← List.range'_append_1, List.map_append, ← hone, ← hmore]
    · rw [drawnBy, List.length_append, ← Nat.add_assoc]
      exact hend

/-- Where the stream is over, no call changes the lexer. -/
theorem Standing.behind_eq (h : Standing ts last l n) (hlast : IsLast last) (hn : ts.length < n)
    (call : Call) : l.behind call = l := by
  have hsettled := h.settled hn
  cases call with
  | one => exact congrArg Prod.snd hsettled
  | all => exact congrArg Prod.snd (readAll_of_last hsettled hlast).1

end Standing

theorem placed_ofSource (tab : TabWidth) (src : Text) : Placed (ofSource tab src) :=
  ⟨tidy_ofSource tab src, fun _ ht => absurd ht List.not_mem_nil⟩

/-- What a lexer of a source delivers, and the place of the end of the source. -/
theorem delivers_ofSource (tab : TabWidth) (src : Text) :
    ∃ ts last, Delivers last (ofSource tab src) ts ∧
      (last = .ok (.eofAt (Position.start.afterAll (Rune.decode src))) ∨ ∃ e, last = .error e) := by
  obtain ⟨ts, last, hd, ⟨pos, rfl⟩ | hlast⟩ := exists_delivers _ (placed_ofSource tab src)
  · refine ⟨ts, _, hd, Or.inl ?_⟩
    have hall := (hd.readAll fun t ht => by rw [← Except.ok.inj ht]; rfl).1
    obtain ⟨front, hfront⟩ := (course_of_tokenize hall).ends rfl
    exact congrArg Except.ok (List.cons.inj (List.append_inj' hfront rfl).2).1
  · exact ⟨ts, last, hd, Or.inr hlast⟩

end Lexer

open Lexer

/-- **A lexer is one stream, however it is read.** For every source there are tokens and what comes
behind them, which is the end of the source at the position behind its last rune, or a fault.
Whatever the lexer was asked for before, the results of asking for single tokens, also those that
asking for all tokens comes down to, are these tokens in order and then what comes behind them.
Asking for all tokens gives those of the stream that are left, up to the end of the source, or the
fault. Once what comes behind the tokens was delivered, no call changes the lexer. -/
theorem delivered_stream (tab : TabWidth) (src : Text) :
    ∃ (ts : List Token) (last : Except LexicalError Token), (∀ t ∈ ts, t.kind ≠ .eof) ∧
      (last = .ok (.eofAt (Position.start.afterAll (Rune.decode src))) ∨ ∃ e, last = .error e) ∧
      ∀ calls : List Call,
        let drawn := (ofSource tab src).drawnBy calls
        let l := (ofSource tab src).behindAll calls
        drawn = (List.range drawn.length).map (streamAt ts last) ∧
          l.next.1 = streamAt ts last drawn.length ∧
          l.readAll.1 = last.map (ts.drop drawn.length ++ [·]) ∧
          (ts.length < drawn.length → ∀ call, l.behind call = l) := by
  obtain ⟨ts, last, hd, hends⟩ := delivers_ofSource tab src
  have hlast : IsLast last := by
    rintro t rfl
    rcases hends with hend | ⟨e, he⟩
    · rw [Except.ok.inj hend]
      rfl
    · cases he
  have hstart : Standing ts last (ofSource tab src) 0 :=
    ⟨hd, fun h => absurd h (Nat.not_lt_zero _)⟩
  refine ⟨ts, last, hd.ne_eof, hends, fun calls => ?_⟩
  obtain ⟨hdrawn, hstanding⟩ := hstart.calls hlast calls
  rw [Nat.zero_add] at hstanding
  rw [← List.range_eq_range'] at hdrawn
  exact ⟨hdrawn, hstanding.next.1, (hstanding.readAll hlast).1,
    fun hover call => hstanding.behind_eq hlast hover call⟩

end Offside
