import Offside.Yaml.Token

/-!
# The characters of a YAML stream

A stream is UTF-8, or UTF-16 behind its byte order mark. It is taken in by pieces of a fixed size. A
byte that belongs to no character, or a character that may not stand in a stream, spoils its piece
and all that follows, but nothing in front of it.

* `Encoding` is how characters are written, and `front` what a text in an encoding begins with: a
  character, a character cut off by the end of the piece, or a fault.
* `piece` is one piece with the unfinished bytes at its end, which belong to the next, and `pieces`
  all of them.
* `Input.ofText` is the whole. A fault does not show before the reader gets there, so an input holds
  the characters in front of it and whether the text goes on behind them.
-/

namespace Offside.Yaml

/-- How characters are written. -/
inductive Encoding where
  | utf8
  /-- Units of two bytes, the more significant byte first or last. -/
  | utf16 (bigFirst : Bool)

/-- What a text begins with. -/
inductive Front where
  | char (c : Char) (width : Nat)
  /-- The beginning of a character whose end is missing. -/
  | unfinished
  | fault

namespace Encoding

/-- How many bytes follow the first byte of a character in UTF-8. -/
def followers? (byte : Nat) : Option Nat :=
  if byte < 0x80 then some 0
  else if byte < 0xC0 then none
  else if byte < 0xE0 then some 1
  else if byte < 0xF0 then some 2
  else if byte < 0xF8 then some 3
  else none

/-- What a text in UTF-8 begins with. -/
def front8 : Text → Front
  | [] => .unfinished
  | b :: rest =>
    match followers? b.toNat with
    | none => .fault
    | some n =>
      if (rest.take n).length < n then .unfinished
      else
        match Rune.leading? (b :: rest.take n) with
        | some c => .char c (n + 1)
        | none => .fault

/-- A unit that begins a pair, which stands for a character beyond the first 65536. -/
def isHighSurrogate (unit : Nat) : Bool :=
  0xD800 ≤ unit && unit < 0xDC00

/-- A unit that ends a pair. -/
def isLowSurrogate (unit : Nat) : Bool :=
  0xDC00 ≤ unit && unit < 0xE000

/-- The unit that two bytes make. -/
def unit (bigFirst : Bool) (a b : UInt8) : Nat :=
  if bigFirst then 0x100 * a.toNat + b.toNat else 0x100 * b.toNat + a.toNat

/-- What a text in UTF-16 begins with. -/
def front16 (bigFirst : Bool) : Text → Front
  | a :: b :: rest =>
    let high := unit bigFirst a b
    if isLowSurrogate high then .fault
    else if isHighSurrogate high then
      match rest with
      | c :: d :: _ =>
        let low := unit bigFirst c d
        if isLowSurrogate low then
          .char (Char.ofNat (0x10000 + 0x400 * (high - 0xD800) + (low - 0xDC00))) 4
        else .fault
      | _ => .unfinished
    else .char (Char.ofNat high) 2
  | _ => .unfinished

/-- What a text in an encoding begins with. -/
def front : Encoding → Text → Front
  | utf8 => front8
  | utf16 bigFirst => front16 bigFirst

end Encoding

/-- The characters that can be taken in. -/
structure Input where
  chars : List Char
  /-- Whether nothing but the end of the text follows them. -/
  whole : Bool

namespace Input

/-- The characters of a piece, at most `bound` many, and the bytes of an unfinished one at its end.
Nothing comes of a spoilt piece. -/
def piece (e : Encoding) : (bound : Nat) → Text → Option (List Char × Text)
  | 0, t => some ([], t)
  | _ + 1, [] => some ([], [])
  | bound + 1, t =>
    match e.front t with
    | .fault => none
    | .unfinished => some ([], t)
    | .char c width =>
      if isAllowed c then (piece e bound (t.drop width)).map fun (cs, left) => (c :: cs, left)
      else none

/-- The size of a piece in bytes. -/
def pieceSize : Nat := 512

/-- The characters of a text that is taken in by at most `bound` pieces, the first of `size`
bytes. -/
def pieces (e : Encoding) (size : Nat) (t : Text) : (bound : Nat) → Input
  | 0 => ⟨[], false⟩
  | bound + 1 =>
    match piece e size (t.take size) with
    | none => ⟨[], false⟩
    | some (cs, left) =>
      match t.drop size with
      | [] => ⟨cs, left.isEmpty⟩
      | rest =>
        let more := pieces e pieceSize (left ++ rest) bound
        ⟨cs ++ more.chars, more.whole⟩

/-- The characters of a text. A byte order mark tells the encoding and counts as a part of the first
piece. -/
def ofText (t : Text) : Input :=
  let (e, mark) : Encoding × Nat :=
    match t with
    | 0xFF :: 0xFE :: _ => (.utf16 false, 2)
    | 0xFE :: 0xFF :: _ => (.utf16 true, 2)
    | 0xEF :: 0xBB :: 0xBF :: _ => (.utf8, 3)
    | _ => (.utf8, 0)
  pieces e (pieceSize - mark) (t.drop mark) (t.length + 1)

end Input

end Offside.Yaml
