import Offside.Ir.Basic
import Offside.Numeral

/-!
# Names in the text of a module

Model of how the text of a module shows the names of functions, slots and blocks.

A name of letters, digits and a few marks is written as it is. Any other name is put in quotes, with
two hexadecimal digits for every byte that is not a printable ASCII character, and for the quote and
the backslash. A global name that reads as a number is quoted too, because an unnamed global is
written as its number.

* `ident` is a name, in quotes if it needs them, and `quoted` the form in quotes.
* `globalName` is the name of a function. A function called by a program put together by hand may
  have the empty name; it is the one unnamed global and is written as the number zero.
* `slotName` is the name that `slot` gives to the place of a variable, its own name with `.addr`
  behind it.
* `Label.name` has the names of the blocks of `ifStatement` and `whileStatement` with their number.

Names in programs may hold letters of any script (`Text/Letter`), which are not ASCII and stand in
quotes.
-/

namespace Offside.Ir

/-- A byte of a name that needs no quotes. -/
def isNameByte (b : UInt8) : Bool :=
  (0x41 ≤ b && b ≤ 0x5A) || (0x61 ≤ b && b ≤ 0x7A) || Text.isDigitByte b ||
    b == 0x24 || b == 0x2D || b == 0x2E || b == 0x5F

/-- A byte inside quotes. -/
def escapeByte (b : UInt8) : Text :=
  if 0x20 ≤ b && b ≤ 0x7E && b != 0x22 && b != 0x5C then [b]
  else "\\" ++ Text.upper (Text.padLeft 2 0x30 (Text.hexOfNat b.toNat))

/-- A text in quotes. -/
def quoted (t : Text) : Text :=
  "\"" ++ t.flatMap escapeByte ++ "\""

/-- A name, in quotes if it needs them. -/
def ident (name : Text) : Text :=
  if name.all isNameByte then name else quoted name

/-- Whether a name reads as an unsigned word. -/
def readsAsNumber (name : Text) : Bool :=
  !name.isEmpty && name.all Text.isDigitByte && Text.digitsValue name < Word.count

/-- The name of a function. The one function that may have no name is numbered. -/
def globalName (name : Text) : Text :=
  if name.isEmpty then "@0"
  else if readsAsNumber name then "@" ++ quoted name
  else "@" ++ ident name

/-- The name of the slot of a variable. -/
def slotName (var : Text) : Text :=
  "%" ++ ident (var ++ ".addr")

/-- The name of a block. -/
def Label.name : Label → Text
  | entry => "entry"
  | ifThen n => "if.then." ++ Text.ofNat n
  | ifElse n => "if.else." ++ Text.ofNat n
  | ifEnd n => "if.end." ++ Text.ofNat n
  | whileCond n => "while.cond." ++ Text.ofNat n
  | whileBody n => "while.body." ++ Text.ofNat n
  | whileEnd n => "while.end." ++ Text.ofNat n

end Offside.Ir
