import Offside.Text.Quoted

/-!
# Flags

Model of the flags of the program and its commands (specification, 6): `--config`, `--verbose`,
`--format`, `--output` and `--help`.

A flag has a name, written behind two dashes, and perhaps a letter, written behind one. Some flags
need a value; the others are switches and may have one behind an equals sign. Several letters may
share a dash. Flags and operands may be mixed; two dashes alone end the flags.

* `Flag` has the five flags, and `FlagError` the ways in which they are misused, with the texts of
  `FlagError.message`.
* `Choices` is what the flags of an invocation say; `Choices.none` is an invocation without flags.
* `Choices.readName` reads a flag by its name and `Choices.readLetters` a group of letters. Both are
  told the argument behind, which a flag without a value takes, and answer whether it was taken.
* `Choices.read` goes through the arguments and answers the choices and the operands in their order.

Of a flag that is given twice the last value counts.
-/

namespace Offside.Cli

/-- The flags of the program. -/
inductive Flag where
  | config
  | verbose
  | help
  | format
  | output
  deriving DecidableEq, Repr

namespace Flag

/-- The name of a flag. -/
def name : Flag → Text
  | config => "config"
  | verbose => "verbose"
  | help => "help"
  | format => "format"
  | output => "output"

/-- The letter of a flag. -/
def letter? : Flag → Option UInt8
  | config => none
  | verbose => some 0x76
  | help => some 0x68
  | format => some 0x66
  | output => some 0x6F

/-- Whether a flag needs no value. -/
def isSwitch : Flag → Bool
  | verbose | help => true
  | _ => false

/-- A flag as it is written, with its letter if it has one. -/
def spelling (f : Flag) : Text :=
  match f.letter? with
  | some letter => "-" ++ ([letter] ++ (", --" ++ f.name))
  | none => "--" ++ f.name

/-- The flag with a name among some. -/
def ofName? (known : List Flag) (name : Text) : Option Flag :=
  known.find? fun f => f.name == name

/-- The flag with a letter among some. -/
def ofLetter? (known : List Flag) (letter : UInt8) : Option Flag :=
  known.find? fun f => f.letter? == some letter

end Flag

/-- Why flags cannot be read. -/
inductive FlagError where
  /-- No name stands behind the dashes. -/
  | malformed (arg : Text)
  | unknown (name : Text)
  /-- The letter at the beginning of a group is not known. -/
  | unknownLetter (letter : UInt8) (group : Text)
  | missingValue (arg : Text)
  | missingLetterValue (letter : UInt8) (group : Text)
  /-- The value of a switch is no truth value. -/
  | badSwitch (flag : Flag) (value : Text)
  deriving DecidableEq, Repr

namespace FlagError

/-- A letter in quotes. -/
def quoteLetter (letter : UInt8) : Text :=
  Text.quoteRune (.char (Char.ofNat letter.toNat))

/-- The message of an error. -/
def message : FlagError → Text
  | malformed arg => "bad flag syntax: " ++ arg
  | unknown name => "unknown flag: --" ++ name
  | unknownLetter letter group =>
    "unknown shorthand flag: " ++ quoteLetter letter ++ " in -" ++ group
  | missingValue arg => "flag needs an argument: " ++ arg
  | missingLetterValue letter group =>
    "flag needs an argument: " ++ quoteLetter letter ++ " in -" ++ group
  | badSwitch flag value =>
    "invalid argument " ++ value.quote ++ " for " ++ flag.spelling.quote ++
      " flag: strconv.ParseBool: parsing " ++ value.quote ++ ": invalid syntax"

end FlagError

/-- What the flags of an invocation say. -/
structure Choices where
  /-- The file with the settings; none if empty. -/
  config : Text
  verbose : Bool
  help : Bool
  /-- How a tree is shown; as the settings say if empty. -/
  format : Text
  /-- Where the IR is written; to standard output if empty. -/
  output : Text
  deriving DecidableEq, Repr

namespace Choices

/-- No flags. -/
def none : Choices := ⟨[], false, false, [], []⟩

/-- The truth value that a text spells. -/
def truth? (t : Text) : Option Bool :=
  let oneOf (words : List Text) : Bool := words.contains t
  if oneOf ["1", "t", "T", "true", "TRUE", "True"] then some true
  else if oneOf ["0", "f", "F", "false", "FALSE", "False"] then some false
  else Option.none

/-- The choices with a switch set. -/
def setSwitch (c : Choices) (flag : Flag) (on : Bool) : Choices :=
  match flag with
  | .verbose => { c with verbose := on }
  | .help => { c with help := on }
  | _ => c

/-- The choices with a flag set to a value. -/
def set (c : Choices) (flag : Flag) (value : Text) : Except FlagError Choices :=
  match flag with
  | .config => .ok { c with config := value }
  | .format => .ok { c with format := value }
  | .output => .ok { c with output := value }
  | flag =>
    match truth? value with
    | some on => .ok (c.setSwitch flag on)
    | Option.none => .error (.badSwitch flag value)

/-- Reads a flag by its name. `next?` is the argument behind it; the answer tells whether it was
used up. -/
def readName (known : List Flag) (next? : Option Text) (c : Choices) (arg : Text) :
    Except FlagError (Choices × Bool) := do
  let body := arg.drop 2
  let name := body.takeWhile (· != 0x3D)
  if body.head? = some 0x2D ∨ name = [] then .error (.malformed arg)
  else
    match Flag.ofName? known name with
    | Option.none => .error (.unknown name)
    | some flag =>
      if name.length < body.length then return (← c.set flag (body.drop (name.length + 1)), false)
      else if flag.isSwitch then return (c.setSwitch flag true, false)
      else
        match next? with
        | some value => return (← c.set flag value, true)
        | Option.none => .error (.missingValue arg)

/-- How a group of letters begins that is meant for a test runner and skipped. -/
def testGroup : Text := "test."

/-- Reads the flags of a group of letters. -/
def readLetters (known : List Flag) (next? : Option Text) (c : Choices) :
    Text → Except FlagError (Choices × Bool)
  | [] => .ok (c, false)
  | letter :: more =>
    if testGroup.isPrefixOf (letter :: more) then .ok (c, false)
    else
      match Flag.ofLetter? known letter with
      | Option.none => .error (.unknownLetter letter (letter :: more))
      | some flag =>
        if more.head? = some 0x3D ∧ 1 < more.length then
          (c.set flag more.tail).map (·, false)
        else if flag.isSwitch then readLetters known next? (c.setSwitch flag true) more
        else if more ≠ [] then (c.set flag more).map (·, false)
        else
          match next? with
          | some value => (c.set flag value).map (·, true)
          | Option.none => .error (.missingLetterValue letter [letter])

/-- Whether an argument is an operand wherever it stands. A dash alone is one. -/
def isOperand (arg : Text) : Bool :=
  arg.head? != some 0x2D || arg.length == 1

/-- Reads the flags among arguments. The answer has the operands in their order. -/
def read (known : List Flag) (c : Choices) : List Text → Except FlagError (Choices × List Text)
  | [] => .ok (c, [])
  | arg :: rest =>
    if isOperand arg then do
      let (c, operands) ← read known c rest
      return (c, arg :: operands)
    else if arg = "--" then .ok (c, rest)
    else
      let byName := arg.take 2 = "--"
      let answer :=
        if byName then readName known rest.head? c arg
        else readLetters known rest.head? c (arg.drop 1)
      match answer, rest with
      | .error e, _ => .error e
      | .ok (c, false), rest => read known c rest
      | .ok (c, true), _ :: rest => read known c rest
      | .ok (c, true), [] => .ok (c, [])

end Choices

end Offside.Cli
