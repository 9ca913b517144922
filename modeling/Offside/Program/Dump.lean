import Offside.Program.Basic
import Offside.Text.Quoted

/-!
# Programs as nested field listings

Model of the full listing that the command `parse` writes in the format of field names
(specification, 6 and 9.4), a listing that a pretty printer makes of any value.

The full listing of a program: every node with the name of its type and all its fields, one a line,
tokens with their positions included. The values of fields that stand on directly consecutive lines
are aligned.

* `record` is a node with its fields, `listing` a list of values, `reference` a node that is
  referred to, with an ampersand in front.
* `runWidth` and `fieldLines` do the alignment: a run of fields ends with the first value that takes
  several lines, and the next run has a width of its own.
* `token`, `position`, `expr`, `stmt` and `block` list what the syntax tree is made of, `noBlock`
  the second block that a conditional does not have.

Nesting is counted in steps: a reference to a node is one, and an element of a list one more. A
value more than ten steps deep is cut off (`maxDepth`, `cutOff`).

Out of scope: values of any type but those of the syntax tree, and references that lead in a circle.
-/

namespace Offside.Dump

/-- A value as it is listed, line by line. -/
abbrev Lines := List Text

/-- The greatest number of steps that is listed. -/
def maxDepth : Nat := 10

/-- What stands for a value that is nested too deep. -/
def cutOff : Lines := ["!%v(DEPTH EXCEEDED)"]

/-- Lines one level further in. -/
def indented (ls : Lines) : Lines :=
  ls.map fun l => "    " ++ l

/-- Lines with a comma behind the last. -/
def withComma : Lines → Lines
  | [] => []
  | [l] => [l ++ ","]
  | l :: ls => l :: withComma ls

/-- Lines with a text in front of the first. -/
def withHead (head : Text) : Lines → Lines
  | [] => [head]
  | l :: ls => (head ++ l) :: ls

/-- A field: its name and its value. -/
abbrev Field := Text × Lines

/-- The width that the names of the next run of fields take up. A run ends with the first field
whose value takes several lines. -/
def runWidth : List Field → Nat
  | [] => 0
  | (name, value) :: rest =>
    let own := name.length + 2
    if value.length ≤ 1 then max own (runWidth rest) else own

/-- Fields in a run whose names take up `width`; zero begins a new run. -/
def fieldLines (width : Nat) : List Field → Lines
  | [] => []
  | (name, value) :: rest =>
    let width := if width = 0 then runWidth ((name, value) :: rest) else width
    let next := if value.length ≤ 1 then width else 0
    withComma (withHead (Text.padRight width (name ++ ":")) value) ++ fieldLines next rest

/-- A node with its fields. -/
def record (type : Text) (fields : List Field) : Lines :=
  (type ++ "\x7b") :: indented (fieldLines 0 fields) ++ [Text.ofString "\x7d"]

/-- A list of values. -/
def listing (elements : List Lines) : Lines :=
  Text.ofString "\x7b" :: indented (elements.map withComma).flatten ++ [Text.ofString "\x7d"]

/-- A node that is referred to from a value `depth` steps deep. -/
def reference (depth : Nat) (node : Lines) : Lines :=
  withHead "&" (if maxDepth < depth + 1 then cutOff else node)

/-- A position on one line. -/
def position (p : Position) : Text :=
  "stride.Position\x7bOffset:" ++ Text.ofInt p.offset ++ ", Line:" ++ Text.ofInt p.line ++
    ", Column:" ++ Text.ofInt p.column ++ "\x7d"

/-- A token. -/
def token (t : Token) : Lines :=
  record "stride.Token"
    [("Typ", ["0x" ++ Text.hexOfNat t.kind.code]), ("Value", [Text.quote t.value]),
     ("Num", [Text.ofInt64 t.num]), ("Pos", [position t.pos])]

/-- Two operands and their operator. -/
def operation (type : Text) (left : Lines) (op : Token) (right : Lines) : Lines :=
  record type [("Left", left), ("Operator", token op), ("Right", right)]

/-- An expression that stands `depth` steps deep. -/
def expr (depth : Nat) : Expr → Lines
  | .leaf t => if maxDepth < depth then cutOff else token t
  | .arith left op right =>
    if maxDepth < depth then cutOff
    else reference depth
      (operation "stride.BinaryOperation" (expr (depth + 1) left) op (expr (depth + 1) right))
  | .compare left op right =>
    if maxDepth < depth then cutOff
    else reference depth
      (operation "stride.BooleanExpression" (expr (depth + 1) left) op (expr (depth + 1) right))
  | .missing => ["nil"]

/-- A list of statements, each in the lines given, as a node of some type. -/
def sequence (type : Text) (stmts : List Lines) : Lines :=
  if stmts.isEmpty then [type ++ "\x7b\x7d"] else record type [("Statements", listing stmts)]

/-- A block that a node `depth` steps deep refers to. -/
def block (depth : Nat) (stmts : List Lines) : Lines :=
  reference depth (sequence "stride.Block" stmts)

/-- The absent second block of a conditional. -/
def noBlock : Lines := ["(*stride.Block)(nil)"]

mutual

/-- A statement that stands `depth` steps deep. -/
def stmt (depth : Nat) (s : Stmt) : Lines :=
  if maxDepth < depth then cutOff
  else
    match s with
    | .assign target value => reference depth
        (record "stride.Assignment" [("Target", token target), ("Value", expr (depth + 1) value)])
    | .call name args => reference depth
        (record "stride.FunctionCall"
          [("Name", token name), ("Args", listing (args.map (expr (depth + 2))))])
    | .ifThen cond body => reference depth
        (record "stride.IfStatement"
          [("Condition", expr (depth + 1) cond),
           ("Then", block (depth + 1) (stmts (depth + 3) body)),
           ("Else", noBlock)])
    | .ifElse cond body alt => reference depth
        (record "stride.IfStatement"
          [("Condition", expr (depth + 1) cond),
           ("Then", block (depth + 1) (stmts (depth + 3) body)),
           ("Else", block (depth + 1) (stmts (depth + 3) alt))])
    | .loop cond body => reference depth
        (record "stride.WhileStatement"
          [("Condition", expr (depth + 1) cond),
           ("Body", block (depth + 1) (stmts (depth + 3) body))])
    | .missing => ["nil"]

/-- Statements that stand `depth` steps deep. -/
def stmts (depth : Nat) : List Stmt → List Lines
  | [] => []
  | s :: ss => stmt depth s :: stmts depth ss

end

end Offside.Dump

namespace Offside

/-- The full listing of a program. -/
def Program.dump (p : Program) : Text :=
  Text.join "\n" (Dump.reference 0 (Dump.sequence "stride.AST" (Dump.stmts 2 p))) ++ "\n"

end Offside
