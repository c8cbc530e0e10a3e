import TestMigration.Script.StatementRule

/-! Reading a whole script. Each rule of the grammar takes a token before it comes round to
itself after at most a few others, so a nesting depth linear in the length of the script is
always enough; comments are hung into the finished tree. -/

namespace TestMigration.Script

/-- The rules with references to at most `depth` nested rules. -/
def grammar : Nat → Rules
  | 0, _ => Reader.fail
  | depth + 1, rule =>
    let g : Rules := fun r => grammar depth r
    match rule with
    | .statement => Rules.statement g
    | .block inExpression => Rules.block g inExpression
    | .expression => Rules.expression g
    | .sequence => Rules.sequence g
    | .operand => Rules.operand g
    | .reference => Rules.chain g
    | .target references => Rules.target g references
    | .element => Rules.element g
    | .typed => Rules.typed g
    | .primaryType => Rules.primaryType g

/-- A syntax error's place: the line from 1 and the byte column from 0. -/
structure Location where
  line : Nat
  column : Nat
  deriving DecidableEq, Repr

/-- Number of line feeds before an offset. -/
def lineFeedsBefore (bytes : ByteArray) (offset : Nat) : Nat :=
  (bytes.extract 0 offset).foldl (fun n b => if b == 10 then n + 1 else n) 0

/-- Offset of the first byte of the line that holds an offset. -/
def lineStart (bytes : ByteArray) : Nat → Nat
  | 0 => 0
  | p + 1 => if bytes.get! p == 10 then p + 1 else lineStart bytes p

def locate (bytes : ByteArray) (offset : Nat) : Location :=
  ⟨lineFeedsBefore bytes offset + 1, offset - lineStart bytes offset⟩

namespace Reader

def hashBangLine : Reader Node :=
  leaf .hashBangLine fun i p => if i.holdsAt p "#!" then some (i.skip (· != '\n') p) else none

def program (g : Rules) : Reader (List Node) := do
  let first ← maybe hashBangLine
  let statements ← many (g .statement)
  atEnd
  return first ++ statements

end Reader

/-- The tree of a script, or where reading it failed. -/
def parse (dialect : Dialect) (bytes : ByteArray) : Except Location Node :=
  let g := grammar (16 * (bytes.size + 2))
  match Reader.program g ⟨bytes, dialect⟩ ⟨0, 0, [], 0⟩ with
  | .failed reach => .error (locate bytes reach)
  | .ok children c =>
    let comments := c.comments.reverse
    let starts := (children ++ comments).map Node.start
    let start := starts.foldl min bytes.size
    .ok (comments.foldl (fun tree comment => Node.addComment comment tree)
      (.mk none .program start bytes.size children))

end TestMigration.Script
