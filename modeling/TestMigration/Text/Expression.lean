import TestMigration.Text.Blank
import TestMigration.Text.WordChar

/-! Regular expressions for whole texts. An expression is matched by taking its derivative
by each character in turn: what must follow for the rest of the text to match. -/

namespace TestMigration

inductive CharClass where
  | range (first last : Char)
  | word
  | digit
  | blank
  | outside (c : CharClass)
  | anyOf (cs : List CharClass)
  deriving Repr, Inhabited

mutual

def CharClass.has (c : Char) : CharClass → Bool
  | .range first last => first ≤ c && c ≤ last
  | .word => isWordChar c
  | .digit => c.isDigit
  | .blank => isBlank c
  | .outside inner => !inner.has c
  | .anyOf cs => CharClass.anyHas c cs

def CharClass.anyHas (c : Char) : List CharClass → Bool
  | [] => false
  | inner :: rest => inner.has c || CharClass.anyHas c rest

end

inductive Expression where
  | never
  | empty
  | one (c : CharClass)
  | both (first second : Expression)
  | either (first second : Expression)
  | many (e : Expression)
  deriving Repr, Inhabited

namespace Expression

def literal (c : Char) : Expression := one (.range c c)

/-- Does the empty text match? -/
def nullable : Expression → Bool
  | never => false
  | empty => true
  | one _ => false
  | both a b => a.nullable && b.nullable
  | either a b => a.nullable || b.nullable
  | many _ => true

def join : Expression → Expression → Expression
  | never, _ => never
  | _, never => never
  | empty, b => b
  | a, empty => a
  | a, b => both a b

def choose : Expression → Expression → Expression
  | never, b => b
  | a, never => a
  | a, b => either a b

/-- What must follow `c`. -/
def derivative (c : Char) : Expression → Expression
  | never => never
  | empty => never
  | one cls => if cls.has c then empty else never
  | both a b =>
    if a.nullable then choose (join (a.derivative c) b) (b.derivative c)
    else join (a.derivative c) b
  | either a b => choose (a.derivative c) (b.derivative c)
  | many e => join (e.derivative c) (many e)

def matchesFully (e : Expression) (text : List Char) : Bool :=
  (text.foldl (fun e c => e.derivative c) e).nullable

def atLeast : Nat → Expression → Expression
  | 0, e => many e
  | n + 1, e => join e (atLeast n e)

def upTo : Nat → Expression → Expression
  | 0, _ => empty
  | n + 1, e => either empty (join e (upTo n e))

def exactly : Nat → Expression → Expression
  | 0, _ => empty
  | n + 1, e => join e (exactly n e)

private def escapedClass : Char → CharClass
  | 'w' => .word
  | 'W' => .outside .word
  | 'd' => .digit
  | 'D' => .outside .digit
  | 's' => .blank
  | 'S' => .outside .blank
  | 'n' => .range '\n' '\n'
  | 't' => .range '\t' '\t'
  | 'r' => .range '\r' '\r'
  | c => .range c c

/-- The members of a bracketed class, up to its closing bracket. -/
private def classMembers : Nat → List Char → Option (List CharClass × List Char)
  | 0, _ => none
  | _, [] => none
  | _, ']' :: rest => some ([], rest)
  | fuel + 1, '\\' :: c :: rest =>
    (classMembers fuel rest).map fun (cs, rest) => (escapedClass c :: cs, rest)
  | fuel + 1, a :: '-' :: b :: rest =>
    if b == ']' then
      (classMembers fuel ('-' :: b :: rest)).map fun (cs, rest) => (.range a a :: cs, rest)
    else (classMembers fuel rest).map fun (cs, rest) => (.range a b :: cs, rest)
  | fuel + 1, c :: rest =>
    (classMembers fuel rest).map fun (cs, rest) => (.range c c :: cs, rest)

private def counted (cs : List Char) : Option ((Expression → Expression) × List Char) :=
  let inside := cs.takeWhile (· != '\x7d')
  let rest := cs.drop (inside.length + 1)
  let low := inside.takeWhile Char.isDigit
  let number (ds : List Char) : Nat := ds.foldl (fun n d => 10 * n + (d.toNat - 48)) 0
  match inside.drop low.length with
  | [] => if low.isEmpty then none else some (exactly (number low), rest)
  | ',' :: high =>
    if !high.all Char.isDigit then none
    else if high.isEmpty then some (atLeast (number low), rest)
    else some (fun e => join (exactly (number low) e) (upTo (number high - number low) e), rest)
  | _ => none

private def repeated : Nat → Expression → List Char → Expression × List Char
  | 0, e, cs => (e, cs)
  | fuel + 1, e, cs =>
    match cs with
    | '*' :: rest => repeated fuel (many e) rest
    | '+' :: rest => repeated fuel (join e (many e)) rest
    | '?' :: rest => repeated fuel (either empty e) rest
    | '\x7b' :: rest =>
      match counted rest with
      | some (wrap, rest) => repeated fuel (wrap e) rest
      | none => (e, cs)
    | _ => (e, cs)

mutual

private def alternatives : Nat → List Char → Option (Expression × List Char)
  | 0, _ => none
  | fuel + 1, cs => do
    let (first, rest) ← sequence fuel cs
    match rest with
    | '|' :: rest =>
      let (second, rest) ← alternatives fuel rest
      return (either first second, rest)
    | _ => return (first, rest)

private def sequence : Nat → List Char → Option (Expression × List Char)
  | 0, _ => none
  | fuel + 1, cs =>
    match cs with
    | [] => some (empty, [])
    | '|' :: _ => some (empty, cs)
    | ')' :: _ => some (empty, cs)
    | _ => do
      let (first, rest) ← atom fuel cs
      let (first, rest) := repeated rest.length first rest
      let (more, rest) ← sequence fuel rest
      return (join first more, rest)

private def atom : Nat → List Char → Option (Expression × List Char)
  | 0, _ => none
  | fuel + 1, cs =>
    match cs with
    | '(' :: '?' :: ':' :: rest => group fuel rest
    | '(' :: rest => group fuel rest
    | '[' :: '^' :: rest => (classMembers rest.length rest).map fun (members, rest) =>
        (one (.outside (.anyOf members)), rest)
    | '[' :: rest => (classMembers rest.length rest).map fun (members, rest) =>
        (one (.anyOf members), rest)
    | '.' :: rest => some (one (.outside (.range '\n' '\n')), rest)
    | '^' :: rest => some (empty, rest)
    | '$' :: rest => some (empty, rest)
    | '\\' :: c :: rest => some (one (escapedClass c), rest)
    | c :: rest => some (literal c, rest)
    | [] => none

private def group : Nat → List Char → Option (Expression × List Char)
  | 0, _ => none
  | fuel + 1, cs => do
    let (e, rest) ← alternatives fuel cs
    match rest with
    | ')' :: rest => return (e, rest)
    | _ => none

end

/-- Read an expression in the usual notation; none if it is malformed. -/
def ofString? (s : String) : Option Expression :=
  match alternatives (4 * s.length + 4) s.toList with
  | some (e, []) => some e
  | _ => none

end Expression

end TestMigration
