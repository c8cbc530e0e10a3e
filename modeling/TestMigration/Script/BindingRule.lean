import TestMigration.Script.TypeRule

/-! Targets of bindings and assignments: names, patterns over objects and arrays, and, where
references are allowed, members and subscripts. -/

namespace TestMigration.Script.Rules

open Reader

variable (g : Rules)

def restTarget (references : Bool) : Reader Node :=
  node .restPattern do
    punct "..."
    one (g (.target references))

/-- A target with a fallback value, or the bare target. -/
def targetWithDefault (references : Bool) : Reader Node := do
  let target ← g (.target references)
  (do
    operator "="
    let value ← under .right (g .expression)
    nodeFrom target .assignmentPattern [target.withRole .left, value]) <|> pure target

def arrayPattern (references : Bool) : Reader Node :=
  node .arrayPattern
    (bracketed "[" "]" (restTarget g references <|> targetWithDefault g references))

def objectPatternEntry (references : Bool) : Reader Node := do
  let shorthand := word .shorthandPropertyIdentifierPattern
  firstOf [
    restTarget g references,
    node .pairPattern do
      let key ← under .key (propertyName g)
      operator ":"
      let value ← under .value (targetWithDefault g references)
      return [key, value],
    node .objectAssignmentPattern do
      let name ← under .left shorthand
      operator "="
      let value ← under .right (g .expression)
      return [name, value],
    shorthand]

def objectPattern (references : Bool) : Reader Node :=
  node .objectPattern (bracketed "\x7b" "\x7d" (objectPatternEntry g references))

def destructuring (references : Bool) : Reader Node :=
  arrayPattern g references <|> objectPattern g references

/-- What a declaration binds. -/
def bindingName : Reader Node :=
  destructuring g false <|> word .identifier

def isReference (n : Node) : Bool :=
  match n.kind with
  | .identifier | .memberExpression | .subscriptExpression | .nonNullExpression => true
  | _ => false

def reference : Reader Node := do
  let n ← g .reference
  Reader.guard (isReference n)
  return n

def target (references : Bool) : Reader Node :=
  restTarget g references <|> destructuring g references <|>
    if references then reference g else wordExcept reservedWords .identifier

end TestMigration.Script.Rules
