import TestMigration.Script.Token

/-! The rules of the grammar that refer to each other in a circle, and the forms that many
rules share. Each family of rules is written against readers for these rules, and only the
last module of the grammar ties them together. -/

namespace TestMigration.Script

/-- A block's flag tells whether it is the body of a function expression, where the line
after it may go on with a call; a target's flag tells whether it may hold any reference, as
in an assignment, or only names. -/
inductive Rule where
  | statement
  | block (inExpression : Bool)
  | expression
  | sequence
  | operand
  | reference
  | target (references : Bool)
  | element
  | typed
  | primaryType
  deriving DecidableEq, Repr

abbrev Rules := Rule → Reader Node

namespace Rules

open Reader

variable (g : Rules)

def commaList (r : Reader Node) (close : String) : Reader (List Node) := do
  let rec entries : Nat → Reader (List Node)
    | 0 => pure []
    | fuel + 1 => do
      let entry ← maybe r
      if ← opens close then return entry
      else
        punct ","
        return entry ++ (← entries fuel)
  let items ← entries ((← input).bytes.size + 1)
  punct close
  return items

/-- Entries between brackets, each of which may be left out. -/
def bracketed (openMark close : String) (r : Reader Node) : Reader (List Node) := do
  punct openMark
  commaList r close

def initializer : Reader (List Node) := do
  operator "="
  one (under .value (g .expression))

def optionalInitializer : Reader (List Node) :=
  initializer g <|> pure []

def spread : Reader Node :=
  node .spreadElement do
    punct "..."
    one (g .expression)

def computedName : Reader Node :=
  node .computedPropertyName do
    punct "["
    let e ← g .expression
    punct "]"
    return [e]

def propertyName : Reader Node :=
  word .propertyIdentifier <|> privateName <|> stringLiteral <|> number <|> computedName g

/-- A word that modifies what follows, and is not itself the name there. -/
def modifier (text : String) : Reader Unit := do
  keyword text
  notAhead do
    let p ← skipTrivia
    let i ← input
    match i.char? p with
    | some (c, _) => Reader.guard ("(<=;:?!,)\x7d".toList.contains c)
    | none => pure ()

def optionalModifier (text : String) : Reader Unit :=
  modifier text <|> pure ()

/-- A type parameter list, kept under its field. -/
def typeParameters : Reader Node :=
  node .typeParameters do
    punct "<"
    let parameter := node .typeParameter do
      optionalModifier "const"
      let name ← under .name (word .typeIdentifier)
      let bound ← maybe <| under .constraint <| node .constraint do
        keyword "extends" <|> punct ":"
        one (g .typed)
      let fallback ← maybe <| under .value <| node .defaultType do
        operator "="
        one (g .typed)
      return name :: bound ++ fallback
    let parameters ← sepBy1 parameter (punct ",")
    let _ ← Reader.optional (punct ",")
    punct ">"
    return parameters

def optionalTypeParameters : Reader (List Node) := do
  if ← opens "<" then maybe (under .typeParameters (typeParameters g)) else return []

def typeArguments : Reader Node :=
  node .typeArguments do
    punct "<"
    let arguments ← sepBy1 (g .typed) (punct ",")
    let _ ← Reader.optional (punct ",")
    punct ">"
    return arguments

mutual

/-- Does a type ask for the type of a call somewhere? -/
def asksOfCall : Node → Bool
  | .mk _ kind _ _ children =>
    (kind == .typeQuery && children.any (·.kind == .callExpression)) || anyAsksOfCall children

def anyAsksOfCall : List Node → Bool
  | [] => false
  | n :: rest => asksOfCall n || anyAsksOfCall rest

end

/-- Type arguments within an expression. A `typeof` of a call there is an operator, and what
looks like an opening bracket compares. -/
def innerTypeArguments : Reader Node := do
  let types ← typeArguments g
  Reader.guard (!asksOfCall types)
  return types

def optionalTypeArguments : Reader (List Node) := do
  if ← opens "<" then maybe (under .typeArguments (typeArguments g)) else return []

def typeAscription : Reader Node :=
  node .typeAscription do
    punct ":"
    one (g .typed)

def optionalTypeAscription : Reader (List Node) := do
  if ← opens ":" then maybe (under .typed (typeAscription g)) else return []

/-- `name is T`; the name may be `this`. -/
def typePredicate : Reader Node :=
  node .typePredicate do
    let name ← under .name <|
      (node .thisExpression do keyword "this"; return []) <|> word .identifier
    keyword "is"
    let type ← under .typed (g .typed)
    return [name, type]

def assertion : Reader Node :=
  node .asserts do
    keyword "asserts"
    one (typePredicate g <|> (node .thisExpression do keyword "this"; return []) <|>
      word .identifier)

def returnAscription : Reader Node :=
  (node .assertsAscription do punct ":"; one (assertion g)) <|>
  (node .typePredicateAscription do punct ":"; one (typePredicate g)) <|>
  typeAscription g

def optionalReturnAscription : Reader (List Node) := do
  if ← opens ":" then maybe (under .returnType (returnAscription g)) else return []

/-- The words that are never the name of a decorator's target or a heritage clause. -/
def decoratorChain : Nat → Node → Reader Node
  | 0, n => pure n
  | fuel + 1, n =>
    (do
      punct "."
      let property ← under .property (word .propertyIdentifier)
      let member ← nodeFrom n .memberExpression [n.withRole .object, property]
      decoratorChain fuel member) <|> pure n

def argumentList : Reader Node :=
  node .arguments (bracketed "(" ")" (spread g <|> g .expression))

def decorator : Reader Node :=
  node .decorator do
    punct "@"
    let inParentheses := node .parenthesizedExpression do
      punct "("
      let e ← g .expression
      punct ")"
      return [e]
    let called := do
      let first ← word .identifier
      let callee ← decoratorChain (← input).bytes.size first
      (do
        let types ← optionalTypeArguments g
        let arguments ← under .arguments (argumentList g)
        nodeFrom callee .callExpression (callee.withRole .callee :: types ++ [arguments])) <|>
        pure callee
    one (inParentheses <|> called)

def decorators : Reader (List Node) :=
  many (under .decorator (decorator g))

def accessibility : Reader (List Node) := do
  let w ← peekWord
  if ["public", "private", "protected"].contains w then
    maybe <| node .accessibilityModifier do
      modifier w
      return []
  else return []

def overriding : Reader (List Node) := do
  if (← peekWord) == "override" then
    maybe <| node .overrideModifier do
      modifier "override"
      return []
  else return []

/-- One parameter of a signature. -/
def parameter : Reader Node := do
  let start ← skipTrivia
  let decorations ← decorators g
  let access ← accessibility
  let override ← overriding
  optionalModifier "readonly"
  let name ← under .target <|
    (node .thisExpression do keyword "this"; return []) <|> g (.target false)
  let mark ← Reader.optional (operator "?")
  let type ← optionalTypeAscription g
  let value ← optionalInitializer g
  let kind := if mark.isSome then Kind.optionalParameter else .requiredParameter
  return .mk none kind start (← cursor).last
    (decorations ++ access ++ override ++ name :: type ++ value)

def formalParameters : Reader Node :=
  node .formalParameters do
    punct "("
    if ← opens ")" then
      punct ")"
      return []
    else
      let parameters ← sepBy1 (parameter g) (punct ",")
      let _ ← Reader.optional (punct ",")
      punct ")"
      return parameters

/-- Type parameters, parameters and return type, each under its field. -/
def callSignature : Reader (List Node) := do
  let generics ← optionalTypeParameters g
  let parameters ← under .parameters (formalParameters g)
  let result ← optionalReturnAscription g
  return generics ++ parameters :: result

end Rules

end TestMigration.Script
