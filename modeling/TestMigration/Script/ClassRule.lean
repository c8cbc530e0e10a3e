import TestMigration.Script.TypeRule
import TestMigration.Script.BindingRule

/-! Functions, classes and namespaces, as far as expressions and statements share them. -/

namespace TestMigration.Script.Rules

open Reader

variable (g : Rules)

def methodDefinition : Reader Node :=
  node .methodDefinition do
    let modifiers ← methodModifiers
    let name ← under .name (propertyName g)
    let _ ← Reader.optional (operator "?")
    let signature ← callSignature g
    let body ← under .body (g (.block false))
    return modifiers ++ name :: signature ++ [body]

def abstractMethodSignature : Reader Node :=
  node .abstractMethodSignature do
    let access ← accessibility
    modifier "abstract"
    let override ← overriding
    optionalModifier "get"
    optionalModifier "set"
    let _ ← Reader.optional (punct "*")
    let name ← under .name (propertyName g)
    let _ ← Reader.optional (operator "?")
    let signature ← callSignature g
    return access ++ override ++ name :: signature

/-- A field of a class; the flag tells whether it ends in a value. -/
def fieldDefinition : Reader (Node × Bool) := do
  let start ← skipTrivia
  let decorations ← decorators g
  optionalModifier "declare"
  let access ← accessibility
  optionalModifier "declare"
  optionalModifier "static"
  let override ← overriding
  optionalModifier "abstract"
  optionalModifier "readonly"
  optionalModifier "abstract"
  optionalModifier "accessor"
  let name ← under .name (propertyName g)
  let _ ← Reader.optional (operator "?" <|> operator "!")
  let type ← optionalTypeAscription g
  let value ← optionalInitializer g
  return (.mk none .publicFieldDefinition start (← cursor).last
    (decorations ++ access ++ override ++ name :: type ++ value), !value.isEmpty)

/-- A function's head ends where a line breaks, unless a body follows. -/
def signatureEnd : Reader Unit := do
  notAhead (punct "\x7b")
  punct "," <|> semicolon false

def classMember : Reader (List Node) :=
  firstOf [
    do
      punct ";"
      return [],
    do
      let block ← node .classStaticBlock do
        keyword "static"
        one (under .body (g (.block false)))
      return [block],
    do
      let decorations ← decorators g
      let method ← methodDefinition g
      let _ ← Reader.optional (semicolon false)
      return decorations ++ [method],
    do
      let signature ← abstractMethodSignature g
      punct "," <|> semicolon false
      return [signature],
    do
      let signature ← methodSignature g
      signatureEnd
      return [signature],
    do
      let signature ← indexSignature g
      punct "," <|> semicolon false
      return [signature],
    do
      let (field, valued) ← fieldDefinition g
      punct "," <|> semicolon valued
      return [field]]

def classBody : Reader Node :=
  node .classBody do
    punct "\x7b"
    let members ← many (classMember g)
    punct "\x7d"
    return members.flatten

def heritage : Reader (List Node) := do
  let w ← peekWord
  if w != "extends" && w != "implements" then return []
  let clauses ← node .classHeritage do
    let extending ← maybe <| node .extendsClause do
      keyword "extends"
      let bases ← sepBy1 (do
        let base ← under .value (g .reference)
        let types ← optionalTypeArguments g
        return base :: types) (punct ",")
      return bases.flatten
    let implementing ← maybe <| node .implementsClause do
      keyword "implements"
      sepBy1 (g .typed) (punct ",")
    return extending ++ implementing
  return [clauses]

/-- A class from its keyword on; only in an expression may the name be left out. -/
def classRest (named : Bool) : Reader (List Node) := do
  keyword "class"
  let plainName := under .name do
    Reader.guard (!(["extends", "implements"].contains (← peekWord)))
    word .typeIdentifier
  let name ← if named then one (under .name (word .typeIdentifier)) else maybe plainName
  let generics ← optionalTypeParameters g
  let parents ← heritage g
  let body ← under .body (classBody g)
  return name ++ generics ++ parents ++ [body]

def classExpression : Reader Node :=
  node .classExpression do
    let decorations ← decorators g
    let rest ← classRest g false
    return decorations ++ rest

/-- `namespace a.b { … }`, or `module` likewise. -/
def namespaceBlock (word' : String) (kind : Kind) : Reader Node :=
  node kind do
    keyword word'
    sameLine
    let name ← under .name <| stringLiteral <|> dotted
    let body ← maybe (under .body (g (.block false)))
    return name :: body
where
  dotted : Reader Node := do
    let rec chain : Nat → Node → Reader Node
      | 0, n => pure n
      | fuel + 1, n =>
        (do
          punct "."
          let property ← under .property (word .propertyIdentifier)
          let joined ← nodeFrom n .nestedIdentifier [n.withRole .object, property]
          chain fuel joined) <|> pure n
    chain (← input).bytes.size (← word .identifier)

end TestMigration.Script.Rules
