import TestMigration.Script.Rule

/-! Types. From the loosest: function and conditional types, unions, intersections, then
primary types with their `[]` and `[T]` suffixes. -/

namespace TestMigration.Script.Rules

open Reader

variable (g : Rules)

/-- Words that stand for a type of their own or begin a compound type. -/
def typeWords : List String :=
  ["any", "number", "boolean", "string", "symbol", "void", "unknown", "never", "object",
   "this", "typeof", "keyof", "null", "true", "false", "undefined", "new"]

def predefinedType : Reader Node :=
  node .predefinedType do
    firstOf [keyword "any", keyword "number", keyword "boolean", keyword "string",
      keyword "symbol", keyword "void", keyword "unknown", keyword "never", keyword "object",
      (do keyword "unique"; keyword "symbol")]
    return []

/-- `a.b.c` over plain names, whose last name is read by `last`. -/
def qualifiedName (kind : Kind) (outerRole lastRole : Field) (last : Reader Node) : Reader Node := do
  let first ← word .identifier
  let rec chain : Nat → Node → Reader Node
    | 0, _ => fail
    | fuel + 1, outer => do
      punct "."
      (do
        let inner ← word .propertyIdentifier
        ahead (punct ".")
        let joined ← nodeFrom outer .nestedIdentifier
          [outer.withRole .object, inner.withRole .property]
        chain fuel joined) <|> do
      let name ← under lastRole last
      nodeFrom outer kind [outer.withRole outerRole, name]
  chain (← input).bytes.size first

def namedType : Reader Node := do
  let name ← qualifiedName .nestedTypeIdentifier .moduleName .name (word .typeIdentifier) <|>
    wordExcept typeWords .typeIdentifier
  if ← opens "<" then
    (do
      let arguments ← under .typeArguments (typeArguments g)
      nodeFrom name .genericType [name.withRole .name, arguments]) <|> pure name
  else return name

def keywordNode (kind : Kind) (text : String) : Reader Node :=
  node kind do
    keyword text
    return []

def literalType : Reader Node :=
  node .literalType do
    let signed := node .unaryExpression do
      let sign ← under .operator (leaf (.token "-") fun i p =>
        if i.is p '-' then some (p + 1) else none) <|>
        under .operator (leaf (.token "+") fun i p => if i.is p '+' then some (p + 1) else none)
      let value ← under .argument number
      return [sign, value]
    one <| firstOf [signed, number, stringLiteral, keywordNode .trueLiteral "true",
      keywordNode .falseLiteral "false", keywordNode .nullLiteral "null",
      keywordNode .undefinedLiteral "undefined"]

/-- The value whose type is asked for: names, members, subscripts and calls. -/
def queriedValue : Reader Node := do
  let first ← keywordNode .thisExpression "this" <|>
    (node .callExpression do
      let callee ← under .callee (keywordNode .importCallee "import")
      let arguments ← under .arguments (argumentList g)
      return [callee, arguments]) <|>
    word .identifier
  let rec chain : Nat → Node → Reader Node
    | 0, n => pure n
    | fuel + 1, n =>
      (do
        punct "."
        let property ← under .property (privateName <|> word .propertyIdentifier)
        let member ← nodeFrom n .memberExpression [n.withRole .object, property]
        chain fuel member) <|>
      (do
        sameLine
        punct "["
        let index ← under .index (stringLiteral <|> number)
        punct "]"
        let item ← nodeFrom n .subscriptExpression [n.withRole .object, index]
        chain fuel item) <|>
      (do
        let types ← under .typeArguments (typeArguments g)
        nodeFrom n .instantiationExpression [n.withRole .callee, types]) <|>
      pure n
  chain (← input).bytes.size first

def typeQuery : Reader Node :=
  node .typeQuery do
    keyword "typeof"
    one (queriedValue g)

def tupleMember : Reader Node :=
  (node .optionalParameter do
    let name ← under .name (word .identifier)
    operator "?"
    let type ← under .typed (typeAscription g)
    return [name, type]) <|>
  (node .requiredParameter do
    let name ← under .name <|
      (node .restPattern do punct "..."; one (word .identifier)) <|> word .identifier
    let type ← under .typed (typeAscription g)
    return [name, type]) <|>
  (node .restType do
    punct "..."
    one (g .typed)) <|>
  (do
    let type ← g .typed
    (do
      operator "?"
      nodeFrom type .optionalType [type]) <|> pure type)

def templateType : Reader Node := do
  let start ← skipTrivia
  let i ← input
  Reader.guard (i.is start '\x60')
  take (start + 1)
  let rec parts : Nat → Reader (List Node)
    | 0 => fail
    | fuel + 1 => do
      let begun := (← cursor).last
      let stop := i.templateTextStop (i.bytes.size + 1 - begun) begun
      let text := if begun < stop then [Node.mk none .stringFragment begun stop []] else []
      take stop
      if i.is stop '\x60' then
        take (stop + 1)
        return text
      else if i.is stop '$' then
        let hole ← node .templateType do
          take (stop + 2)
          let type ← g .typed
          punct "\x7d"
          return [type]
        return text ++ hole :: (← parts fuel)
      else fail
  let children ← parts (i.bytes.size + 1)
  return .mk none .templateLiteralType start (← cursor).last children

def mappedClause : Reader Node :=
  node .mappedTypeClause do
    let name ← under .name (word .typeIdentifier)
    keyword "in"
    let type ← under .typed (g .typed)
    let asName ← maybe (under .asName (do keyword "as"; g .typed))
    return name :: type :: asName

def indexSignature : Reader Node :=
  node .indexSignature do
    let sign ← (do
      let sign ← maybe <| under .sign <|
        (leaf (.token "-") fun i p => if i.is p '-' then some (p + 1) else none) <|>
        (leaf (.token "+") fun i p => if i.is p '+' then some (p + 1) else none)
      keyword "readonly"
      return sign) <|> pure []
    punct "["
    let inner ← one (mappedClause g) <|> do
      let name ← under .name (word .identifier)
      punct ":"
      let index ← under .indexType (g .typed)
      return [name, index]
    punct "]"
    let type ← under .typed <|
      (node .omittingTypeAscription do punct "-?:"; one (g .typed)) <|>
      (node .addingTypeAscription do punct "+?:"; one (g .typed)) <|>
      (node .optingTypeAscription do punct "?:"; one (g .typed)) <|>
      typeAscription g
    return sign ++ inner ++ [type]

def methodModifiers : Reader (List Node) := do
  let access ← accessibility
  optionalModifier "static"
  let override ← overriding
  optionalModifier "readonly"
  optionalModifier "async"
  optionalModifier "get"
  optionalModifier "set"
  let _ ← Reader.optional (punct "*")
  return access ++ override

def methodSignature : Reader Node :=
  node .methodSignature do
    let modifiers ← methodModifiers
    let name ← under .name (propertyName g)
    let _ ← Reader.optional (operator "?")
    let signature ← callSignature g
    return modifiers ++ name :: signature

def propertySignature : Reader Node :=
  node .propertySignature do
    let access ← accessibility
    optionalModifier "static"
    let override ← overriding
    optionalModifier "readonly"
    let name ← under .name (propertyName g)
    let _ ← Reader.optional (operator "?")
    let type ← optionalTypeAscription g
    return access ++ override ++ name :: type

def constructSignature : Reader Node :=
  node .constructSignature do
    optionalModifier "abstract"
    keyword "new"
    let generics ← optionalTypeParameters g
    let parameters ← under .parameters (formalParameters g)
    let type ← optionalTypeAscription g
    return generics ++ parameters :: type

def objectTypeBody (kind : Kind) : Reader Node :=
  node kind do
    let exact ← (do punct "\x7b|"; return true) <|> (do punct "\x7b"; return false)
    let close : Reader Unit := if exact then punct "|\x7d" else punct "\x7d"
    let separator := punct "," <|> semicolon false
    let _ ← Reader.optional (punct "," <|> punct ";")
    let member := firstOf [indexSignature g, constructSignature g, methodSignature g,
      (node .callSignature (callSignature g)), propertySignature g]
    let members ← (sepBy1 member separator) <|> pure []
    let _ ← Reader.optional separator
    close
    return members

def primaryTypeStart : Reader Node :=
  firstOf [
    predefinedTypeAlone,
    literalType,
    typeQuery g,
    (node .indexTypeQuery do keyword "keyof"; one (g .primaryType)),
    keywordNode .thisType "this",
    (node .parenthesizedType do
      punct "("
      let type ← g .typed
      punct ")"
      return [type]),
    (node .tupleType (bracketed "[" "]" (tupleMember g))),
    objectTypeBody g .objectType,
    templateType g,
    (node .existentialType do punct "*"; return []),
    (node .flowMaybeType do operator "?"; one (g .primaryType)),
    namedType g]
where
  predefinedTypeAlone : Reader Node := do
    let type ← predefinedType
    notAhead (punct ".")
    return type

/-- A primary type and its suffixes, which stay on the line. -/
def primaryType : Reader Node := do
  let rec suffixes : Nat → Node → Reader Node
    | 0, n => pure n
    | fuel + 1, n =>
      (do
        sameLine
        punct "["
        let wrapped ← (do
          punct "]"
          nodeFrom n .arrayType [n]) <|> do
          let index ← g .typed
          punct "]"
          nodeFrom n .lookupType [n, index]
        suffixes fuel wrapped) <|> pure n
  suffixes (← input).bytes.size (← primaryTypeStart g)

/-- Operands of one associative operator, nested to the left; a leading operator is allowed
and makes a node of its own. -/
def joinedTypes (kind : Kind) (mark : String) (operand : Reader Node) : Reader Node := do
  let first ← (do
    let start ← skipTrivia
    operator mark
    let type ← operand
    return .mk none kind start (← cursor).last [type]) <|> operand
  let rec more : Nat → Node → Reader Node
    | 0, n => pure n
    | fuel + 1, n =>
      (do
        operator mark
        let type ← operand
        let joined ← nodeFrom n kind [n, type]
        more fuel joined) <|> pure n
  more (← input).bytes.size first

def readonlyType : Reader Node :=
  node .readonlyType do
    keyword "readonly"
    one (g .typed)

def inferType : Reader Node :=
  node .inferType do
    keyword "infer"
    let name ← word .typeIdentifier
    let bound ← (do
      keyword "extends"
      let bound ← g .typed
      notAhead (operator "?")
      return [bound]) <|> pure []
    return name :: bound

/-- A type out of an imported module: a call of `import`, and members and calls of what it
yields. It has no suffixes and no type arguments. -/
def importedType : Reader Node := do
  let callee ← keywordNode .importCallee "import"
  let member (n : Node) : Reader Node := do
    punct "."
    let property ← under .property (privateName <|> word .propertyIdentifier)
    nodeFrom n .memberExpression [n.withRole .object, property]
  let called (n : Node) : Reader Node := do
    Reader.guard (n.kind != .callExpression)
    let arguments ← under .arguments (argumentList g)
    nodeFrom n .callExpression [n.withRole .callee, arguments]
  let rec more : Nat → Node → Reader Node
    | 0, n => pure n
    | fuel + 1, n => (do more fuel (← member n <|> called n)) <|> pure n
  more (← input).bytes.size (← member callee <|> called callee)

def intersectionType : Reader Node :=
  joinedTypes .intersectionType "&"
    (readonlyType g <|> inferType g <|> importedType g <|> g .primaryType)

def unionType : Reader Node :=
  joinedTypes .unionType "|" (intersectionType g)

def functionType : Reader Node :=
  node .functionType do
    let generics ← optionalTypeParameters g
    let parameters ← under .parameters (formalParameters g)
    operator "=>"
    let result ← under .returnType <| assertion g <|> typePredicate g <|> g .typed
    return generics ++ [parameters, result]

def constructorType : Reader Node :=
  node .constructorType do
    optionalModifier "abstract"
    keyword "new"
    let generics ← optionalTypeParameters g
    let parameters ← under .parameters (formalParameters g)
    operator "=>"
    let result ← under .typed (g .typed)
    return generics ++ [parameters, result]

/-- Any type. -/
def typed : Reader Node := do
  (do
    Reader.guard ((← opens "(") || (← opens "<"))
    functionType g) <|> constructorType g <|> do
  let left ← unionType g
  (do
    sameLine
    keyword "extends"
    let right ← under .right (unionType g)
    operator "?"
    let consequence ← under .consequence (g .typed)
    operator ":"
    let alternative ← under .alternative (g .typed)
    nodeFrom left .conditionalType [left.withRole .left, right, consequence, alternative]) <|>
    pure left

end TestMigration.Script.Rules
