import TestMigration.Script.BindingRule
import TestMigration.Script.MarkupRule
import TestMigration.Script.ClassRule

/-! Expressions. An operand is a primary expression with its members, calls and subscripts,
possibly assigned to; operators bind operands by level, and conversions to a type bind
loosest of the binary forms. -/

namespace TestMigration.Script.Rules

open Reader

variable (g : Rules)

/-- Binding strength of a binary operator; larger binds tighter. -/
def strength? : String → Option Nat
  | "??" => some 1
  | "||" => some 2
  | "&&" => some 3
  | "|" => some 4
  | "^" => some 5
  | "&" => some 6
  | "==" | "!=" | "===" | "!==" => some 7
  | "<" | ">" | "<=" | ">=" => some 8
  | "<<" | ">>" | ">>>" => some 9
  | "+" | "-" => some 10
  | "*" | "/" | "%" => some 11
  | "**" => some 12
  | _ => none

def updatingOperators : List String :=
  ["+=", "-=", "*=", "/=", "%=", "**=", "<<=", ">>=", ">>>=", "&=", "^=", "|=", "&&=", "||=",
   "??="]

def operatorToken (text : String) : Reader Node :=
  under .operator <| leaf (.token text) fun i p =>
    if i.operator? p == some text then some (p + text.utf8ByteSize) else none

/-- The binary operator that comes next, with its strength. -/
def peekBinary : Reader (Option (String × Nat)) := do
  match ← peekOperator with
  | some mark => return (strength? mark).map fun n => (mark, n)
  | none =>
    let w ← peekWord
    return if w == "in" || w == "instanceof" then some (w, 8) else none

def binaryToken (text : String) : Reader Node :=
  if text == "in" || text == "instanceof" then under .operator (keywordToken text)
  else operatorToken text

def templateString : Reader Node := do
  let start ← skipTrivia
  let i ← input
  Reader.guard (i.is start '\x60')
  take (start + 1)
  let rec parts : Nat → Reader (List Node)
    | 0 => fail
    | fuel + 1 => do
      let begun := (← cursor).last
      let stop := i.templateTextStop (i.bytes.size + 1 - begun) begun
      let text := if begun < stop then [Node.mk none .stringFragment begun stop []] else []
      take stop
      if i.is stop '\x60' then
        take (stop + 1)
        return text
      else if i.is stop '\\' then
        match i.escapeStop? stop with
        | some after =>
          take after
          return text ++ .mk none .escapeSequence stop after [] :: (← parts fuel)
        | none => fail
      else if i.is stop '$' then
        let hole ← node .templateSubstitution do
          take (stop + 2)
          let e ← g .sequence
          punct "\x7d"
          return [e]
        return text ++ hole :: (← parts fuel)
      else fail
  let children ← parts (i.bytes.size + 1)
  return .mk none .templateString start (← cursor).last children

def parenthesized : Reader Node :=
  node .parenthesizedExpression do
    punct "("
    let e ← g .sequence
    let type ← optionalTypeAscription g
    punct ")"
    return e :: type

def arrayLiteral : Reader Node :=
  node .array (bracketed "[" "]" (spread g <|> g .expression))

def objectEntry : Reader Node :=
  firstOf [
    spread g,
    methodDefinition g,
    node .pair do
      let key ← under .key (propertyName g)
      operator ":"
      let value ← under .value (g .expression)
      return [key, value],
    word .shorthandPropertyIdentifier]

def objectLiteral : Reader Node :=
  node .object (bracketed "\x7b" "\x7d" (objectEntry g))

def functionExpression : Reader Node := do
  let start ← skipTrivia
  if (← peekWord) == "async" then keyword "async" else pure ()
  keyword "function"
  let star ← Reader.optional (punct "*")
  let name ← if ← opens "(" then pure [] else maybe (under .name (word .identifier))
  let signature ← callSignature g
  let body ← under .body (g (.block true))
  return .mk none (if star.isSome then .generatorFunction else .functionExpression) start
    (← cursor).last (name ++ signature ++ [body])

def metaProperty (first second : String) : Reader Node :=
  node .metaProperty do
    keyword first
    punct "."
    keyword second
    return []

def importCall : Reader Node := do
  let callee ← keywordNode .importCallee "import"
  Reader.guard (← opens "(")
  return callee

/-- Constructor calls; without arguments the members still belong to the constructor. -/
def newExpression : Reader Node :=
  node .newExpression do
    keyword "new"
    let first ← if (← peekWord) == "new" then g .operand else constructorStart
    let rec members : Nat → Node → Reader Node
      | 0, n => pure n
      | fuel + 1, n =>
        (do
          operator "."
          let property ← under .property (privateName <|> word .propertyIdentifier)
          let member ← nodeFrom n .memberExpression [n.withRole .object, property]
          members fuel member) <|>
        (do
          punct "["
          let index ← under .index (g .sequence)
          punct "]"
          let item ← nodeFrom n .subscriptExpression [n.withRole .object, index]
          members fuel item) <|>
        (do
          sameLine
          operator "!"
          let present ← nodeFrom n .nonNullExpression [n]
          members fuel present) <|> pure n
    let callee ← members (← input).bytes.size first
    let types ← (do
      let types ← optionalTypeArguments g
      Reader.guard (← opens "(")
      return types) <|> pure []
    let arguments ← if ← opens "(" then one (under .arguments (argumentList g)) else pure []
    return callee.withRole .constructed :: types ++ arguments
where
  constructorStart : Reader Node := do
    match ← peekWord with
    | "this" => keywordNode .thisExpression "this"
    | "class" => classExpression g
    | "function" | "async" => functionExpression g <|> word .identifier
    | "import" => metaProperty "import" "meta"
    | "" => parenthesized g <|> arrayLiteral g <|> objectLiteral g <|> templateString g <|>
        stringLiteral
    | _ => wordExcept reservedWords .identifier

def primary : Reader Node := do
  let p ← skipTrivia
  match (← input).char? p with
  | none => fail
  | some ('(', _) => parenthesized g
  | some ('[', _) => arrayLiteral g
  | some ('\x7b', _) => objectLiteral g
  | some ('\x60', _) => templateString g
  | some ('"', _) | some ('\'', _) => stringLiteral
  | some ('/', _) => regexLiteral
  | some ('@', _) => classExpression g
  | some ('#', _) => do
    let name ← privateName
    Reader.guard ((← peekWord) == "in")
    return name
  | some ('<', _) =>
    match ← dialect with
    | .tsx => g .element
    | .plain => fail
  | some (c, _) =>
    if c.isDigit || c == '.' then number
    else match ← peekWord with
      | "this" => keywordNode .thisExpression "this"
      | "super" => keywordNode .superExpression "super"
      | "true" => keywordNode .trueLiteral "true"
      | "false" => keywordNode .falseLiteral "false"
      | "null" => keywordNode .nullLiteral "null"
      | "undefined" => keywordNode .undefinedLiteral "undefined"
      | "class" => classExpression g
      | "function" => functionExpression g
      | "async" => functionExpression g <|> word .identifier
      | "new" => metaProperty "new" "target" <|> newExpression g
      | "import" => metaProperty "import" "meta" <|> importCall
      | "namespace" => namespaceBlock g "namespace" .internalModule <|> word .identifier
      | _ => wordExcept reservedWords .identifier

def optionalChainToken : Reader Node :=
  under .optionalChain <| leaf .optionalChain fun i p =>
    if i.operator? p == some "?." then some (p + 2) else none

def callOf (callee : Node) (types : List Node) : Reader Node := do
  let arguments ← under .arguments (argumentList g)
  nodeFrom callee .callExpression (callee.withRole .callee :: types ++ [arguments])

/-- What follows an optional chain mark: a call, a subscript or a member. -/
def afterOptionalChain (n mark : Node) : Reader Node :=
  firstOf [
    do
      let types ← optionalTypeArguments g
      Reader.guard (← opens "(")
      callOf g n types,
    do
      punct "["
      let index ← under .index (g .sequence)
      punct "]"
      nodeFrom n .subscriptExpression [n.withRole .object, mark, index],
    do
      let property ← under .property (privateName <|> word .propertyIdentifier)
      nodeFrom n .memberExpression [n.withRole .object, mark, property]]

/-- One more link of a chain of members, subscripts, calls and tagged templates. -/
def link (n : Node) : Reader Node := do
  let p ← skipTrivia
  let i ← input
  match i.char? p with
  | some ('(', _) => callOf g n []
  | some ('[', _) =>
    punct "["
    let index ← under .index (g .sequence)
    punct "]"
    nodeFrom n .subscriptExpression [n.withRole .object, index]
  | some ('\x60', _) =>
    let template ← under .arguments (templateString g)
    nodeFrom n .callExpression [n.withRole .callee, template]
  | some ('<', _) =>
    Reader.guard (i.operator? p == some "<")
    let types ← under .typeArguments (innerTypeArguments g)
    if ← opens "(" then callOf g n [types]
    else
      notAhead (wordExcept [] .identifier <|> number <|> stringLiteral)
      Reader.guard (!(← opens "\x7b"))
      Reader.guard ((← peekOperator).all fun mark => mark != "<" && mark != ">")
      nodeFrom n .instantiationExpression [n, types]
  | some _ =>
    match i.operator? p with
    | some "." =>
      operator "."
      let property ← under .property (privateName <|> word .propertyIdentifier)
      nodeFrom n .memberExpression [n.withRole .object, property]
    | some "?." =>
      let mark ← optionalChainToken
      afterOptionalChain g n mark
    | some "!" =>
      sameLine
      operator "!"
      nodeFrom n .nonNullExpression [n]
    | _ => fail
  | none => fail

def links : Nat → Node → Reader Node
  | 0, n => pure n
  | fuel + 1, n => (do links fuel (← link g n)) <|> pure n

/-- A primary expression with all its links. -/
def chain : Reader Node := do
  links g (← input).bytes.size (← primary g)

def isAssignable (n : Node) : Bool :=
  isReference n || n.kind == .parenthesizedExpression || n.kind == .undefinedLiteral

/-- A chain, and what makes it more: an assignment to it or an update of it. -/
def assigned : Reader Node :=
  (do
    let n ← chain g
    match ← peekOperator with
    | some "=" =>
      Reader.guard (isAssignable n)
      operator "="
      let value ← under .right (g .expression)
      nodeFrom n .assignmentExpression [n.withRole .left, value]
    | some mark =>
      if updatingOperators.contains mark && isAssignable n then
        let token ← operatorToken mark
        let value ← under .right (g .expression)
        nodeFrom n .augmentedAssignmentExpression [n.withRole .left, token, value]
      else if mark == "++" || mark == "--" then
        (do
          sameLine
          let token ← operatorToken mark
          nodeFrom n .updateExpression [n.withRole .argument, token]) <|> pure n
      else return n
    | none => return n) <|> do
  Reader.guard ((← opens "[") || (← opens "\x7b"))
  let n ← destructuring g true
  operator "="
  let value ← under .right (g .expression)
  nodeFrom n .assignmentExpression [n.withRole .left, value]

/-- Conversions to a type, which stay on the line. -/
def converted (n : Node) : Reader Node := do
  sameLine
  match ← peekWord with
  | "as" =>
    keyword "as"
    (do
      keyword "const"
      nodeFrom n .asExpression [n]) <|> do
    let type ← g .typed
    nodeFrom n .asExpression [n, type]
  | "satisfies" =>
    keyword "satisfies"
    let type ← g .typed
    nodeFrom n .satisfiesExpression [n, type]
  | _ => fail

def conversions : Nat → Node → Reader Node
  | 0, n => pure n
  | fuel + 1, n => (do conversions fuel (← converted g n)) <|> pure n

def unary (token : Reader Node) : Reader Node :=
  node .unaryExpression do
    let mark ← token
    let argument ← under .argument (g .operand)
    return [mark, argument]

/-- An operand with its unary operators. Waiting takes a conversion into its operand. -/
def operand : Reader Node := do
  match ← peekOperator with
  | some mark =>
    if mark == "++" || mark == "--" then
      node .updateExpression do
        let token ← operatorToken mark
        let argument ← under .argument (g .operand)
        return [token, argument]
    else if mark == "!" || mark == "~" || mark == "+" || mark == "-" then
      unary g (operatorToken mark)
    else if mark == "<" && (← dialect) == .plain then
      node .typeAssertion do
        let types ← typeArguments g
        let e ← g .operand
        return [types, e]
    else assigned g
  | none =>
    match ← peekWord with
    | "typeof" => unary g (under .operator (keywordToken "typeof"))
    | "void" => unary g (under .operator (keywordToken "void"))
    | "delete" => unary g (under .operator (keywordToken "delete"))
    | "await" =>
      node .awaitExpression do
        keyword "await"
        let e ← g .operand
        let e ← conversions g (← input).bytes.size e
        return [e]
    | _ => assigned g

mutual

/-- Operands joined by operators at least as strong as `least`. -/
def joined (least : Nat) : Nat → Reader Node
  | 0 => fail
  | fuel + 1 => do
    let left ← g .operand
    extended least fuel left

def extended (least : Nat) : Nat → Node → Reader Node
  | 0, left => pure left
  | fuel + 1, left =>
    (do
      match ← peekBinary with
      | some (mark, level) =>
        Reader.guard (least ≤ level)
        let token ← binaryToken mark
        let right ← under .right (joined (if mark == "**" then level else level + 1) fuel)
        let whole ← nodeFrom left .binaryExpression [left.withRole .left, token, right]
        extended least fuel whole
      | none =>
        Reader.guard (least == 0)
        let whole ← converted g left
        extended least fuel whole) <|> pure left

end

/-- An arrow function whose signature has no return type, so that a colon after it is not its
own; else a conditional expression. -/
def untypedArrow (conditional : Reader Node) : Nat → Reader Node
  | 0 => fail
  | fuel + 1 =>
    (node .arrowFunction do
      if (← peekWord) == "async" then (keyword "async" <|> pure ()) else pure ()
      let front ← (do
        let name ← under .parameter (wordExcept reservedWords .identifier)
        return [name]) <|> (do
        let generics ← optionalTypeParameters g
        let parameters ← under .parameters (formalParameters g)
        return generics ++ [parameters])
      operator "=>"
      let body ← under .body (if ← opens "\x7b" then g (.block true) <|> untypedArrow conditional fuel
        else untypedArrow conditional fuel)
      return front ++ [body]) <|> conditional

/-- A conditional expression. Where a return type has swallowed the colon, the first branch is
read again without one. -/
def conditional : Reader Node := do
  let condition ← joined g 0 ((← input).bytes.size + 2)
  if (← peekOperator) == some "?" then
    operator "?"
    let branches (consequence : Reader Node) := do
      let consequence ← under .consequence consequence
      operator ":"
      let alternative ← under .alternative (g .expression)
      nodeFrom condition .ternaryExpression
        [condition.withRole .condition, consequence, alternative]
    branches (g .expression) <|>
      branches (untypedArrow g (joined g 0 ((← input).bytes.size + 2)) (← input).bytes.size)
  else return condition

def yieldExpression : Reader Node :=
  node .yieldExpression do
    keyword "yield"
    (do
      punct "*"
      one (g .expression)) <|> (do
      sameLine
      one (g .expression)) <|> pure []

def arrowBody : Reader Node := do
  if ← opens "\x7b" then g (.block true) <|> g .expression else g .expression

/-- A function written with an arrow: one bare name or a whole signature before it. -/
def arrowFunction : Reader Node :=
  node .arrowFunction do
    let single := do
      let name ← under .parameter (wordExcept reservedWords .identifier)
      operator "=>"
      return [name]
    let full := do
      Reader.guard ((← opens "(") || (← opens "<"))
      let signature ← callSignature g
      operator "=>"
      return signature
    let front ← (do
      keyword "async"
      (single <|> full)) <|> single <|> full
    let body ← under .body (arrowBody g)
    return front ++ [body]

def expression : Reader Node := do
  let w ← peekWord
  if w == "yield" then yieldExpression g
  else if w != "" || (← opens "(") || (← opens "<") then
    if reservedWords.contains w then conditional g else arrowFunction g <|> conditional g
  else conditional g

/-- One expression, or several with commas between them. -/
def sequence : Reader Node := do
  let first ← g .expression
  let rest ← many (do punct ","; g .expression)
  if rest.isEmpty then return first else nodeFrom first .sequenceExpression (first :: rest)

end TestMigration.Script.Rules
