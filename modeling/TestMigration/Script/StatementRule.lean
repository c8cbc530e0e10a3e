import TestMigration.Script.ExpressionRule

/-! Statements and declarations. -/

namespace TestMigration.Script.Rules

open Reader

variable (g : Rules)

/-- A braced list of statements. The line's end after it can belong to it. -/
def block (inExpression : Bool) : Reader Node :=
  node .statementBlock do
    punct "\x7b"
    let body ← many (g .statement)
    punct "\x7d"
    blockEnd inExpression
    return body

/-- One binding of a declaration; the flag tells whether it has a value. -/
def declarator : Reader (Node × Bool) := do
  let start ← skipTrivia
  let name ← under .name (bindingName g)
  let definite ← (do
    Reader.guard (name.kind == .identifier)
    sameLine
    operator "!"
    let type ← under .typed (typeAscription g)
    return [type]) <|> pure []
  if !definite.isEmpty then
    return (.mk none .variableDeclarator start (← cursor).last (name :: definite), false)
  let type ← optionalTypeAscription g
  let value ← optionalInitializer g
  return (.mk none .variableDeclarator start (← cursor).last (name :: type ++ value),
    !value.isEmpty)

/-- The bindings of a declaration, up to the end that `finish` reads. -/
def declaration (finish : Bool → Reader Unit) : Reader Node := do
  let start ← skipTrivia
  let w ← peekWord
  Reader.guard (["var", "let", "const"].contains w)
  let mark ← keywordToken w
  let bindings ← sepBy1 (declarator g) (punct ",")
  finish (bindings.getLast?.any (·.2))
  let declarators := bindings.map (·.1)
  if w == "var" then
    return .mk none .variableDeclaration start (← cursor).last declarators
  else
    return .mk none .lexicalDeclaration start (← cursor).last
      (mark.withRole .keyword :: declarators)

def expressionStatement : Reader Node :=
  node .expressionStatement do
    let e ← g .sequence
    semicolon true
    return [e]

def condition : Reader Node := under .condition (parenthesized g)

def ifStatement : Reader Node :=
  node .ifStatement do
    keyword "if"
    let test ← condition g
    let consequence ← under .consequence (g .statement)
    let alternative ← maybe <| under .alternative <| node .elseClause do
      keyword "else"
      one (g .statement)
    return test :: consequence :: alternative

def emptyStatement : Reader Node :=
  node .emptyStatement do
    punct ";"
    return []

/-- The parts of a counting loop's head after its opening parenthesis. -/
def loopHead : Reader (List Node) := do
  let initial ← under .initializer <| firstOf [
    declaration g fun _ => punct ";",
    (do
      let e ← g .sequence
      punct ";"
      return e),
    emptyStatement]
  let test ← under .condition <| emptyStatement <|> do
    let e ← g .sequence
    punct ";"
    return e
  let step ← maybe (under .increment (g .sequence))
  punct ")"
  return initial :: test :: step

/-- The head of a loop over keys or values after its opening parenthesis. -/
def iterationHead : Reader (List Node) := do
  let bound ← (do
    let w ← peekWord
    Reader.guard (["var", "let", "const"].contains w)
    let mark ← under .keyword (keywordToken w)
    let name ← under .left (bindingName g)
    let value ← if w == "var" then optionalInitializer g else pure []
    return mark :: name :: value) <|> do
    let target ← under .left <| parenthesized g <|> g (.target true)
    return [target]
  let mark ← under .operator (keywordToken "of" <|> keywordToken "in")
  let right ← under .right (g .sequence)
  punct ")"
  return bound ++ [mark, right]

def forStatement : Reader Node := do
  let start ← skipTrivia
  keyword "for"
  let waiting ← Reader.optional (keyword "await")
  punct "("
  let (kind, head) ← (do
    let head ← iterationHead g
    return (Kind.forInStatement, head)) <|> do
    Reader.guard waiting.isNone
    let head ← loopHead g
    return (Kind.forStatement, head)
  let body ← under .body (g .statement)
  return .mk none kind start (← cursor).last (head ++ [body])

def whileStatement : Reader Node :=
  node .whileStatement do
    keyword "while"
    let test ← condition g
    let body ← under .body (g .statement)
    return [test, body]

def doStatement : Reader Node :=
  node .doStatement do
    keyword "do"
    let body ← under .body (g .statement)
    keyword "while"
    let test ← condition g
    let _ ← Reader.optional (semicolon false)
    return [body, test]

def catchClause : Reader Node :=
  node .catchClause do
    keyword "catch"
    let parameter ← (do
      punct "("
      let name ← under .parameter (bindingName g)
      let type ← optionalTypeAscription g
      punct ")"
      return name :: type) <|> pure []
    let body ← under .body (g (.block false))
    return parameter ++ [body]

def tryStatement : Reader Node :=
  node .tryStatement do
    keyword "try"
    let body ← under .body (g (.block false))
    let handler ← maybe (under .handler (catchClause g))
    let finalizer ← maybe <| under .finalizer <| node .finallyClause do
      keyword "finally"
      one (under .body (g (.block false)))
    return body :: handler ++ finalizer

def withStatement : Reader Node :=
  node .withStatement do
    keyword "with"
    let object ← under .object (parenthesized g)
    let body ← under .body (g .statement)
    return [object, body]

def switchCase : Reader Node :=
  (node .switchCase do
    keyword "case"
    let value ← under .value (g .sequence)
    punct ":"
    let body ← statements
    return value :: body) <|>
  node .switchDefault do
    keyword "default"
    punct ":"
    statements
where
  statements : Reader (List Node) := many <| under .body do
    Reader.guard (!(["case", "default"].contains (← peekWord)))
    g .statement

def switchStatement : Reader Node :=
  node .switchStatement do
    keyword "switch"
    let value ← under .value (parenthesized g)
    let body ← under .body <| node .switchBody do
      punct "\x7b"
      let cases ← many (switchCase g)
      punct "\x7d"
      return cases
    return [value, body]

/-- A jump, to a label if one stands on the same line. -/
def jump (kind : Kind) (text : String) : Reader Node :=
  node kind do
    keyword text
    (do
      automaticSemicolon false
      return []) <|> do
    let label ← maybe (under .label (word .statementIdentifier))
    semicolon false
    return label

def returnStatement : Reader Node :=
  node .returnStatement do
    keyword "return"
    (do
      semicolon false
      return []) <|> do
    let value ← g .sequence
    semicolon true
    return [value]

def throwStatement : Reader Node :=
  node .throwStatement do
    keyword "throw"
    let value ← g .sequence
    semicolon true
    return [value]

def debuggerStatement : Reader Node :=
  node .debuggerStatement do
    keyword "debugger"
    semicolon false
    return []

def labeledStatement : Reader Node :=
  node .labeledStatement do
    let label ← under .label (wordExcept reservedWords .statementIdentifier)
    operator ":"
    let body ← under .body (g .statement)
    return [label, body]

/-- A function with a name; without a body it is a signature. -/
def functionDeclaration : Reader Node := do
  let start ← skipTrivia
  if (← peekWord) == "async" then keyword "async" else pure ()
  keyword "function"
  let star ← Reader.optional (punct "*")
  let name ← under .name (word .identifier)
  let signature ← callSignature g
  (do
    let body ← under .body (g (.block false))
    blockEnd false
    let kind := if star.isSome then Kind.generatorFunctionDeclaration else .functionDeclaration
    return .mk none kind start (← cursor).last (name :: signature ++ [body])) <|> do
    Reader.guard star.isNone
    signatureEnd'
    return .mk none .functionSignature start (← cursor).last (name :: signature)
where
  signatureEnd' : Reader Unit := do
    notAhead (punct "\x7b")
    semicolon false

def classDeclaration : Reader Node := do
  let start ← skipTrivia
  let decorations ← decorators g
  let kind ← (do
    keyword "abstract"
    return Kind.abstractClassDeclaration) <|> pure .classDeclaration
  let rest ← classRest g true
  if kind == .classDeclaration then blockEnd false
  return .mk none kind start (← cursor).last (decorations ++ rest)

def typeAlias : Reader Node :=
  node .typeAliasDeclaration do
    keyword "type"
    let name ← under .name (word .typeIdentifier)
    let generics ← optionalTypeParameters g
    operator "="
    let value ← under .value (g .typed)
    semicolon false
    return name :: generics ++ [value]

def enumDeclaration : Reader Node :=
  node .enumDeclaration do
    let _ ← Reader.optional (keyword "const")
    keyword "enum"
    let name ← under .name (word .identifier)
    let entry :=
      (node .enumAssignment do
        let name ← under .name (propertyName g)
        let value ← initializer g
        return name :: value) <|> under .name (propertyName g)
    let body ← under .body <| node .enumBody do
      punct "\x7b"
      let entries ← (sepBy1 entry (punct ",")) <|> pure []
      let _ ← Reader.optional (punct ",")
      punct "\x7d"
      return entries
    return [name, body]

def interfaceDeclaration : Reader Node :=
  node .interfaceDeclaration do
    keyword "interface"
    let name ← under .name (word .typeIdentifier)
    let generics ← optionalTypeParameters g
    let parents ← maybe <| node .extendsTypeClause do
      keyword "extends"
      sepBy1 (under .typed (namedType g)) (punct ",")
    let body ← under .body (objectTypeBody g .interfaceBody)
    return name :: generics ++ parents ++ [body]

def importAlias : Reader Node :=
  node .importAlias do
    keyword "import"
    let name ← word .identifier
    operator "="
    let target ← qualifiedName .nestedIdentifier .object .property (word .propertyIdentifier) <|>
      word .identifier
    semicolon false
    return [name, target]

/-- A namespace is an expression when a line's end follows it, and a declaration when more
follows on its line. -/
def namespaceStatement : Reader Node := do
  let inner ← namespaceBlock g "namespace" .internalModule
  (do
    automaticSemicolon true
    nodeFrom inner .expressionStatement [inner]) <|> pure inner

/-- Declarations that can be exported or declared ambient. -/
def declarationStatement : Reader Node := do
  let w ← peekWord
  match w with
  | "var" | "let" => declaration g semicolon
  | "const" => enumDeclaration g <|> declaration g semicolon
  | "function" => functionDeclaration g
  | "async" => functionDeclaration g
  | "class" | "abstract" => classDeclaration g
  | "type" => typeAlias g
  | "enum" => enumDeclaration g
  | "interface" => interfaceDeclaration g
  | "module" => namespaceBlock g "module" .moduleDeclaration
  | "import" => importAlias
  | "declare" => ambient
  | "" => do
    Reader.guard (← opens "@")
    classDeclaration g
  | _ => fail
where
  ambient : Reader Node := node .ambientDeclaration do
    keyword "declare"
    sameLine
    firstOf [
      do
        keyword "global"
        one (g (.block false)),
      do
        keyword "module"
        punct "."
        let name ← word .propertyIdentifier
        punct ":"
        let type ← g .typed
        semicolon false
        return [name, type],
      one (namespaceBlock g "namespace" .internalModule),
      do
        Reader.guard (declarable.contains (← peekWord))
        one (g .statement)]
  declarable : List String := ["var", "let", "const", "function", "async", "class", "abstract",
    "type", "enum", "interface", "module", "import"]

def fromClause : Reader (List Node) := do
  keyword "from"
  one (under .source stringLiteral)

def externalName (kind : Kind) : Reader Node := word kind <|> stringLiteral

def importSpecifier : Reader Node :=
  node .importSpecifier do
    let plain : Reader (List Node) := (do
      let name ← under .name (externalName .identifier)
      keyword "as"
      let asName ← under .asName (word .identifier)
      followed
      return [name, asName]) <|> do
      let name ← under .name (word .identifier)
      followed
      return [name]
    plain <|> do
      keyword "type" <|> keyword "typeof"
      plain
where
  followed : Reader Unit := ahead (punct "," <|> punct "\x7d")

def namespaceImport : Reader Node :=
  node .namespaceImport do
    punct "*"
    keyword "as"
    one (word .identifier)

def namedImports : Reader Node :=
  node .namedImports do
    punct "\x7b"
    let names ← (sepBy1 importSpecifier (punct ",")) <|> pure []
    let _ ← Reader.optional (punct ",")
    punct "\x7d"
    return names

def importClause : Reader Node :=
  node .importClause <| firstOf [
    one namespaceImport,
    one namedImports,
    do
      let name ← word .identifier
      let more ← (do
        punct ","
        one (namespaceImport <|> namedImports)) <|> pure []
      return name :: more]

def importAttribute : Reader Node :=
  node .importAttribute do
    keyword "with" <|> (do sameLine; keyword "assert")
    one (objectLiteral g)

def importRequireClause : Reader Node :=
  node .importRequireClause do
    let name ← word .identifier
    operator "="
    keyword "require"
    punct "("
    let source ← under .source stringLiteral
    punct ")"
    return [name, source]

def importStatement : Reader Node :=
  node .importStatement do
    keyword "import"
    let inner : Reader (List Node) := firstOf [
      do
        let clause ← importClause
        let source ← fromClause
        return clause :: source,
      one importRequireClause,
      one (under .source stringLiteral)]
    let parts ← inner <|> do
      keyword "type" <|> keyword "typeof"
      inner
    let attributes ← maybe (importAttribute g)
    semicolon false
    return parts ++ attributes

def exportSpecifier : Reader Node :=
  node .exportSpecifier do
    let plain : Reader (List Node) := do
      let name ← under .name (externalName .identifier)
      let asName ← maybe do
        keyword "as"
        under .asName (externalName .identifier)
      ahead (punct "," <|> punct "\x7d")
      return name :: asName
    plain <|> do
      keyword "type" <|> keyword "typeof"
      plain

def exportClause : Reader Node :=
  node .exportClause do
    punct "\x7b"
    let names ← (sepBy1 exportSpecifier (punct ",")) <|> pure []
    let _ ← Reader.optional (punct ",")
    punct "\x7d"
    return names

def exportStatement : Reader Node := do
  let start ← skipTrivia
  let decorations ← decorators g
  keyword "export"
  let parts ← firstOf [
    do
      punct "*"
      let source ← fromClause
      semicolon false
      return source,
    do
      let spaceName ← node .namespaceExport do
        punct "*"
        keyword "as"
        one (externalName .identifier)
      let source ← fromClause
      semicolon false
      return spaceName :: source,
    do
      let clause ← exportClause
      let source ← fromClause <|> pure []
      semicolon false
      return clause :: source,
    do
      keyword "default"
      (do
        let inner ← under .declaration (exported true)
        return [inner]) <|> do
      let value ← under .value (g .expression)
      semicolon true
      return [value],
    do
      keyword "type"
      let clause ← exportClause
      let source ← fromClause <|> pure []
      semicolon false
      return clause :: source,
    do
      keyword "import"
      let name ← word .identifier
      operator "="
      let target ← qualifiedName .nestedIdentifier .object .property
        (word .propertyIdentifier) <|> word .identifier
      semicolon false
      return [name, target],
    do
      operator "="
      let value ← g .expression
      semicolon true
      return [value],
    do
      keyword "as"
      keyword "namespace"
      let name ← word .identifier
      semicolon false
      return [name],
    one (under .declaration (exported false))]
  return .mk none .exportStatement start (← cursor).last (decorations ++ parts)
where
  exported (asDefault : Bool) : Reader Node :=
    if asDefault then
      functionDeclaration g <|> classDeclaration g <|> interfaceDeclaration g
    else declarationStatement g <|> namespaceBlock g "namespace" .internalModule

/-- A statement that starts with a brace is a block, unless it reads as an object: one
whose first entry looks like a labeled statement is an object where it can be. -/
def bracedStatement : Reader Node :=
  (do
    let b ← block g false
    Reader.guard (b.children.head?.all (·.kind != .labeledStatement))
    return b) <|> expressionStatement g <|> block g false

def statement : Reader Node := do
  let p ← skipTrivia
  match (← input).char? p with
  | none => fail
  | some ('\x7b', _) => bracedStatement g
  | some (';', _) => emptyStatement
  | some ('@', _) => exportStatement g <|> classDeclaration g
  | some _ =>
    let plain := labeledStatement g <|> expressionStatement g
    match ← peekWord with
    | "if" => ifStatement g
    | "for" => forStatement g
    | "while" => whileStatement g
    | "do" => doStatement g
    | "try" => tryStatement g
    | "with" => withStatement g
    | "switch" => switchStatement g
    | "break" => jump .breakStatement "break"
    | "continue" => jump .continueStatement "continue"
    | "return" => returnStatement g
    | "throw" => throwStatement g
    | "debugger" => debuggerStatement
    | "import" => importStatement g <|> importAlias <|> expressionStatement g
    | "export" => exportStatement g
    | "var" | "const" | "function" | "class" | "enum" => declarationStatement g
    | "let" =>
      -- a `let` alone on its line is a name
      (do
        notAhead (do keyword "let"; automaticSemicolon true)
        declarationStatement g) <|> plain
    | "type" | "interface" | "module" | "declare" | "abstract" =>
      declarationStatement g <|> plain
    | "async" => functionDeclaration g <|> plain
    | "namespace" => namespaceStatement g <|> plain
    | "" => expressionStatement g
    | _ => plain

end TestMigration.Script.Rules
