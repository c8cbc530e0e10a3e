/-! The kinds of node in the concrete tree of a test script, and the fields under which
a node holds its children. A kind is printed by its grammar name; a keyword or operator
that a field names is a node of kind `token`. -/

namespace TestMigration.Script

inductive Kind where
  | program | hashBangLine | comment | exportStatement | namespaceExport
  | exportClause | exportSpecifier | importStatement | importClause | importRequireClause
  | namespaceImport | namedImports | importSpecifier | importAttribute | importAlias
  | debuggerStatement | expressionStatement | variableDeclaration | lexicalDeclaration
  | variableDeclarator | statementBlock | ifStatement | elseClause | switchStatement
  | switchBody | switchCase | switchDefault | forStatement | forInStatement | whileStatement
  | doStatement | tryStatement | catchClause | finallyClause | withStatement | breakStatement
  | continueStatement | returnStatement | throwStatement | emptyStatement | labeledStatement
  | parenthesizedExpression | sequenceExpression | assignmentExpression
  | augmentedAssignmentExpression | awaitExpression | unaryExpression | binaryExpression
  | ternaryExpression | updateExpression | newExpression | yieldExpression
  | subscriptExpression | memberExpression | callExpression | arguments | spreadElement
  | optionalChain | metaProperty | number | string | stringFragment | escapeSequence
  | templateString | templateSubstitution | regex | regexPattern | regexFlags | object | pair
  | array | identifier | propertyIdentifier | privatePropertyIdentifier
  | shorthandPropertyIdentifier | shorthandPropertyIdentifierPattern | statementIdentifier
  | computedPropertyName | objectPattern | pairPattern | restPattern | objectAssignmentPattern
  | assignmentPattern | arrayPattern | functionExpression | functionDeclaration
  | generatorFunction | generatorFunctionDeclaration | arrowFunction | formalParameters
  | requiredParameter | optionalParameter | methodDefinition | classDeclaration
  | abstractClassDeclaration | classBody | classHeritage | extendsClause | implementsClause
  | classStaticBlock | publicFieldDefinition | methodSignature | abstractMethodSignature
  | accessibilityModifier | overrideModifier | decorator | jsxElement | jsxOpeningElement
  | jsxClosingElement | jsxSelfClosingElement | jsxExpression | jsxAttribute | jsxText
  | jsxNamespaceName | htmlCharacterReference | asExpression | satisfiesExpression
  | nonNullExpression | instantiationExpression | typeAssertion | internalModule
  | ambientDeclaration | functionSignature | typeAliasDeclaration | enumDeclaration | enumBody
  | enumAssignment | interfaceDeclaration | interfaceBody | extendsTypeClause | indexSignature
  | mappedTypeClause | propertySignature | callSignature | constructSignature | typeAscription
  | omittingTypeAscription | addingTypeAscription | optingTypeAscription | assertsAscription
  | typePredicateAscription | asserts | typePredicate | typeIdentifier | nestedIdentifier
  | nestedTypeIdentifier | predefinedType | genericType | typeArguments | typeParameters
  | typeParameter | constraint | defaultType | objectType | arrayType | tupleType
  | optionalType | restType | readonlyType | unionType | intersectionType | functionType
  | constructorType | conditionalType | inferType | parenthesizedType | lookupType
  | indexTypeQuery | typeQuery | literalType | templateLiteralType | templateType
  | existentialType | flowMaybeType | importCallee | thisExpression | superExpression
  | trueLiteral | falseLiteral | nullLiteral | undefinedLiteral | classExpression
  | moduleDeclaration | thisType
  | token (text : String)
  deriving DecidableEq, Repr, Inhabited

namespace Kind

/-- The grammar's name for a kind; a token is named by its own text. -/
def name : Kind → String
  | .program => "program"
  | .hashBangLine => "hash_bang_line"
  | .comment => "comment"
  | .exportStatement => "export_statement"
  | .namespaceExport => "namespace_export"
  | .exportClause => "export_clause"
  | .exportSpecifier => "export_specifier"
  | .importStatement => "import_statement"
  | .importClause => "import_clause"
  | .importRequireClause => "import_require_clause"
  | .namespaceImport => "namespace_import"
  | .namedImports => "named_imports"
  | .importSpecifier => "import_specifier"
  | .importAttribute => "import_attribute"
  | .importAlias => "import_alias"
  | .debuggerStatement => "debugger_statement"
  | .expressionStatement => "expression_statement"
  | .variableDeclaration => "variable_declaration"
  | .lexicalDeclaration => "lexical_declaration"
  | .variableDeclarator => "variable_declarator"
  | .statementBlock => "statement_block"
  | .ifStatement => "if_statement"
  | .elseClause => "else_clause"
  | .switchStatement => "switch_statement"
  | .switchBody => "switch_body"
  | .switchCase => "switch_case"
  | .switchDefault => "switch_default"
  | .forStatement => "for_statement"
  | .forInStatement => "for_in_statement"
  | .whileStatement => "while_statement"
  | .doStatement => "do_statement"
  | .tryStatement => "try_statement"
  | .catchClause => "catch_clause"
  | .finallyClause => "finally_clause"
  | .withStatement => "with_statement"
  | .breakStatement => "break_statement"
  | .continueStatement => "continue_statement"
  | .returnStatement => "return_statement"
  | .throwStatement => "throw_statement"
  | .emptyStatement => "empty_statement"
  | .labeledStatement => "labeled_statement"
  | .parenthesizedExpression => "parenthesized_expression"
  | .sequenceExpression => "sequence_expression"
  | .assignmentExpression => "assignment_expression"
  | .augmentedAssignmentExpression => "augmented_assignment_expression"
  | .awaitExpression => "await_expression"
  | .unaryExpression => "unary_expression"
  | .binaryExpression => "binary_expression"
  | .ternaryExpression => "ternary_expression"
  | .updateExpression => "update_expression"
  | .newExpression => "new_expression"
  | .yieldExpression => "yield_expression"
  | .subscriptExpression => "subscript_expression"
  | .memberExpression => "member_expression"
  | .callExpression => "call_expression"
  | .arguments => "arguments"
  | .spreadElement => "spread_element"
  | .optionalChain => "optional_chain"
  | .metaProperty => "meta_property"
  | .number => "number"
  | .string => "string"
  | .stringFragment => "string_fragment"
  | .escapeSequence => "escape_sequence"
  | .templateString => "template_string"
  | .templateSubstitution => "template_substitution"
  | .regex => "regex"
  | .regexPattern => "regex_pattern"
  | .regexFlags => "regex_flags"
  | .object => "object"
  | .pair => "pair"
  | .array => "array"
  | .identifier => "identifier"
  | .propertyIdentifier => "property_identifier"
  | .privatePropertyIdentifier => "private_property_identifier"
  | .shorthandPropertyIdentifier => "shorthand_property_identifier"
  | .shorthandPropertyIdentifierPattern => "shorthand_property_identifier_pattern"
  | .statementIdentifier => "statement_identifier"
  | .computedPropertyName => "computed_property_name"
  | .objectPattern => "object_pattern"
  | .pairPattern => "pair_pattern"
  | .restPattern => "rest_pattern"
  | .objectAssignmentPattern => "object_assignment_pattern"
  | .assignmentPattern => "assignment_pattern"
  | .arrayPattern => "array_pattern"
  | .functionExpression => "function_expression"
  | .functionDeclaration => "function_declaration"
  | .generatorFunction => "generator_function"
  | .generatorFunctionDeclaration => "generator_function_declaration"
  | .arrowFunction => "arrow_function"
  | .formalParameters => "formal_parameters"
  | .requiredParameter => "required_parameter"
  | .optionalParameter => "optional_parameter"
  | .methodDefinition => "method_definition"
  | .classDeclaration => "class_declaration"
  | .abstractClassDeclaration => "abstract_class_declaration"
  | .classBody => "class_body"
  | .classHeritage => "class_heritage"
  | .extendsClause => "extends_clause"
  | .implementsClause => "implements_clause"
  | .classStaticBlock => "class_static_block"
  | .publicFieldDefinition => "public_field_definition"
  | .methodSignature => "method_signature"
  | .abstractMethodSignature => "abstract_method_signature"
  | .accessibilityModifier => "accessibility_modifier"
  | .overrideModifier => "override_modifier"
  | .decorator => "decorator"
  | .jsxElement => "jsx_element"
  | .jsxOpeningElement => "jsx_opening_element"
  | .jsxClosingElement => "jsx_closing_element"
  | .jsxSelfClosingElement => "jsx_self_closing_element"
  | .jsxExpression => "jsx_expression"
  | .jsxAttribute => "jsx_attribute"
  | .jsxText => "jsx_text"
  | .jsxNamespaceName => "jsx_namespace_name"
  | .htmlCharacterReference => "html_character_reference"
  | .asExpression => "as_expression"
  | .satisfiesExpression => "satisfies_expression"
  | .nonNullExpression => "non_null_expression"
  | .instantiationExpression => "instantiation_expression"
  | .typeAssertion => "type_assertion"
  | .internalModule => "internal_module"
  | .ambientDeclaration => "ambient_declaration"
  | .functionSignature => "function_signature"
  | .typeAliasDeclaration => "type_alias_declaration"
  | .enumDeclaration => "enum_declaration"
  | .enumBody => "enum_body"
  | .enumAssignment => "enum_assignment"
  | .interfaceDeclaration => "interface_declaration"
  | .interfaceBody => "interface_body"
  | .extendsTypeClause => "extends_type_clause"
  | .indexSignature => "index_signature"
  | .mappedTypeClause => "mapped_type_clause"
  | .propertySignature => "property_signature"
  | .callSignature => "call_signature"
  | .constructSignature => "construct_signature"
  | .typeAscription => "type_annotation"
  | .omittingTypeAscription => "omitting_type_annotation"
  | .addingTypeAscription => "adding_type_annotation"
  | .optingTypeAscription => "opting_type_annotation"
  | .assertsAscription => "asserts_annotation"
  | .typePredicateAscription => "type_predicate_annotation"
  | .asserts => "asserts"
  | .typePredicate => "type_predicate"
  | .typeIdentifier => "type_identifier"
  | .nestedIdentifier => "nested_identifier"
  | .nestedTypeIdentifier => "nested_type_identifier"
  | .predefinedType => "predefined_type"
  | .genericType => "generic_type"
  | .typeArguments => "type_arguments"
  | .typeParameters => "type_parameters"
  | .typeParameter => "type_parameter"
  | .constraint => "constraint"
  | .defaultType => "default_type"
  | .objectType => "object_type"
  | .arrayType => "array_type"
  | .tupleType => "tuple_type"
  | .optionalType => "optional_type"
  | .restType => "rest_type"
  | .readonlyType => "readonly_type"
  | .unionType => "union_type"
  | .intersectionType => "intersection_type"
  | .functionType => "function_type"
  | .constructorType => "constructor_type"
  | .conditionalType => "conditional_type"
  | .inferType => "infer_type"
  | .parenthesizedType => "parenthesized_type"
  | .lookupType => "lookup_type"
  | .indexTypeQuery => "index_type_query"
  | .typeQuery => "type_query"
  | .literalType => "literal_type"
  | .templateLiteralType => "template_literal_type"
  | .templateType => "template_type"
  | .existentialType => "existential_type"
  | .flowMaybeType => "flow_maybe_type"
  | .importCallee => "import"
  | .thisExpression => "this"
  | .superExpression => "super"
  | .trueLiteral => "true"
  | .falseLiteral => "false"
  | .nullLiteral => "null"
  | .undefinedLiteral => "undefined"
  | .classExpression => "class"
  | .moduleDeclaration => "module"
  | .thisType => "this_type"
  | .token text => text

/-- Tokens are the unnamed nodes: a walk over named nodes passes them by. -/
def isNamed : Kind → Bool
  | .token _ => false
  | _ => true

/-- The kinds whose children stand in statement position. -/
def holdsStatements : Kind → Bool
  | .program | .statementBlock | .switchCase | .switchDefault => true
  | _ => false

end Kind

inductive Field where
  | name | value | body | callee | arguments | object | property | left | right | source
  | declaration | keyword | parameters | parameter | condition | consequence | alternative
  | initializer | increment | operator | argument | label | key | index | constructed
  | typeArguments | typeParameters | returnType | typed | target | decorator | handler
  | finalizer | openTag | closeTag | attribute | optionalChain | sign | indexType | constraint
  | flags | asName | moduleName
  deriving DecidableEq, Repr, Inhabited

namespace Field

/-- The grammar's name for a field. -/
def spelling : Field → String
  | .name => "name"
  | .value => "value"
  | .body => "body"
  | .callee => "function"
  | .arguments => "arguments"
  | .object => "object"
  | .property => "property"
  | .left => "left"
  | .right => "right"
  | .source => "source"
  | .declaration => "declaration"
  | .keyword => "kind"
  | .parameters => "parameters"
  | .parameter => "parameter"
  | .condition => "condition"
  | .consequence => "consequence"
  | .alternative => "alternative"
  | .initializer => "initializer"
  | .increment => "increment"
  | .operator => "operator"
  | .argument => "argument"
  | .label => "label"
  | .key => "key"
  | .index => "index"
  | .constructed => "constructor"
  | .typeArguments => "type_arguments"
  | .typeParameters => "type_parameters"
  | .returnType => "return_type"
  | .typed => "type"
  | .target => "pattern"
  | .decorator => "decorator"
  | .handler => "handler"
  | .finalizer => "finalizer"
  | .openTag => "open_tag"
  | .closeTag => "close_tag"
  | .attribute => "attribute"
  | .optionalChain => "optional_chain"
  | .sign => "sign"
  | .indexType => "index_type"
  | .constraint => "constraint"
  | .flags => "flags"
  | .asName => "alias"
  | .moduleName => "module"

/-- Every field, in no particular order. -/
def all : List Field :=
  [.name, .value, .body, .callee, .arguments, .object, .property, .left, .right, .source,
  .declaration, .keyword, .parameters, .parameter, .condition, .consequence, .alternative,
  .initializer, .increment, .operator, .argument, .label, .key, .index, .constructed,
  .typeArguments, .typeParameters, .returnType, .typed, .target, .decorator, .handler,
  .finalizer, .openTag, .closeTag, .attribute, .optionalChain, .sign, .indexType, .constraint,
  .flags, .asName, .moduleName]

def ofName? (text : String) : Option Field :=
  all.find? (·.spelling == text)

end Field

end TestMigration.Script
