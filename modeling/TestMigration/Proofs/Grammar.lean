import TestMigration.Proofs.Steady

/-! Rules that keep to cuts, where the rules that they refer to do: the forms that many rules share,
types, targets, markup and classes. Of most rules there is nothing to say but how they are put together;
those that look at offsets themselves have a proof of their own. -/

namespace TestMigration.Script

/-- All the rules keep to cuts. -/
class SteadyAll (source : String) (g : Rules) : Prop where
  moves : ∀ rule, Steady source (g rule)

namespace Rules

-- a rule with many parts in a row has a large instance
set_option synthInstance.maxSize 65536

open Reader

variable {source : String} {g : Rules}

instance steady_rule {rule : Rule} [hg : SteadyAll source g] : Steady source (g rule) := hg.moves rule

variable [SteadyAll source g]

/-! ## Forms that many rules share -/

instance steady_commaList_entries {r : Reader Node} {close : String} [Steady source r] (fuel : Nat) :
    Steady source (commaList.entries r close fuel) := by
  induction fuel with
  | zero =>
    unfold commaList.entries
    infer_instance
  | succ fuel ih =>
    unfold commaList.entries
    infer_instance

instance steady_commaList {r : Reader Node} {close : String} [Steady source r] :
    Steady source (commaList r close) := by
  unfold commaList
  infer_instance

instance steady_bracketed {openMark close : String} {r : Reader Node} [Steady source r] :
    Steady source (bracketed openMark close r) := by
  unfold bracketed
  infer_instance

instance steady_initializer : Steady source (initializer g) := by
  unfold initializer
  infer_instance

instance steady_optionalInitializer : Steady source (optionalInitializer g) := by
  unfold optionalInitializer
  infer_instance

instance steady_spread : Steady source (spread g) := by
  unfold spread
  infer_instance

instance steady_computedName : Steady source (computedName g) := by
  unfold computedName
  infer_instance

instance steady_propertyName : Steady source (propertyName g) := by
  unfold propertyName
  infer_instance

instance steady_modifier {text : String} : Steady source (modifier text) := by
  unfold modifier
  infer_instance

instance steady_optionalModifier {text : String} : Steady source (optionalModifier text) := by
  unfold optionalModifier
  infer_instance

instance steady_typeParameters : Steady source (typeParameters g) := by
  unfold typeParameters
  dsimp only
  infer_instance

instance steady_optionalTypeParameters : Steady source (optionalTypeParameters g) := by
  unfold optionalTypeParameters
  infer_instance

instance steady_typeArguments : Steady source (typeArguments g) := by
  unfold typeArguments
  infer_instance

instance steady_innerTypeArguments : Steady source (innerTypeArguments g) := by
  unfold innerTypeArguments
  infer_instance

instance steady_optionalTypeArguments : Steady source (optionalTypeArguments g) := by
  unfold optionalTypeArguments
  infer_instance

instance steady_typeAscription : Steady source (typeAscription g) := by
  unfold typeAscription
  infer_instance

instance steady_optionalTypeAscription : Steady source (optionalTypeAscription g) := by
  unfold optionalTypeAscription
  infer_instance

instance steady_typePredicate : Steady source (typePredicate g) := by
  unfold typePredicate
  infer_instance

instance steady_assertion : Steady source (assertion g) := by
  unfold assertion
  infer_instance

instance steady_returnAscription : Steady source (returnAscription g) := by
  unfold returnAscription
  infer_instance

instance steady_optionalReturnAscription : Steady source (optionalReturnAscription g) := by
  unfold optionalReturnAscription
  infer_instance

instance steady_decoratorChain (fuel : Nat) {n : Node} [OnCuts source n] :
    Steady source (decoratorChain fuel n) := by
  induction fuel generalizing n with
  | zero =>
    unfold decoratorChain
    infer_instance
  | succ fuel ih =>
    unfold decoratorChain
    infer_instance

instance steady_argumentList : Steady source (argumentList g) := by
  unfold argumentList
  infer_instance

instance steady_decorator : Steady source (decorator g) := by
  unfold decorator
  dsimp only
  infer_instance

instance steady_decorators : Steady source (decorators g) := by
  unfold decorators
  infer_instance

instance steady_accessibility : Steady source (accessibility) := by
  unfold accessibility
  infer_instance

instance steady_overriding : Steady source (overriding) := by
  unfold overriding
  infer_instance

instance steady_parameter : Steady source (parameter g) := by
  unfold parameter
  dsimp only
  infer_instance

instance steady_formalParameters : Steady source (formalParameters g) := by
  unfold formalParameters
  infer_instance

instance steady_callSignature : Steady source (callSignature g) := by
  unfold callSignature
  infer_instance

/-! ## Types -/

/-- A sign in front of a number or a mapped type's modifier. -/
theorem scans_mark {c : Char} (hc : Narrow c) :
    Scans source fun i p => if i.is p c then some (p + 1) else none := by
  refine ⟨fun hi hp h => ?_⟩
  obtain ⟨hmark, h⟩ := Option.ite_none_right_eq_some.mp h
  cases h
  exact Input.cut_is hi hp hmark hc

instance scans_minus : Scans source fun i p => if i.is p '-' then some (p + 1) else none :=
  scans_mark (by decide)

instance scans_plus : Scans source fun i p => if i.is p '+' then some (p + 1) else none :=
  scans_mark (by decide)

instance steady_predefinedType : Steady source (predefinedType) := by
  unfold predefinedType
  infer_instance

instance steady_qualifiedName_chain {kind : Kind} {outerRole lastRole : Field} {last : Reader Node}
    [Steady source last] (fuel : Nat) {n : Node} [OnCuts source n] :
    Steady source (qualifiedName.chain kind outerRole lastRole last fuel n) := by
  induction fuel generalizing n with
  | zero =>
    unfold qualifiedName.chain
    infer_instance
  | succ fuel ih =>
    unfold qualifiedName.chain
    infer_instance

instance steady_qualifiedName {kind : Kind} {outerRole lastRole : Field} {last : Reader Node}
    [Steady source last] : Steady source (qualifiedName kind outerRole lastRole last) := by
  unfold qualifiedName
  infer_instance

instance steady_namedType : Steady source (namedType g) := by
  unfold namedType
  infer_instance

instance steady_keywordNode {kind : Kind} {text : String} :
    Steady source (keywordNode kind text) := by
  unfold keywordNode
  infer_instance

instance steady_literalType : Steady source (literalType) := by
  unfold literalType
  dsimp only
  infer_instance

instance steady_queriedValue_chain (fuel : Nat) {n : Node} [OnCuts source n] :
    Steady source (queriedValue.chain g fuel n) := by
  induction fuel generalizing n with
  | zero =>
    unfold queriedValue.chain
    infer_instance
  | succ fuel ih =>
    unfold queriedValue.chain
    infer_instance

instance steady_queriedValue : Steady source (queriedValue g) := by
  unfold queriedValue
  infer_instance

instance steady_typeQuery : Steady source (typeQuery g) := by
  unfold typeQuery
  infer_instance

instance steady_tupleMember : Steady source (tupleMember g) := by
  unfold tupleMember
  infer_instance

/-- The text of a template from one hole to the next. -/
theorem onCuts_templateText {i : Input} (hi : i.bytes = source.toUTF8) {c : Cursor}
    (hc : c.OnCuts source) :
    OnCuts source (i.templateTextStop (i.bytes.size + 1 - c.last) c.last) :=
  ⟨Input.cut_templateTextStop hi _ hc.last⟩

/-- Past the mark that opens a hole. -/
theorem onCuts_hole {i : Input} (hi : i.bytes = source.toUTF8) {c : Cursor} (hc : c.OnCuts source)
    (h : i.is (i.templateTextStop (i.bytes.size + 1 - c.last) c.last) '$' = true) :
    OnCuts source (i.templateTextStop (i.bytes.size + 1 - c.last) c.last + 2) :=
  ⟨Input.cut_substitution hi (by omega) hc.last h⟩

/-- Past a mark of one byte. -/
theorem onCuts_past {i : Input} (hi : i.bytes = source.toUTF8) {p : Nat} (hp : OnCuts source p)
    {c : Char} (hc : Narrow c) (h : i.is p c = true) : OnCuts source (p + 1) :=
  ⟨Input.cut_is hi hp.onCuts h hc⟩

theorem steady_templateType_parts {i : Input} (hi : i.bytes = source.toUTF8) (fuel : Nat) :
    Steady source (templateType.parts g i fuel) := by
  induction fuel with
  | zero =>
    unfold templateType.parts
    infer_instance
  | succ fuel ih =>
    unfold templateType.parts
    refine Steady.bind inferInstance fun c => ?_
    have hstop := onCuts_templateText hi c.onCuts
    have hhole := onCuts_hole hi c.onCuts
    dsimp only
    refine Steady.bind inferInstance fun _ => ?_
    split
    · rename_i hend
      have := onCuts_past hi hstop (by decide) hend
      infer_instance
    split
    · rename_i hmark
      have := hhole hmark
      infer_instance
    · infer_instance

instance steady_templateType : Steady source (templateType g) := by
  unfold templateType
  refine Steady.bind inferInstance fun start => Steady.bind inferInstance fun i =>
    steady_guarded fun hquote => ?_
  have := onCuts_past i.onCuts ⟨start.onCuts⟩ (by decide) hquote
  have := @steady_templateType_parts source g _ i.value i.onCuts
  infer_instance

instance steady_mappedClause : Steady source (mappedClause g) := by
  unfold mappedClause
  infer_instance

instance steady_indexSignature : Steady source (indexSignature g) := by
  unfold indexSignature
  infer_instance

instance steady_methodModifiers : Steady source (methodModifiers) := by
  unfold methodModifiers
  infer_instance

instance steady_methodSignature : Steady source (methodSignature g) := by
  unfold methodSignature
  infer_instance

instance steady_propertySignature : Steady source (propertySignature g) := by
  unfold propertySignature
  infer_instance

instance steady_constructSignature : Steady source (constructSignature g) := by
  unfold constructSignature
  infer_instance

instance steady_objectTypeBody {kind : Kind} : Steady source (objectTypeBody g kind) := by
  unfold objectTypeBody
  dsimp only
  infer_instance

instance steady_primaryTypeStart_predefinedTypeAlone :
    Steady source (primaryTypeStart.predefinedTypeAlone) := by
  unfold primaryTypeStart.predefinedTypeAlone
  infer_instance

instance steady_primaryTypeStart : Steady source (primaryTypeStart g) := by
  unfold primaryTypeStart
  infer_instance

instance steady_primaryType_suffixes (fuel : Nat) {n : Node} [OnCuts source n] :
    Steady source (primaryType.suffixes g fuel n) := by
  induction fuel generalizing n with
  | zero =>
    unfold primaryType.suffixes
    infer_instance
  | succ fuel ih =>
    unfold primaryType.suffixes
    infer_instance

instance steady_primaryType : Steady source (primaryType g) := by
  unfold primaryType
  infer_instance

instance steady_joinedTypes_more {kind : Kind} {mark : String} {operand : Reader Node}
    [Steady source operand] (fuel : Nat) {n : Node} [OnCuts source n] :
    Steady source (joinedTypes.more kind mark operand fuel n) := by
  induction fuel generalizing n with
  | zero =>
    unfold joinedTypes.more
    infer_instance
  | succ fuel ih =>
    unfold joinedTypes.more
    infer_instance

instance steady_joinedTypes {kind : Kind} {mark : String} {operand : Reader Node}
    [Steady source operand] : Steady source (joinedTypes kind mark operand) := by
  unfold joinedTypes
  infer_instance

instance steady_readonlyType : Steady source (readonlyType g) := by
  unfold readonlyType
  infer_instance

instance steady_inferType : Steady source (inferType g) := by
  unfold inferType
  infer_instance

instance steady_importedType_more {member called : Node → Reader Node}
    [hmember : ∀ n : Aligned source Node, Steady source (member n.value)]
    [hcalled : ∀ n : Aligned source Node, Steady source (called n.value)] (fuel : Nat) {n : Node}
    [hn : OnCuts source n] : Steady source (importedType.more member called fuel n) := by
  induction fuel generalizing n with
  | zero =>
    unfold importedType.more
    infer_instance
  | succ fuel ih =>
    have hfirst : Steady source (member n) := hmember ⟨n, hn.onCuts⟩
    have hsecond : Steady source (called n) := hcalled ⟨n, hn.onCuts⟩
    unfold importedType.more
    infer_instance

instance steady_importedType : Steady source (importedType g) := by
  unfold importedType
  dsimp only
  infer_instance

instance steady_intersectionType : Steady source (intersectionType g) := by
  unfold intersectionType
  infer_instance

instance steady_unionType : Steady source (unionType g) := by
  unfold unionType
  infer_instance

instance steady_functionType : Steady source (functionType g) := by
  unfold functionType
  infer_instance

instance steady_constructorType : Steady source (constructorType g) := by
  unfold constructorType
  infer_instance

instance steady_typed : Steady source (typed g) := by
  unfold typed
  infer_instance

/-! ## Targets -/

instance steady_restTarget {references : Bool} : Steady source (restTarget g references) := by
  unfold restTarget
  infer_instance

instance steady_targetWithDefault {references : Bool} :
    Steady source (targetWithDefault g references) := by
  unfold targetWithDefault
  infer_instance

instance steady_arrayPattern {references : Bool} : Steady source (arrayPattern g references) := by
  unfold arrayPattern
  infer_instance

instance steady_objectPatternEntry {references : Bool} :
    Steady source (objectPatternEntry g references) := by
  unfold objectPatternEntry
  dsimp only
  infer_instance

instance steady_objectPattern {references : Bool} : Steady source (objectPattern g references) := by
  unfold objectPattern
  infer_instance

instance steady_destructuring {references : Bool} : Steady source (destructuring g references) := by
  unfold destructuring
  infer_instance

instance steady_bindingName : Steady source (bindingName g) := by
  unfold bindingName
  infer_instance

instance steady_reference : Steady source (reference g) := by
  unfold reference
  infer_instance

instance steady_target {references : Bool} : Steady source (target g references) := by
  unfold target
  infer_instance

/-! ## Markup -/

instance steady_attributeText : Steady source attributeText := by
  unfold attributeText
  refine Steady.bind inferInstance fun start => Steady.bind inferInstance fun i =>
    steady_guarded fun hquote => ?_
  have hbody := Input.cut_is i.onCuts start.onCuts hquote narrow_quote
  split
  · rename_i parts stop hparts
    obtain ⟨hstop, hparts⟩ := Input.onCuts_attributeParts? i.onCuts narrow_quote hbody hbody
      (List.forall_mem_nil _) hparts
    have : OnCuts source stop := ⟨hstop⟩
    have : OnCuts source parts := ⟨hparts⟩
    infer_instance
  · infer_instance

instance steady_markupExpression : Steady source (markupExpression g) := by
  unfold markupExpression
  infer_instance

instance steady_markupName {kind : Kind} : Steady source (markupName kind) := by
  have : Scans source Input.markupNameStop? := ⟨Input.cut_markupNameStop?⟩
  unfold markupName
  infer_instance

instance steady_namespacedName : Steady source (namespacedName) := by
  unfold namespacedName
  infer_instance

instance steady_elementName_chain (fuel : Nat) {n : Node} [OnCuts source n] :
    Steady source (elementName.chain fuel n) := by
  induction fuel generalizing n with
  | zero =>
    unfold elementName.chain
    infer_instance
  | succ fuel ih =>
    unfold elementName.chain
    infer_instance

instance steady_elementName : Steady source (elementName) := by
  unfold elementName
  infer_instance

instance steady_markupAttribute : Steady source (markupAttribute g) := by
  unfold markupAttribute
  infer_instance

instance steady_tagInside : Steady source (tagInside g) := by
  unfold tagInside
  infer_instance

instance steady_closingTag : Steady source (closingTag) := by
  unfold closingTag
  infer_instance

instance steady_child : Steady source (child g) := by
  have : Scans source Input.characterReferenceStop? := ⟨Input.cut_characterReferenceStop?⟩
  unfold child
  refine Steady.bind inferInstance fun _ => Steady.bind inferInstance fun c =>
    Steady.bind inferInstance fun i => ?_
  have hstop : Cut source (i.value.markupText (i.value.bytes.size + 1 - c.value.last)
      c.value.last false false).1 := Input.cut_markupText i.onCuts c.onCuts.last
  split
  · rename_i stop htext
    rw [htext] at hstop
    have : OnCuts source stop := ⟨hstop⟩
    infer_instance
  · infer_instance

instance steady_element : Steady source (element g) := by
  unfold element
  dsimp only
  infer_instance

/-! ## Classes -/

instance steady_methodDefinition : Steady source (methodDefinition g) := by
  unfold methodDefinition
  infer_instance

instance steady_abstractMethodSignature : Steady source (abstractMethodSignature g) := by
  unfold abstractMethodSignature
  infer_instance

instance steady_fieldDefinition : Steady source (fieldDefinition g) := by
  unfold fieldDefinition
  infer_instance

instance steady_signatureEnd : Steady source (signatureEnd) := by
  unfold signatureEnd
  infer_instance

instance steady_classMember : Steady source (classMember g) := by
  unfold classMember
  infer_instance

instance steady_classBody : Steady source (classBody g) := by
  unfold classBody
  infer_instance

instance steady_heritage : Steady source (heritage g) := by
  unfold heritage
  infer_instance

instance steady_classRest {named : Bool} : Steady source (classRest g named) := by
  unfold classRest
  dsimp only
  infer_instance

instance steady_classExpression : Steady source (classExpression g) := by
  unfold classExpression
  infer_instance

instance steady_namespaceBlock_dotted_chain (fuel : Nat) {n : Node} [OnCuts source n] :
    Steady source (namespaceBlock.dotted.chain fuel n) := by
  induction fuel generalizing n with
  | zero =>
    unfold namespaceBlock.dotted.chain
    infer_instance
  | succ fuel ih =>
    unfold namespaceBlock.dotted.chain
    infer_instance

instance steady_namespaceBlock_dotted : Steady source (namespaceBlock.dotted) := by
  unfold namespaceBlock.dotted
  infer_instance

instance steady_namespaceBlock {text : String} {kind : Kind} :
    Steady source (namespaceBlock g text kind) := by
  unfold namespaceBlock
  infer_instance

end Rules

end TestMigration.Script
