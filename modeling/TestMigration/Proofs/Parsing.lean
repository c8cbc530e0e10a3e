import TestMigration.Proofs.Grammar

/-! Expressions and statements keep to cuts, and with them the whole grammar, by induction on how deep
its rules may refer to each other. So every node of a tree begins and ends at a cut, whatever script it
was read from. -/

namespace TestMigration.Script

namespace Rules

-- a rule with many parts in a row has a large instance
set_option synthInstance.maxSize 65536

open Reader

variable {source : String} {g : Rules} [SteadyAll source g]

/-! ## Expressions -/

instance steady_operatorToken {text : String} : Steady source (operatorToken text) := by
  unfold operatorToken
  infer_instance

instance steady_binaryToken {text : String} : Steady source (binaryToken text) := by
  unfold binaryToken
  infer_instance

theorem steady_templateString_parts {i : Input} (hi : i.bytes = source.toUTF8) (fuel : Nat) :
    Steady source (templateString.parts g i fuel) := by
  induction fuel with
  | zero =>
    unfold templateString.parts
    infer_instance
  | succ fuel ih =>
    unfold templateString.parts
    refine Steady.bind inferInstance fun c => ?_
    have hstop := onCuts_templateText hi c.onCuts
    have hhole := onCuts_hole hi c.onCuts
    dsimp only
    refine Steady.bind inferInstance fun _ => ?_
    split
    · rename_i hend
      have := onCuts_past hi hstop (by decide) hend
      infer_instance
    split
    · rename_i hslash
      split
      · rename_i after hafter
        have : OnCuts source after :=
          ⟨Input.cut_escapeStop? hi (onCuts_past hi hstop (by decide) hslash).onCuts hafter⟩
        infer_instance
      · infer_instance
    split
    · rename_i hmark
      have := hhole hmark
      infer_instance
    · infer_instance

instance steady_templateString : Steady source (templateString g) := by
  unfold templateString
  refine Steady.bind inferInstance fun start => Steady.bind inferInstance fun i =>
    steady_guarded fun hquote => ?_
  have := onCuts_past i.onCuts ⟨start.onCuts⟩ (by decide) hquote
  have := @steady_templateString_parts source g _ i.value i.onCuts
  infer_instance

instance steady_parenthesized : Steady source (parenthesized g) := by
  unfold parenthesized
  infer_instance

instance steady_arrayLiteral : Steady source (arrayLiteral g) := by
  unfold arrayLiteral
  infer_instance

instance steady_objectEntry : Steady source (objectEntry g) := by
  unfold objectEntry
  infer_instance

instance steady_objectLiteral : Steady source (objectLiteral g) := by
  unfold objectLiteral
  infer_instance

instance steady_functionExpression : Steady source (functionExpression g) := by
  unfold functionExpression
  infer_instance

instance steady_metaProperty {first second : String} : Steady source (metaProperty first second) := by
  unfold metaProperty
  infer_instance

instance steady_importCall : Steady source (importCall) := by
  unfold importCall
  infer_instance

instance steady_newExpression_members (fuel : Nat) {n : Node} [OnCuts source n] :
    Steady source (newExpression.members g fuel n) := by
  induction fuel generalizing n with
  | zero =>
    unfold newExpression.members
    infer_instance
  | succ fuel ih =>
    unfold newExpression.members
    infer_instance

instance steady_newExpression_constructorStart :
    Steady source (newExpression.constructorStart g) := by
  unfold newExpression.constructorStart
  refine Steady.bind inferInstance fun w => ?_
  split <;> infer_instance

instance steady_newExpression : Steady source (newExpression g) := by
  unfold newExpression
  dsimp only
  infer_instance

instance steady_primary : Steady source (primary g) := by
  unfold primary
  refine Steady.bind inferInstance fun p => Steady.bind inferInstance fun i => ?_
  split
  case h_11 =>
    refine Steady.bind inferInstance fun mode => ?_
    split <;> infer_instance
  case h_12 =>
    split
    · infer_instance
    · refine Steady.bind inferInstance fun w => ?_
      split <;> infer_instance
  all_goals infer_instance

instance steady_optionalChainToken : Steady source optionalChainToken := by
  have : Scans source fun i p => if i.operator? p == some "?." then some (p + 2) else none :=
    scans_operator
  unfold optionalChainToken
  infer_instance

instance steady_callOf {callee : Node} {types : List Node} [OnCuts source callee]
    [OnCuts source types] : Steady source (callOf g callee types) := by
  unfold callOf
  infer_instance

instance steady_afterOptionalChain {n mark : Node} [OnCuts source n] [OnCuts source mark] :
    Steady source (afterOptionalChain g n mark) := by
  unfold afterOptionalChain
  infer_instance

instance steady_link {n : Node} [OnCuts source n] : Steady source (link g n) := by
  unfold link
  refine Steady.bind inferInstance fun p => Steady.bind inferInstance fun i => ?_
  split
  case h_5 => split <;> infer_instance
  all_goals infer_instance

instance steady_links (fuel : Nat) {n : Node} [OnCuts source n] :
    Steady source (links g fuel n) := by
  induction fuel generalizing n with
  | zero =>
    unfold links
    infer_instance
  | succ fuel ih =>
    unfold links
    infer_instance

instance steady_chain : Steady source (chain g) := by
  unfold chain
  infer_instance

instance steady_assigned : Steady source (assigned g) := by
  unfold assigned
  refine @steady_orElse _ _ _ _ _ (Steady.bind inferInstance fun n =>
    Steady.bind inferInstance fun mark => ?_) inferInstance
  split <;> infer_instance

instance steady_converted {n : Node} [OnCuts source n] : Steady source (converted g n) := by
  unfold converted
  refine Steady.bind inferInstance fun _ => Steady.bind inferInstance fun w => ?_
  split <;> infer_instance

instance steady_conversions (fuel : Nat) {n : Node} [OnCuts source n] :
    Steady source (conversions g fuel n) := by
  induction fuel generalizing n with
  | zero =>
    unfold conversions
    infer_instance
  | succ fuel ih =>
    unfold conversions
    infer_instance

instance steady_unary {token : Reader Node} [Steady source token] : Steady source (unary g token) := by
  unfold unary
  infer_instance

instance steady_operand : Steady source (operand g) := by
  unfold operand
  refine Steady.bind inferInstance fun mark => ?_
  split
  · infer_instance
  · refine Steady.bind inferInstance fun w => ?_
    split <;> infer_instance

/-- The level of an operator is no offset. -/
instance : Offsets (String × Nat) := ⟨fun _ _ => True⟩

instance (mark : Option (String × Nat)) : OnCuts source mark := ⟨fun _ _ => trivial⟩

instance steady_peekBinary : Steady source peekBinary := by
  unfold peekBinary
  refine Steady.bind inferInstance fun mark => ?_
  split <;> infer_instance

/-- Both readers of operands by levels call each other with less fuel. -/
theorem steady_joined_extended (fuel : Nat) :
    (∀ least, Steady source (joined g least fuel)) ∧
      ∀ least {n : Node} [OnCuts source n], Steady source (extended g least fuel n) := by
  induction fuel with
  | zero =>
    refine ⟨fun least => ?_, fun least n _ => ?_⟩
    · unfold joined
      infer_instance
    · unfold extended
      infer_instance
  | succ fuel ih =>
    obtain ⟨hjoined, hextended⟩ := ih
    refine ⟨fun least => ?_, fun least n _ => ?_⟩
    · unfold joined
      infer_instance
    · unfold extended
      refine @steady_orElse _ _ _ _ _ (Steady.bind inferInstance fun found => ?_) inferInstance
      split <;> infer_instance

instance steady_joined {least fuel : Nat} : Steady source (joined g least fuel) :=
  (steady_joined_extended fuel).1 least

instance steady_untypedArrow {conditional : Reader Node} [Steady source conditional] (fuel : Nat) :
    Steady source (untypedArrow g conditional fuel) := by
  induction fuel with
  | zero =>
    unfold untypedArrow
    infer_instance
  | succ fuel ih =>
    unfold untypedArrow
    infer_instance

instance steady_conditional : Steady source (conditional g) := by
  unfold conditional
  dsimp only
  infer_instance

instance steady_yieldExpression : Steady source (yieldExpression g) := by
  unfold yieldExpression
  infer_instance

instance steady_arrowBody : Steady source (arrowBody g) := by
  unfold arrowBody
  infer_instance

instance steady_arrowFunction : Steady source (arrowFunction g) := by
  unfold arrowFunction
  dsimp only
  infer_instance

instance steady_expression : Steady source (expression g) := by
  unfold expression
  infer_instance

instance steady_sequence : Steady source (sequence g) := by
  unfold sequence
  infer_instance

/-! ## Statements -/

instance steady_block {inExpression : Bool} : Steady source (block g inExpression) := by
  unfold block
  infer_instance

instance steady_declarator : Steady source (declarator g) := by
  unfold declarator
  infer_instance

instance steady_declaration {finish : Bool → Reader Unit} [∀ b, Steady source (finish b)] :
    Steady source (declaration g finish) := by
  unfold declaration
  dsimp only
  infer_instance

instance steady_expressionStatement : Steady source (expressionStatement g) := by
  unfold expressionStatement
  infer_instance

instance steady_condition : Steady source (condition g) := by
  unfold condition
  infer_instance

instance steady_ifStatement : Steady source (ifStatement g) := by
  unfold ifStatement
  infer_instance

instance steady_emptyStatement : Steady source (emptyStatement) := by
  unfold emptyStatement
  infer_instance

instance steady_loopHead : Steady source (loopHead g) := by
  unfold loopHead
  infer_instance

instance steady_iterationHead : Steady source (iterationHead g) := by
  unfold iterationHead
  infer_instance

instance steady_forStatement : Steady source (forStatement g) := by
  unfold forStatement
  infer_instance

instance steady_whileStatement : Steady source (whileStatement g) := by
  unfold whileStatement
  infer_instance

instance steady_doStatement : Steady source (doStatement g) := by
  unfold doStatement
  infer_instance

instance steady_catchClause : Steady source (catchClause g) := by
  unfold catchClause
  infer_instance

instance steady_tryStatement : Steady source (tryStatement g) := by
  unfold tryStatement
  infer_instance

instance steady_withStatement : Steady source (withStatement g) := by
  unfold withStatement
  infer_instance

instance steady_switchCase_statements : Steady source (switchCase.statements g) := by
  unfold switchCase.statements
  infer_instance

instance steady_switchCase : Steady source (switchCase g) := by
  unfold switchCase
  infer_instance

instance steady_switchStatement : Steady source (switchStatement g) := by
  unfold switchStatement
  infer_instance

instance steady_jump {kind : Kind} {text : String} : Steady source (jump kind text) := by
  unfold jump
  infer_instance

instance steady_returnStatement : Steady source (returnStatement g) := by
  unfold returnStatement
  infer_instance

instance steady_throwStatement : Steady source (throwStatement g) := by
  unfold throwStatement
  infer_instance

instance steady_debuggerStatement : Steady source (debuggerStatement) := by
  unfold debuggerStatement
  infer_instance

instance steady_labeledStatement : Steady source (labeledStatement g) := by
  unfold labeledStatement
  infer_instance

instance steady_functionDeclaration_signatureEnd' :
    Steady source (functionDeclaration.signatureEnd') := by
  unfold functionDeclaration.signatureEnd'
  infer_instance

instance steady_functionDeclaration : Steady source (functionDeclaration g) := by
  unfold functionDeclaration
  dsimp only
  infer_instance

instance steady_classDeclaration : Steady source (classDeclaration g) := by
  unfold classDeclaration
  dsimp only
  infer_instance

instance steady_typeAlias : Steady source (typeAlias g) := by
  unfold typeAlias
  infer_instance

instance steady_enumDeclaration : Steady source (enumDeclaration g) := by
  unfold enumDeclaration
  dsimp only
  infer_instance

instance steady_interfaceDeclaration : Steady source (interfaceDeclaration g) := by
  unfold interfaceDeclaration
  infer_instance

instance steady_importAlias : Steady source (importAlias) := by
  unfold importAlias
  infer_instance

instance steady_namespaceStatement : Steady source (namespaceStatement g) := by
  unfold namespaceStatement
  infer_instance

instance steady_declarationStatement_ambient : Steady source (declarationStatement.ambient g) := by
  unfold declarationStatement.ambient
  infer_instance

instance steady_declarationStatement : Steady source (declarationStatement g) := by
  unfold declarationStatement
  refine Steady.bind inferInstance fun w => ?_
  split <;> infer_instance

instance steady_fromClause : Steady source (fromClause) := by
  unfold fromClause
  infer_instance

instance steady_externalName {kind : Kind} : Steady source (externalName kind) := by
  unfold externalName
  infer_instance

instance steady_importSpecifier_followed : Steady source (importSpecifier.followed) := by
  unfold importSpecifier.followed
  infer_instance

instance steady_importSpecifier : Steady source (importSpecifier) := by
  unfold importSpecifier
  dsimp only
  infer_instance

instance steady_namespaceImport : Steady source (namespaceImport) := by
  unfold namespaceImport
  infer_instance

instance steady_namedImports : Steady source (namedImports) := by
  unfold namedImports
  infer_instance

instance steady_importClause : Steady source (importClause) := by
  unfold importClause
  infer_instance

instance steady_importAttribute : Steady source (importAttribute g) := by
  unfold importAttribute
  infer_instance

instance steady_importRequireClause : Steady source (importRequireClause) := by
  unfold importRequireClause
  infer_instance

instance steady_importStatement : Steady source (importStatement g) := by
  unfold importStatement
  dsimp only
  infer_instance

instance steady_exportSpecifier : Steady source (exportSpecifier) := by
  unfold exportSpecifier
  dsimp only
  infer_instance

instance steady_exportClause : Steady source (exportClause) := by
  unfold exportClause
  infer_instance

instance steady_exportStatement_exported {asDefault : Bool} :
    Steady source (exportStatement.exported g asDefault) := by
  unfold exportStatement.exported
  infer_instance

instance steady_exportStatement : Steady source (exportStatement g) := by
  unfold exportStatement
  infer_instance

instance steady_bracedStatement : Steady source (bracedStatement g) := by
  unfold bracedStatement
  infer_instance

instance steady_statement : Steady source (statement g) := by
  unfold statement
  refine Steady.bind inferInstance fun p => Steady.bind inferInstance fun i => ?_
  split
  case h_5 =>
    dsimp only
    refine Steady.bind inferInstance fun w => ?_
    split <;> infer_instance
  all_goals infer_instance

end Rules

/-! ## Whole scripts -/

instance steadyAll_grammar (source : String) (depth : Nat) : SteadyAll source (grammar depth) := by
  induction depth with
  | zero =>
    refine ⟨fun rule => ?_⟩
    unfold grammar
    infer_instance
  | succ depth ih =>
    refine ⟨fun rule => ?_⟩
    cases rule <;> (unfold grammar; infer_instance)

namespace Reader

variable {source : String} {g : Rules} [SteadyAll source g]

instance steady_hashBangLine : Steady source hashBangLine := by
  have : Scans source fun i p => if i.holdsAt p "#!" then some (i.skip (· != '\n') p) else none := by
    refine ⟨fun hi hp h => ?_⟩
    obtain ⟨-, h⟩ := Option.ite_none_right_eq_some.mp h
    cases h
    exact Input.cut_skip hi _ hp
  unfold hashBangLine
  infer_instance

instance steady_program : Steady source (program g) := by
  unfold program
  infer_instance

end Reader

namespace Node

mutual

theorem onCuts_addComment {source : String} {comment : Node} (hcomment : comment.OnCuts source) :
    ∀ {n : Node}, n.OnCuts source → (addComment comment n).OnCuts source
  | .mk role kind start stop children, hn => by
    obtain ⟨hstart, hstop, hchildren⟩ := hn
    rw [addComment]
    exact .mk hstart hstop (onCuts_addCommentAmong hcomment hchildren)

theorem onCuts_addCommentAmong {source : String} {comment : Node}
    (hcomment : comment.OnCuts source) : ∀ {ns : List Node}, (∀ n ∈ ns, n.OnCuts source) →
      ∀ n ∈ addCommentAmong comment ns, n.OnCuts source
  | [], _ => by
    rw [addCommentAmong]
    exact List.forall_mem_singleton.mpr hcomment
  | child :: rest, hns => by
    obtain ⟨hchild, hrest⟩ := List.forall_mem_cons.mp hns
    rw [addCommentAmong]
    split
    · split
      · exact List.forall_mem_cons.mpr ⟨onCuts_addComment hcomment hchild, hrest⟩
      · exact List.forall_mem_cons.mpr ⟨hchild, onCuts_addCommentAmong hcomment hrest⟩
    · exact List.forall_mem_cons.mpr ⟨hcomment, hns⟩

end

end Node

theorem cut_foldl_min {source : String} {starts : List Nat} {p : Nat}
    (hs : ∀ s ∈ starts, Cut source s) (hp : Cut source p) : Cut source (starts.foldl min p) := by
  induction starts generalizing p with
  | nil => exact hp
  | cons s starts ih =>
    obtain ⟨hs, hrest⟩ := List.forall_mem_cons.mp hs
    refine ih hrest ?_
    rcases Nat.le_total p s with hle | hle
    · rwa [Nat.min_eq_left hle]
    · rwa [Nat.min_eq_right hle]

/-- The tree of a script begins and ends at cuts, and so do all its nodes. -/
theorem onCuts_parse {dialect : Dialect} {source : String} {root : Node}
    (h : parse dialect source.toUTF8 = .ok root) : root.OnCuts source := by
  unfold parse at h
  dsimp only at h
  split at h
  · cases h
  rename_i children c hread
  have hprogram : Steady source (Reader.program (grammar (16 * (source.toUTF8.size + 2)))) :=
    inferInstance
  obtain ⟨hchildren, hcursor⟩ := hprogram.moves rfl ⟨cut_zero _, cut_zero _, by simp⟩ hread
  have hcomments : ∀ n ∈ c.comments.reverse, n.OnCuts source := fun n hn =>
    hcursor.comments n (List.mem_reverse.mp hn)
  cases h
  have htree : Node.OnCuts source (.mk none .program
      (((children ++ c.comments.reverse).map Node.start).foldl min source.toUTF8.size)
      source.toUTF8.size children) := by
    refine .mk (cut_foldl_min (fun s hs => ?_) (cut_size source)) (cut_size source) hchildren
    obtain ⟨n, hn, rfl⟩ := List.mem_map.mp hs
    rcases List.mem_append.mp hn with hn | hn
    · obtain ⟨hstart, hstop, hrest⟩ := hchildren n hn
      exact hstart
    · obtain ⟨hstart, hstop, hrest⟩ := hcomments n hn
      exact hstart
  generalize Node.mk none .program _ _ children = tree at htree ⊢
  generalize c.comments.reverse = comments at hcomments
  induction comments generalizing tree with
  | nil => exact htree
  | cons comment rest ih =>
    obtain ⟨hcomment, hrest⟩ := List.forall_mem_cons.mp hcomments
    exact ih _ (Node.onCuts_addComment hcomment htree) hrest

end TestMigration.Script
