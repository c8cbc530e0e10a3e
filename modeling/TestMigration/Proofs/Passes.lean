import TestMigration.Proofs.Pass

/-! Every pass is a program, and so is a conversion. Pass by pass: what it looks at, and what it
records. -/

namespace TestMigration

open Pattern (quiet_methodCall quiet_callTo quiet_ofKinds quiet_withCount)
open Pass (Programmed programmed_lift programmed_look programmed_pure programmed_get
  programmed_throw programmed_report programmed_stepwise)

namespace Import

theorem quiet_importsFrom (module : String) : (importsFrom module).Quiet := by
  refine ⟨trivial, trivial, ?_⟩
  intro test htest h
  cases htest
  exact h.plain_moduleLiteral?.bind fun _ => (Handle.plain_valueOf? _).bind fun _ => plain_pure _

theorem quiet_moduleStatements : moduleStatements.Quiet := by
  refine ⟨trivial, trivial, ?_⟩
  intro test htest h
  cases htest
  exact h.plain_moduleLiteral?.bind fun _ => plain_pure _

theorem quiet_directiveCalls : directiveCalls.Quiet := by
  refine ⟨⟨⟨trivial, trivial, ?_⟩, trivial⟩, ⟨quiet_ofKinds _, trivial⟩, by simp⟩
  intro test htest h
  cases htest
  exact h.plain_text.bind fun _ => plain_pure _

theorem plain_isImported (module : String) : Plain (isImported module) :=
  MatchSet.plain_ofTree_bind (quiet_importsFrom module) fun set hs =>
    (set.plain_first? hs).bind fun _ => plain_pure _

theorem made_makeAbsolute (cwd : PathName) (file : String) (literal : Handle) :
    Made (makeAbsolute cwd file literal) := by
  refine (made_look literal.plain_literalValue?).bind fun value => ?_
  split
  · exact made_pure _
  · split
    · exact made_pure _
    · exact (made_look literal.plain_text).bind fun _ =>
        (literal.made_replaceWith _).bind fun _ => made_pure _

theorem plain_moduleLiterals : Plain moduleLiterals := by
  refine (plain_findAll quiet_moduleStatements).bind fun statements => ?_
  refine (plain_stepwise.filterMapM Handle.plain_moduleLiteral? statements).bind fun sources => ?_
  refine (plain_findAll quiet_directiveCalls).bind fun calls => ?_
  exact (plain_stepwise.filterMapM Handle.plain_firstArgument? calls).bind fun _ => plain_pure _

theorem programmed_absolutize (cwd : PathName) (file : String) :
    Programmed (absolutize cwd file) := by
  refine Pass.Programmed.bind (programmed_lift (made_batched ?_)) fun _ => programmed_pure _
  exact (made_look plain_moduleLiterals).bind fun literals =>
    (made_stepwise.mapM (made_makeAbsolute cwd file) literals).bind fun _ => made_pure _

theorem programmed_absolutizeIn (cwd : PathName) (file : Option String) :
    Programmed (absolutizeIn cwd file) := by
  cases file with
  | none => exact programmed_pure _
  | some file => exact (programmed_absolutize cwd file).bind fun _ => programmed_pure _

theorem programmed_reportMissing (legacy : List Handle) : Programmed (reportMissing legacy) := by
  unfold reportMissing
  split
  · exact programmed_report _ _ _ _
  · exact programmed_pure _

theorem made_exchange (legacy : List Handle) (header : List Text) : Made (exchange legacy header) :=
  (made_stepwise.forM Handle.made_remove legacy).bind fun _ =>
    made_stepwise.forM made_insertAtTop header.reverse

theorem programmed_replace (cwd : PathName) (file : Option String) (attr : Text)
    (emitSetup : Bool) : Programmed (replace cwd file attr emitSetup) := by
  refine Pass.Programmed.bind (programmed_look (plain_findAll (quiet_importsFrom _))) fun legacy => ?_
  refine (programmed_reportMissing legacy).bind fun _ => ?_
  refine Pass.Programmed.bind (programmed_lift (made_batched (made_exchange _ _))) fun _ => ?_
  exact (programmed_absolutizeIn cwd file).bind fun _ => programmed_pure _

end Import

namespace RenderCall

theorem plain_plainName? (h : Option Handle) : Plain (plainName? h) := by
  cases h with
  | none => exact plain_pure _
  | some h => exact h.plain_kind.bind fun _ => by split <;> exact plain_pure _

theorem plain_declarationName? (declaration : Handle) : Plain (declarationName? declaration) := by
  refine declaration.plain_namedChildren.bind fun children => ?_
  refine (plain_stepwise.findM? (fun child => child.plain_kind.bind fun _ => plain_pure _)
    children).bind fun declarator => ?_
  split
  · exact plain_pure _
  · exact (Handle.plain_field? _ _).bind fun _ => plain_plainName? _

theorem plain_assignedName? (call : Handle) : Plain (assignedName? call) := by
  refine (plain_closest? (quiet_ofKinds _) call).bind fun assignment => ?_
  split
  · exact (Handle.plain_field? _ _).bind fun _ => plain_plainName? _
  · exact plain_pure _

theorem plain_declaredName? (call : Handle) : Plain (declaredName? call) := by
  refine (plain_closest? (quiet_ofKinds _) call).bind fun declaration => ?_
  split
  · refine (plain_declarationName? _).bind fun name => ?_
    split
    · exact plain_pure _
    · exact plain_assignedName? call
  · exact plain_assignedName? call

theorem plain_boundName? (call : Handle) : Plain (boundName? call) := by
  refine (plain_closest? (quiet_ofKinds _) call).bind fun function => ?_
  split
  · refine (Handle.plain_field? _ _).bind fun name => ?_
    split
    · exact plain_pure _
    · exact plain_declaredName? call
  · exact plain_declaredName? call

theorem made_renameCallee (name : String) (call : Handle) : Made (renameCallee name call) := by
  refine (made_look (call.plain_field? _)).bind fun callee => ?_
  split
  · exact Handle.made_replaceWith _ _
  · exact made_throw (by simp [Failure.of])

theorem made_renameHelper (binding : Option Handle) (name : Option String) :
    Made (renameHelper binding name) := by
  unfold renameHelper
  split
  · split
    · refine (Handle.made_replaceWith _ _).bind fun _ => ?_
      refine (made_look (plain_findAll (quiet_callTo _))).bind fun uses => ?_
      exact made_stepwise.forM (made_renameCallee _) uses
    · exact made_pure _
  · exact made_pure _

theorem made_renameCalls (binding : Option Handle) (name : Option String) (calls : List Handle) :
    Made (renameCalls binding name calls) :=
  (made_renameHelper binding name).bind fun _ => made_stepwise.forM (made_renameCallee _) calls

theorem programmed_reportUnbound (primitive : String) (line : Nat) (name : Option String) :
    Programmed (reportUnbound primitive line name) := by
  unfold reportUnbound
  split
  · exact programmed_report _ _ _ _
  · exact programmed_pure _

theorem programmed_convertCalls (primitive : String) (first : Handle) (rest : List Handle) :
    Programmed (convertCalls primitive first rest) := by
  refine (programmed_look first.plain_line).bind fun line => ?_
  refine (programmed_look (plain_boundName? first)).bind fun binding => ?_
  refine (programmed_look (plain_stepwise.optionMapM Handle.plain_text binding)).bind fun name => ?_
  refine Pass.Programmed.bind (programmed_lift (made_batched (made_renameCalls _ _ _))) fun _ => ?_
  exact (programmed_reportUnbound _ _ _).bind fun _ => programmed_pure _

theorem programmed_convertFound (found : List (String × List Handle)) :
    Programmed (convertFound found) := by
  unfold convertFound
  split
  · exact (programmed_report _ _ _ _).bind fun _ => programmed_pure _
  · exact programmed_convertCalls _ _ _
  · exact programmed_get.bind fun _ => programmed_throw (by simp [Failure.unsupportedInput])

theorem programmed_normalise : Programmed normalise := by
  refine Pass.Programmed.bind (programmed_stepwise.mapM (fun name => ?_) _) fun calls =>
    programmed_convertFound _
  exact (programmed_look (plain_findAll (quiet_callTo _))).bind fun _ => programmed_pure _

end RenderCall

namespace Wrapper

theorem plain_declarators (declaration : Handle) : Plain (declarators declaration) :=
  declaration.plain_namedChildren.bind fun children =>
    plain_stepwise.filterM (fun child => child.plain_kind.bind fun _ => plain_pure _) children

theorem plain_isCall (h : Handle) (callee : Option String) : Plain (isCall h callee) := by
  refine h.plain_awaited?.bind fun inner => ?_
  split
  · exact plain_pure _
  · refine (Handle.plain_kind _).bind fun kind => ?_
    split
    · exact plain_pure _
    · cases callee with
      | none => exact plain_pure _
      | some name =>
        refine (Handle.plain_field? _ _).bind fun function => ?_
        split
        · exact plain_pure _
        · exact (Handle.plain_kind _).bind fun _ => (Handle.plain_text _).bind fun _ => plain_pure _

theorem plain_binding? (declaration : Handle) : Plain (binding? declaration) := by
  refine declaration.plain_parent?.bind fun parent => ?_
  split
  · exact plain_pure _
  · refine (Handle.plain_kind _).bind fun kind => ?_
    split
    · exact plain_pure _
    · refine (plain_declarators declaration).bind fun all => ?_
      split
      · refine (Handle.plain_field? _ _).bind fun name => (Handle.plain_field? _ _).bind fun value => ?_
        split
        · exact plain_pure _
        · exact plain_pure _
      · exact plain_pure _

theorem plain_isUninitialised (names : List String) (declarator : Handle) :
    Plain (isUninitialised names declarator) := by
  refine (declarator.plain_field? _).bind fun value => ?_
  split
  · exact plain_pure _
  · refine (declarator.plain_field? _).bind fun name => ?_
    split
    · exact (Handle.plain_text _).bind fun _ => plain_pure _
    · exact plain_pure _

theorem plain_isIdentifier (h : Handle) : Plain (isIdentifier h) :=
  h.plain_kind.bind fun _ => plain_pure _

theorem made_collapse (declaration value : Handle) : Made (collapse declaration value) :=
  (made_look value.plain_text).bind fun _ => declaration.made_replaceWith _

theorem made_removeFrom (names : List String) (declaration : Handle) :
    Made (removeFrom names declaration) := by
  refine (made_look (plain_declarators declaration)).bind fun all => ?_
  refine (made_look (plain_stepwise.filterM (plain_isUninitialised names) all)).bind fun doomed => ?_
  split
  · exact made_pure _
  · split
    · exact declaration.made_remove
    · refine (made_look (plain_stepwise.mapM Handle.plain_text _)).bind fun kept => ?_
      exact (made_look declaration.plain_text).bind fun text => declaration.made_replaceWith _

theorem made_removeUninitialised (names : List String) : Made (removeUninitialised names) :=
  (made_look (plain_findAll (quiet_ofKinds _))).bind fun declarations =>
    made_stepwise.forM (made_removeFrom names) declarations

section

variable {test named : Handle → Handle → Looking Bool}

theorem made_collapseDeclaration (ht : ∀ a b, Plain (test a b)) (hn : ∀ a b, Plain (named a b))
    (declaration : Handle) : Made (collapseDeclaration test named declaration) := by
  refine (made_look (plain_binding? declaration)).bind fun binding => ?_
  split
  · exact made_pure _
  · refine (made_look (ht _ _)).bind fun holds => ?_
    split
    · refine (made_collapse _ _).bind fun _ => (made_look (hn _ _)).bind fun accepted => ?_
      split
      · exact (made_look (Handle.plain_text _)).bind fun _ => made_pure _
      · exact made_pure _
    · exact made_pure _

theorem made_collapseDeclarations (ht : ∀ a b, Plain (test a b)) (hn : ∀ a b, Plain (named a b)) :
    Made (collapseDeclarations test named) :=
  (made_look (plain_findAll (quiet_ofKinds _))).bind fun declarations =>
    (made_stepwise.mapM (made_collapseDeclaration ht hn) declarations).bind fun _ => made_pure _

theorem made_collapseAssignment (ht : ∀ a b, Plain (test a b)) (a : Handle) :
    Made (collapseAssignment test a) := by
  refine (made_look (a.plain_field? _)).bind fun left => (made_look (a.plain_field? _)).bind
    fun right => ?_
  split
  · refine (made_look (ht _ _)).bind fun holds => ?_
    split
    · refine (made_look (Handle.plain_text _)).bind fun text => ?_
      refine (Handle.made_replaceWith _ _).bind fun _ => ?_
      exact (made_look (Handle.plain_text _)).bind fun _ => made_pure _
    · exact made_pure _
  · exact made_pure _

theorem made_collapseAssignments (ht : ∀ a b, Plain (test a b)) :
    Made (collapseAssignments test) :=
  (made_look (plain_findAll (quiet_ofKinds _))).bind fun assignments =>
    (made_stepwise.mapM (made_collapseAssignment ht) assignments).bind fun _ => made_pure _

end

theorem plain_holdsResult (function : String) (name value : Handle) :
    Plain (holdsResult function name value) := by
  refine (plain_isIdentifier name).bind fun holds => ?_
  split
  · exact plain_isCall _ _
  · exact plain_pure _

theorem plain_isNamesake (function : String) (name value : Handle) :
    Plain (isNamesake function name value) := by
  refine (plain_isIdentifier name).bind fun holds => ?_
  split
  · exact plain_pure _
  · refine name.plain_text.bind fun text => ?_
    split
    · exact plain_isCall _ _
    · exact plain_pure _

theorem plain_givesWay (function : String) (name value : Handle) :
    Plain (givesWay function name value) := by
  refine (plain_isNamesake function name value).bind fun holds => ?_
  split
  · exact plain_pure _
  · refine name.plain_kind.bind fun kind => ?_
    split
    · exact plain_isCall _ _
    · exact plain_pure _

theorem plain_isAssigned (function : String) (left right : Handle) :
    Plain (isAssigned function left right) := by
  refine left.plain_text.bind fun text => ?_
  split
  · exact plain_isCall _ _
  · exact plain_pure _

theorem made_resultsOf (function : String) : Made (resultsOf function) := by
  refine (made_batched (made_collapseDeclarations (plain_holdsResult function)
    fun _ _ => plain_pure _)).bind fun r => ?_
  refine (made_batched ?_).bind fun r => made_pure _
  exact (made_collapseAssignments (plain_holdsResult function)).bind fun names =>
    (made_removeUninitialised names).bind fun _ => made_pure _

theorem made_namesakesOf (function : String) : Made (namesakesOf function) := by
  refine (made_batched (made_collapseDeclarations (plain_givesWay function)
    (plain_isNamesake function))).bind fun r => ?_
  refine (made_batched ?_).bind fun r => made_pure _
  refine (made_collapseAssignments (plain_isAssigned function)).bind fun names => ?_
  split
  · exact (made_removeUninitialised _).bind fun _ => made_pure _
  · exact made_pure _

theorem programmed_resolve (function : Option String) : Programmed (resolve function) := by
  cases function with
  | none => exact programmed_pure _
  | some function =>
    refine Pass.Programmed.bind (programmed_lift (made_resultsOf function)) fun direct => ?_
    have hrest : ∀ names : List String, Programmed (do
        if names.isEmpty then
          Pass.report .noWrapperBindings
            s!"No wrapper bindings found for render function '{function}'"
        return names.eraseDups) := by
      intro names
      split
      · exact (programmed_report _ _ _ _).bind fun _ => programmed_pure _
      · exact programmed_pure _
    split
    · exact Pass.Programmed.bind (programmed_lift (made_namesakesOf function)) hrest
    · exact Pass.Programmed.bind (programmed_pure direct) hrest

end Wrapper

namespace Selector

theorem plain_objectValue? (key : Text) (pairs : List Handle) : Plain (objectValue? key pairs) := by
  induction pairs with
  | nil => exact plain_pure _
  | cons pair rest ih =>
    refine pair.plain_kind.bind fun kind => ?_
    split
    · exact ih
    · refine (pair.plain_field? _).bind fun k => ?_
      split
      · exact ih
      · have hrest : ∀ name : Text, Plain (do
            if name == key then Handle.valueOf? (← pair.field? .value)
            else objectValue? key rest) := by
          intro name
          split
          · exact (pair.plain_field? _).bind fun _ => Handle.plain_valueOf? _
          · exact ih
        refine (Handle.plain_literalValue? _).bind fun value => ?_
        split
        · exact (plain_pure _).bind hrest
        · exact (Handle.plain_text _).bind fun _ => (plain_pure _).bind hrest

theorem plain_classify (attr : Text) (argument : Option Handle) : Plain (classify attr argument) := by
  cases argument with
  | none => exact plain_pure _
  | some argument =>
    refine argument.plain_kind.bind fun kind => ?_
    split
    · refine argument.plain_namedChildren.bind fun pairs => ?_
      refine (plain_objectValue? attr pairs).bind fun value => ?_
      split
      · exact plain_pure _
      · exact plain_pure _
    · refine argument.plain_literalValue?.bind fun value => ?_
      split
      · exact plain_pure _
      · split
        · exact plain_pure _
        · split
          · exact plain_pure _
          · exact plain_pure _

theorem plain_hasKind (h : Handle) (kind : Script.Kind) : Plain (hasKind h kind) :=
  h.plain_kind.bind fun _ => plain_pure _

theorem plain_isDenied (call : Handle) : Plain (isDenied call) := by
  refine call.plain_parent?.bind fun arguments => ?_
  split
  case h_2 => exact plain_pure _
  refine (plain_hasKind _ _).bind fun holds => ?_
  split
  · exact plain_pure _
  refine (Handle.plain_parent? _).bind fun expect => ?_
  split
  case h_2 => exact plain_pure _
  refine (plain_hasKind _ _).bind fun holds => ?_
  split
  · exact plain_pure _
  refine (Handle.plain_field? _ _).bind fun callee => ?_
  split
  case h_2 => exact plain_pure _
  refine (Handle.plain_text _).bind fun text => ?_
  split
  · exact plain_pure _
  refine (Handle.plain_parent? _).bind fun member => ?_
  split
  case h_2 => exact plain_pure _
  refine (plain_hasKind _ _).bind fun holds => ?_
  split
  · exact plain_pure _
  refine (Handle.plain_field? _ _).bind fun object => ?_
  split
  case h_2 => exact plain_pure _
  refine (Handle.plain_field? _ _).bind fun property => ?_
  split
  case h_2 => exact plain_pure _
  exact (Handle.plain_text _).bind fun _ => plain_pure _

theorem plain_query? (attr : Text) (call : Handle) : Plain (query? attr call) := by
  refine call.plain_firstArgument?.bind fun argument => ?_
  refine (plain_classify attr argument).bind fun selector => ?_
  split
  · exact (plain_isDenied call).bind fun denied => plain_pure _
  · exact plain_pure _
  · exact plain_pure _

theorem quiet_findCalls : findCalls.Quiet := quiet_methodCall _ (by simp)

theorem programmed_reportUnconverted (call : Handle) : Programmed (reportUnconverted call) :=
  (programmed_look (call.plain_shownArgument _)).bind fun _ =>
    (programmed_look call.plain_line).bind fun _ => programmed_report _ _ _ _

theorem programmed_convert (attr : Text) : Programmed (convert attr) := by
  refine Pass.Programmed.bind (programmed_lift (made_untilStable ?_ _)) fun converted => ?_
  · exact MatchSet.made_ofTree_bind quiet_findCalls fun set hs =>
      (set.made_replaceWith hs (plain_query? attr)).bind fun _ => made_pure _
  · refine (programmed_look (plain_findAll quiet_findCalls)).bind fun calls => ?_
    exact (programmed_stepwise.forIn (fun call _ =>
      (programmed_reportUnconverted call).bind fun _ => programmed_pure _) calls _).bind fun _ =>
        programmed_pure _

end Selector

namespace Assertion

theorem plain_expectArgument? (expect : Option Handle) {p : Pattern} (hp : p.Quiet) :
    Plain (expectArgument? expect p) := by
  cases expect with
  | none => exact plain_pure _
  | some call =>
    refine (Pattern.plain_holdsOf _ (quiet_withCount (quiet_callTo _) _) call).bind fun holds => ?_
    split
    · exact plain_pure _
    · refine call.plain_firstArgument?.bind fun argument => ?_
      split
      · exact plain_pure _
      · exact (Pattern.plain_holdsOf p hp _).bind fun _ => plain_pure _

theorem plain_subject? (assertion : Handle) : Plain (subject? assertion) := by
  refine (assertion.plain_field? _).bind fun callee => ?_
  split
  · exact Handle.plain_field? _ _
  · exact plain_pure _

theorem plain_withReceiver (outer call : Handle) : Plain (withReceiver outer call) := by
  refine call.plain_receiver?.bind fun receiver => ?_
  split
  · exact (Handle.plain_text _).bind fun _ => outer.plain_textWith _
  · exact (plain_pure _).bind fun _ => outer.plain_textWith _

theorem quiet_textCall : textCall.Quiet := quiet_withCount (quiet_methodCall _ (by simp)) _

theorem quiet_existsCall : existsCall.Quiet := quiet_withCount (quiet_methodCall _ (by simp)) _

theorem plain_textContent? (assertion : Handle) : Plain (textContent? assertion) := by
  refine (plain_subject? assertion).bind fun expect => ?_
  refine (plain_expectArgument? expect quiet_textCall).bind fun call => ?_
  split
  · exact (plain_withReceiver _ _).bind fun _ =>
      assertion.plain_argumentText.bind fun _ => plain_pure _
  · exact plain_pure _

theorem programmed_convertText : Programmed convertText :=
  Pass.programmed_replaceWith (quiet_methodCall _ (by simp)) plain_textContent?

theorem plain_literalExpectation? (assertion : Handle) : Plain (literalExpectation? assertion) := by
  refine (assertion.plain_field? _).bind fun list => ?_
  split
  · exact plain_pure _
  · refine (Handle.plain_namedChildren _).bind fun children => ?_
    split
    · refine (Handle.plain_kind _).bind fun kind => ?_
      split
      · exact plain_pure _
      · exact plain_pure _
      · exact plain_pure _
    · exact plain_pure _

theorem plain_expectation? (assertion : Handle) : Plain (expectation? assertion) := by
  refine assertion.plain_methodName?.bind fun name => ?_
  split
  · exact plain_literalExpectation? assertion
  · exact plain_literalExpectation? assertion
  · exact assertion.plain_argumentText.bind fun _ => by split <;> exact plain_pure _
  · exact assertion.plain_argumentText.bind fun _ => by split <;> exact plain_pure _
  · exact plain_pure _

theorem plain_denied? (subject : Handle) : Plain (denied? subject) := by
  refine subject.plain_kind.bind fun kind => ?_
  split
  · exact plain_pure _
  · refine (subject.plain_field? _).bind fun property => ?_
    split
    · exact plain_pure _
    · refine (Handle.plain_text _).bind fun text => ?_
      split
      · exact subject.plain_field? _
      · exact plain_pure _

theorem plain_restated? (present : Bool) (expect : Handle) : Plain (restated? present expect) := by
  refine (plain_expectArgument? _ quiet_existsCall).bind fun call => ?_
  split
  · exact (plain_withReceiver _ _).bind fun _ => plain_pure _
  · exact plain_pure _

theorem plain_presence? (assertion : Handle) : Plain (presence? assertion) := by
  refine (plain_expectation? assertion).bind fun expected => ?_
  split
  case h_2 => exact plain_pure _
  refine (plain_subject? assertion).bind fun subject => ?_
  split
  case h_2 => exact plain_pure _
  refine (plain_denied? _).bind fun inner => ?_
  split
  · exact plain_restated? _ _
  · exact plain_restated? _ _

theorem programmed_convertPresence : Programmed convertPresence :=
  Pass.programmed_replaceWith (quiet_methodCall _ (by simp)) plain_presence?

end Assertion

namespace Simulation

theorem quiet_simulateCalls : simulateCalls.Quiet := quiet_methodCall _ (by simp)

theorem plain_userCall? (call : Handle) : Plain (userCall? call) := by
  refine call.plain_firstArgument?.bind fun argument => ?_
  refine (Handle.plain_valueOf? argument).bind fun event => ?_
  refine call.plain_receiver?.bind fun receiver => ?_
  split
  · exact (Handle.plain_text _).bind fun _ => plain_pure _
  · exact plain_pure _

theorem programmed_reportUnmapped (call : Handle) : Programmed (reportUnmapped call) :=
  (programmed_look (call.plain_shownArgument _)).bind fun _ =>
    (programmed_look call.plain_line).bind fun _ => programmed_report _ _ _ _

theorem quiet_namedCalls : namedCalls.Quiet := by
  have hstring : Pattern.QuietLeading (some [.ofKind .string]) := ⟨quiet_ofKinds _, trivial⟩
  exact Pattern.quiet_withArguments quiet_simulateCalls hstring none

theorem programmed_importUserEvent (converted : Nat) : Programmed (importUserEvent converted) := by
  refine (programmed_look (Import.plain_isImported _)).bind fun imported => ?_
  split
  · exact programmed_lift (made_insertAtTop _)
  · exact programmed_pure _

theorem programmed_convert : Programmed convert := by
  refine Pass.Programmed.bind (programmed_lift (made_untilStable ?_ _)) fun converted => ?_
  · exact MatchSet.made_ofTree_bind quiet_namedCalls fun set hs =>
      (set.made_replaceWith hs plain_userCall?).bind fun _ => made_pure _
  · refine (programmed_look (plain_findAll quiet_simulateCalls)).bind fun calls => ?_
    refine (programmed_stepwise.forIn (fun call _ =>
      (programmed_reportUnmapped call).bind fun _ => programmed_pure _) calls _).bind fun _ => ?_
    exact (programmed_importUserEvent converted).bind fun _ => programmed_pure _

end Simulation

namespace Chain

theorem quiet_calls (method : TextTest) : (calls method).Quiet :=
  quiet_withCount (quiet_methodCall _ (by simp)) _

theorem plain_receiverText (call : Handle) : Plain (receiverText call) := by
  refine call.plain_receiver?.bind fun receiver => ?_
  split
  · exact (Handle.plain_text _).bind fun _ => plain_pure _
  · exact plain_pure _

theorem made_removeUpdate (call : Handle) : Made (removeUpdate call) := by
  refine (made_look call.plain_receiver?).bind fun receiver => ?_
  refine (made_look call.plain_parent?).bind fun parent => ?_
  split
  · refine (made_look (Handle.plain_kind _)).bind fun kind => ?_
    refine (made_look (Handle.plain_kind _)).bind fun kind' => ?_
    split
    · exact Handle.made_remove _
    · exact (made_look (Handle.plain_text _)).bind fun _ => call.made_replaceWith _
  · exact made_throw (by simp [Failure.of])

theorem programmed_removeIdle : Programmed removeIdle := by
  refine programmed_lift (made_untilStable ?_ _)
  refine MatchSet.made_ofTree_bind (quiet_calls _) fun set hs => ?_
  refine (set.made_replaceWith hs plain_receiverText).bind fun _ => ?_
  refine (made_look (plain_findAll (quiet_calls _))).bind fun updates => ?_
  exact (made_stepwise.forIn (fun call _ => (made_removeUpdate call).bind fun _ => made_pure _)
    updates _).bind fun _ => made_pure _

end Chain

namespace Guidance

theorem faultless_select (page : Snapshot) (selector : String) :
    Faultless (page.select selector) := by
  unfold Snapshot.select
  split
  · exact faultless_pure _
  split
  · exact faultless_pure _
  · exact faultless_pure _
  · exact faultless_throw (by simp [Failure.of])

theorem faultless_ofSelector (selector : Text) (attr : String) (snapshot : Option Snapshot) :
    Faultless (ofSelector selector attr snapshot) := by
  unfold ofSelector
  split
  · exact faultless_pure _
  · split
    · exact ((faultless_select _ _).bind fun _ => faultless_pure _).bind fun _ => faultless_pure _
    · exact faultless_pure _

theorem faultless_onSelector (argument : String) (selector : Option Text) (attr : String)
    (snapshot : Option Snapshot) : Faultless (onSelector argument selector attr snapshot) := by
  cases selector with
  | none => exact faultless_pure _
  | some selector => exact (faultless_ofSelector _ _ _).bind fun _ => faultless_pure _

end Guidance

namespace Suggestion

theorem faultless_commentsAbove (d : Document) (start : Nat) :
    Faultless (commentsAbove d start) :=
  (d.faultless_linesBefore start).bind fun _ => faultless_pure _

theorem made_annotate (call : Handle) (comment : Text) (noted : Noted) :
    Made (annotate call comment noted) := by
  refine (made_look (plain_closest? (quiet_ofKinds _) call)).bind fun statement => ?_
  split
  · exact made_pure _
  · refine (made_look (Handle.plain_start _)).bind fun start => ?_
    split
    · exact made_pure _
    · refine made_get.bind fun d => ?_
      refine (made_except (faultless_commentsAbove _ _)).bind fun above => ?_
      split
      · exact made_pure _
      · exact (Handle.made_insertBefore _ _).bind fun _ => made_pure _

theorem plain_onWrapper (wrapper : String) (call : Handle) : Plain (onWrapper wrapper call) := by
  refine call.plain_methodName?.bind fun method => ?_
  split
  · exact plain_pure _
  · exact plain_pure _
  · exact call.plain_firstArgument?.bind fun argument =>
      (plain_stepwise.optionMapM Handle.plain_text argument).bind fun _ => plain_pure _

theorem plain_onFind (attr : String) (snapshot : Option Snapshot) (call : Handle) :
    Plain (onFind attr snapshot call) := by
  refine call.plain_firstArgument?.bind fun argument => ?_
  refine (Handle.plain_valueOf? argument).bind fun selector => ?_
  refine call.plain_argumentText.bind fun text => ?_
  exact (plain_liftM (Guidance.faultless_onSelector _ _ _ _)).bind fun _ => plain_pure _

theorem plain_onSimulate (call : Handle) : Plain (onSimulate call) :=
  call.plain_argumentText.bind fun _ => plain_pure _

theorem made_annotateWith {comment : Handle → Looking (Option Text)}
    (hc : ∀ h, Plain (comment h)) (noted : Noted) (call : Handle) :
    Made (annotateWith comment noted call) := by
  refine (made_look (hc call)).bind fun text => ?_
  split
  · exact made_annotate _ _ _
  · exact made_pure _

theorem made_annotateAll {p : Pattern} (hp : p.Quiet) {comment : Handle → Looking (Option Text)}
    (hc : ∀ h, Plain (comment h)) (noted : Noted) : Made (annotateAll p comment noted) :=
  (made_look (plain_findAll hp)).bind fun calls =>
    made_stepwise.foldlM (made_annotateWith hc) calls noted

theorem quiet_methodsOf (wrapper : String) : (methodsOf wrapper).Quiet := by
  refine quiet_methodCall _ ?_
  intro r h
  cases h
  exact Pattern.quiet_identifier _

theorem made_annotations (wrappers : List String) (attr : String) (snapshot : Option Snapshot) :
    Made (annotations wrappers attr snapshot) := by
  refine (made_stepwise.foldlM (fun noted wrapper => ?_) wrappers []).bind fun noted => ?_
  · exact made_annotateAll (quiet_methodsOf wrapper) (plain_onWrapper wrapper) noted
  · exact (made_annotateAll Selector.quiet_findCalls (plain_onFind attr snapshot) noted).bind
      fun noted => made_annotateAll Simulation.quiet_simulateCalls plain_onSimulate noted

theorem programmed_add (wrappers : List String) (attr : String) (snapshot : Option Snapshot) :
    Programmed (add wrappers attr snapshot) :=
  Pass.Programmed.bind (programmed_lift (made_batched (made_annotations _ _ _))) fun _ =>
    programmed_pure _

end Suggestion

namespace Conversion

theorem programmed_bindings : Programmed bindings :=
  RenderCall.programmed_normalise.bind fun renderFunction =>
    (Wrapper.programmed_resolve renderFunction).bind fun _ => programmed_pure _

theorem programmed_passes (o : ConversionOptions) (file : Option String) :
    Programmed (passes o file) := by
  refine (Import.programmed_replace _ _ _ _).bind fun importReplaced => ?_
  refine programmed_bindings.bind fun bound => ?_
  refine (Selector.programmed_convert _).bind fun selectors => ?_
  refine Assertion.programmed_convertText.bind fun textAssertions => ?_
  refine Simulation.programmed_convert.bind fun simulations => ?_
  refine Assertion.programmed_convertPresence.bind fun presenceAssertions => ?_
  refine Chain.programmed_removeIdle.bind fun chainCalls => ?_
  exact (Suggestion.programmed_add bound.2 _ _).bind fun suggestions => programmed_pure _

theorem programmed_finish (bound : Option String × List String) (statistics : Statistics) :
    Programmed (finish bound statistics) := by
  refine programmed_get.bind fun s => ?_
  exact Pass.Programmed.bind (programmed_lift (made_except (Document.faultless_decode _)))
    fun code => programmed_pure _

theorem programmed_run (o : ConversionOptions) : Programmed (run o) :=
  programmed_get.bind fun s => (programmed_passes o s.document.path).bind fun r =>
    programmed_finish r.1 r.2

end Conversion

end TestMigration
