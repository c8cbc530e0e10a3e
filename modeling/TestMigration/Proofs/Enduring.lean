import TestMigration.Proofs.Careful

/-! Every pass is careful. Pass by pass: what it finds is held, what it reads are nodes that it holds, and
what it records is recorded for them. -/

namespace TestMigration

open Script (Kind)
open Pattern (Discerns discerns_mk discerns_plain discerns_identifier discerns_callTo discerns_methodCall
  discerns_methodOf)
open Handle (finds_field? finds_parent? finds_namedChildren finds_awaited? finds_firstArgument? finds_receiver?
  finds_moduleLiteral? safe_kind safe_line safe_text safe_valueOf? safe_literalValue? safe_argumentText
  safe_shownArgument safe_methodName? safe_textWith careful_replaceWith careful_remove
  careful_insertBefore)
open Document (yields_look_bind careful_batched careful_untilStable careful_insertAtTop precedes_opened)

variable {d : Document} {s : Session}

namespace Import

theorem discerns_importsFrom (module : String) : (importsFrom module).Discerns d := by
  refine discerns_mk (List.forall_mem_nil _) nofun fun test htest h hh => ?_
  cases htest
  exact (finds_moduleLiteral? hh).bind fun _ hliteral => (safe_valueOf? hliteral).bind fun _ => safe_pure _

theorem discerns_moduleStatements : moduleStatements.Discerns d := by
  refine discerns_mk (List.forall_mem_nil _) nofun fun test htest h hh => ?_
  cases htest
  exact (finds_moduleLiteral? hh).safe.bind fun _ => safe_pure _

theorem discerns_directiveCalls : directiveCalls.Discerns d := by
  refine discerns_mk (List.forall_mem_singleton.mpr ?_) (fun patterns hpatterns => ?_) nofun
  · refine discerns_mk (List.forall_mem_nil _) nofun fun test htest h hh => ?_
    cases htest
    exact (safe_text hh).bind fun _ => safe_pure _
  · cases hpatterns
    exact List.forall_mem_singleton.mpr discerns_plain

theorem safe_isImported (module : String) : Safe d (isImported module) := by
  refine (finds_ofTree _).bind fun set hset => ?_
  obtain ⟨roots, hroots, rfl⟩ := hset
  exact (safe_first? hroots (discerns_importsFrom module)).bind fun _ => safe_pure _

theorem careful_makeAbsolute {literal : Handle} (hl : literal.Held d) (cwd : PathName) (file : String) :
    Careful id (makeAbsolute cwd file literal) d := by
  refine yields_look_bind (safe_literalValue? hl) fun value _ => ?_
  split
  · exact careful_pure _
  · split
    · exact careful_pure _
    · exact yields_look_bind (safe_text hl) fun _ _ =>
        (careful_replaceWith hl _).bind fun _ _ _ => careful_pure _

theorem finds_moduleLiterals : Finds d moduleLiterals fun hs => ∀ h ∈ hs, h.Held d := by
  refine (finds_findAll discerns_moduleStatements).bind fun statements hstatements => ?_
  refine (finds_filterMapM fun h hmem => finds_moduleLiteral? (hstatements h hmem)).bind
    fun sources hsources => ?_
  refine (finds_findAll discerns_directiveCalls).bind fun calls hcalls => ?_
  exact (finds_filterMapM fun h hmem => finds_firstArgument? (hcalls h hmem)).bind
    fun arguments harguments => finds_pure (List.forall_mem_append.mpr ⟨hsources, harguments⟩)

theorem careful_absolutize (cwd : PathName) (file : String) :
    Careful Session.document (absolutize cwd file) s := by
  refine (Pass.careful_lift (careful_batched ?_)).bind fun _ _ _ => careful_pure _
  refine yields_look_bind finds_moduleLiterals fun literals hliterals => ?_
  refine Careful.bind (careful_mapM fun h hmem t ht => ?_) fun _ _ _ => careful_pure _
  exact careful_makeAbsolute ((hliterals h hmem).later ht) cwd file

theorem careful_absolutizeIn (cwd : PathName) (file : Option String) :
    Careful Session.document (absolutizeIn cwd file) s := by
  cases file with
  | none => exact careful_pure _
  | some file => exact (careful_absolutize cwd file).bind fun _ _ _ => careful_pure _

theorem careful_reportMissing (legacy : List Handle) :
    Careful Session.document (reportMissing legacy) s := by
  unfold reportMissing
  split
  · exact Pass.careful_report _ _ _ _
  · exact careful_pure _

theorem careful_exchange {legacy : List Handle} (hl : ∀ h ∈ legacy, h.Held d) (header : List Text) :
    Careful id (exchange legacy header) d :=
  (careful_forM fun h hmem _ ht => careful_remove ((hl h hmem).later ht)).bind fun _ _ _ =>
    careful_forM fun text _ _ _ => careful_insertAtTop text

theorem careful_replace (cwd : PathName) (file : Option String) (attr : Text) (emitSetup : Bool) :
    Careful Session.document (replace cwd file attr emitSetup) s := by
  refine Pass.yields_look_bind (finds_findAll (discerns_importsFrom _)) fun legacy hlegacy => ?_
  refine (careful_reportMissing legacy).bind fun _ t ht => ?_
  refine (Pass.careful_lift (careful_batched (careful_exchange (fun h hmem => ?_) _))).bind fun _ _ _ => ?_
  · exact (hlegacy h hmem).later (ht.trans (precedes_opened _))
  · exact (careful_absolutizeIn cwd file).bind fun _ _ _ => careful_pure _

end Import

namespace RenderCall

theorem finds_plainName? {o : Option Handle} (ho : ∀ h ∈ o, h.Held d) :
    Finds d (plainName? o) fun found => ∀ h ∈ found, h.Held d := by
  cases o with
  | none => exact finds_none
  | some h =>
    refine h.safe_kind.bind fun kind => ?_
    split
    · exact finds_pure ho
    · exact finds_none

theorem finds_declarationName? {declaration : Handle} (hd : declaration.Held d) :
    Finds d (declarationName? declaration) fun found => ∀ h ∈ found, h.Held d := by
  refine (finds_namedChildren hd).bind fun children hchildren => ?_
  refine (finds_findM? fun child _ => child.safe_kind.bind fun _ => safe_pure _).bind
    fun declarator hdeclarator => ?_
  split
  · exact finds_none
  · exact (finds_field? (hchildren _ (hdeclarator _ rfl)) _).bind fun _ hname => finds_plainName? hname

theorem finds_assignedName? {call : Handle} (hc : call.Held d) :
    Finds d (assignedName? call) fun found => ∀ h ∈ found, h.Held d := by
  refine (finds_closest? hc discerns_plain).bind fun assignment hassignment => ?_
  split
  · exact (finds_field? (hassignment _ rfl) _).bind fun _ hname => finds_plainName? hname
  · exact finds_none

theorem finds_declaredName? {call : Handle} (hc : call.Held d) :
    Finds d (declaredName? call) fun found => ∀ h ∈ found, h.Held d := by
  refine (finds_closest? hc discerns_plain).bind fun declaration hdeclaration => ?_
  split
  · refine (finds_declarationName? (hdeclaration _ rfl)).bind fun name hname => ?_
    split
    · exact finds_pure hname
    · exact finds_assignedName? hc
  · exact finds_assignedName? hc

theorem finds_boundName? {call : Handle} (hc : call.Held d) :
    Finds d (boundName? call) fun found => ∀ h ∈ found, h.Held d := by
  refine (finds_closest? hc discerns_plain).bind fun function hfunction => ?_
  split
  · refine (finds_field? (hfunction _ rfl) _).bind fun name hname => ?_
    split
    · exact finds_pure hname
    · exact finds_declaredName? hc
  · exact finds_declaredName? hc

theorem careful_renameCallee {call : Handle} (hc : call.Held d) (name : String) :
    Careful id (renameCallee name call) d := by
  refine yields_look_bind (finds_field? hc _) fun callee hcallee => ?_
  split
  · exact careful_replaceWith (hcallee _ rfl) _
  · exact yields_throw (by simp [Failure.of])

theorem careful_renameHelper {binding : Option Handle} (hb : ∀ h ∈ binding, h.Held d)
    (name : Option String) : Careful id (renameHelper binding name) d := by
  unfold renameHelper
  split
  · split
    · refine (careful_replaceWith (hb _ rfl) _).bind fun _ t _ => ?_
      refine yields_look_bind (finds_findAll (discerns_callTo _ none)) fun uses huses => ?_
      exact careful_forM fun h hmem _ hu => careful_renameCallee ((huses h hmem).later hu) _
    · exact careful_pure _
  · exact careful_pure _

theorem careful_renameCalls {binding : Option Handle} {calls : List Handle}
    (hb : ∀ h ∈ binding, h.Held d) (hc : ∀ h ∈ calls, h.Held d) (name : Option String) :
    Careful id (renameCalls binding name calls) d :=
  (careful_renameHelper hb name).bind fun _ _ ht =>
    careful_forM fun h hmem _ hu => careful_renameCallee ((hc h hmem).later (ht.trans hu)) _

theorem careful_reportUnbound (primitive : String) (line : Nat) (name : Option String) :
    Careful Session.document (reportUnbound primitive line name) s := by
  unfold reportUnbound
  split
  · exact Pass.careful_report _ _ _ _
  · exact careful_pure _

theorem careful_convertCalls {first : Handle} {rest : List Handle} (primitive : String)
    (hc : ∀ h ∈ first :: rest, h.Held s.document) :
    Careful Session.document (convertCalls primitive first rest) s := by
  have hfirst := hc first List.mem_cons_self
  refine Pass.yields_look_bind first.safe_line fun line _ => ?_
  refine Pass.yields_look_bind (finds_boundName? hfirst) fun binding hbinding => ?_
  refine Pass.yields_look_bind (safe_optionMapM fun h hmem => safe_text (hbinding h hmem)) fun name _ => ?_
  refine (Pass.careful_lift (careful_batched (careful_renameCalls ?_ ?_ _))).bind fun _ _ _ => ?_
  · exact fun h hmem => (hbinding h hmem).later (precedes_opened _)
  · exact fun h hmem => (hc h hmem).later (precedes_opened _)
  · exact (careful_reportUnbound _ _ _).bind fun _ _ _ => careful_pure _

theorem careful_convertFound {found : List (String × List Handle)}
    (hf : ∀ c ∈ found, ∀ h ∈ c.2, h.Held s.document) :
    Careful Session.document (convertFound found) s := by
  unfold convertFound
  split
  · exact (Pass.careful_report _ _ _ _).bind fun _ _ _ => careful_pure _
  · exact careful_convertCalls _ (hf _ List.mem_cons_self)
  · exact yields_get_bind (yields_throw (by simp [Failure.unsupportedInput]))

theorem careful_normalise : Careful Session.document normalise s := by
  refine (yields_mapM (Q := fun d c => ∀ h ∈ c.2, h.Held d) ?_ fun name _ t _ => ?_).bind
    fun calls t _ hcalls => careful_convertFound fun c hc => hcalls c (List.mem_of_mem_filter hc)
  · exact fun d d' c hd hc h hmem => (hc h hmem).later hd
  · exact Pass.yields_look_bind (finds_findAll (discerns_callTo _ none)) fun _ hfound => yields_pure hfound

end RenderCall

namespace Wrapper

theorem finds_declarators {declaration : Handle} (hd : declaration.Held d) :
    Finds d (declarators declaration) fun hs => ∀ h ∈ hs, h.Held d :=
  (finds_namedChildren hd).bind fun _ hchildren =>
    (finds_filterM fun child _ => child.safe_kind.bind fun _ => safe_pure _).imp
      fun _ hkept h hmem => hchildren h (hkept h hmem)

theorem safe_isCall {h : Handle} (hh : h.Held d) (callee : Option String) : Safe d (isCall h callee) := by
  refine (finds_awaited? hh).bind fun inner hinner => ?_
  split
  · exact safe_pure _
  · refine (safe_kind _).bind fun kind => ?_
    split
    · exact safe_pure _
    · cases callee with
      | none => exact safe_pure _
      | some name =>
        refine (finds_field? (hinner _ rfl) _).bind fun function hfunction => ?_
        split
        · exact safe_pure _
        · exact (safe_kind _).bind fun _ => (safe_text (hfunction _ rfl)).bind fun _ => safe_pure _

theorem finds_binding? {declaration : Handle} (hd : declaration.Held d) :
    Finds d (binding? declaration) fun found => ∀ b ∈ found, b.1.Held d ∧ b.2.Held d := by
  refine (finds_parent? hd).bind fun parent _ => ?_
  split
  · exact finds_none
  · refine (safe_kind _).bind fun kind => ?_
    split
    · exact finds_none
    · refine (finds_declarators hd).bind fun all hall => ?_
      split
      · have hdeclarator := hall _ List.mem_cons_self
        refine (finds_field? hdeclarator _).bind fun name hname =>
          (finds_field? hdeclarator _).bind fun value hvalue => ?_
        split
        · exact finds_pure fun b hb => Option.mem_some.mp hb ▸ ⟨hname _ rfl, hvalue _ rfl⟩
        · exact finds_none
      · exact finds_none

theorem safe_isUninitialised {declarator : Handle} (hd : declarator.Held d) (names : List String) :
    Safe d (isUninitialised names declarator) := by
  refine (finds_field? hd _).bind fun value _ => ?_
  split
  · exact safe_pure _
  · refine (finds_field? hd _).bind fun name hname => ?_
    split
    · exact (safe_text (hname _ rfl)).bind fun _ => safe_pure _
    · exact safe_pure _

theorem safe_isIdentifier (h : Handle) : Safe d (isIdentifier h) :=
  h.safe_kind.bind fun _ => safe_pure _

theorem careful_collapse {declaration value : Handle} (hd : declaration.Held d) (hv : value.Held d) :
    Careful id (collapse declaration value) d :=
  yields_look_bind (safe_text hv) fun _ _ => careful_replaceWith hd _

theorem careful_removeFrom {declaration : Handle} (hd : declaration.Held d) (names : List String) :
    Careful id (removeFrom names declaration) d := by
  refine yields_look_bind (finds_declarators hd) fun all hall => ?_
  refine yields_look_bind (finds_filterM fun h hmem => safe_isUninitialised (hall h hmem) names)
    fun doomed _ => ?_
  split
  · exact careful_pure _
  · split
    · exact careful_remove hd
    · refine yields_look_bind (finds_mapM fun h hmem => safe_text (hall h (List.mem_of_mem_filter hmem)))
        fun kept _ => ?_
      exact yields_look_bind (safe_text hd) fun _ _ => careful_replaceWith hd _

theorem careful_removeUninitialised (names : List String) : Careful id (removeUninitialised names) d :=
  yields_look_bind (finds_findAll discerns_plain) fun _ hfound =>
    careful_forM fun h hmem _ ht => careful_removeFrom ((hfound h hmem).later ht) names

section

variable {test named : Handle → Handle → Looking Bool}

theorem careful_collapseDeclaration {declaration : Handle} (hd : declaration.Held d)
    (ht : ∀ t a b, Handle.Held t a → Handle.Held t b → Safe t (test a b))
    (hn : ∀ t a b, Handle.Held t a → Handle.Held t b → Safe t (named a b)) :
    Careful id (collapseDeclaration test named declaration) d := by
  refine yields_look_bind (finds_binding? hd) fun binding hbinding => ?_
  split
  · exact careful_pure _
  · obtain ⟨hname, hvalue⟩ := hbinding _ rfl
    refine yields_look_bind (ht d _ _ hname hvalue) fun holds _ => ?_
    split
    · refine (careful_collapse hd hvalue).bind fun _ t ht => ?_
      refine yields_look_bind (hn t _ _ (hname.later ht) (hvalue.later ht)) fun accepted _ => ?_
      split
      · exact yields_look_bind (safe_text (hname.later ht)) fun _ _ => careful_pure _
      · exact careful_pure _
    · exact careful_pure _

theorem careful_collapseDeclarations
    (ht : ∀ t a b, Handle.Held t a → Handle.Held t b → Safe t (test a b))
    (hn : ∀ t a b, Handle.Held t a → Handle.Held t b → Safe t (named a b)) :
    Careful id (collapseDeclarations test named) d := by
  refine yields_look_bind (finds_findAll discerns_plain) fun declarations hdeclarations => ?_
  refine Careful.bind (careful_mapM fun h hmem t hlater => ?_) fun _ _ _ => careful_pure _
  exact careful_collapseDeclaration ((hdeclarations h hmem).later hlater) ht hn

theorem careful_collapseAssignment {a : Handle} (ha : a.Held d)
    (ht : ∀ t a b, Handle.Held t a → Handle.Held t b → Safe t (test a b)) :
    Careful id (collapseAssignment test a) d := by
  refine yields_look_bind (finds_field? ha _) fun left hleft => ?_
  refine yields_look_bind (finds_field? ha _) fun right hright => ?_
  split
  · refine yields_look_bind (ht d _ _ (hleft _ rfl) (hright _ rfl)) fun holds _ => ?_
    split
    · refine yields_look_bind (safe_text (hright _ rfl)) fun text _ => ?_
      refine (careful_replaceWith ha _).bind fun _ t hlater => ?_
      exact yields_look_bind (safe_text ((hleft _ rfl).later hlater)) fun _ _ => careful_pure _
    · exact careful_pure _
  · exact careful_pure _

theorem careful_collapseAssignments
    (ht : ∀ t a b, Handle.Held t a → Handle.Held t b → Safe t (test a b)) :
    Careful id (collapseAssignments test) d := by
  refine yields_look_bind (finds_findAll discerns_plain) fun assignments hassignments => ?_
  refine Careful.bind (careful_mapM fun h hmem t hlater => ?_) fun _ _ _ => careful_pure _
  exact careful_collapseAssignment ((hassignments h hmem).later hlater) ht

end

section

variable {name value : Handle} (function : String)

theorem safe_holdsResult (hv : value.Held d) : Safe d (holdsResult function name value) := by
  refine (safe_isIdentifier name).bind fun holds => ?_
  split
  · exact safe_isCall hv _
  · exact safe_pure _

theorem safe_isNamesake (hn : name.Held d) (hv : value.Held d) :
    Safe d (isNamesake function name value) := by
  refine (safe_isIdentifier name).bind fun holds => ?_
  split
  · exact safe_pure _
  · refine (safe_text hn).bind fun text => ?_
    split
    · exact safe_isCall hv _
    · exact safe_pure _

theorem safe_givesWay (hn : name.Held d) (hv : value.Held d) :
    Safe d (givesWay function name value) := by
  refine (safe_isNamesake function hn hv).bind fun holds => ?_
  split
  · exact safe_pure _
  · refine name.safe_kind.bind fun kind => ?_
    split
    · exact safe_isCall hv _
    · exact safe_pure _

theorem safe_isAssigned (hn : name.Held d) (hv : value.Held d) :
    Safe d (isAssigned function name value) := by
  refine (safe_text hn).bind fun text => ?_
  split
  · exact safe_isCall hv _
  · exact safe_pure _

theorem careful_resultsOf : Careful id (resultsOf function) d := by
  refine (careful_batched (careful_collapseDeclarations (fun _ _ _ _ hv => safe_holdsResult function hv)
    fun _ _ _ _ _ => safe_pure _)).bind fun r t _ => ?_
  refine Careful.bind (careful_batched ?_) fun _ _ _ => careful_pure _
  refine (careful_collapseAssignments fun _ _ _ _ hv => safe_holdsResult function hv).bind fun names _ _ => ?_
  exact (careful_removeUninitialised names).bind fun _ _ _ => careful_pure _

theorem careful_namesakesOf : Careful id (namesakesOf function) d := by
  refine (careful_batched (careful_collapseDeclarations (fun _ _ _ => safe_givesWay function)
    fun _ _ _ => safe_isNamesake function)).bind fun r t _ => ?_
  refine Careful.bind (careful_batched ?_) fun _ _ _ => careful_pure _
  refine (careful_collapseAssignments fun _ _ _ => safe_isAssigned function).bind fun names _ _ => ?_
  split
  · exact (careful_removeUninitialised _).bind fun _ _ _ => careful_pure _
  · exact careful_pure _

end

theorem careful_resolve (function : Option String) : Careful Session.document (resolve function) s := by
  cases function with
  | none => exact careful_pure _
  | some function =>
    refine (Pass.careful_lift (careful_resultsOf function)).bind fun direct t _ => ?_
    have hrest : ∀ (names : List String) (u : Session), Careful Session.document (do
        if names.isEmpty then
          Pass.report .noWrapperBindings
            s!"No wrapper bindings found for render function '{function}'"
        return names.eraseDups) u := by
      intro names u
      split
      · exact (Pass.careful_report _ _ _ _).bind fun _ _ _ => careful_pure _
      · exact careful_pure _
    split
    · exact (Pass.careful_lift (careful_namesakesOf function)).bind fun names u _ => hrest names u
    · exact (careful_pure direct).bind fun names u _ => hrest names u

end Wrapper

namespace Selector

theorem safe_objectValue? (key : Text) {pairs : List Handle} (hp : ∀ h ∈ pairs, h.Held d) :
    Safe d (objectValue? key pairs) := by
  induction pairs with
  | nil => exact safe_pure _
  | cons pair rest ih =>
    obtain ⟨hpair, hrest⟩ := List.forall_mem_cons.mp hp
    refine pair.safe_kind.bind fun kind => ?_
    split
    · exact ih hrest
    · refine (finds_field? hpair _).bind fun k hk => ?_
      split
      · exact ih hrest
      · have hnamed : ∀ name : Text, Safe d (do
            if name == key then Handle.valueOf? (← pair.field? .value)
            else objectValue? key rest) := by
          intro name
          split
          · exact (finds_field? hpair _).bind fun _ => safe_valueOf?
          · exact ih hrest
        refine (safe_literalValue? (hk _ rfl)).bind fun value => ?_
        split
        · exact (safe_pure _).bind hnamed
        · exact (safe_text (hk _ rfl)).bind fun _ => (safe_pure _).bind hnamed

theorem safe_classify (attr : Text) {argument : Option Handle} (ha : ∀ h ∈ argument, h.Held d) :
    Safe d (classify attr argument) := by
  cases argument with
  | none => exact safe_pure _
  | some argument =>
    have hargument := ha argument rfl
    refine argument.safe_kind.bind fun kind => ?_
    split
    · refine (finds_namedChildren hargument).bind fun pairs hpairs => ?_
      refine (safe_objectValue? attr hpairs).bind fun value => ?_
      split
      · exact safe_pure _
      · exact safe_pure _
    · refine (safe_literalValue? hargument).bind fun value => ?_
      split
      · exact safe_pure _
      · split
        · exact safe_pure _
        · split
          · exact safe_pure _
          · exact safe_pure _

theorem safe_hasKind (h : Handle) (kind : Kind) : Safe d (hasKind h kind) :=
  h.safe_kind.bind fun _ => safe_pure _

theorem safe_isDenied {call : Handle} (hc : call.Held d) : Safe d (isDenied call) := by
  refine (finds_parent? hc).bind fun arguments harguments => ?_
  split
  case h_2 => exact safe_pure _
  refine (safe_hasKind _ _).bind fun holds => ?_
  split
  · exact safe_pure _
  refine (finds_parent? (harguments _ rfl)).bind fun expect hexpect => ?_
  split
  case h_2 => exact safe_pure _
  refine (safe_hasKind _ _).bind fun holds => ?_
  split
  · exact safe_pure _
  refine (finds_field? (hexpect _ rfl) _).bind fun callee hcallee => ?_
  split
  case h_2 => exact safe_pure _
  refine (safe_text (hcallee _ rfl)).bind fun text => ?_
  split
  · exact safe_pure _
  refine (finds_parent? (hexpect _ rfl)).bind fun member hmember => ?_
  split
  case h_2 => exact safe_pure _
  refine (safe_hasKind _ _).bind fun holds => ?_
  split
  · exact safe_pure _
  refine (finds_field? (hmember _ rfl) _).bind fun object _ => ?_
  split
  case h_2 => exact safe_pure _
  refine (finds_field? (hmember _ rfl) _).bind fun property hproperty => ?_
  split
  case h_2 => exact safe_pure _
  exact (safe_text (hproperty _ rfl)).bind fun _ => safe_pure _

theorem safe_query? (attr : Text) {call : Handle} (hc : call.Held d) : Safe d (query? attr call) := by
  refine (finds_firstArgument? hc).bind fun argument hargument => ?_
  refine (safe_classify attr hargument).bind fun selector => ?_
  split
  · exact (safe_isDenied hc).bind fun denied => safe_pure _
  · exact safe_pure _
  · exact safe_pure _

theorem careful_reportUnconverted {call : Handle} (hc : call.Held s.document) :
    Careful Session.document (reportUnconverted call) s :=
  Pass.yields_look_bind (safe_shownArgument hc _) fun _ _ =>
    Pass.yields_look_bind call.safe_line fun _ _ => Pass.careful_report _ _ _ _

theorem careful_convert (attr : Text) : Careful Session.document (convert attr) s := by
  refine (Pass.careful_lift (careful_untilStable (fun t _ => ?_) _)).bind fun converted t _ => ?_
  · exact MatchSet.careful_round (discerns_methodOf _ none) (fun _ _ => safe_query? attr)
      fun _ _ => careful_pure _
  · refine Pass.yields_look_bind (finds_findAll (discerns_methodOf _ none)) fun calls hcalls => ?_
    refine Careful.bind (careful_forIn fun h hmem _ u hu => ?_) fun _ _ _ => careful_pure _
    exact (careful_reportUnconverted ((hcalls h hmem).later hu)).bind fun _ _ _ => careful_pure _

end Selector

namespace Assertion

theorem finds_expectArgument? {expect : Option Handle} {p : Pattern} (he : ∀ h ∈ expect, h.Held d)
    (hp : p.Discerns d) : Finds d (expectArgument? expect p) fun found => ∀ h ∈ found, h.Held d := by
  cases expect with
  | none => exact finds_none
  | some call =>
    have hcall := he call rfl
    refine Safe.bind (discerns_callTo _ (some 1) call hcall) fun holds => ?_
    split
    · exact finds_none
    · refine (finds_firstArgument? hcall).bind fun argument hargument => ?_
      split
      · exact finds_none
      · refine (hp _ (hargument _ rfl)).bind fun holds => ?_
        split
        · exact finds_pure hargument
        · exact finds_none

theorem finds_subject? {assertion : Handle} (ha : assertion.Held d) :
    Finds d (subject? assertion) fun found => ∀ h ∈ found, h.Held d := by
  refine (finds_field? ha _).bind fun callee hcallee => ?_
  split
  · exact finds_field? (hcallee _ rfl) _
  · exact finds_none

theorem safe_withReceiver {outer call : Handle} (ho : outer.Held d) (hc : call.Held d) :
    Safe d (withReceiver outer call) := by
  have hreplaced : ∀ text : String, Safe d (outer.textWith [(call, text)]) := fun text =>
    safe_textWith ho (List.forall_mem_singleton.mpr hc)
  refine (finds_receiver? hc).bind fun receiver hreceiver => ?_
  split
  · exact (safe_text (hreceiver _ rfl)).bind hreplaced
  · exact (safe_pure _).bind hreplaced

theorem safe_textContent? {assertion : Handle} (ha : assertion.Held d) :
    Safe d (textContent? assertion) := by
  refine (finds_subject? ha).bind fun expect hexpect => ?_
  refine (finds_expectArgument? hexpect (discerns_methodOf _ (some 0))).bind fun call hcall => ?_
  split
  · exact (safe_withReceiver (hexpect _ rfl) (hcall _ rfl)).bind fun _ =>
      (safe_argumentText ha).bind fun _ => safe_pure _
  · exact safe_pure _

theorem careful_convertText : Careful Session.document convertText s :=
  Pass.careful_replaceWith (discerns_methodOf _ none) fun _ _ => safe_textContent?

theorem safe_literalExpectation? {assertion : Handle} (ha : assertion.Held d) :
    Safe d (literalExpectation? assertion) := by
  refine (finds_field? ha _).bind fun list hlist => ?_
  split
  · exact safe_pure _
  · refine (finds_namedChildren (hlist _ rfl)).bind fun children _ => ?_
    split
    · refine (safe_kind _).bind fun kind => ?_
      split
      · exact safe_pure _
      · exact safe_pure _
      · exact safe_pure _
    · exact safe_pure _

theorem safe_expectation? {assertion : Handle} (ha : assertion.Held d) :
    Safe d (expectation? assertion) := by
  refine (safe_methodName? ha).bind fun name => ?_
  split
  · exact safe_literalExpectation? ha
  · exact safe_literalExpectation? ha
  · exact (safe_argumentText ha).bind fun _ => by split <;> exact safe_pure _
  · exact (safe_argumentText ha).bind fun _ => by split <;> exact safe_pure _
  · exact safe_pure _

theorem finds_denied? {subject : Handle} (hs : subject.Held d) :
    Finds d (denied? subject) fun found => ∀ h ∈ found, h.Held d := by
  refine subject.safe_kind.bind fun kind => ?_
  split
  · exact finds_none
  · refine (finds_field? hs _).bind fun property hproperty => ?_
    split
    · exact finds_none
    · refine (safe_text (hproperty _ rfl)).bind fun text => ?_
      split
      · exact finds_field? hs _
      · exact finds_none

theorem safe_restated? (present : Bool) {expect : Handle} (he : expect.Held d) :
    Safe d (restated? present expect) := by
  refine (finds_expectArgument? (fun h hmem => Option.mem_some.mp hmem ▸ he)
    (discerns_methodOf _ (some 0))).bind fun call hcall => ?_
  split
  · exact (safe_withReceiver he (hcall _ rfl)).bind fun _ => safe_pure _
  · exact safe_pure _

theorem safe_presence? {assertion : Handle} (ha : assertion.Held d) : Safe d (presence? assertion) := by
  refine (safe_expectation? ha).bind fun expected => ?_
  split
  case h_2 => exact safe_pure _
  refine (finds_subject? ha).bind fun subject hsubject => ?_
  split
  case h_2 => exact safe_pure _
  refine (finds_denied? (hsubject _ rfl)).bind fun inner hinner => ?_
  split
  · exact safe_restated? _ (hinner _ rfl)
  · exact safe_restated? _ (hsubject _ rfl)

theorem careful_convertPresence : Careful Session.document convertPresence s :=
  Pass.careful_replaceWith (discerns_methodOf _ none) fun _ _ => safe_presence?

end Assertion

namespace Simulation

theorem discerns_namedCalls : namedCalls.Discerns d := by
  refine discerns_methodCall (by simp) (fun patterns hpatterns => ?_) none
  cases hpatterns
  exact List.forall_mem_singleton.mpr discerns_plain

theorem safe_userCall? {call : Handle} (hc : call.Held d) : Safe d (userCall? call) := by
  refine (finds_firstArgument? hc).bind fun argument hargument => ?_
  refine (safe_valueOf? hargument).bind fun event => ?_
  refine (finds_receiver? hc).bind fun receiver hreceiver => ?_
  split
  · exact (safe_text (hreceiver _ rfl)).bind fun _ => safe_pure _
  · exact safe_pure _

theorem careful_reportUnmapped {call : Handle} (hc : call.Held s.document) :
    Careful Session.document (reportUnmapped call) s :=
  Pass.yields_look_bind (safe_shownArgument hc _) fun _ _ =>
    Pass.yields_look_bind call.safe_line fun _ _ => Pass.careful_report _ _ _ _

theorem careful_importUserEvent (converted : Nat) :
    Careful Session.document (importUserEvent converted) s := by
  refine Pass.yields_look_bind (Import.safe_isImported _) fun imported _ => ?_
  split
  · exact Pass.careful_lift (careful_insertAtTop _)
  · exact careful_pure _

theorem careful_convert : Careful Session.document convert s := by
  refine (Pass.careful_lift (careful_untilStable (fun t _ => ?_) _)).bind fun converted t _ => ?_
  · exact MatchSet.careful_round discerns_namedCalls (fun _ _ => safe_userCall?) fun _ _ => careful_pure _
  · refine Pass.yields_look_bind (finds_findAll (discerns_methodOf _ none)) fun calls hcalls => ?_
    refine Careful.bind (careful_forIn fun h hmem _ u hu => ?_) fun _ u _ => ?_
    · exact (careful_reportUnmapped ((hcalls h hmem).later hu)).bind fun _ _ _ => careful_pure _
    · exact (careful_importUserEvent converted).bind fun _ _ _ => careful_pure _

end Simulation

namespace Chain

theorem safe_receiverText {call : Handle} (hc : call.Held d) : Safe d (receiverText call) := by
  refine (finds_receiver? hc).bind fun receiver hreceiver => ?_
  split
  · exact (safe_text (hreceiver _ rfl)).bind fun _ => safe_pure _
  · exact safe_pure _

theorem careful_removeUpdate {call : Handle} (hc : call.Held d) : Careful id (removeUpdate call) d := by
  refine yields_look_bind (finds_receiver? hc) fun receiver hreceiver => ?_
  refine yields_look_bind (finds_parent? hc) fun parent hparent => ?_
  split
  · refine yields_look_bind (safe_kind _) fun _ _ => yields_look_bind (safe_kind _) fun _ _ => ?_
    split
    · exact careful_remove (hparent _ rfl)
    · exact yields_look_bind (safe_text (hreceiver _ rfl)) fun _ _ => careful_replaceWith hc _
  · exact yields_throw (by simp [Failure.of])

theorem careful_removeIdle : Careful Session.document removeIdle s := by
  refine Pass.careful_lift (careful_untilStable (fun t _ => ?_) _)
  refine MatchSet.careful_round (discerns_methodOf _ (some 0)) (fun _ _ => safe_receiverText) fun _ u => ?_
  refine yields_look_bind (finds_findAll (discerns_methodOf _ (some 0))) fun calls hcalls => ?_
  refine Careful.bind (careful_forIn fun h hmem _ v hv => ?_) fun _ _ _ => careful_pure _
  exact (careful_removeUpdate ((hcalls h hmem).later hv)).bind fun _ _ _ => careful_pure _

end Chain

namespace Guidance

theorem safe_select (page : Snapshot) (selector : String) :
    Safe d (liftM (page.select selector) : Looking _) := by
  unfold Snapshot.select
  split
  · exact safe_pure _
  split
  · exact safe_pure _
  · exact safe_pure _
  · exact finds_throw (by simp [Failure.of])

theorem safe_suggest? (page : Snapshot) (selector attr : String) :
    Safe d (liftM (page.suggest? selector attr) : Looking _) :=
  finds_except_bind (safe_select page selector) fun _ _ => safe_pure _

theorem safe_ofSelector (selector : Text) (attr : String) (snapshot : Option Snapshot) :
    Safe d (liftM (ofSelector selector attr snapshot) : Looking _) := by
  unfold ofSelector
  split
  · exact safe_pure _
  · split
    · exact finds_except_bind (safe_suggest? _ _ _) fun _ _ => safe_pure _
    · exact safe_pure _

theorem safe_onSelector (argument : String) (selector : Option Text) (attr : String)
    (snapshot : Option Snapshot) :
    Safe d (liftM (onSelector argument selector attr snapshot) : Looking _) := by
  cases selector with
  | none => exact safe_pure _
  | some selector => exact finds_except_bind (safe_ofSelector selector attr snapshot) fun _ _ => safe_pure _

end Guidance

namespace Suggestion

theorem commentsAbove_ok (hd : d.Intact) (start : Nat) :
    ∃ above, commentsAbove d start = .ok above := by
  obtain ⟨lines, hlines⟩ := hd.linesBefore start
  unfold commentsAbove
  rw [hlines]
  exact ⟨_, rfl⟩

theorem careful_annotate {call : Handle} (hc : call.Held d) (comment : Text) (noted : Noted) :
    Careful id (annotate call comment noted) d := by
  refine yields_look_bind (finds_closest? hc discerns_plain) fun statement hstatement => ?_
  split
  · exact careful_pure _
  · have hh := hstatement _ rfl
    refine yields_look_bind (Handle.safe_start _) fun start _ => ?_
    split
    · exact careful_pure _
    · refine yields_of_intact fun hd => yields_get_bind ?_
      obtain ⟨above, habove⟩ : ∃ above, commentsAbove d start = .ok above := commentsAbove_ok hd start
      rw [habove]
      refine (careful_pure above).bind fun above t ht => ?_
      split
      · exact careful_pure _
      · exact (careful_insertBefore (hh.later ht) _).bind fun _ _ _ => careful_pure _

theorem safe_onWrapper (wrapper : String) {call : Handle} (hc : call.Held d) :
    Safe d (onWrapper wrapper call) := by
  refine (safe_methodName? hc).bind fun method => ?_
  split
  · exact safe_pure _
  · exact safe_pure _
  · exact (finds_firstArgument? hc).bind fun argument hargument =>
      (safe_optionMapM fun h hmem => safe_text (hargument h hmem)).bind fun _ => safe_pure _

theorem safe_onFind (attr : String) (snapshot : Option Snapshot) {call : Handle} (hc : call.Held d) :
    Safe d (onFind attr snapshot call) := by
  refine (finds_firstArgument? hc).bind fun argument hargument => ?_
  refine (safe_valueOf? hargument).bind fun selector => ?_
  refine (safe_argumentText hc).bind fun text => ?_
  exact (Guidance.safe_onSelector _ _ _ _).bind fun _ => safe_pure _

theorem safe_onSimulate {call : Handle} (hc : call.Held d) : Safe d (onSimulate call) :=
  (safe_argumentText hc).bind fun _ => safe_pure _

section

variable {comment : Handle → Looking (Option Text)}

theorem careful_annotateWith (hc : ∀ t h, Handle.Held t h → Safe t (comment h)) {call : Handle}
    (hcall : call.Held d) (noted : Noted) : Careful id (annotateWith comment noted call) d := by
  refine yields_look_bind (hc d call hcall) fun text _ => ?_
  split
  · exact careful_annotate hcall _ _
  · exact careful_pure _

theorem careful_annotateAll {p : Pattern} (hp : p.Discerns d)
    (hc : ∀ t h, Handle.Held t h → Safe t (comment h)) (noted : Noted) :
    Careful id (annotateAll p comment noted) d :=
  yields_look_bind (finds_findAll hp) fun _ hcalls =>
    careful_foldlM fun h hmem noted _ ht => careful_annotateWith hc ((hcalls h hmem).later ht) noted

end

theorem discerns_methodsOf (wrapper : String) : (methodsOf wrapper).Discerns d := by
  have hreceiver : ∀ r ∈ some (Pattern.identifier (some (.exactly wrapper))), r.Discerns d :=
    fun r hr => Option.mem_some.mp hr ▸ discerns_identifier _
  exact discerns_methodCall hreceiver (by simp) none

theorem careful_annotations (wrappers : List String) (attr : String) (snapshot : Option Snapshot) :
    Careful id (annotations wrappers attr snapshot) d := by
  refine Careful.bind (careful_foldlM fun wrapper _ noted t _ => ?_) fun noted t _ => ?_
  · exact careful_annotateAll (discerns_methodsOf wrapper) (fun _ _ => safe_onWrapper wrapper) noted
  · refine (careful_annotateAll (discerns_methodOf _ none) (fun _ _ => safe_onFind attr snapshot) noted).bind
      fun noted u _ => ?_
    exact careful_annotateAll (discerns_methodOf _ none) (fun _ _ => safe_onSimulate) noted

theorem careful_add (wrappers : List String) (attr : String) (snapshot : Option Snapshot) :
    Careful Session.document (add wrappers attr snapshot) s :=
  (Pass.careful_lift (careful_batched (careful_annotations _ _ _))).bind fun _ _ _ => careful_pure _

end Suggestion

namespace Conversion

theorem careful_bindings : Careful Session.document bindings s :=
  RenderCall.careful_normalise.bind fun renderFunction _ _ =>
    (Wrapper.careful_resolve renderFunction).bind fun _ _ _ => careful_pure _

theorem careful_passes (o : ConversionOptions) (file : Option String) :
    Careful Session.document (passes o file) s := by
  refine (Import.careful_replace _ _ _ _).bind fun importReplaced _ _ => ?_
  refine careful_bindings.bind fun bound _ _ => ?_
  refine (Selector.careful_convert _).bind fun selectors _ _ => ?_
  refine Assertion.careful_convertText.bind fun textAssertions _ _ => ?_
  refine Simulation.careful_convert.bind fun simulations _ _ => ?_
  refine Assertion.careful_convertPresence.bind fun presenceAssertions _ _ => ?_
  refine Chain.careful_removeIdle.bind fun chainCalls _ _ => ?_
  exact (Suggestion.careful_add bound.2 _ _).bind fun suggestions _ _ => careful_pure _

theorem careful_finish (bound : Option String × List String) (statistics : Statistics) :
    Careful Session.document (finish bound statistics) s := by
  refine yields_of_intact fun hd => yields_get_bind ?_
  obtain ⟨text, htext, -⟩ := hd.code
  rw [htext]
  exact (careful_pure text).bind fun _ _ _ => careful_pure _

theorem careful_run (o : ConversionOptions) : Careful Session.document (run o) s :=
  yields_get_bind ((careful_passes o s.document.path).bind fun r _ _ => careful_finish r.1 r.2)

end Conversion

end TestMigration
