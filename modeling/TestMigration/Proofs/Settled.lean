import TestMigration.Proofs.Still
import TestMigration.Proofs.Passes

/-! Scripts that a conversion leaves as they are. Each pass says what it finds to do in a tree; a
script is settled if none of them finds anything, and that is when a conversion of it commits
nothing. -/

namespace TestMigration

open Pattern (quiet_methodCall quiet_callTo quiet_ofKinds quiet_withCount)
open Pass (Idles idles_pure idles_lift idles_look idles_batched idles_report idles_mapM
  idles_forIn programmed_pure)

namespace Import

/-- The literal names no module that would be resolved. -/
def Resolved (d : Document) (literal : Handle) : Prop :=
  ∃ value, literal.literalValue? d = .ok value ∧
    ∀ specifier, value = some specifier → Specifier.needsResolving specifier = false

/-- No import, re-export or mock directive has a specifier to resolve. -/
def AllResolved (d : Document) : Prop :=
  ∃ literals, moduleLiterals d = .ok literals ∧ ∀ l ∈ literals, Resolved d l

theorem still_makeAbsolute (cwd : PathName) (file : String) {d : Document} (hd : d.recorded = [])
    (literal : Handle) (n : Nat) :
    makeAbsolute cwd file literal d = .ok n d ↔ Resolved d literal ∧ n = 0 := by
  constructor
  · intro hn
    obtain ⟨value, hv, hn⟩ := still_look_bind.mp hn
    cases value with
    | none =>
      cases hn
      exact ⟨⟨none, hv, by simp⟩, rfl⟩
    | some specifier =>
      dsimp only at hn
      split at hn
      · rename_i hkept
        cases hn
        exact ⟨⟨some specifier, hv, by simpa using hkept⟩, rfl⟩
      · obtain ⟨existing, -, hn⟩ := still_look_bind.mp hn
        obtain ⟨⟨⟩, hr, -⟩ := (still_bind (literal.made_replaceWith _) fun _ => made_pure _).mp hn
        exact absurd hr (replaceWith_moves hd)
  · intro h
    obtain ⟨⟨value, hv, hresolved⟩, rfl⟩ := h
    refine still_look_bind.mpr ⟨value, hv, ?_⟩
    cases value with
    | none => rfl
    | some specifier =>
      dsimp only
      rw [if_pos (by simp [hresolved specifier rfl])]
      rfl

theorem idles_absolutize (cwd : PathName) (file : String) :
    Idles (absolutize cwd file) fun d n => AllResolved d ∧ n = 0 := by
  have hmade := made_stepwise.mapM (made_makeAbsolute cwd file)
  have hbody : Made (do
      let literals ← (moduleLiterals : Looking _)
      let counts ← literals.mapM (makeAbsolute cwd file)
      return counts.foldr (· + ·) 0 : Editing Nat) :=
    (made_look plain_moduleLiterals).bind fun literals =>
      (hmade literals).bind fun _ => made_pure _
  have hstill : ∀ (d : Document) (n : Nat), d.batch = none → ((do
      let literals ← (moduleLiterals : Looking _)
      let counts ← literals.mapM (makeAbsolute cwd file)
      return counts.foldr (· + ·) 0 : Editing Nat) d.opened = .ok n d.opened ↔
        AllResolved d ∧ n = 0) := by
    intro d n h
    have hliterals : moduleLiterals d.opened = moduleLiterals d := plain_moduleLiterals.blind d _
    have heach : ∀ l c, makeAbsolute cwd file l d.opened = .ok c d.opened ↔
        Resolved d l ∧ c = 0 := by
      intro l c
      rw [still_makeAbsolute cwd file rfl]
      unfold Resolved Document.opened
      rw [l.plain_literalValue?.blind]
    rw [still_look_bind, hliterals]
    constructor
    · intro hr
      obtain ⟨literals, hl, hn⟩ := hr
      obtain ⟨counts, hcounts, hn⟩ := (still_bind (hmade literals) fun _ => made_pure _).mp hn
      obtain ⟨hresolved, rfl⟩ := (still_mapM (made_makeAbsolute cwd file) heach).mp hcounts
      cases hn
      exact ⟨⟨literals, hl, hresolved⟩, foldr_zeros _⟩
    · intro hr
      obtain ⟨⟨literals, hl, hresolved⟩, rfl⟩ := hr
      refine ⟨literals, hl, (still_bind (hmade literals) fun _ => made_pure _).mpr
        ⟨_, (still_mapM (made_makeAbsolute cwd file) heach).mpr ⟨hresolved, rfl⟩, ?_⟩⟩
      rw [foldr_zeros]
      rfl
  refine Idles.congr (idles_batched (f := id) hbody hstill) fun d n _ => ?_
  constructor
  · intro hr
    obtain ⟨n, ⟨hresolved, rfl⟩, rfl⟩ := hr
    exact ⟨hresolved, rfl⟩
  · intro hr
    obtain ⟨hresolved, rfl⟩ := hr
    exact ⟨0, ⟨hresolved, rfl⟩, rfl⟩

theorem idles_absolutizeIn (cwd : PathName) (file : Option String) :
    Idles (absolutizeIn cwd file) fun d _ => file.isSome → AllResolved d := by
  cases file with
  | none => exact (idles_pure _).congr fun d _ _ => by simp
  | some file =>
    refine ((idles_absolutize cwd file).bind fun _ => idles_pure _).congr fun d _ _ => ?_
    exact ⟨fun ⟨_, ⟨hr, _⟩, _⟩ _ => hr, fun hr => ⟨0, ⟨hr rfl, rfl⟩, rfl⟩⟩

theorem idles_reportMissing (legacy : List Handle) : Idles (reportMissing legacy) fun _ _ => True := by
  unfold reportMissing
  split
  · exact idles_report _ _ _ _
  · exact (idles_pure _).congr fun _ _ _ => by simp

theorem still_exchange {legacy : List Handle} {attr : Text} {emitSetup : Bool} {d : Document}
    (hd : d.recorded = []) :
    exchange legacy (header legacy attr emitSetup) d = .ok () d ↔ legacy = [] := by
  constructor
  · intro hu
    cases legacy with
    | nil => rfl
    | cons h rest =>
      have hremoves := made_stepwise.forM Handle.made_remove
      obtain ⟨⟨⟩, hremove, -⟩ := (still_bind (hremoves (h :: rest)) fun _ =>
        made_stepwise.forM made_insertAtTop _).mp hu
      obtain ⟨⟨⟩, hfirst, -⟩ := (still_bind h.made_remove fun _ => hremoves rest).mp hremove
      exact absurd hfirst (remove_moves hd)
  · intro hr
    subst hr
    rfl

theorem idles_replace (cwd : PathName) (file : Option String) (attr : Text) (emitSetup : Bool) :
    Idles (replace cwd file attr emitSetup) fun d b =>
      findAll (importsFrom legacyModule) d = .ok [] ∧ (file.isSome → AllResolved d) ∧
        b = false := by
  have hexchange : ∀ legacy : List Handle,
      Made (Document.batched (exchange legacy (header legacy attr emitSetup))) :=
    fun legacy => made_batched (made_exchange _ _)
  refine Idles.congr ((idles_look (plain_findAll (quiet_importsFrom _))).bind fun legacy =>
    (idles_reportMissing legacy).bind fun _ => (idles_lift (hexchange legacy)).bind fun _ =>
      (idles_absolutizeIn cwd file).bind fun _ => idles_pure _) fun d b h => ?_
  constructor
  · intro hk
    obtain ⟨legacy, hl, -, -, ⟨⟨⟩, batch⟩, hr, -, hresolved, rfl⟩ := hk
    have hstill := ((still_batched (made_exchange _ _) h).mp hr).1
    obtain rfl := (still_exchange rfl).mp hstill
    exact ⟨hl, hresolved, rfl⟩
  · intro hk
    obtain ⟨hl, hresolved, rfl⟩ := hk
    exact ⟨[], hl, ⟨⟩, trivial, _, (still_batched (made_exchange _ _) h).mpr
      ⟨(still_exchange rfl).mpr rfl, rfl⟩, ⟨⟩, hresolved, rfl⟩

end Import

namespace RenderCall

theorem renameCallee_moves {name : String} {call : Handle} {d : Document} (hd : d.recorded = []) :
    renameCallee name call d ≠ .ok () d := by
  intro hr
  obtain ⟨callee, -, hr⟩ := still_look_bind.mp hr
  cases callee with
  | none => cases hr
  | some callee => exact replaceWith_moves hd hr

theorem renameCalls_moves {binding : Option Handle} {name : Option String} {first : Handle}
    {rest : List Handle} {d : Document} (hd : d.recorded = []) :
    renameCalls binding name (first :: rest) d ≠ .ok () d := by
  intro hr
  have hrest := made_stepwise.forM (made_renameCallee renderName)
  obtain ⟨-, -, hr⟩ := (still_bind (made_renameHelper _ _) fun _ => hrest _).mp hr
  obtain ⟨⟨⟩, hfirst, -⟩ := (still_bind (made_renameCallee _ first) fun _ => hrest rest).mp hr
  exact renameCallee_moves hd hfirst

theorem idles_convertCalls (primitive : String) (first : Handle) (rest : List Handle) :
    Idles (convertCalls primitive first rest) fun _ _ => False := by
  have hbatched : ∀ binding name,
      Idles (Pass.lift (Document.batched (renameCalls binding name (first :: rest))))
        fun _ _ => False := by
    intro binding name
    refine (idles_lift (made_batched (made_renameCalls _ _ _))).congr fun d r h => ⟨?_, False.elim⟩
    intro hr
    exact renameCalls_moves rfl ((still_batched (made_renameCalls _ _ _) h).mp hr).1
  refine Idles.congr ((idles_look first.plain_line).bind fun line =>
    (idles_look (plain_boundName? first)).bind fun binding =>
      (idles_look (plain_stepwise.optionMapM Handle.plain_text binding)).bind fun name =>
        (hbatched binding name).bind_never fun _ =>
          (programmed_reportUnbound primitive line name).bind fun _ => programmed_pure _)
    fun d name _ => ?_
  simp

theorem idles_convertFound (found : List (String × List Handle)) :
    Idles (convertFound found) fun _ name => found = [] ∧ name = none := by
  unfold convertFound
  split
  · refine ((idles_report _ _ _ _).bind fun _ => idles_pure none).congr fun d name _ => ?_
    exact ⟨fun ⟨_, _, h⟩ => ⟨rfl, h⟩, fun ⟨_, h⟩ => ⟨⟨⟩, trivial, h⟩⟩
  · exact (idles_convertCalls _ _ _).congr fun d name _ => by simp
  · rename_i hne _
    refine ⟨Pass.programmed_get.bind fun _ =>
      Pass.programmed_throw (by simp [Failure.unsupportedInput]), fun s name _ => ?_⟩
    constructor
    · intro hk
      obtain ⟨s', hr, -⟩ := hk
      cases hr
    · intro hk
      obtain ⟨h, -⟩ := hk
      exact absurd h hne

theorem idles_normalise : Idles normalise fun d name =>
    (∀ primitive ∈ primitives, findAll (.callTo (.exactly primitive)) d = .ok []) ∧ name = none := by
  refine ((idles_mapM (fun name =>
    (idles_look (plain_findAll (quiet_callTo (.exactly name)))).bind fun found =>
      idles_pure (name, found)) primitives).bind fun calls => idles_convertFound _).congr
    fun d name _ => ?_
  have hnone : ∀ names : List String, (∃ calls, List.Forall₂ (fun name c =>
      ∃ found, findAll (.callTo (.exactly name)) d = .ok found ∧ c = (name, found)) names calls ∧
        ∀ c ∈ calls, c.2 = []) ↔
      ∀ name ∈ names, findAll (.callTo (.exactly name)) d = .ok [] := by
    intro names
    induction names with
    | nil => simp
    | cons name names ih =>
      simp only [List.forall_mem_cons, ← ih, List.forall₂_cons_left_iff]
      constructor
      · intro h
        obtain ⟨_, ⟨_, calls, ⟨found, hf, rfl⟩, hcalls, rfl⟩, hall⟩ := h
        obtain ⟨hempty, hrest⟩ := List.forall_mem_cons.mp hall
        obtain rfl : found = [] := hempty
        exact ⟨hf, calls, hcalls, hrest⟩
      · intro h
        obtain ⟨hf, calls, hcalls, hall⟩ := h
        exact ⟨_, ⟨_, calls, ⟨[], hf, rfl⟩, hcalls, rfl⟩, List.forall_mem_cons.mpr ⟨rfl, hall⟩⟩
  rw [← hnone]
  simp only [List.filter_eq_nil_iff]
  constructor
  · intro h
    obtain ⟨calls, hcalls, hempty, hname⟩ := h
    exact ⟨⟨calls, hcalls, fun c hc => by simpa using hempty c hc⟩, hname⟩
  · intro h
    obtain ⟨⟨calls, hcalls, hempty⟩, hname⟩ := h
    exact ⟨calls, hcalls, fun c hc => by simp [hempty c hc], hname⟩

end RenderCall

/-- A finding can be reported about each call that the pattern finds. -/
def Reportable (p : Pattern) (absent : String) (d : Document) : Prop :=
  ∃ calls, findAll p d = .ok calls ∧ ∀ call ∈ calls,
    (∃ shown, call.shownArgument absent d = .ok shown) ∧ ∃ line, call.line d = .ok line

/-- Rounds that only replace what a pattern finds. -/
theorem idles_untilStable {p : Pattern} (hp : p.Quiet) {build : Handle → Looking (Option Text)}
    (hb : ∀ h, Plain (build h)) :
    Idles (liftM (Document.untilStable (do
      let _ ← (← (MatchSet.ofTree p : Looking _)).replaceWith build) Document.roundLimit) : Pass Nat)
      fun d n => Exhausted p build d ∧ n = 0 := by
  have hround := MatchSet.made_ofTree_bind hp fun set hs =>
    (set.made_replaceWith hs hb).bind fun _ => made_pure ()
  refine (idles_lift (made_untilStable hround _)).congr fun d n h => ?_
  rw [still_untilStable hround (by decide) h]
  rw [still_round hp hb (made_pure ()) rfl, exhausted_opened hp hb]
  exact ⟨fun ⟨⟨he, _⟩, hn⟩ => ⟨he, hn⟩, fun ⟨he, hn⟩ => ⟨⟨he, rfl⟩, hn⟩⟩

/-- A pass that only replaces what a pattern finds. -/
theorem idles_replaceWith {p : Pattern} (hp : p.Quiet) {build : Handle → Looking (Option Text)}
    (hb : ∀ h, Plain (build h)) :
    Idles (do (← (MatchSet.ofTree p : Looking _)).replaceWith build) fun d n =>
      Exhausted p build d ∧ n = 0 := by
  have hround := MatchSet.made_ofTree_bind hp fun set hs => set.made_replaceWith hs hb
  have hlift : (do (← (MatchSet.ofTree p : Looking _)).replaceWith build : Pass Nat) =
      Pass.lift (do (← (MatchSet.ofTree p : Looking _)).replaceWith build) := rfl
  rw [hlift]
  exact (idles_lift hround).congr fun d n h =>
    still_ofTree_replaceWith hb (Document.recorded_of_closed h)

namespace Selector

theorem idles_reportUnconverted (call : Handle) :
    Idles (reportUnconverted call) fun d _ =>
      (∃ shown, call.shownArgument "<none>" d = .ok shown) ∧ ∃ line, call.line d = .ok line := by
  refine ((idles_look (call.plain_shownArgument _)).bind fun shown =>
    (idles_look call.plain_line).bind fun line => idles_report _ _ _ _).congr fun d _ _ => ?_
  exact ⟨fun ⟨shown, hs, line, hl, _⟩ => ⟨⟨shown, hs⟩, line, hl⟩,
    fun ⟨⟨shown, hs⟩, line, hl⟩ => ⟨shown, hs, line, hl, trivial⟩⟩

theorem idles_convert (attr : Text) : Idles (convert attr) fun d n =>
    Exhausted findCalls (query? attr) d ∧ Reportable findCalls "<none>" d ∧ n = 0 := by
  refine ((idles_untilStable quiet_findCalls (plain_query? attr)).bind fun n =>
    (idles_look (plain_findAll quiet_findCalls)).bind fun calls =>
      (idles_forIn idles_reportUnconverted calls).bind fun _ => idles_pure n).congr fun d n _ => ?_
  constructor
  · intro h
    obtain ⟨n, ⟨he, rfl⟩, calls, hc, -, hr, rfl⟩ := h
    exact ⟨he, ⟨calls, hc, hr⟩, rfl⟩
  · intro h
    obtain ⟨he, ⟨calls, hc, hr⟩, rfl⟩ := h
    exact ⟨0, ⟨he, rfl⟩, calls, hc, ⟨⟩, hr, rfl⟩

end Selector

namespace Assertion

theorem idles_convertText : Idles convertText fun d n =>
    Exhausted (.methodCall (.oneOf textMatchers)) textContent? d ∧ n = 0 :=
  idles_replaceWith (quiet_methodCall _ (by simp)) plain_textContent?

theorem idles_convertPresence : Idles convertPresence fun d n =>
    Exhausted (.methodCall (.oneOf presenceMatchers)) presence? d ∧ n = 0 :=
  idles_replaceWith (quiet_methodCall _ (by simp)) plain_presence?

end Assertion

namespace Simulation

theorem idles_reportUnmapped (call : Handle) :
    Idles (reportUnmapped call) fun d _ =>
      (∃ shown, call.shownArgument "" d = .ok shown) ∧ ∃ line, call.line d = .ok line := by
  refine ((idles_look (call.plain_shownArgument _)).bind fun shown =>
    (idles_look call.plain_line).bind fun line => idles_report _ _ _ _).congr fun d _ _ => ?_
  exact ⟨fun ⟨shown, hs, line, hl, _⟩ => ⟨⟨shown, hs⟩, line, hl⟩,
    fun ⟨⟨shown, hs⟩, line, hl⟩ => ⟨shown, hs, line, hl, trivial⟩⟩

theorem idles_importUserEvent (converted : Nat) : Idles (importUserEvent converted) fun d _ =>
    ∃ imported, Import.isImported Import.userEventModule d = .ok imported ∧
      (converted = 0 ∨ imported = true) := by
  have hinsert : ∀ imported, Idles (do
      if converted != 0 && !imported then Document.insertAtTop Import.userEventLine : Pass Unit)
        fun _ _ => converted = 0 ∨ imported = true := by
    intro imported
    split
    · rename_i hmissing
      refine (idles_lift (made_insertAtTop _)).congr fun d _ h => ?_
      have hmoves := @insertAtTop_moves Import.userEventLine (by decide) d
        (Document.recorded_of_closed h)
      simp at hmissing
      simp [hmissing, hmoves]
    · rename_i hnone
      exact (idles_pure _).congr fun _ _ _ => by simp at hnone; tauto
  exact (idles_look (Import.plain_isImported _)).bind hinsert

theorem idles_convert : Idles convert fun d n =>
    Exhausted namedCalls userCall? d ∧ Reportable simulateCalls "" d ∧
      (∃ imported, Import.isImported Import.userEventModule d = .ok imported) ∧ n = 0 := by
  refine ((idles_untilStable quiet_namedCalls plain_userCall?).bind fun n =>
    (idles_look (plain_findAll quiet_simulateCalls)).bind fun calls =>
      (idles_forIn idles_reportUnmapped calls).bind fun _ =>
        (idles_importUserEvent n).bind fun _ => idles_pure n).congr fun d n _ => ?_
  constructor
  · intro h
    obtain ⟨n, ⟨he, rfl⟩, calls, hc, -, hr, -, ⟨imported, hi, -⟩, rfl⟩ := h
    exact ⟨he, ⟨calls, hc, hr⟩, ⟨imported, hi⟩, rfl⟩
  · intro h
    obtain ⟨he, ⟨calls, hc, hr⟩, ⟨imported, hi⟩, rfl⟩ := h
    exact ⟨0, ⟨he, rfl⟩, calls, hc, ⟨⟩, hr, ⟨⟩, ⟨imported, hi, .inl rfl⟩, rfl⟩

end Simulation

namespace Chain

theorem removeUpdate_moves {call : Handle} {d : Document} (hd : d.recorded = []) :
    removeUpdate call d ≠ .ok () d := by
  intro hr
  obtain ⟨receiver, -, hr⟩ := still_look_bind.mp hr
  obtain ⟨parent, -, hr⟩ := still_look_bind.mp hr
  split at hr
  · obtain ⟨kind, -, hr⟩ := still_look_bind.mp hr
    obtain ⟨kind', -, hr⟩ := still_look_bind.mp hr
    split at hr
    · exact remove_moves hd hr
    · obtain ⟨text, -, hr⟩ := still_look_bind.mp hr
      exact replaceWith_moves hd hr
  · cases hr

theorem made_removeUpdates (updates : List Handle) : Made (do
    for call in updates do
      removeUpdate call) :=
  (made_stepwise.forIn (fun call _ => (made_removeUpdate call).bind fun _ => made_pure _)
    updates _).bind fun _ => made_pure _

theorem still_removeUpdates {updates : List Handle} {d : Document} (hd : d.recorded = []) :
    (do
      for call in updates do
        removeUpdate call : Editing Unit) d = .ok () d ↔ updates = [] := by
  constructor
  · intro hr
    cases updates with
    | nil => rfl
    | cons call rest =>
      rw [List.forIn_cons, bind_assoc, bind_assoc] at hr
      obtain ⟨⟨⟩, hfirst, -⟩ := (still_bind (made_removeUpdate call) fun _ =>
        made_removeUpdates rest).mp hr
      exact absurd hfirst (removeUpdate_moves hd)
  · intro h
    subst h
    rfl

theorem idles_removeIdle : Idles removeIdle fun d n =>
    Exhausted (calls (.oneOf ["first", "hostNodes"])) receiverText d ∧
      findAll (calls (.exactly "update")) d = .ok [] ∧ n = 0 := by
  have hupdates : Made (do
      for call in ← (findAll (calls (.exactly "update")) : Looking _) do
        removeUpdate call) :=
    (made_look (plain_findAll (quiet_calls _))).bind made_removeUpdates
  have hround := MatchSet.made_ofTree_bind (quiet_calls (.oneOf ["first", "hostNodes"]))
    fun set hs => (set.made_replaceWith hs plain_receiverText).bind fun _ => hupdates
  refine (idles_lift (made_untilStable hround _)).congr fun d n h => ?_
  rw [still_untilStable hround (by decide) h,
    still_round (quiet_calls _) plain_receiverText hupdates rfl,
    exhausted_opened (quiet_calls _) plain_receiverText, still_look_bind]
  have hlook : findAll (calls (.exactly "update")) d.opened = findAll (calls (.exactly "update")) d :=
    (plain_findAll (quiet_calls _)).blind d _
  simp only [still_removeUpdates d.recorded_opened, hlook, exists_eq_right]
  exact and_assoc

end Chain

namespace Suggestion

/-- Above the statement around the call, if there is one, the comment is there already. -/
def Annotated (call : Handle) (comment : Text) (d : Document) : Prop :=
  ∃ statement, call.closest? statements d = .ok statement ∧ ∀ h, statement = some h →
    ∃ start above, h.start d = .ok start ∧ commentsAbove d start = .ok above ∧
      ∃ line ∈ above, Text.ofString line = comment

/-- Every call that the pattern finds is annotated. -/
def AllAnnotated (p : Pattern) (comment : Handle → Looking (Option Text)) (d : Document) : Prop :=
  ∃ calls, findAll p d = .ok calls ∧ ∀ call ∈ calls,
    ∃ text, comment call d = .ok text ∧ ∀ t, text = some t → Annotated call t d

theorem still_annotate {call : Handle} {comment : Text} {d : Document} (hd : d.recorded = [])
    {noted : Noted} :
    annotate call comment [] d = .ok noted d ↔ Annotated call comment d ∧ noted = [] := by
  constructor
  · intro hr
    obtain ⟨statement, hs, hr⟩ := still_look_bind.mp hr
    cases statement with
    | none =>
      cases hr
      exact ⟨⟨none, hs, by simp⟩, rfl⟩
    | some statement =>
      obtain ⟨start, hstart, hr⟩ := still_look_bind.mp hr
      rw [if_neg (by simp), Document.bind_apply, Document.get_apply] at hr
      dsimp only at hr
      obtain ⟨above, habove, hr⟩ := still_except_bind.mp hr
      split at hr
      · rename_i hany
        cases hr
        obtain ⟨line, hline, heq⟩ := List.any_eq_true.mp hany
        refine ⟨⟨some statement, hs, ?_⟩, rfl⟩
        intro h hk
        cases hk
        exact ⟨start, above, hstart, habove, line, hline, eq_of_beq heq⟩
      · obtain ⟨⟨⟩, hr, -⟩ := (still_bind (Handle.made_insertBefore _ _) fun _ => made_pure _).mp hr
        exact absurd hr (insertBefore_moves hd)
  · intro hk
    obtain ⟨⟨statement, hs, hstatement⟩, rfl⟩ := hk
    refine still_look_bind.mpr ⟨statement, hs, ?_⟩
    cases statement with
    | none => rfl
    | some statement =>
      obtain ⟨start, above, hstart, habove, line, hline, heq⟩ := hstatement statement rfl
      refine still_look_bind.mpr ⟨start, hstart, ?_⟩
      have hany : (above.any fun line => Text.ofString line == comment) = true :=
        List.any_eq_true.mpr ⟨line, hline, beq_iff_eq.mpr heq⟩
      rw [if_neg (by simp), Document.bind_apply, Document.get_apply]
      dsimp only
      refine still_except_bind.mpr ⟨above, habove, ?_⟩
      rw [if_pos hany]
      rfl

theorem annotated_opened {call : Handle} {comment : Text} {d : Document} :
    Annotated call comment d.opened ↔ Annotated call comment d := by
  have hlines : ∀ start, commentsAbove d.opened start = commentsAbove d start := fun _ => rfl
  have hclosest : call.closest? statements d.opened = call.closest? statements d :=
    (plain_closest? (quiet_ofKinds _) call).blind d _
  have hstart : ∀ h : Handle, h.start d.opened = h.start d := fun h => h.plain_start.blind d _
  unfold Annotated
  simp only [hlines, hclosest, hstart]

theorem allAnnotated_opened {p : Pattern} (hp : p.Quiet) {comment : Handle → Looking (Option Text)}
    (hc : ∀ h, Plain (comment h)) {d : Document} :
    AllAnnotated p comment d.opened ↔ AllAnnotated p comment d := by
  have hfind : findAll p d.opened = findAll p d := (plain_findAll hp).blind d _
  have hcomment : ∀ h, comment h d.opened = comment h d := fun h => (hc h).blind d _
  unfold AllAnnotated
  simp only [annotated_opened, hfind, hcomment]

theorem still_annotateWith {comment : Handle → Looking (Option Text)} {d : Document}
    (hd : d.recorded = []) (call : Handle) (noted : Noted) :
    annotateWith comment [] call d = .ok noted d ↔
      (∃ text, comment call d = .ok text ∧ ∀ t, text = some t → Annotated call t d) ∧
        noted = [] := by
  constructor
  · intro hr
    obtain ⟨text, ht, hr⟩ := still_look_bind.mp hr
    cases text with
    | none =>
      cases hr
      exact ⟨⟨none, ht, by simp⟩, rfl⟩
    | some text =>
      obtain ⟨hannotated, hnoted⟩ := (still_annotate hd).mp hr
      refine ⟨⟨some text, ht, ?_⟩, hnoted⟩
      intro t h
      cases h
      exact hannotated
  · intro h
    obtain ⟨⟨text, ht, hannotated⟩, rfl⟩ := h
    refine still_look_bind.mpr ⟨text, ht, ?_⟩
    cases text with
    | none => rfl
    | some text => exact (still_annotate hd).mpr ⟨hannotated text rfl, rfl⟩

theorem still_annotateAll {p : Pattern} {comment : Handle → Looking (Option Text)}
    (hc : ∀ h, Plain (comment h)) {d : Document} (hd : d.recorded = []) {noted : Noted} :
    annotateAll p comment [] d = .ok noted d ↔ AllAnnotated p comment d ∧ noted = [] := by
  unfold annotateAll
  rw [still_look_bind]
  simp only [still_foldlM (made_annotateWith hc) (still_annotateWith hd)]
  constructor
  · intro hr
    obtain ⟨calls, hf, hall, hnoted⟩ := hr
    exact ⟨⟨calls, hf, hall⟩, hnoted⟩
  · intro hr
    obtain ⟨⟨calls, hf, hall⟩, hnoted⟩ := hr
    exact ⟨calls, hf, hall, hnoted⟩

theorem still_annotations {wrappers : List String} {attr : String} {snapshot : Option Snapshot}
    {d : Document} (hd : d.recorded = []) {noted : Noted} :
    annotations wrappers attr snapshot d = .ok noted d ↔
      ((∀ wrapper ∈ wrappers, AllAnnotated (methodsOf wrapper) (onWrapper wrapper) d) ∧
        AllAnnotated Selector.findCalls (onFind attr snapshot) d ∧
        AllAnnotated Simulation.simulateCalls onSimulate d) ∧ noted = [] := by
  have hwrapper : ∀ (noted : Noted) wrapper,
      Made (annotateAll (methodsOf wrapper) (onWrapper wrapper) noted) := fun noted wrapper =>
    made_annotateAll (quiet_methodsOf wrapper) (plain_onWrapper wrapper) noted
  have hfind := made_annotateAll Selector.quiet_findCalls (plain_onFind attr snapshot)
  have hsimulate := made_annotateAll Simulation.quiet_simulateCalls plain_onSimulate
  unfold annotations
  rw [still_bind (made_stepwise.foldlM hwrapper wrappers []) fun noted =>
    (hfind noted).bind fun noted => hsimulate noted]
  simp only [still_bind (hfind _) hsimulate, still_foldlM hwrapper fun wrapper noted =>
    still_annotateAll (plain_onWrapper wrapper) hd]
  constructor
  · intro h
    obtain ⟨_, ⟨hwrappers, rfl⟩, _, hr, hr'⟩ := h
    obtain ⟨hfinds, rfl⟩ := (still_annotateAll (plain_onFind attr snapshot) hd).mp hr
    obtain ⟨hevents, rfl⟩ := (still_annotateAll plain_onSimulate hd).mp hr'
    exact ⟨⟨hwrappers, hfinds, hevents⟩, rfl⟩
  · intro h
    obtain ⟨⟨hwrappers, hfinds, hevents⟩, rfl⟩ := h
    exact ⟨[], ⟨hwrappers, rfl⟩, [],
      (still_annotateAll (plain_onFind attr snapshot) hd).mpr ⟨hfinds, rfl⟩,
      (still_annotateAll plain_onSimulate hd).mpr ⟨hevents, rfl⟩⟩

theorem idles_add (wrappers : List String) (attr : String) (snapshot : Option Snapshot) :
    Idles (add wrappers attr snapshot) fun d n =>
      ((∀ wrapper ∈ wrappers, AllAnnotated (methodsOf wrapper) (onWrapper wrapper) d) ∧
        AllAnnotated Selector.findCalls (onFind attr snapshot) d ∧
        AllAnnotated Simulation.simulateCalls onSimulate d) ∧ n = 0 := by
  have hstill : ∀ (d : Document) (noted : Noted), d.batch = none →
      (annotations wrappers attr snapshot d.opened = .ok noted d.opened ↔
        ((∀ wrapper ∈ wrappers, AllAnnotated (methodsOf wrapper) (onWrapper wrapper) d) ∧
          AllAnnotated Selector.findCalls (onFind attr snapshot) d ∧
          AllAnnotated Simulation.simulateCalls onSimulate d) ∧ noted = []) := by
    intro d noted _
    have hmethods : ∀ wrapper, AllAnnotated (methodsOf wrapper) (onWrapper wrapper) d.opened ↔
        AllAnnotated (methodsOf wrapper) (onWrapper wrapper) d := fun wrapper =>
      allAnnotated_opened (quiet_methodsOf wrapper) (plain_onWrapper wrapper)
    simp only [still_annotations d.recorded_opened, hmethods,
      allAnnotated_opened Selector.quiet_findCalls (plain_onFind attr snapshot),
      allAnnotated_opened Simulation.quiet_simulateCalls plain_onSimulate]
  refine Idles.congr (idles_batched (f := List.length) (made_annotations _ _ _) hstill)
    fun d n _ => ?_
  constructor
  · intro h
    obtain ⟨noted, ⟨hall, rfl⟩, rfl⟩ := h
    exact ⟨hall, rfl⟩
  · intro h
    obtain ⟨hall, rfl⟩ := h
    exact ⟨[], ⟨hall, rfl⟩, rfl⟩

end Suggestion

/-! ## Conversions -/

/-- No pass finds anything to do in a script whose own place is `file`. -/
structure Settled (o : ConversionOptions) (file : Option String) (d : Document) : Prop where
  /-- Nothing is imported from the old library. -/
  imports : findAll (Import.importsFrom Import.legacyModule) d = .ok []
  /-- In a file with a place no specifier is relative. -/
  specifiers : file.isSome → Import.AllResolved d
  /-- Neither of the old library's render functions is called. -/
  renderCalls : ∀ primitive ∈ RenderCall.primitives,
    findAll (.callTo (.exactly primitive)) d = .ok []
  /-- The `find` calls that are left have no query, and each can be reported. -/
  selectors : Exhausted Selector.findCalls (Selector.query? o.testIdAttribute) d
  reportedSelectors : Reportable Selector.findCalls "<none>" d
  /-- No assertion is left to convert. -/
  texts : Exhausted (.methodCall (.oneOf Assertion.textMatchers)) Assertion.textContent? d
  presences : Exhausted (.methodCall (.oneOf Assertion.presenceMatchers)) Assertion.presence? d
  /-- The simulated events that are left are no user's, and each can be reported. -/
  events : Exhausted Simulation.namedCalls Simulation.userCall? d
  reportedEvents : Reportable Simulation.simulateCalls "" d
  userEvent : ∃ imported, Import.isImported Import.userEventModule d = .ok imported
  /-- No idle call is left in a chain. -/
  chains : Exhausted (Chain.calls (.oneOf ["first", "hostNodes"])) Chain.receiverText d
  updates : findAll (Chain.calls (.exactly "update")) d = .ok []
  /-- Above each statement that a human has to finish there is the comment for it. -/
  findNotes : Suggestion.AllAnnotated Selector.findCalls
    (Suggestion.onFind o.testIdAttribute o.snapshot) d
  eventNotes : Suggestion.AllAnnotated Simulation.simulateCalls Suggestion.onSimulate d

namespace Conversion

theorem idles_bindings : Idles bindings fun d bound =>
    (∀ primitive ∈ RenderCall.primitives, findAll (.callTo (.exactly primitive)) d = .ok []) ∧
      bound = (none, []) := by
  refine RenderCall.idles_normalise.bind_value (fun renderFunction =>
    (Wrapper.programmed_resolve renderFunction).bind fun _ => programmed_pure _) ?_
  exact ((idles_pure []).bind fun wrappers => idles_pure (none, wrappers)).congr fun _ _ _ => by simp

/-- What the passes count when there is nothing to do. -/
def nothingDone : Statistics := ⟨false, 0, 0, 0, 0, 0, 0⟩

theorem idles_passes (o : ConversionOptions) (file : Option String) :
    Idles (passes o file) fun d r => Settled o file d ∧ r = ((none, []), nothingDone) := by
  refine Idles.congr ((Import.idles_replace o.cwd file o.testIdAttribute o.emitSetup).bind
    fun replaced => idles_bindings.bind fun bound =>
      (Selector.idles_convert o.testIdAttribute).bind fun selectors =>
      Assertion.idles_convertText.bind fun texts => Simulation.idles_convert.bind fun events =>
      Assertion.idles_convertPresence.bind fun presences => Chain.idles_removeIdle.bind
        fun chains => (Suggestion.idles_add bound.2 o.testIdAttribute o.snapshot).bind fun notes =>
          idles_pure (bound, (⟨replaced, selectors, texts, events, presences, chains, notes⟩ :
            Statistics))) ?_
  intro d r _
  constructor
  · intro hr
    obtain ⟨_, ⟨himports, hspecifiers, rfl⟩, _, ⟨hcalls, rfl⟩, _, ⟨hselectors, hreported, rfl⟩,
      _, ⟨htexts, rfl⟩, _, ⟨hevents, hreported', huser, rfl⟩, _, ⟨hpresences, rfl⟩, _, ⟨hchains, hupdates, rfl⟩, _, ⟨⟨-, hfinds, hnotes⟩, rfl⟩, rfl⟩ := hr
    exact ⟨⟨himports, hspecifiers, hcalls, hselectors, hreported, htexts, hpresences, hevents,
      hreported', huser, hchains, hupdates, hfinds, hnotes⟩, rfl⟩
  · intro hr
    obtain ⟨h, rfl⟩ := hr
    exact ⟨false, ⟨h.imports, h.specifiers, rfl⟩, (none, []), ⟨h.renderCalls, rfl⟩, 0,
      ⟨h.selectors, h.reportedSelectors, rfl⟩, 0, ⟨h.texts, rfl⟩, 0,
      ⟨h.events, h.reportedEvents, h.userEvent, rfl⟩, 0, ⟨h.presences, rfl⟩, 0,
      ⟨h.chains, h.updates, rfl⟩, 0, ⟨⟨by simp, h.findNotes, h.eventNotes⟩, rfl⟩, rfl⟩

end Conversion

end TestMigration
