import TestMigration.Convert.Conversion

/-! Looking at a document never fails the way an edit does whose outcome does not parse. A look is
made of smaller ones, and so are its failures: the lemmas below follow the definitions, one for
each, and rest on one fact about steps and lists. -/

namespace TestMigration

open Script (Node Kind Field Place)

/-- A property that holds of computations made of steps if it holds of each step. -/
structure Stepwise (m : Type → Type) [Monad m] (P : (α : Type) → m α → Prop) : Prop where
  pure : ∀ {α : Type} (a : α), P α (Pure.pure a)
  bind : ∀ {α β : Type} {x : m α} {next : α → m β}, P α x → (∀ a, P β (next a)) → P β (x >>= next)

namespace Stepwise

variable {m : Type → Type} [Monad m] {P : (α : Type) → m α → Prop} {α β : Type}

theorem mapM (hP : Stepwise m P) {f : α → m β} (hf : ∀ a, P _ (f a)) (as : List α) :
    P _ (as.mapM f) := by
  have h : ∀ as bs, P _ (List.mapM.loop f as bs) := by
    intro as
    induction as with
    | nil => exact fun bs => hP.pure _
    | cons a as ih => exact fun bs => hP.bind (hf a) fun b => ih _
  exact h as []

theorem forM (hP : Stepwise m P) {f : α → m PUnit} (hf : ∀ a, P _ (f a)) (as : List α) :
    P _ (as.forM f) := by
  induction as with
  | nil => exact hP.pure _
  | cons a as ih => exact hP.bind (hf a) fun _ => ih

theorem foldlM (hP : Stepwise m P) {f : β → α → m β} (hf : ∀ b a, P _ (f b a)) (as : List α) (b : β) :
    P _ (as.foldlM f b) := by
  induction as generalizing b with
  | nil => exact hP.pure b
  | cons a as ih => exact hP.bind (hf b a) fun b => ih b

theorem filterM_of_mem (hP : Stepwise m P) {f : α → m Bool} {as : List α} (hf : ∀ a ∈ as, P _ (f a)) :
    P _ (as.filterM f) := by
  have h : ∀ as bs, (∀ a ∈ as, P _ (f a)) → P _ (List.filterAuxM f as bs) := by
    intro as
    induction as with
    | nil => exact fun bs _ => hP.pure _
    | cons a as ih =>
      exact fun bs hf => hP.bind (hf a List.mem_cons_self) fun b =>
        ih _ fun a ha => hf a (List.mem_cons_of_mem _ ha)
  exact hP.bind (h as [] hf) fun as => hP.pure _

theorem filterM (hP : Stepwise m P) {f : α → m Bool} (hf : ∀ a, P _ (f a)) (as : List α) :
    P _ (as.filterM f) := hP.filterM_of_mem fun a _ => hf a

theorem filterMapM (hP : Stepwise m P) {f : α → m (Option β)} (hf : ∀ a, P _ (f a)) (as : List α) :
    P _ (as.filterMapM f) := by
  have h : ∀ as bs, P _ (List.filterMapM.loop f as bs) := by
    intro as
    induction as with
    | nil => exact fun bs => hP.pure _
    | cons a as ih =>
      refine fun bs => hP.bind (hf a) fun b => ?_
      cases b with
      | none => exact ih _
      | some b => exact ih _
  exact h as []

theorem findM?_of_mem (hP : Stepwise m P) {f : α → m Bool} {as : List α} (hf : ∀ a ∈ as, P _ (f a)) :
    P _ (as.findM? f) := by
  induction as with
  | nil => exact hP.pure _
  | cons a as ih =>
    refine hP.bind (hf a List.mem_cons_self) fun b => ?_
    cases b with
    | true => exact hP.pure _
    | false => exact ih fun a ha => hf a (List.mem_cons_of_mem _ ha)

theorem findM? (hP : Stepwise m P) {f : α → m Bool} (hf : ∀ a, P _ (f a)) (as : List α) :
    P _ (as.findM? f) := hP.findM?_of_mem fun a _ => hf a

theorem forIn (hP : Stepwise m P) {f : α → β → m (ForInStep β)} (hf : ∀ a b, P _ (f a b))
    (as : List α) (b : β) : P _ (ForIn.forIn as b f) := by
  induction as generalizing b with
  | nil =>
    rw [List.forIn_nil]
    exact hP.pure b
  | cons a as ih =>
    rw [List.forIn_cons]
    refine hP.bind (hf a b) fun step => ?_
    cases step with
    | done b => exact hP.pure b
    | yield b => exact ih b

theorem optionMapM [LawfulMonad m] (hP : Stepwise m P) {f : α → m β} (hf : ∀ a, P _ (f a))
    (o : Option α) : P _ (o.mapM f) := by
  cases o with
  | none => exact hP.pure _
  | some a =>
    rw [Option.mapM_some, map_eq_pure_bind]
    exact hP.bind (hf a) fun b => hP.pure _

end Stepwise

/-- The computation fails in other ways than an edit does whose outcome does not parse. -/
def Faultless {α : Type} (x : Except Failure α) : Prop := ∀ e, x = .error e → e.kind ≠ .invalidEdit

/-- The look does not see what the document is called and which edits are recorded, and fails in
other ways than they do. -/
structure Plain {α : Type} (l : Looking α) : Prop where
  faultless : ∀ d, Faultless (l d)
  same : ∀ (d : Document) (path : Option String) (b : Option Batch),
    l { d with path := path, batch := b } = l d

theorem faultless_stepwise : Stepwise (Except Failure) @Faultless where
  pure a := by
    intro e h
    cases h
  bind := by
    intro α β x next hx hn e h
    cases x with
    | error e' =>
      cases h
      exact hx e rfl
    | ok a => exact hn a e h

theorem plain_stepwise : Stepwise Looking @Plain where
  pure a := ⟨fun _ => faultless_stepwise.pure a, fun _ _ _ => rfl⟩
  bind := by
    intro α β x next hx hn
    refine ⟨fun d => faultless_stepwise.bind (hx.faultless d) fun a => (hn a).faultless d, ?_⟩
    intro d path b
    change (x { d with path := path, batch := b } >>= fun a =>
      next a { d with path := path, batch := b }) = _
    simp only [hx.same, fun a => (hn a).same]
    rfl

section

variable {α β : Type}

theorem Plain.blind {l : Looking α} (hl : Plain l) (d : Document) (b : Option Batch) :
    l { d with batch := b } = l d := hl.same d d.path b

theorem Plain.nameless {l : Looking α} (hl : Plain l) (d : Document) (path : Option String) :
    l { d with path := path } = l d := hl.same d path d.batch

theorem plain_pure (a : α) : Plain (pure a) := plain_stepwise.pure a

theorem Plain.bind {x : Looking α} {next : α → Looking β} (hx : Plain x)
    (hn : ∀ a, Plain (next a)) : Plain (x >>= next) := plain_stepwise.bind hx hn

theorem faultless_pure (a : α) : Faultless (pure a) := faultless_stepwise.pure a

theorem Faultless.bind {x : Except Failure α} {next : α → Except Failure β} (hx : Faultless x)
    (hn : ∀ a, Faultless (next a)) : Faultless (x >>= next) := faultless_stepwise.bind hx hn

theorem faultless_throw {e : Failure} (he : e.kind ≠ .invalidEdit) :
    Faultless (throw e : Except Failure α) := by
  intro e' h
  cases h
  exact he

/-- The document is read for something other than its name and its batch. -/
theorem plain_read_bind {next : Document → Looking α} (hn : ∀ d, Plain (next d))
    (hsame : ∀ (d : Document) (path : Option String) (b : Option Batch),
      next { d with path := path, batch := b } = next d) :
    Plain (read >>= next) := by
  refine ⟨fun d => (hn d).faultless d, fun d path b => ?_⟩
  change next { d with path := path, batch := b } { d with path := path, batch := b } = next d d
  rw [hsame]
  exact (hn d).same d path b

theorem plain_throw {e : Failure} (he : e.kind ≠ .invalidEdit) : Plain (throw e : Looking α) :=
  ⟨fun _ => faultless_throw he, fun _ _ _ => rfl⟩

/-- What does not look at the document answers the same of every one. -/
theorem liftM_apply (x : Except Failure α) (d : Document) : (liftM x : Looking α) d = x := rfl

theorem plain_liftM {x : Except Failure α} (hx : Faultless x) : Plain (liftM x : Looking α) :=
  ⟨fun _ => hx, fun _ _ _ => rfl⟩

end

/-! ## Documents and handles -/

namespace Document

theorem faultless_decode (bytes : ByteArray) : Faultless (decode bytes) := by
  unfold decode
  split
  · exact faultless_pure _
  · exact faultless_throw (by simp [Failure.of])

theorem faultless_linesBefore (d : Document) (offset : Nat) : Faultless (d.linesBefore offset) :=
  (faultless_decode _).bind fun _ => faultless_pure _

end Document

namespace Handle

theorem plain_on (p : Place) : Plain (on p) :=
  plain_read_bind (fun _ => plain_pure _) fun _ _ _ => rfl

theorem plain_onAll (ps : List Place) : Plain (onAll ps) := plain_stepwise.mapM plain_on ps

theorem plain_node (h : Handle) : Plain h.node := by
  refine plain_read_bind (fun d => ?_) fun _ _ _ => rfl
  dsimp only
  split
  · exact plain_pure _
  · exact plain_throw (by simp [Failure.stale])

theorem plain_fresh (h : Handle) : Plain h.fresh := h.plain_node.bind fun _ => plain_pure _

theorem plain_kind (h : Handle) : Plain h.kind := h.plain_node.bind fun _ => plain_pure _

theorem plain_start (h : Handle) : Plain h.start := h.plain_node.bind fun _ => plain_pure _

theorem plain_line (h : Handle) : Plain h.line :=
  plain_read_bind (fun _ => h.plain_node.bind fun _ => plain_pure _) fun _ _ _ => rfl

theorem plain_text (h : Handle) : Plain h.text :=
  plain_read_bind (fun _ => h.plain_node.bind fun _ => plain_liftM (Document.faultless_decode _))
    fun _ _ _ => rfl

theorem plain_parent? (h : Handle) : Plain h.parent? := by
  refine h.plain_fresh.bind fun place => ?_
  split
  · exact (plain_on _).bind fun _ => plain_pure _
  · exact plain_pure _

theorem plain_namedChildren (h : Handle) : Plain h.namedChildren :=
  h.plain_fresh.bind fun _ => plain_onAll _

theorem plain_field? (h : Handle) (f : Field) : Plain (h.field? f) := by
  refine h.plain_fresh.bind fun place => ?_
  split
  · exact (plain_on _).bind fun _ => plain_pure _
  · exact plain_pure _

theorem plain_ancestors (h : Handle) : Plain h.ancestors := h.plain_fresh.bind fun _ => plain_onAll _

theorem plain_descendants (h : Handle) : Plain h.descendants :=
  h.plain_fresh.bind fun _ => plain_onAll _

theorem plain_isStatement (h : Handle) : Plain h.isStatement :=
  h.plain_fresh.bind fun _ => plain_pure _

theorem faultless_substituted (d : Document) (outer : Node) (cursor : Nat)
    (replacements : List (Node × String)) :
    Faultless (substituted d outer cursor replacements) := by
  induction replacements generalizing cursor with
  | nil => exact faultless_pure _
  | cons r rest ih =>
    unfold substituted
    split
    · exact (ih _).bind fun _ => faultless_pure _
    · exact faultless_throw (by simp [Failure.transformation])

theorem substituted_same (d : Document) (path : Option String) (b : Option Batch) (outer : Node)
    (cursor : Nat) (replacements : List (Node × String)) :
    substituted { d with path := path, batch := b } outer cursor replacements =
      substituted d outer cursor replacements := by
  induction replacements generalizing cursor with
  | nil => rfl
  | cons r rest ih =>
    unfold substituted
    simp only [ih]

theorem plain_textWith (h : Handle) (replacements : List (Handle × String)) :
    Plain (h.textWith replacements) := by
  refine h.plain_node.bind fun outer => ?_
  refine (plain_stepwise.mapM (fun r => r.1.plain_node.bind fun _ => plain_pure _) _).bind fun inner => ?_
  refine plain_read_bind (fun d => ?_) fun d path b => ?_
  · exact (plain_liftM (faultless_substituted _ _ _ _)).bind fun _ =>
      plain_liftM (Document.faultless_decode _)
  · simp only [substituted_same]

end Handle

/-! ## Patterns and sets of nodes -/

theorem plain_callArguments (h : Handle) : Plain (callArguments h) := by
  refine (h.plain_field? _).bind fun list => ?_
  split
  · exact plain_pure _
  · refine (Handle.plain_kind _).bind fun kind => ?_
    split
    · exact plain_pure _
    · exact (Handle.plain_namedChildren _).bind fun _ => plain_pure _

namespace Pattern

mutual

/-- Whatever the pattern asks of a node besides its form is a look of the plain kind. -/
def Quiet : Pattern → Prop
  | mk _ _ fields leading _ also =>
    QuietFields fields ∧
      QuietLeading leading ∧
      ∀ test, also = some test → ∀ h, Plain (test h)

def QuietLeading : Option (List Pattern) → Prop
  | none => True
  | some patterns => QuietArguments patterns

def QuietFields : List (Field × Pattern) → Prop
  | [] => True
  | (_, p) :: rest => p.Quiet ∧ QuietFields rest

def QuietArguments : List Pattern → Prop
  | [] => True
  | p :: rest => p.Quiet ∧ QuietArguments rest

end

theorem plain_kindHolds (kinds : Option (List Kind)) (h : Handle) : Plain (kindHolds kinds h) := by
  cases kinds with
  | none => exact plain_pure _
  | some kinds => exact h.plain_kind.bind fun _ => plain_pure _

theorem plain_textHolds (text : Option TextTest) (h : Handle) : Plain (textHolds text h) := by
  cases text with
  | none => exact plain_pure _
  | some test => exact h.plain_text.bind fun _ => plain_pure _

theorem plain_alsoHolds {also : Option (Handle → Looking Bool)}
    (ha : ∀ test, also = some test → ∀ h, Plain (test h)) (h : Handle) :
    Plain (alsoHolds also h) := by
  cases also with
  | none => exact plain_pure _
  | some test => exact ha test rfl h

mutual

theorem plain_holdsOf : ∀ (p : Pattern), p.Quiet → ∀ h, Plain (p.holdsOf h)
  | mk kinds text fields leading count also, hp, h => by
    obtain ⟨hf, hl, ha⟩ := hp
    unfold holdsOf
    refine (plain_kindHolds kinds h).bind fun holds => ?_
    split
    · exact plain_pure _
    refine (plain_textHolds text h).bind fun holds => ?_
    split
    · exact plain_pure _
    refine (plain_fieldsHold fields hf h).bind fun holds => ?_
    split
    · exact plain_pure _
    split
    · refine (plain_callArguments h).bind fun arguments => ?_
      split
      · exact plain_pure _
      refine (plain_leadingHold leading hl arguments).bind fun holds => ?_
      split
      · exact plain_pure _
      · exact plain_alsoHolds ha h
    · exact plain_alsoHolds ha h

theorem plain_leadingHold : ∀ (leading : Option (List Pattern)), QuietLeading leading →
    ∀ hs, Plain (leadingHold leading hs)
  | none, _, _ => plain_pure _
  | some patterns, hp, hs => plain_argumentsHold patterns hp hs

theorem plain_fieldsHold : ∀ (fields : List (Field × Pattern)), QuietFields fields →
    ∀ h, Plain (fieldsHold fields h)
  | [], _, h => plain_pure _
  | (f, p) :: rest, hp, h => by
    refine (h.plain_field? f).bind fun child => ?_
    split
    · exact plain_pure _
    · refine (plain_holdsOf p hp.1 _).bind fun holds => ?_
      split
      · exact plain_fieldsHold rest hp.2 h
      · exact plain_pure _

theorem plain_argumentsHold : ∀ (patterns : List Pattern), QuietArguments patterns →
    ∀ hs, Plain (argumentsHold patterns hs)
  | [], _, _ => plain_pure _
  | _ :: _, _, [] => plain_pure _
  | p :: rest, hp, h :: hs => by
    refine (plain_holdsOf p hp.1 h).bind fun holds => ?_
    split
    · exact plain_argumentsHold rest hp.2 hs
    · exact plain_pure _

end

theorem quiet_ofKinds (kinds : List Kind) : (ofKinds kinds).Quiet := by
  simp [ofKinds, Quiet, QuietFields, QuietLeading]

theorem quiet_identifier (name : Option TextTest) : (identifier name).Quiet := by
  simp [identifier, Quiet, QuietFields, QuietLeading]

theorem quiet_callTo (name : TextTest) : (callTo name).Quiet := by
  simp [callTo, Quiet, QuietFields, QuietLeading, quiet_identifier]

theorem quiet_methodCall (method : TextTest) {receiver : Option Pattern}
    (hr : ∀ r, receiver = some r → r.Quiet) : (methodCall method receiver).Quiet := by
  cases receiver with
  | none => simp [methodCall, Quiet, QuietFields, QuietLeading]
  | some r => simp [methodCall, Quiet, QuietFields, QuietLeading, hr r rfl]

theorem quiet_withCount {p : Pattern} (hp : p.Quiet) (n : Int) : (p.withCount n).Quiet := by
  cases p
  exact hp

theorem quiet_withArguments {p : Pattern} (hp : p.Quiet) {leading : Option (List Pattern)}
    (hl : QuietLeading leading) (count : Option Int) : (p.withArguments leading count none).Quiet := by
  cases p
  obtain ⟨hf, -, -⟩ := hp
  exact ⟨hf, hl, by simp⟩

end Pattern

open Pattern

theorem plain_closest? {p : Pattern} (hp : p.Quiet) (h : Handle) : Plain (h.closest? p) :=
  h.plain_ancestors.bind fun as => plain_stepwise.findM? (plain_holdsOf p hp) as

namespace MatchSet

/-- The set's patterns and tests are looks of the plain kind. -/
def Quiet : MatchSet → Prop
  | within _ p => p.Quiet
  | inside outer p => outer.Quiet ∧ p.Quiet
  | around inner p => inner.Quiet ∧ p.Quiet
  | filtered set test => set.Quiet ∧ ∀ h, Plain (test h)

theorem plain_members : ∀ (set : MatchSet), set.Quiet → Plain set.members
  | within roots p, hq =>
    (plain_stepwise.mapM Handle.plain_descendants roots).bind fun _ =>
      (plain_stepwise.filterM (plain_holdsOf p hq) _).bind fun _ => plain_pure _
  | inside outer p, hq =>
    (plain_members outer hq.1).bind fun hs =>
      (plain_stepwise.mapM Handle.plain_descendants hs).bind fun _ =>
        (plain_stepwise.filterM (plain_holdsOf p hq.2) _).bind fun _ => plain_pure _
  | around inner _, hq =>
    (plain_members inner hq.1).bind fun hs =>
      (plain_stepwise.mapM (plain_closest? hq.2) hs).bind fun _ => plain_pure _
  | filtered set _, hq =>
    (plain_members set hq.1).bind fun hs =>
      (plain_stepwise.filterM hq.2 hs).bind fun _ => plain_pure _

theorem plain_first? (set : MatchSet) (hq : set.Quiet) : Plain set.first? := by
  cases set with
  | within roots p =>
    exact (plain_stepwise.mapM Handle.plain_descendants roots).bind fun _ =>
      plain_stepwise.findM? (plain_holdsOf p hq) _
  | inside outer p =>
    exact (plain_members outer hq.1).bind fun hs =>
      (plain_stepwise.mapM Handle.plain_descendants hs).bind fun _ =>
        plain_stepwise.findM? (plain_holdsOf p hq.2) _
  | around inner p => exact (plain_members _ hq).bind fun _ => plain_pure _
  | filtered set test => exact (plain_members _ hq).bind fun _ => plain_pure _

/-- What is done with the set of a whole tree need only be plain for quiet sets. -/
theorem plain_ofTree_bind {α : Type} {p : Pattern} (hp : p.Quiet) {next : MatchSet → Looking α}
    (hn : ∀ set, set.Quiet → Plain (next set)) : Plain (ofTree p >>= next) :=
  ⟨fun d => (hn (.within [⟨d.generation, .root d.root⟩] p) hp).faultless d,
    fun d => (hn (.within [⟨d.generation, .root d.root⟩] p) hp).same d⟩

end MatchSet

theorem plain_findAll {p : Pattern} (hp : p.Quiet) : Plain (findAll p) :=
  MatchSet.plain_ofTree_bind hp MatchSet.plain_members

/-! ## Calls and literals -/

namespace Handle

theorem plain_firstArgument? (call : Handle) : Plain call.firstArgument? :=
  (plain_callArguments call).bind fun _ => plain_pure _

theorem plain_shownArgument (call : Handle) (absent : String) :
    Plain (call.shownArgument absent) := by
  refine call.plain_firstArgument?.bind fun argument => ?_
  split
  · exact plain_text _
  · exact plain_pure _

theorem plain_argumentText (call : Handle) : Plain call.argumentText := by
  refine (call.plain_field? _).bind fun list => ?_
  split
  · exact plain_pure _
  · exact (plain_text _).bind fun _ => plain_pure _

theorem plain_calledMember? (call : Handle) : Plain call.calledMember? := by
  refine (call.plain_field? _).bind fun callee => ?_
  split
  · exact plain_pure _
  · exact (plain_kind _).bind fun _ => by split <;> exact plain_pure _

theorem plain_receiver? (call : Handle) : Plain call.receiver? := by
  refine call.plain_calledMember?.bind fun callee => ?_
  split
  · exact plain_pure _
  · exact plain_field? _ _

theorem plain_methodName? (call : Handle) : Plain call.methodName? := by
  refine call.plain_calledMember?.bind fun callee => ?_
  split
  · exact plain_pure _
  · refine (plain_field? _ _).bind fun property => ?_
    split
    · exact plain_pure _
    · exact (plain_text _).bind fun _ => plain_pure _

theorem plain_awaited? (h : Handle) : Plain h.awaited? := by
  refine h.plain_fresh.bind fun place => ?_
  split
  · exact (plain_on _).bind fun _ => plain_pure _
  · exact plain_pure _

theorem plain_moduleLiteral? (statement : Handle) : Plain statement.moduleLiteral? := by
  refine (statement.plain_field? _).bind fun literal => ?_
  split
  · exact plain_pure _
  · refine statement.plain_kind.bind fun kind => ?_
    split
    · exact plain_pure _
    · refine statement.plain_namedChildren.bind fun children => ?_
      exact plain_stepwise.findM? (fun child => child.plain_kind.bind fun _ => plain_pure _) children

theorem plain_literalValue? (h : Handle) : Plain h.literalValue? := by
  refine h.plain_kind.bind fun kind => ?_
  split
  · exact plain_pure _
  · refine h.plain_text.bind fun text => ?_
    split
    · exact plain_pure _
    · exact plain_throw (by simp [Failure.of])

theorem plain_valueOf? (h : Option Handle) : Plain (valueOf? h) := by
  cases h with
  | none => exact plain_pure _
  | some h => exact h.plain_literalValue?

end Handle

end TestMigration
