import TestMigration.Proofs.Form
import TestMigration.Proofs.Renaming
import TestMigration.Proofs.Settled
import Mathlib.Logic.Relation

/-! The pass over idle calls, round by round. The edits of a round replace calls by their receivers and
take statements away that are only updates, and all other text stays. They make the same changes in the
tree as in the text, as long as the text that a round leaves is read as that tree. -/

namespace TestMigration

open Script (Node Kind Field Place Form)

/-- A place stands among the parts of what is above it. -/
theorem Script.Place.Within.mem_children {root : Node} {p q : Place} (h : p.Within root)
    (hq : p.parent? = some q) : p.node ∈ q.node.children := by
  cases h with
  | root => cases hq
  | child _ hn =>
    cases hq
    exact hn

namespace Document

/-- The calls of `first` and `hostNodes` without arguments. -/
def chained (d : Document) : List Place := d.found (d.callsBare (.oneOf ["first", "hostNodes"]))

/-- The calls of `update` without arguments. -/
def updates (d : Document) : List Place := d.found (d.callsBare (.exactly "update"))

/-- The edit that drops a call without effect: the call gives way to its receiver, unless it is a
statement that updates a plain variable, which is taken away. -/
inductive Drop (d : Document) : Place → Edit → Prop where
  | chained {call receiver : Place} {e : Edit} : call ∈ d.chained → call.subject? = some receiver →
      e.Puts call.node.start call.node.stop (d.wording receiver.node) → Drop d call e
  | update {call receiver parent : Place} {e : Edit} : call ∈ d.updates →
      call.subject? = some receiver → call.parent? = some parent →
      (parent.node.kind ≠ .expressionStatement ∨ receiver.node.kind ≠ .identifier) →
      e.Puts call.node.start call.node.stop (d.wording receiver.node) → Drop d call e
  | statement {call receiver statement : Place} {e : Edit} : call ∈ d.updates →
      call.subject? = some receiver → call.parent? = some statement →
      statement.node.kind = .expressionStatement → receiver.node.kind = .identifier →
      e.Puts (d.extent statement).1 (d.extent statement).2 "" → Drop d call e

/-- The edits drop the calls without effect, each that has a receiver, and do nothing else. -/
structure Drops (d : Document) (recorded : List Edit) : Prop where
  only : ∀ e ∈ recorded, ∃ call, d.Drop call e
  chained : ∀ call ∈ d.chained, ∀ receiver, call.subject? = some receiver →
    ∃ e ∈ recorded, d.Drop call e
  updates : ∀ call ∈ d.updates, ∃ e ∈ recorded, d.Drop call e

variable {d : Document} {call receiver : Place} {e : Edit} {applied : List Edit}

/-- What a drop cuts out lies between characters. -/
theorem Drop.neat (hd : d.Worded) (h : d.Drop call e) (hinside : e.start ≤ e.stop ∧ e.stop ≤ d.source.size) :
    d.Neat e := by
  cases h with
  | chained hcall _ hputs => exact hd.neat_of_puts (within_found hcall) hputs
  | update hcall _ _ _ hputs => exact hd.neat_of_puts (within_found hcall) hputs
  | statement hcall _ hparent _ _ hputs =>
    exact hd.neat_of_removes ((within_found hcall).parent? hparent) hputs hinside

theorem callsBare_mono {test test' : TextTest} (hsub : ∀ s, test.holds s = true → test'.holds s = true)
    (h : d.callsBare test call = true) : d.callsBare test' call = true := by
  obtain ⟨hmethod, hbare⟩ := Bool.and_eq_true_iff.mp h
  obtain ⟨hkind, hcallee⟩ := Bool.and_eq_true_iff.mp hmethod
  obtain ⟨callee, hcallee, hmember⟩ := (Option.any_eq_true _ _).mp hcallee
  obtain ⟨hmember, hproperty⟩ := Bool.and_eq_true_iff.mp hmember
  obtain ⟨property, hproperty, hnamed⟩ := (Option.any_eq_true _ _).mp hproperty
  obtain ⟨hnamed, hname⟩ := Bool.and_eq_true_iff.mp hnamed
  have hproperty : (callee.field? .property).any (fun property =>
      property.node.kind == .propertyIdentifier && test'.holds (d.wording property.node)) = true :=
    (Option.any_eq_true _ _).mpr ⟨property, hproperty, Bool.and_eq_true_iff.mpr ⟨hnamed, hsub _ hname⟩⟩
  have hmethod : d.callsMethod test' call = true := Bool.and_eq_true_iff.mpr ⟨hkind,
    (Option.any_eq_true _ _).mpr ⟨callee, hcallee, Bool.and_eq_true_iff.mpr ⟨hmember, hproperty⟩⟩⟩
  exact Bool.and_eq_true_iff.mpr ⟨hmethod, hbare⟩

theorem callsBare_of_chained (h : call ∈ d.chained) :
    d.callsBare (.oneOf Chain.idleMethods) call = true := by
  refine callsBare_mono (fun s hs => ?_) (mem_found h).2
  rw [TextTest.holds_oneOf, List.contains_iff_mem] at hs ⊢
  exact (by decide : ["first", "hostNodes"] ⊆ Chain.idleMethods) hs

theorem callsBare_of_updates (h : call ∈ d.updates) {methods : List String} (hmem : "update" ∈ methods) :
    d.callsBare (.oneOf methods) call = true := by
  refine callsBare_mono (fun s hs => ?_) (mem_found h).2
  rw [TextTest.holds_exactly, beq_iff_eq] at hs
  rw [TextTest.holds_oneOf, List.contains_iff_mem, hs]
  exact hmem

theorem replacement?_eq (hcalls : d.callsBare (.oneOf Chain.idleMethods) call = true)
    (hsubject : call.subject? = some receiver) (he : e ∈ applied)
    (hputs : e.Puts call.node.start call.node.stop (d.wording receiver.node)) :
    d.replacement? applied call = some receiver := by
  unfold replacement?
  rw [if_pos hcalls, hsubject, Option.filter_some,
    if_pos (List.any_eq_true.mpr ⟨e, he, decide_eq_true hputs⟩)]

/-- A drop that is applied shows in the tree: the call gives way there, or its statement is gone. -/
theorem Drop.shown (h : d.Drop call e) (he : e ∈ applied) :
    (∃ receiver, d.replacement? applied call = some receiver) ∨
      ∃ statement, call.parent? = some statement ∧ d.isTaken applied statement = true := by
  cases h with
  | chained hcall hsubject hputs =>
    exact .inl ⟨_, replacement?_eq (callsBare_of_chained hcall) hsubject he hputs⟩
  | update hcall hsubject _ _ hputs =>
    exact .inl ⟨_, replacement?_eq (callsBare_of_updates hcall (by decide)) hsubject he hputs⟩
  | @statement receiver statement _ hcall hsubject hparent hstatement hplain hputs =>
    refine .inr ⟨statement, hparent, Bool.and_eq_true_iff.mpr
      ⟨?_, List.any_eq_true.mpr ⟨e, he, decide_eq_true hputs⟩⟩⟩
    have hupdates := callsBare_of_updates hcall (List.mem_singleton_self _)
    unfold Form.isUpdate
    rw [kind_formOf, parts_formOf, List.any_map, Bool.and_eq_true_iff, beq_iff_eq]
    refine ⟨hstatement, List.any_eq_true.mpr
      ⟨call.node, (within_found hcall).mem_children hparent, Bool.and_eq_true_iff.mpr ⟨?_, ?_⟩⟩⟩
    · rw [callsBare_formOf]
      exact hupdates
    · rw [receiver?_formOf, hsubject, Option.map_some, Option.any_some, kind_formOf]
      exact beq_iff_eq.mpr hplain

end Document

namespace Chain

variable {d : Document} {p : Place} {b b' : Batch} {test : TextTest}

theorem findAll_calls (hd : d.Legible) (test : TextTest) :
    findAll (calls test) d = .ok ((d.found (d.callsBare test)).map d.handle) :=
  Document.findAll_eq fun _ hp => Document.holdsOf_bare hd (Document.within_of_mem_places hp) test

/-- What a method is called on is its receiver. -/
theorem receiver?_handle (h : d.callsBare test p = true) :
    (d.handle p).receiver? d = .ok (p.subject?.map d.handle) := by
  have hmethod := (Bool.and_eq_true_iff.mp h).1
  obtain ⟨callee, hcallee, hmember⟩ :=
    (Option.any_eq_true _ _).mp (Bool.and_eq_true_iff.mp hmethod).2
  refine look_bind_eq Assertion.calledMember?_handle ?_
  unfold Place.subject?
  rw [hcallee, Option.filter_some, if_pos (Bool.and_eq_true_iff.mp hmember).1]
  exact Handle.field?_handle _

/-! ## A round -/

/-- A round begins with the calls of `first` and `hostNodes`. -/
def dropChained : Editing Nat := do
  (← (MatchSet.ofTree (calls (.oneOf ["first", "hostNodes"])) : Looking _)).replaceWith receiverText

/-- Then the calls of `update` have their turn, one after the other. -/
def dropUpdates : Editing Unit := do
  for call in ← (findAll (calls (.exactly "update")) : Looking _) do
    removeUpdate call

/-- One round of the pass. -/
def round : Editing Unit := dropChained >>= fun _ => dropUpdates

theorem removeIdle_eq : removeIdle = Pass.lift (Document.untilStable round Document.roundLimit) := rfl

theorem made_dropChained : Made dropChained :=
  MatchSet.made_ofTree_bind (quiet_calls _) fun set hs => set.made_replaceWith hs plain_receiverText

theorem made_round : Made round :=
  made_dropChained.bind fun _ => (made_look (plain_findAll (quiet_calls _))).bind made_removeUpdates

theorem removeUpdates_eq (calls : List Handle) : (do
    for call in calls do
      removeUpdate call : Editing Unit) = calls.forM removeUpdate := by
  induction calls with
  | nil => rfl
  | cons call rest ih =>
    rw [List.forIn_cons, bind_assoc, bind_assoc]
    change (removeUpdate call >>= fun _ => do
      for call in rest do
        removeUpdate call) = _
    rw [ih]
    rfl

theorem records_removeUpdate (hd : d.Legible) (hp : p ∈ d.updates) {u : Unit}
    (h : Records (removeUpdate (d.handle p)) d b u b') :
    (∃ e ∈ b'.edits, d.Drop p e) ∧ ∀ e ∈ b'.edits, e ∈ b.edits ∨ d.Drop p e := by
  have hwithin := Document.within_found hp
  obtain ⟨receiver, hreceiver, h⟩ := h.look_bind (Handle.plain_receiver? _)
  obtain ⟨parent, hparent, h⟩ := h.look_bind (Handle.plain_parent? _)
  rw [receiver?_handle (Document.mem_found hp).2] at hreceiver
  cases hreceiver
  rw [Wrapper.parent?_handle] at hparent
  cases hparent
  cases hsubject : p.subject? with
  | none =>
    rw [hsubject] at h
    cases h
  | some receiver =>
  cases habove : p.parent? with
  | none =>
    rw [hsubject, habove] at h
    cases h
  | some parent =>
  rw [hsubject, habove] at h
  obtain ⟨kind, hkind, h⟩ := h.look_bind (Handle.plain_kind _)
  rw [Handle.kind_handle] at hkind
  cases hkind
  obtain ⟨kind, hkind, h⟩ := h.look_bind (Handle.plain_kind _)
  rw [Handle.kind_handle] at hkind
  cases hkind
  split at h
  · rename_i hboth
    obtain ⟨hstatement, hplain⟩ := Bool.and_eq_true_iff.mp hboth
    have hdrop : ∀ e : Edit, e.Puts (d.extent parent).1 (d.extent parent).2 "" → d.Drop p e :=
      fun e he => .statement hp hsubject habove (beq_iff_eq.mp hstatement) (beq_iff_eq.mp hplain) he
    obtain ⟨⟨e, he, hputs⟩, honly⟩ := records_remove h
    exact ⟨⟨e, he, hdrop e hputs⟩, fun e he => (honly e he).imp_right (hdrop e)⟩
  · rename_i hnot
    rw [Bool.and_eq_true_iff, beq_iff_eq, beq_iff_eq, not_and_or] at hnot
    have hdrop : ∀ e : Edit, e.Puts p.node.start p.node.stop (d.wording receiver.node) → d.Drop p e :=
      fun e he => .update hp hsubject habove hnot he
    obtain ⟨text, htext, h⟩ := h.look_bind (Handle.plain_text _)
    rw [Handle.text_handle hd (hwithin.subject? hsubject)] at htext
    cases htext
    obtain ⟨⟨e, he, hputs⟩, honly⟩ := records_replaceText h
    exact ⟨⟨e, he, hdrop e hputs⟩, fun e he => (honly e he).imp_right (hdrop e)⟩

/-- The text that takes the place of a call is its receiver's. -/
theorem receiverText_handle (hd : d.Legible) (hp : p.Within d.root) (h : d.callsBare test p = true) :
    receiverText (d.handle p) d = .ok (p.subject?.map fun q => .ofString (d.wording q.node)) := by
  refine look_bind_eq (receiver?_handle h) ?_
  cases hsubject : p.subject? with
  | none => rfl
  | some receiver => exact look_bind_eq (Handle.text_handle hd (hp.subject? hsubject)) rfl

theorem records_round (hd : d.Legible) {u : Unit}
    (h : Records round d (.open' d.generation) u b) : d.Drops b.edits := by
  obtain ⟨n, b₁, hchained, h⟩ := h.bind made_dropChained
  obtain ⟨all, hall, h⟩ := h.look_bind (plain_findAll (quiet_calls _))
  rw [findAll_calls hd] at hall
  cases hall
  rw [removeUpdates_eq] at h
  obtain ⟨found, hfound, hreplaces⟩ := records_replaceAll (quiet_calls _) plain_receiverText hchained rfl
  rw [findAll_calls hd] at hfound
  cases hfound
  have hcontinues := h.continues (made_stepwise.forM made_removeUpdate _)
  refine ⟨?_, ?_, ?_⟩
  · refine h.forM_keeps made_removeUpdate (I := fun b => ∀ e ∈ b.edits, ∃ call, d.Drop call e) ?_ ?_
    · intro a ha b₁ u b₂ hb₁ hrun
      obtain ⟨p, hp, rfl⟩ := List.mem_map.mp ha
      intro e he
      rcases (records_removeUpdate hd hp hrun).2 e he with hold | hnew
      · exact hb₁ e hold
      · exact ⟨p, hnew⟩
    · intro e he
      obtain ⟨a, ha, t, s, hbuilt, hs, hputs⟩ := hreplaces.only e he
      obtain ⟨p, hp, rfl⟩ := List.mem_map.mp ha
      rw [receiverText_handle hd (Document.within_found hp) (Document.mem_found hp).2] at hbuilt
      obtain ⟨receiver, hsubject, rfl⟩ := Option.map_eq_some_iff.mp (Except.ok.inj hbuilt)
      rw [Text.toString?_ofString] at hs
      cases hs
      exact ⟨p, .chained hp hsubject hputs⟩
  · intro p hp receiver hsubject
    obtain ⟨text, hbuilt, hputs⟩ := hreplaces.each (d.handle p) (List.mem_map_of_mem hp)
    rw [receiverText_handle hd (Document.within_found hp) (Document.mem_found hp).2, hsubject] at hbuilt
    cases hbuilt
    obtain ⟨s, hs, e, he, hputs⟩ := hputs _ rfl
    rw [Text.toString?_ofString] at hs
    cases hs
    exact ⟨e, hcontinues.mem he, .chained hp hsubject hputs⟩
  · intro p hp
    obtain ⟨b₂, b₃, hrun, hlater⟩ := h.forM_mem made_removeUpdate (d.handle p) (List.mem_map_of_mem hp)
    obtain ⟨⟨e, he, hdrop⟩, -⟩ := records_removeUpdate hd hp hrun
    exact ⟨e, hlater.mem he, hdrop⟩

end Chain

/-! ## Round by round -/

/-- A round: what it begins with, the edits that it applies and those that it leaves to the next one, and
what it ends with. -/
structure Round where
  before : Document
  applied : List Edit
  deferred : List Edit
  after : Document

/-- The round that the pass makes of a document. -/
def Chain.roundOf (d : Document) : Option Round :=
  match round { d with batch := some (.open' d.generation) }, Document.batched round d with
  | .ok _ recording, .ok _ after =>
    recording.batch.map fun b => ⟨d, b.settled.1, b.settled.2, after⟩
  | _, _ => none

namespace Round

/-- The round drops calls without effect from a script and leaves the other text as it is. What it defers
begins inside a call or a statement that it drops. -/
structure Drops (r : Round) : Prop where
  run : Chain.roundOf r.before = some r
  script : r.before.Worded
  drops : r.before.Drops (r.applied ++ r.deferred)
  text : r.after.source = Edit.splice r.before.source 0 r.applied
  fit : Edit.Fit r.before.source r.applied
  inside : ∀ e ∈ r.deferred, ∃ outer ∈ r.applied, outer.start ≤ e.start ∧ e.start < outer.stop
  stands : ∀ p : Place, p.Within r.before.root →
    (∀ e ∈ r.applied, e.stop ≤ p.node.start ∨ p.node.stop ≤ e.start) →
    Edit.Stands r.after.source (r.before.wording p.node) (Edit.offsetFrom 0 p.node.start r.applied)
  shown : ∀ e ∈ r.applied, ∃ call, (∃ receiver, r.before.replacement? r.applied call = some receiver) ∨
    ∃ statement, call.parent? = some statement ∧ r.before.isTaken r.applied statement = true

/-- The text that the round leaves is read as the tree in which the same changes are made. -/
def Read (r : Round) : Prop := r.after.form = r.before.pruned r.applied

instance (r : Round) : Decidable r.Read := inferInstanceAs (Decidable (_ = _))

theorem Read.prunes {r : Round} (h : r.Read) : Form.Prunes r.before.form r.after.form := by
  rw [h]
  exact Document.prunes_pruned r.before r.applied

end Round

/-- Rounds, one after another, up to one that defers nothing. -/
inductive Traced : Document → List Round → Document → Prop where
  | last {d d' : Document} {applied : List Edit} : Round.Drops ⟨d, applied, [], d'⟩ →
    Traced d [⟨d, applied, [], d'⟩] d'
  | more {d d₁ d' : Document} {applied deferred : List Edit} {rounds : List Round} :
    Round.Drops ⟨d, applied, deferred, d₁⟩ → deferred ≠ [] → Traced d₁ rounds d' →
    Traced d (⟨d, applied, deferred, d₁⟩ :: rounds) d'

namespace Traced

variable {d d' : Document} {rounds : List Round} {r : Round}

/-- The induction is on the rounds: each one prunes the tree that the one before it left. -/
theorem prunes (h : Traced d rounds d') (hread : ∀ r ∈ rounds, r.Read) :
    Relation.ReflTransGen Form.Prunes d.form d'.form := by
  induction h with
  | last _ => exact .single (hread _ (List.mem_singleton_self _)).prunes
  | more _ _ _ ih =>
    obtain ⟨hfirst, hrest⟩ := List.forall_mem_cons.mp hread
    exact .head hfirst.prunes (ih hrest)

/-- After a round that defers nothing there is no other. -/
theorem eq_singleton (h : Traced d rounds d') (hrun : Chain.roundOf d = some r) (hnone : r.deferred = []) :
    rounds = [r] := by
  cases h with
  | last hround =>
    have hrun' := hround.run
    rw [hrun] at hrun'
    cases hrun'
    rfl
  | more hround hsome _ =>
    have hrun' := hround.run
    rw [hrun] at hrun'
    cases hrun'
    exact absurd hnone hsome

end Traced

namespace Chain

variable {d d' : Document} {b : Batch}

/-- The edits of a round that are recorded are applied or deferred. -/
theorem drops_settled (hdrops : d.Drops b.edits) : d.Drops (b.settled.1 ++ b.settled.2) := by
  have hmem : ∀ {e : Edit}, e ∈ b.edits ↔ e ∈ b.settled.1 ++ b.settled.2 :=
    ((Edit.settle_perm 0 _).trans (Edit.sorted_perm _)).mem_iff.symm
  refine ⟨fun e he => hdrops.only e (hmem.mpr he), ?_, ?_⟩
  · intro call hcall receiver hsubject
    obtain ⟨e, he, hdrop⟩ := hdrops.chained call hcall receiver hsubject
    exact ⟨e, hmem.mp he, hdrop⟩
  · intro call hcall
    obtain ⟨e, he, hdrop⟩ := hdrops.updates call hcall
    exact ⟨e, hmem.mp he, hdrop⟩

/-- What a round does to a script. -/
theorem drops_of_batched (closed : d.batch = none) (hd : d.Worded) {spent : Batch}
    (h : Document.batched round d = .ok ((), spent) d') :
    d'.batch = none ∧ d'.Worded ∧ ∃ applied, Round.Drops ⟨d, applied, spent.deferred, d'⟩ := by
  obtain ⟨b, hrecords, hsource, hclosed, hdeferred, -⟩ := batched_records made_round closed h
  have hdrops := records_round hd.legible hrecords
  have hinside := hrecords.inside made_round nofun
  have hfit := Batch.fit_settled hinside
  have hneat : ∀ e ∈ b.settled.1, d.Neat e := by
    intro e he
    obtain ⟨call, hdrop⟩ := hdrops.only e (Batch.mem_of_applied he)
    exact hdrop.neat hd (hinside e (Batch.mem_of_applied he))
  rw [hdeferred]
  refine ⟨hclosed, (made_batched made_round).worded hd h hsource hneat, b.settled.1, ?_, hd,
    drops_settled hdrops, hsource, hfit, fun e he => Batch.deferred_inside he, ?_, ?_⟩
  · unfold roundOf
    rw [h]
    dsimp only
    rw [show round { d with batch := some (.open' d.generation) } = _ from hrecords]
    rfl
  · intro p hp hclear
    have hwording := Conversion.decode_ok.mp (hd.legible p hp)
    change Edit.Stands d'.source _ _
    rw [hsource]
    exact Edit.stands_of_clear hwording (fun e he => (hfit.inside e he).1) hfit.apart hclear
  · intro e he
    obtain ⟨call, hdrop⟩ := hdrops.only e (Batch.mem_of_applied he)
    exact ⟨call, hdrop.shown he⟩

/-- The rounds of a run, each of which leaves a script to the next. -/
theorem traced_of_untilStable {limit : Int} (closed : d.batch = none) (hd : d.Worded) {n : Nat}
    (h : Document.untilStable round limit d = .ok n d') : ∃ rounds, Traced d rounds d' := by
  unfold Document.untilStable at h
  -- the induction is on the rounds that are left; how many edits were applied before is no matter
  generalize limit.toNat = left at h
  generalize 0 = total at h
  induction left generalizing d total with
  | zero => cases h
  | succ left ih =>
    obtain ⟨⟨u, spent⟩, d₁, hbatched, h⟩ := Leaves.bind_ok h
    obtain ⟨hclosed, hworded, applied, hround⟩ := drops_of_batched closed hd hbatched
    dsimp only at h
    split at h
    · rename_i hnone
      rw [List.isEmpty_iff.mp hnone] at hround
      obtain ⟨-, rfl⟩ := h.pure
      exact ⟨_, .last hround⟩
    · rename_i hsome
      rw [List.isEmpty_iff] at hsome
      obtain ⟨rounds, hrest⟩ := ih hclosed hworded _ h
      exact ⟨_, .more hround hsome hrest⟩

/-- The pass drops calls without effect round by round, until no edit is left. The tree that it leaves is
the one that it was given with these calls and statements taken out and nothing else changed, as long as
every round leaves a text that is read as its tree with the same changes. -/
theorem removeIdle_prunes {path file : Option String} {source : String} {n : Nat} {s : Session}
    (hd : Document.ofString path source = .ok d) (h : removeIdle ⟨d, file, []⟩ = .ok n s) :
    ∃ rounds, Traced d rounds s.document ∧ ((∀ r ∈ rounds, r.Read) →
      Relation.ReflTransGen Form.Prunes d.form s.document.form) := by
  rw [removeIdle_eq] at h
  obtain ⟨d', hrun, rfl⟩ := Pass.lift_ok h
  obtain ⟨rounds, htraced⟩ :=
    traced_of_untilStable (Document.sound_of_ofBytes hd).2 (Document.worded_ofString hd) hrun
  exact ⟨rounds, htraced, htraced.prunes⟩

/-- The kinds of the nodes above the places with a text. -/
def kindsAbove (d : Document) (text : String) : List Kind :=
  (d.places.filter fun p => d.wording p.node == text).filterMap fun p => p.parent?.map (·.node.kind)

theorem removeIdle_prunes_statement :
    ∃ d s, Document.ofString none "w.update();a.first()" = .ok d ∧
      removeIdle ⟨d, none, []⟩ = .ok 2 s ∧ s.document.source = "a".toUTF8 ∧
      Relation.ReflTransGen Form.Prunes d.form s.document.form := by
  have hrun : removeIdle.onScript? "w.update();a.first()" (fun d n s => (n, spelledBy ["a"] s.document.source,
      (roundOf d).any fun r => r.deferred.isEmpty && decide r.Read)) = some (2, true, true) := by
    decide +kernel
  obtain ⟨d, n, s, hd, hrun, hobserved⟩ := Pass.exists_of_onScript? hrun
  obtain ⟨rfl, hothers⟩ := Prod.mk.inj hobserved
  obtain ⟨hspelled, hfirst⟩ := Prod.mk.inj hothers
  obtain ⟨r, hr, hreads⟩ := (Option.any_eq_true _ _).mp hfirst
  obtain ⟨hnone, hread⟩ := Bool.and_eq_true_iff.mp hreads
  obtain ⟨rounds, htraced, hprunes⟩ := removeIdle_prunes hd hrun
  refine ⟨d, s, hd, hrun, eq_of_spelledBy hspelled, hprunes ?_⟩
  rw [htraced.eq_singleton hr (List.isEmpty_iff.mp hnone)]
  exact List.forall_mem_singleton.mpr (of_decide_eq_true hread)

/-- The statement that is taken away is a branch, and the one behind it comes to stand in its place. -/
theorem branch_taken_over :
    ∃ d s, Document.ofString none "if (x) w.update();\ny();\n" = .ok d ∧
      removeIdle ⟨d, none, []⟩ = .ok 1 s ∧ s.document.source = "if (x) \ny();\n".toUTF8 ∧
      kindsAbove d "y();" = [.program] ∧ kindsAbove s.document "y();" = [.ifStatement] := by
  have hrun : removeIdle.onScript? "if (x) w.update();\ny();\n" (fun d n s =>
      (n, spelledBy ["if (x) \ny();\n"] s.document.source, kindsAbove d "y();", kindsAbove s.document "y();")) =
        some (1, true, [.program], [.ifStatement]) := by decide +kernel
  obtain ⟨d, n, s, hd, hrun, hobserved⟩ := Pass.exists_of_onScript? hrun
  obtain ⟨rfl, hothers⟩ := Prod.mk.inj hobserved
  obtain ⟨hspelled, hkinds⟩ := Prod.mk.inj hothers
  obtain ⟨hbefore, hafter⟩ := Prod.mk.inj hkinds
  exact ⟨d, s, hd, hrun, eq_of_spelledBy hspelled, hbefore, hafter⟩

end Chain

end TestMigration
