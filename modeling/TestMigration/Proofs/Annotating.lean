import TestMigration.Proofs.Callees
import TestMigration.Proofs.Comments
import TestMigration.Proofs.Extents
import TestMigration.Proofs.Insertions
import TestMigration.Proofs.Worded

/-! Comments that a pass puts above statements. In one batch they are noted one after another, each once
above a statement and none that stands there already; all of them are made, and nothing else is done. -/

namespace TestMigration

open Script (Node Kind Field Place)

/-! ## Notes -/

namespace Suggestion

/-- The statements above which comments are put. -/
def statementKinds : List Kind :=
  [.lexicalDeclaration, .variableDeclaration, .expressionStatement, .returnStatement]

/-- A statement, and a comment that is put above it. -/
abbrev Remark := Place × String

/-- Where the statement begins, and the comment. -/
def Remark.key (note : Remark) : Nat × Text := (note.1.node.start, .ofString note.2)

end Suggestion

open Suggestion (Remark statementKinds)

namespace Script.Place

mutual

/-- What is around a node of a walk is on the way of the walk, or around the node where it begins. -/
theorem ancestor_of_walk (above : List Node) : ∀ n : Node, ∀ p ∈ walk above n, ∀ q ∈ p.ancestors,
    q ∈ walk above n ∨ q ∈ ancestorsOf above
  | .mk role kind start stop children => by
    intro p hp q hq
    rw [walk] at hp ⊢
    rcases List.mem_cons.mp hp with rfl | hp
    · exact .inr hq
    · rcases ancestor_of_walkAll (.mk role kind start stop children :: above) children p hp q hq with hq | hq
      · exact .inl (List.mem_cons_of_mem _ hq)
      · rcases List.mem_cons.mp hq with rfl | hq
        · exact .inl List.mem_cons_self
        · exact .inr hq

theorem ancestor_of_walkAll (above : List Node) : ∀ ns : List Node, ∀ p ∈ walkAll above ns, ∀ q ∈ p.ancestors,
    q ∈ walkAll above ns ∨ q ∈ ancestorsOf above
  | [] => fun _ hp => nomatch hp
  | n :: rest => by
    intro p hp q hq
    rw [walkAll] at hp ⊢
    rcases List.mem_append.mp hp with hp | hp
    · split at hp
      · rename_i hnamed
        rw [if_pos hnamed]
        exact (ancestor_of_walk above n p hp q hq).imp_left (List.mem_append_left _)
      · cases hp
    · exact (ancestor_of_walkAll above rest p hp q hq).imp_left (List.mem_append_right _)

end

end Script.Place

namespace Document

/-- The line comments right above the line of an offset, the nearest first. -/
def commentsAbove (d : Document) (offset : Nat) : List String :=
  (Suggestion.commentsAbove d offset).toOption.getD []

/-- Only blanks are between the start of the line and the offset. -/
def Leads (d : Document) (offset : Nat) : Prop :=
  (d.source.extract (d.lineStart offset) offset).toList.all isBlankByte = true

instance (d : Document) : DecidablePred d.Leads := fun _ => inferInstanceAs (Decidable (_ = true))

/-- A comment has a line of its own above that of a statement that leads its line, and is indented as the
statement is; any other statement is put on a line of its own below the comment. -/
def insertionOf (d : Document) (note : Remark) : Insertion :=
  let start := note.1.node.start
  if d.Leads start then (d.lineStart start, d.indentation start ++ note.2 ++ "\n")
  else (start, note.2 ++ "\n" ++ d.indentation start)

/-- What is noted of a comment on a call: nothing if there is no statement around the call, or the comment is
noted for it, or stands above it. -/
def note? (d : Document) (notes : List Remark) (asked : Place × Text) : Option Remark :=
  (asked.1.closest? statementKinds).bind fun statement =>
    if (statement.node.start, asked.2) ∈ notes.map Remark.key ∨
        asked.2 ∈ (d.commentsAbove statement.node.start).map Text.ofString then none
    else asked.2.toString?.map (statement, ·)

/-- What is noted of comments, after the notes there are. -/
def notesFrom (d : Document) (notes : List Remark) (asked : List (Place × Text)) : List Remark :=
  asked.foldl (fun notes a => notes ++ (d.note? notes a).toList) notes

/-- The comments on calls, where they have one. -/
def askedOf (comment : Place → Except Failure (Option Text)) (calls : List Place) : List (Place × Text) :=
  calls.filterMap fun p => (comment p).toOption.join.map (p, ·)

/-- The comment of a note is that on one of the calls, and its statement the nearest one around the call. -/
def Notes (comment : Place → Except Failure (Option Text)) (calls : List Place) (note : Remark) : Prop :=
  ∃ p ∈ calls, p.closest? statementKinds = some note.1 ∧ comment p = .ok (some (.ofString note.2))

/-- The node begins in the text, with something that can be seen. -/
def Shows (d : Document) (p : Place) : Prop :=
  p.node.start < d.source.size ∧ isBlankByte (d.source.get! p.node.start) = false

instance (d : Document) : DecidablePred d.Shows := fun _ => inferInstanceAs (Decidable (_ ∧ _))

/-- All statements above which comments can be put show. -/
def StatementsShow (d : Document) : Prop :=
  ∀ p ∈ d.places, statementKinds.contains p.node.kind = true → d.Shows p

instance (d : Document) : Decidable d.StatementsShow := inferInstanceAs (Decidable (∀ _ ∈ _, _))

variable {d : Document} {p q : Place} {notes : List Remark} {note : Remark} {asked : List (Place × Text)}
  {comment : Text} {a : Place × Text}

theorem ancestor_mem_places (hp : p ∈ d.places) (hq : q ∈ p.ancestors) : q ∈ d.places := by
  rcases Place.ancestor_of_walk [] d.root p hp q hq with hq | hq
  · exact hq
  · cases hq

theorem closest_mem_places {kinds : List Kind} (hp : p ∈ d.places) (hq : p.closest? kinds = some q) :
    q ∈ d.places ∧ kinds.contains q.node.kind = true :=
  ⟨ancestor_mem_places hp (List.mem_of_find?_eq_some hq),
    List.find?_some (p := fun q : Place => kinds.contains q.node.kind) hq⟩

/-! ## What is noted -/

theorem notesFrom_cons : d.notesFrom notes (a :: asked) = d.notesFrom (notes ++ (d.note? notes a).toList) asked :=
  rfl

theorem notesFrom_append (more : List (Place × Text)) :
    d.notesFrom notes (asked ++ more) = d.notesFrom (d.notesFrom notes asked) more := List.foldl_append

theorem note?_eq_some : d.note? notes a = some note ↔ a.1.closest? statementKinds = some note.1 ∧
    a.2.toString? = some note.2 ∧ (note.1.node.start, a.2) ∉ notes.map Remark.key ∧
      a.2 ∉ (d.commentsAbove note.1.node.start).map Text.ofString := by
  unfold note?
  rw [Option.bind_eq_some_iff]
  constructor
  · rintro ⟨statement, hstatement, hnote⟩
    obtain ⟨hnew, hnote⟩ := Option.ite_none_left_eq_some.mp hnote
    obtain ⟨text, htext, rfl⟩ := Option.map_eq_some_iff.mp hnote
    exact ⟨hstatement, htext, fun h => hnew (.inl h), fun h => hnew (.inr h)⟩
  · rintro ⟨hstatement, htext, hkey, habove⟩
    refine ⟨note.1, hstatement, ?_⟩
    rw [if_neg (not_or.mpr ⟨hkey, habove⟩), htext]
    rfl

theorem mem_commentsAbove {offset : Nat} {lines : List String} (h : Suggestion.commentsAbove d offset = .ok lines) :
    (lines.any fun line => Text.ofString line == comment) = true ↔
      comment ∈ (d.commentsAbove offset).map Text.ofString := by
  unfold commentsAbove
  rw [h, List.any_eq_true, List.mem_map]
  simp only [beq_iff_eq]
  rfl

theorem note?_of_nowhere (h : a.1.closest? statementKinds = none) : d.note? notes a = none := by
  unfold note?
  rw [h]
  rfl

theorem note?_of_there {statement : Place} (h : a.1.closest? statementKinds = some statement)
    (hthere : (statement.node.start, a.2) ∈ notes.map Remark.key ∨
      a.2 ∈ (d.commentsAbove statement.node.start).map Text.ofString) : d.note? notes a = none := by
  unfold note?
  rw [h, Option.bind_some, if_pos hthere]

/-- The notes there are stay, and each new one is for one of the comments. -/
theorem notesFrom_grows (asked : List (Place × Text)) (notes : List Remark) :
    ∃ more, d.notesFrom notes asked = notes ++ more ∧
      ∀ note ∈ more, ∃ a ∈ asked, a.1.closest? statementKinds = some note.1 ∧ a.2 = .ofString note.2 := by
  induction asked generalizing notes with
  | nil => exact ⟨[], (List.append_nil _).symm, List.forall_mem_nil _⟩
  | cons a asked ih =>
    obtain ⟨more, hmore, heach⟩ := ih (notes ++ (d.note? notes a).toList)
    refine ⟨(d.note? notes a).toList ++ more, ?_, fun note hnote => ?_⟩
    · rw [notesFrom_cons, hmore, List.append_assoc]
    · rcases List.mem_append.mp hnote with hnote | hnote
      · obtain ⟨hstatement, htext, -⟩ := note?_eq_some.mp (Option.mem_toList.mp hnote)
        exact ⟨a, List.mem_cons_self, hstatement, Text.eq_ofString htext⟩
      · obtain ⟨a', ha', hfrom⟩ := heach note hnote
        exact ⟨a', List.mem_cons_of_mem _ ha', hfrom⟩

theorem mem_askedOf {g : Place → Except Failure (Option Text)} {calls : List Place} :
    a ∈ askedOf g calls ↔ a.1 ∈ calls ∧ g a.1 = .ok (some a.2) := by
  have hjoin : ∀ p, (g p).toOption.join = some a.2 ↔ g p = .ok (some a.2) := by
    intro p
    cases g p with
    | error e => exact iff_of_false nofun nofun
    | ok t => exact Option.join_eq_some_iff.trans ⟨fun h => congrArg Except.ok (Option.some.inj h), fun h =>
        congrArg some (Except.ok.inj h)⟩
  unfold askedOf
  rw [List.mem_filterMap]
  constructor
  · rintro ⟨p, hp, ha⟩
    obtain ⟨t, ht, rfl⟩ := Option.map_eq_some_iff.mp ha
    exact ⟨hp, (hjoin p).mp ht⟩
  · rintro ⟨hp, ha⟩
    exact ⟨a.1, hp, Option.map_eq_some_iff.mpr ⟨a.2, (hjoin a.1).mpr ha, rfl⟩⟩

theorem notes_of_askedOf {g : Place → Except Failure (Option Text)} {calls : List Place}
    (ha : a ∈ askedOf g calls) (hstatement : a.1.closest? statementKinds = some note.1)
    (hcomment : a.2 = .ofString note.2) : Notes g calls note := by
  obtain ⟨hcall, hg⟩ := mem_askedOf.mp ha
  exact ⟨a.1, hcall, hstatement, hcomment ▸ hg⟩

theorem nodup_notesFrom (hnodup : (notes.map Remark.key).Nodup) :
    ((d.notesFrom notes asked).map Remark.key).Nodup := by
  induction asked generalizing notes with
  | nil => exact hnodup
  | cons a asked ih =>
    rw [notesFrom_cons]
    refine ih ?_
    cases hnote : d.note? notes a with
    | none =>
      rw [Option.toList_none, List.append_nil]
      exact hnodup
    | some note =>
      obtain ⟨-, htext, hkey, -⟩ := note?_eq_some.mp hnote
      rw [Text.eq_ofString htext] at hkey
      rw [Option.toList_some, List.map_append, List.map_singleton, ← List.concat_eq_append]
      exact hnodup.concat hkey

/-! ## Where comments go -/

theorem Shows.beginsLine (hp : d.Shows p) : BeginsLine d.source p.node.start (d.lineStart p.node.start) :=
  beginsLine_of_le hp.1.le

theorem leads_iff {offset : Nat} : d.Leads offset ↔
    ∀ i, d.lineStart offset ≤ i → i < offset → i < d.source.size → isBlankByte (d.source.get! i) = true :=
  all_extract _ _ _ _

/-- What leads its line is the first thing on it that can be seen. -/
theorem Leads.start_le (hp : d.Shows p) (hlead : d.Leads q.node.start)
    (hle : d.lineStart q.node.start ≤ p.node.start) : q.node.start ≤ p.node.start := by
  by_contra hlt
  have hblank := leads_iff.mp hlead p.node.start hle (by omega) hp.1
  rw [hp.2] at hblank
  cases hblank

/-- Where a line begins, nothing stands before it. -/
theorem leads_of_begins (hp : d.Shows p) (hbegins : p.node.start = 0 ∨ d.source.get! (p.node.start - 1) = 10) :
    d.Leads p.node.start := by
  have hline := hp.beginsLine
  have hle := hline.le
  refine leads_iff.mpr fun i hfirst hlast _ => ?_
  rcases hbegins with hzero | hfeed
  · omega
  · exact absurd hfeed (hline.clear (p.node.start - 1) (by omega) (by omega))

theorem insertionOf_le (hp : d.Shows note.1) : (d.insertionOf note).1 ≤ d.source.size := by
  have hline := hp.beginsLine.le
  have hsize := hp.1
  unfold insertionOf
  dsimp only
  split <;> dsimp only <;> omega

/-- Different comments, or comments on different statements, are put in different ways. -/
theorem key_of_insertionOf {note' : Remark} (hp : d.Shows note.1) (hq : d.Shows note'.1)
    (h : d.insertionOf note = d.insertionOf note') : note.key = note'.key := by
  have hbelow : ∀ {p q : Place}, d.Shows p → d.Shows q → ¬ d.Leads q.node.start →
      d.lineStart p.node.start ≠ q.node.start := by
    intro p q hp hq hlead hsame
    have hbegins := hp.beginsLine.begins
    rw [hsame] at hbegins
    exact hlead (leads_of_begins hq hbegins)
  have htext : note.1.node.start = note'.1.node.start → note.2 = note'.2 → note.key = note'.key := by
    intro hstart hcomment
    unfold Remark.key
    rw [hstart, hcomment]
  unfold insertionOf at h
  dsimp only at h
  by_cases hlead : d.Leads note.1.node.start <;> by_cases hlead' : d.Leads note'.1.node.start
  · rw [if_pos hlead, if_pos hlead'] at h
    obtain ⟨hline, hwritten⟩ := Prod.mk.inj h
    have hstart : note.1.node.start = note'.1.node.start := by
      refine Nat.le_antisymm (hlead.start_le hq ?_) (hlead'.start_le hp ?_)
      · rw [hline]
        exact hq.beginsLine.le
      · rw [← hline]
        exact hp.beginsLine.le
    rw [hstart] at hwritten
    exact htext hstart (String.append_right_inj _ |>.mp (String.append_left_inj _ |>.mp hwritten))
  · rw [if_pos hlead, if_neg hlead'] at h
    exact absurd (Prod.mk.inj h).1 (hbelow hp hq hlead')
  · rw [if_neg hlead, if_pos hlead'] at h
    exact absurd (Prod.mk.inj h).1.symm (hbelow hq hp hlead)
  · rw [if_neg hlead, if_neg hlead'] at h
    obtain ⟨hstart, hwritten⟩ := Prod.mk.inj h
    rw [hstart] at hwritten
    exact htext hstart (String.append_left_inj _ |>.mp (String.append_left_inj _ |>.mp hwritten))

/-- The batch in which the comments are put. -/
def batchOf (d : Document) (notes : List Remark) : Batch :=
  .holding d.generation ((notes.map d.insertionOf).map Insertion.replacement)

/-- What is known as noted, and what is recorded, is what the notes say. -/
structure Pending (d : Document) (notes : List Remark) (noted : Suggestion.Noted) (b : Batch) : Prop where
  noted_eq : noted = notes.map Remark.key
  batch_eq : b = d.batchOf notes
  shows : ∀ note ∈ notes, d.Shows note.1

/-- Above the statement around the call, if there is one, the comment is noted, or it stands there. -/
def Stands (d : Document) (notes : List Remark) (a : Place × Text) : Prop :=
  ∀ statement, a.1.closest? statementKinds = some statement →
    (statement.node.start, a.2) ∈ notes.map Remark.key ∨
      a.2 ∈ (d.commentsAbove statement.node.start).map Text.ofString

theorem Stands.append (h : d.Stands notes a) (more : List Remark) : d.Stands (notes ++ more) a := by
  intro statement hstatement
  refine (h statement hstatement).imp_left fun hmem => ?_
  rw [List.map_append]
  exact List.mem_append_left _ hmem

theorem stands_of_there {statement : Place} (hstatement : a.1.closest? statementKinds = some statement)
    (hthere : (statement.node.start, a.2) ∈ notes.map Remark.key ∨
      a.2 ∈ (d.commentsAbove statement.node.start).map Text.ofString) : d.Stands notes a := by
  intro statement' hsome
  cases hstatement.symm.trans hsome
  exact hthere

variable {noted : Suggestion.Noted} {b : Batch}

/-- A comment for which there is nothing to note leaves everything as it is. -/
theorem Pending.kept (hpending : d.Pending notes noted b) (hnone : d.note? notes a = none)
    (hstands : d.Stands notes a) :
    d.Pending (notes ++ (d.note? notes a).toList) noted b ∧ d.Stands (notes ++ (d.note? notes a).toList) a := by
  rw [hnone, Option.toList_none, List.append_nil]
  exact ⟨hpending, hstands⟩

/-- A comment that is new is noted last. -/
theorem Pending.concat (hpending : d.Pending notes noted b) (hnote : d.note? notes a = some note)
    (hshows : d.Shows note.1) :
    d.Pending (notes ++ (d.note? notes a).toList) (noted ++ [(note.1.node.start, a.2)])
        (d.batchOf (notes ++ [note])) ∧
      d.Stands (notes ++ (d.note? notes a).toList) a := by
  obtain ⟨hstatement, htext, -⟩ := note?_eq_some.mp hnote
  have hlast : (notes ++ [note]).map Remark.key = notes.map Remark.key ++ [(note.1.node.start, a.2)] := by
    rw [List.map_append, List.map_singleton, Remark.key, Text.eq_ofString htext]
  rw [hnote, Option.toList_some]
  refine ⟨⟨?_, rfl, List.forall_mem_append.mpr ⟨hpending.shows, List.forall_mem_singleton.mpr hshows⟩⟩, ?_⟩
  · rw [hlast, hpending.noted_eq]
  · refine stands_of_there hstatement (.inl ?_)
    rw [hlast]
    exact List.mem_append_right _ (List.mem_singleton_self _)

end Document

/-! ## Calls on wrappers -/

/-- A call of a method of a wrapper. -/
def Document.callsOn (d : Document) (wrapper : String) (p : Place) : Bool :=
  p.node.kind == .callExpression && (p.field? .callee).any fun callee =>
    callee.node.kind == .memberExpression &&
      ((callee.field? .property).any (fun property => property.node.kind == .propertyIdentifier &&
        Suggestion.anyName.holds (d.wording property.node)) &&
      (callee.field? .object).any fun object =>
        object.node.kind == .identifier && d.wording object.node == wrapper)

namespace Document

/-- The comments that are asked for: on methods of the wrappers, then on calls of `find`, then on simulated
events. -/
def askedOnMethods (d : Document) (wrappers : List String) : List (Place × Text) :=
  wrappers.flatMap fun wrapper => askedOf (d.methodComment wrapper) (d.found (d.callsOn wrapper))

def askedOnFinds (d : Document) (attr : String) (snapshot : Option Snapshot) : List (Place × Text) :=
  askedOf (d.findComment attr snapshot) (d.found (d.callsMethod (.exactly "find")))

def askedOnEvents (d : Document) : List (Place × Text) :=
  askedOf d.eventComment (d.found (d.callsMethod (.exactly "simulate")))

def asked (d : Document) (wrappers : List String) (attr : String) (snapshot : Option Snapshot) :
    List (Place × Text) :=
  d.askedOnMethods wrappers ++ d.askedOnFinds attr snapshot ++ d.askedOnEvents

section Asked

variable {d : Document} {wrappers : List String} {attr : String} {snapshot : Option Snapshot} {a : Place × Text}
  {note : Remark}

theorem mem_places_of_asked (ha : a ∈ d.asked wrappers attr snapshot) : a.1 ∈ d.places := by
  rcases List.mem_append.mp ha with ha | ha
  · rcases List.mem_append.mp ha with ha | ha
    · obtain ⟨wrapper, -, ha⟩ := List.mem_flatMap.mp ha
      exact (mem_found (mem_askedOf.mp ha).1).1
    · exact (mem_found (mem_askedOf.mp ha).1).1
  · exact (mem_found (mem_askedOf.mp ha).1).1

theorem marks_of_asked (ha : a ∈ d.asked wrappers attr snapshot) : Guidance.Marks a.2 := by
  rcases List.mem_append.mp ha with ha | ha
  · rcases List.mem_append.mp ha with ha | ha
    · obtain ⟨wrapper, -, ha⟩ := List.mem_flatMap.mp ha
      exact marks_methodComment (mem_askedOf.mp ha).2
    · exact marks_findComment (mem_askedOf.mp ha).2
  · exact marks_eventComment (mem_askedOf.mp ha).2

/-- Each note is for a comment that is asked for, on the nearest statement around the call. -/
theorem exists_of_noted (hnote : note ∈ d.notesFrom [] (d.asked wrappers attr snapshot)) :
    ∃ a ∈ d.asked wrappers attr snapshot, a.1.closest? statementKinds = some note.1 ∧ a.2 = .ofString note.2 := by
  obtain ⟨notes, hnotes, heach⟩ := notesFrom_grows (d := d) (d.asked wrappers attr snapshot) []
  rw [hnotes, List.nil_append] at hnote
  exact heach note hnote

theorem oneLine_of_noted (hnote : note ∈ d.notesFrom [] (d.asked wrappers attr snapshot)) :
    Guidance.OneLine note.2 := by
  obtain ⟨a, ha, -, hcomment⟩ := exists_of_noted hnote
  exact Guidance.oneLine_of_marks (hcomment ▸ marks_of_asked ha)

end Asked

end Document

section Patterns

variable {d : Document} {p : Place}

theorem Pattern.fieldsHold_cons_handle {f : Field} {q : Pattern} {rest : List (Field × Pattern)} {b : Place → Bool}
    {held : Bool} (h : ∀ c, p.field? f = some c → q.holdsOf (d.handle c) d = .ok (b c))
    (hrest : fieldsHold rest (d.handle p) d = .ok held) :
    fieldsHold ((f, q) :: rest) (d.handle p) d = .ok ((p.field? f).any b && held) := by
  rw [fieldsHold]
  refine look_bind_eq (Handle.field?_handle _) ?_
  cases hc : p.field? f with
  | none => rfl
  | some c =>
    refine look_bind_eq (h c hc) ?_
    rw [Option.any_some]
    cases b c with
    | true => exact hrest
    | false => rfl

theorem holdsOf_methodsOf (hd : d.Legible) (hp : p.Within d.root) (wrapper : String) :
    (Suggestion.methodsOf wrapper).holdsOf (d.handle p) d = .ok (d.callsOn wrapper p) := by
  have hword : ∀ {q r : Place} {f : Field} {kind : Kind} {test : TextTest}, q.Within d.root → q.field? f = some r →
      (Pattern.mk (some [kind]) (some test) [] none none none).holdsOf (d.handle r) d =
        .ok (r.node.kind == kind && test.holds (d.wording r.node)) :=
    fun hq hr => holdsOf_word hd (hq.field? hr)
  have hmember : ∀ c, p.field? .callee = some c → (Pattern.mk (some [.memberExpression]) none
      [(.property, .mk (some [.propertyIdentifier]) (some Suggestion.anyName) [] none none none),
        (.object, .identifier (some (.exactly wrapper)))] none none none).holdsOf (d.handle c) d =
      .ok (c.node.kind == .memberExpression &&
        ((c.field? .property).any (fun property => property.node.kind == .propertyIdentifier &&
          Suggestion.anyName.holds (d.wording property.node)) &&
        (c.field? .object).any fun object =>
          object.node.kind == .identifier && d.wording object.node == wrapper)) := by
    intro c hc
    refine (Pattern.holdsOf_handle hd (hp.field? hc) (Pattern.fieldsHold_cons_handle
      (fun q hq => hword (hp.field? hc) hq) (Pattern.fieldsHold_handle fun q hq => hword (hp.field? hc) hq))
      rfl rfl).trans ?_
    simp only [Pattern.countHolds, Option.all_some, Option.all_none, contains_singleton, Bool.and_true,
      TextTest.holds]
  refine (Pattern.holdsOf_handle hd hp (Pattern.fieldsHold_handle hmember) rfl rfl).trans ?_
  simp only [Document.callsOn, Pattern.countHolds, Option.all_some, Option.all_none, contains_singleton,
    Bool.and_true]

theorem holdsOf_anyMethodCall (hd : d.Legible) (hp : p.Within d.root) (test : TextTest) :
    (Pattern.methodCall test).holdsOf (d.handle p) d = .ok (d.callsMethod test p) := by
  refine (@holdsOf_methodCall _ _ _ hd hp none none true rfl).trans ?_
  rw [Pattern.countHolds, Bool.and_true, Bool.and_true]

end Patterns

/-! ## What is recorded -/

theorem Text.toString?_of_part {before t behind : Text} {s : String}
    (h : (before ++ t ++ behind).toString? = some s) : ∃ text, t.toString? = some text := by
  have hchars : s.toList.map Glyph.char = before ++ t ++ behind := (Text.eq_ofString h).symm
  obtain ⟨first, -, -, hfirst, -⟩ := List.map_eq_append_iff.mp hchars
  obtain ⟨-, middle, -, -, rfl⟩ := List.map_eq_append_iff.mp hfirst
  refine ⟨String.ofList middle, ?_⟩
  have hstring : middle.map Glyph.char = Text.ofString (String.ofList middle) := by
    unfold Text.ofString
    rw [String.toList_ofList]
  rw [hstring, Text.toString?_ofString]

section Recorded

variable {d : Document} {p : Place} {notes : List Remark} {comment : Text} {b' : Batch}

theorem add_insertion {note : Remark} {text : Text} (hnotes : ∀ other ∈ notes, d.Shows other.1)
    (hp : d.Shows note.1) (hkey : note.key ∉ notes.map Remark.key) (htext : text = .ofString (d.insertionOf note).2)
    (h : (d.batchOf notes).add d.generation d.source.size (d.insertionOf note).1 (d.insertionOf note).1 text
      false = .ok b') : b' = d.batchOf (notes ++ [note]) := by
  have hinside := Document.insertionOf_le hp
  have hnew : (d.insertionOf note).replacement ∉ (notes.map d.insertionOf).map Insertion.replacement := by
    intro hmem
    rw [List.map_map] at hmem
    obtain ⟨other, hother, hsame⟩ := List.mem_map.mp hmem
    have hinsertion : d.insertionOf other = d.insertionOf note := by
      obtain ⟨hrange, hwritten⟩ := Prod.mk.inj hsame
      exact Prod.ext (Prod.mk.inj hrange).1 hwritten
    exact hkey (Document.key_of_insertionOf (hnotes other hother) hp hinsertion ▸ List.mem_map_of_mem hother)
  have hadd : (d.batchOf notes).add d.generation d.source.size (d.insertionOf note).1 (d.insertionOf note).1
      (.ofString (d.insertionOf note).2) false = .ok (.holding d.generation (Replacement.joined
        ((notes.map d.insertionOf).map Insertion.replacement) (d.insertionOf note).replacement)) :=
    Batch.add_joined (r := (d.insertionOf note).replacement) ⟨Nat.le_refl _, hinside⟩
  rw [htext] at h
  have hjoined := Except.ok.inj (h.symm.trans hadd)
  rw [hjoined]
  unfold Replacement.joined Document.batchOf
  rw [if_neg hnew, List.map_append, List.map_append]
  rfl

theorem records_above {u : Unit} {written : Text} {offset : Nat} (hnotes : ∀ other ∈ notes, d.Shows other.1)
    (hp : d.Shows p) (hkey : (p.node.start, comment) ∉ notes.map Remark.key)
    (hpart : ∃ before behind, written = before ++ comment ++ behind)
    (hinsertion : ∀ text, comment = Text.ofString text → (d.insertionOf (p, text)).1 = offset ∧
      written = .ofString (d.insertionOf (p, text)).2)
    (h : Records (Document.recordEdit offset offset written false) d (d.batchOf notes) u b') :
    ∃ text, comment.toString? = some text ∧ b' = d.batchOf (notes ++ [(p, text)]) := by
  have hadd := records_add h
  obtain ⟨s, hs, -⟩ := Batch.add_puts hadd
  obtain ⟨before, behind, hpart⟩ := hpart
  rw [hpart] at hs
  obtain ⟨text, htext⟩ := Text.toString?_of_part hs
  obtain ⟨hoffset, hwritten⟩ := hinsertion text (Text.eq_ofString htext)
  rw [← hoffset] at hadd
  refine ⟨text, htext, @add_insertion _ _ _ (p, text) _ hnotes hp ?_ hwritten hadd⟩
  rwa [Remark.key, ← Text.eq_ofString htext]

theorem records_insertBefore {u : Unit} (hnotes : ∀ other ∈ notes, d.Shows other.1) (hp : d.Shows p)
    (hkey : (p.node.start, comment) ∉ notes.map Remark.key)
    (h : Records ((d.handle p).insertBefore comment) d (d.batchOf notes) u b') :
    ∃ text, comment.toString? = some text ∧ b' = d.batchOf (notes ++ [(p, text)]) := by
  obtain ⟨n, hn, h⟩ := h.look_bind (d.handle p).plain_node
  cases Handle.node_handle.symm.trans hn
  unfold Records at h
  rw [Document.bind_apply, Document.get_apply] at h
  by_cases hlead : d.Leads p.node.start
  · change (if d.Leads p.node.start then _ else _ : Editing Unit) _ = _ at h
    rw [if_pos hlead] at h
    refine records_above hnotes hp hkey ⟨_, _, rfl⟩ (fun text htext => ?_) h
    unfold Document.insertionOf
    dsimp only
    rw [if_pos hlead, Text.ofString_append, Text.ofString_append, htext]
    exact ⟨rfl, rfl⟩
  · change (if d.Leads p.node.start then _ else _ : Editing Unit) _ = _ at h
    rw [if_neg hlead] at h
    refine records_above hnotes hp hkey ⟨[], _, rfl⟩ (fun text htext => ?_) h
    unfold Document.insertionOf
    dsimp only
    rw [if_neg hlead, Text.ofString_append, Text.ofString_append, htext, List.append_assoc, List.append_assoc]
    exact ⟨rfl, rfl⟩

theorem Records.except_bind {α β : Type} {x : Except Failure α} {next : α → Editing β} {b : Batch} {y : β}
    (h : Records ((liftM x : Editing α) >>= next) d b y b') : ∃ a, x = .ok a ∧ Records (next a) d b y b' := by
  unfold Records at h
  rw [Document.bind_apply] at h
  cases x with
  | ok a => exact ⟨a, rfl, h⟩
  | error e => cases h

/-- A comment that is asked for is put above the statement around the call, unless it is there. -/
theorem records_annotate {noted noted' : Suggestion.Noted} {b : Batch} (hd : d.Legible) (hshow : d.StatementsShow)
    (hp : p ∈ d.places) (hpending : d.Pending notes noted b)
    (h : Records (Suggestion.annotate (d.handle p) comment noted) d b noted' b') :
    d.Pending (notes ++ (d.note? notes (p, comment)).toList) noted' b' ∧
      d.Stands (notes ++ (d.note? notes (p, comment)).toList) (p, comment) := by
  obtain ⟨found, hfound, h⟩ := h.look_bind (plain_closest? (Pattern.quiet_ofKinds _) _)
  have hclosest := Handle.closest?_handle hd (Document.within_of_mem_places hp) statementKinds
  cases hstatement : p.closest? statementKinds with
  | none =>
    rw [hstatement] at hclosest
    cases hclosest.symm.trans hfound
    obtain ⟨rfl, rfl⟩ := h.pure
    refine hpending.kept (Document.note?_of_nowhere hstatement) fun statement hsome => ?_
    cases hstatement.symm.trans hsome
  | some statement =>
    rw [hstatement] at hclosest
    cases hclosest.symm.trans hfound
    have hstart : (d.handle statement).start d = .ok statement.node.start := look_bind_eq Handle.node_handle rfl
    obtain ⟨start, hstart', h⟩ := h.look_bind (Handle.plain_start _)
    cases hstart.symm.trans hstart'
    have hthere := fun hthere => hpending.kept (Document.note?_of_there hstatement hthere)
      (Document.stands_of_there (a := (p, comment)) hstatement hthere)
    rw [hpending.noted_eq] at h
    split at h
    · rename_i hkey
      obtain ⟨rfl, rfl⟩ := h.pure
      exact hpending.noted_eq ▸ hthere (.inl (List.contains_iff_mem.mp hkey))
    · rename_i hkey
      have hkey := fun hmem => hkey (List.contains_iff_mem.mpr hmem)
      unfold Records at h
      rw [Document.bind_apply, Document.get_apply] at h
      obtain ⟨lines, hlines, h⟩ := Records.except_bind h
      have hany := @Document.mem_commentsAbove _ comment _ _ hlines
      split at h
      · rename_i habove
        obtain ⟨rfl, rfl⟩ := h.pure
        exact hpending.noted_eq ▸ hthere (.inr (hany.mp habove))
      · rename_i habove
        have habove := fun hmem => habove (hany.mpr hmem)
        obtain ⟨hmem, hkind⟩ := Document.closest_mem_places hp hstatement
        have hshows := hshow statement hmem hkind
        obtain ⟨u, b₁, hinsert, h⟩ := Records.bind h (Handle.made_insertBefore _ _)
        rw [hpending.batch_eq] at hinsert
        obtain ⟨text, htext, rfl⟩ := records_insertBefore hpending.shows hshows hkey hinsert
        obtain ⟨rfl, rfl⟩ := h.pure
        have hnote : d.note? notes (p, comment) = some (statement, text) :=
          Document.note?_eq_some.mpr ⟨hstatement, htext, hkey, habove⟩
        exact hpending.noted_eq ▸ hpending.concat hnote hshows

variable {comment : Handle → Looking (Option Text)} {g : Place → Except Failure (Option Text)}
  {noted noted' : Suggestion.Noted} {b : Batch}

/-- The calls have their turns in order. -/
theorem records_annotateEach {calls : List Place} (hd : d.Legible) (hshow : d.StatementsShow)
    (hc : ∀ h, Plain (comment h)) (hcalls : ∀ p ∈ calls, p ∈ d.places ∧ comment (d.handle p) d = g p)
    (hpending : d.Pending notes noted b)
    (h : Records ((calls.map d.handle).foldlM (Suggestion.annotateWith comment) noted) d b noted' b') :
    d.Pending (d.notesFrom notes (Document.askedOf g calls)) noted' b' ∧
      (∀ p ∈ calls, ∃ t, g p = .ok t) ∧
        ∀ a ∈ Document.askedOf g calls, d.Stands (d.notesFrom notes (Document.askedOf g calls)) a := by
  induction calls generalizing notes noted b with
  | nil =>
    obtain ⟨rfl, rfl⟩ := h.pure
    exact ⟨hpending, List.forall_mem_nil _, List.forall_mem_nil _⟩
  | cons p calls ih =>
    obtain ⟨⟨hp, hcomment⟩, hcalls⟩ := List.forall_mem_cons.mp hcalls
    rw [List.map_cons, List.foldlM_cons] at h
    obtain ⟨noted₁, b₁, hfirst, hrest⟩ := h.bind (Suggestion.made_annotateWith hc _ _)
    obtain ⟨t, ht, hturn⟩ := hfirst.look_bind (hc _)
    have hg : g p = .ok t := hcomment.symm.trans ht
    cases t with
    | none =>
      obtain ⟨rfl, rfl⟩ := hturn.pure
      have hasked : Document.askedOf g (p :: calls) = Document.askedOf g calls := by
        unfold Document.askedOf
        rw [List.filterMap_cons_none]
        rw [hg]
        rfl
      obtain ⟨hpending, heach, hstands⟩ := ih hcalls hpending hrest
      rw [hasked]
      exact ⟨hpending, List.forall_mem_cons.mpr ⟨⟨none, hg⟩, heach⟩, hstands⟩
    | some text =>
      have hasked : Document.askedOf g (p :: calls) = (p, text) :: Document.askedOf g calls := by
        unfold Document.askedOf
        rw [List.filterMap_cons_some]
        rw [hg]
        rfl
      obtain ⟨hpending, hfirst⟩ := records_annotate hd hshow hp hpending hturn
      obtain ⟨hpending, heach, hstands⟩ := ih hcalls hpending hrest
      rw [hasked, Document.notesFrom_cons]
      refine ⟨hpending, List.forall_mem_cons.mpr ⟨⟨some text, hg⟩, heach⟩, List.forall_mem_cons.mpr ⟨?_, hstands⟩⟩
      obtain ⟨more, hmore, -⟩ := Document.notesFrom_grows (d := d) (Document.askedOf g calls)
        (notes ++ (d.note? notes (p, text)).toList)
      rw [hmore]
      exact hfirst.append more

theorem records_annotateAll {pattern : Pattern} {test : Place → Bool} (hd : d.Legible) (hshow : d.StatementsShow)
    (hquiet : pattern.Quiet) (hc : ∀ h, Plain (comment h))
    (hfound : ∀ p ∈ d.places, pattern.holdsOf (d.handle p) d = .ok (test p))
    (hcomment : ∀ p, p.Within d.root → comment (d.handle p) d = g p) (hpending : d.Pending notes noted b)
    (h : Records (Suggestion.annotateAll pattern comment noted) d b noted' b') :
    d.Pending (d.notesFrom notes (Document.askedOf g (d.found test))) noted' b' ∧
      (∀ p ∈ d.found test, ∃ t, g p = .ok t) ∧ ∀ a ∈ Document.askedOf g (d.found test),
        d.Stands (d.notesFrom notes (Document.askedOf g (d.found test))) a := by
  obtain ⟨calls, hcalls, h⟩ := h.look_bind (plain_findAll hquiet)
  cases (Document.findAll_eq hfound).symm.trans hcalls
  exact records_annotateEach hd hshow hc
    (fun p hp => ⟨(Document.mem_found hp).1, hcomment p (Document.within_found hp)⟩) hpending h

theorem Document.Stands.mono {asked more : List (Place × Text)} (h : ∀ a ∈ asked, d.Stands notes a) :
    ∀ a ∈ asked, d.Stands (d.notesFrom notes more) a := by
  intro a ha
  obtain ⟨extra, hextra, -⟩ := Document.notesFrom_grows (d := d) more notes
  rw [hextra]
  exact (h a ha).append extra

/-- The wrappers have their turns in order. -/
theorem records_annotateMethods (hd : d.Legible) (hshow : d.StatementsShow) {wrappers : List String}
    (hpending : d.Pending notes noted b)
    (h : Records (wrappers.foldlM (fun noted wrapper => Suggestion.annotateAll (Suggestion.methodsOf wrapper)
      (Suggestion.onWrapper wrapper) noted) noted) d b noted' b') :
    d.Pending (d.notesFrom notes (d.askedOnMethods wrappers)) noted' b' ∧
      ∀ a ∈ d.askedOnMethods wrappers, d.Stands (d.notesFrom notes (d.askedOnMethods wrappers)) a := by
  induction wrappers generalizing notes noted b with
  | nil =>
    obtain ⟨rfl, rfl⟩ := h.pure
    exact ⟨hpending, List.forall_mem_nil _⟩
  | cons wrapper wrappers ih =>
    rw [List.foldlM_cons] at h
    obtain ⟨noted₁, b₁, hfirst, hrest⟩ := h.bind (Suggestion.made_annotateAll
      (Suggestion.quiet_methodsOf wrapper) (Suggestion.plain_onWrapper wrapper) noted)
    obtain ⟨hpending, -, hfirst⟩ := records_annotateAll hd hshow (Suggestion.quiet_methodsOf wrapper)
      (Suggestion.plain_onWrapper wrapper)
      (fun p hp => holdsOf_methodsOf hd (Document.within_of_mem_places hp) wrapper)
      (fun p hp => Suggestion.onWrapper_handle hd hp wrapper) hpending hfirst
    obtain ⟨hpending, hrest⟩ := ih hpending hrest
    unfold Document.askedOnMethods at hpending hrest ⊢
    rw [List.flatMap_cons, Document.notesFrom_append]
    exact ⟨hpending, List.forall_mem_append.mpr ⟨Document.Stands.mono hfirst, hrest⟩⟩

theorem records_annotations {wrappers : List String} {attr : String} {snapshot : Option Snapshot} (hd : d.Legible)
    (hshow : d.StatementsShow)
    (h : Records (Suggestion.annotations wrappers attr snapshot) d (.open' d.generation) noted' b') :
    d.Pending (d.notesFrom [] (d.asked wrappers attr snapshot)) noted' b' ∧
      (∀ p ∈ d.found (d.callsMethod (.exactly "find")), ∃ t, d.findComment attr snapshot p = .ok t) ∧
        ∀ a ∈ d.asked wrappers attr snapshot, d.Stands (d.notesFrom [] (d.asked wrappers attr snapshot)) a := by
  have hmade := made_stepwise.foldlM (fun noted wrapper => Suggestion.made_annotateAll
    (Suggestion.quiet_methodsOf wrapper) (Suggestion.plain_onWrapper wrapper) noted) wrappers []
  have hcalls : ∀ (name : String), ∀ p ∈ d.places, (Pattern.methodCall (.exactly name)).holdsOf (d.handle p) d =
      .ok (d.callsMethod (.exactly name) p) :=
    fun name p hp => holdsOf_anyMethodCall hd (Document.within_of_mem_places hp) _
  have hnothing : d.Pending [] [] (.open' d.generation) := ⟨rfl, rfl, List.forall_mem_nil _⟩
  obtain ⟨noted₁, b₁, hmethods, h⟩ := h.bind hmade
  obtain ⟨noted₂, b₂, hfinds, hevents⟩ := Records.bind h (Suggestion.made_annotateAll Selector.quiet_findCalls
    (Suggestion.plain_onFind attr snapshot) noted₁)
  obtain ⟨hpending, hmethods⟩ := records_annotateMethods hd hshow hnothing hmethods
  obtain ⟨hpending, hanswered, hfinds⟩ := records_annotateAll hd hshow Selector.quiet_findCalls
    (Suggestion.plain_onFind attr snapshot) (hcalls "find")
    (fun p hp => Suggestion.onFind_handle hd hp attr snapshot) hpending hfinds
  obtain ⟨hpending, -, hevents⟩ := records_annotateAll hd hshow Simulation.quiet_simulateCalls
    Suggestion.plain_onSimulate (hcalls "simulate") (fun p hp => Suggestion.onSimulate_handle hd hp) hpending
    hevents
  unfold Document.asked
  rw [Document.notesFrom_append, Document.notesFrom_append]
  refine ⟨hpending, hanswered, List.forall_mem_append.mpr ⟨List.forall_mem_append.mpr ⟨?_, ?_⟩, hevents⟩⟩
  · exact Document.Stands.mono (Document.Stands.mono hmethods)
  · exact Document.Stands.mono hfinds

end Recorded

namespace Suggestion

variable {d : Document} {wrappers : List String} {attr : String} {snapshot : Option Snapshot} {n : Nat}
  {file : Option String} {findings : List Diagnostic} {s : Session}

theorem add_ok (closed : d.batch = none) (hd : d.Legible) (hshow : d.StatementsShow)
    (h : add wrappers attr snapshot ⟨d, file, findings⟩ = .ok n s) {notes : List Remark}
    (hnotes : notes = d.notesFrom [] (d.asked wrappers attr snapshot)) :
    n = notes.length ∧ (∀ note ∈ notes, d.Shows note.1) ∧ (∀ a ∈ d.asked wrappers attr snapshot, d.Stands notes a) ∧
      (∀ p ∈ d.found (d.callsMethod (.exactly "find")), ∃ t, d.findComment attr snapshot p = .ok t) ∧
      ∃ d', s = ⟨d', file, findings⟩ ∧ (notes = [] ∧ d' = d ∨ ∃ root,
        d.read (Insertion.made d.source (notes.map d.insertionOf)) = .ok root ∧
          d' = d.reread (Insertion.made d.source (notes.map d.insertionOf)) root) := by
  obtain ⟨⟨noted, spent⟩, t, hlifted, hpure⟩ := Leaves.bind_ok h
  obtain ⟨hn, rfl⟩ := Leaves.pure hpure
  obtain ⟨d', hbatched, rfl⟩ := Pass.lift_ok hlifted
  obtain ⟨b, hrecords, hend⟩ := Document.batched_ok (made_annotations _ _ _) closed hbatched
  obtain ⟨⟨rfl, rfl, hshows⟩, hanswered, hstands⟩ := records_annotations hd hshow hrecords
  rw [← hnotes] at hn hend hshows hstands
  refine ⟨?_, hshows, hstands, hanswered, d', rfl, ?_⟩
  · rw [Except.ok.inj hn, List.length_map]
  · have hedits : (d.batchOf notes).edits = [] ↔ notes = [] := by
      rw [← List.length_eq_zero_iff, ← List.length_eq_zero_iff (l := notes)]
      unfold Document.batchOf Batch.holding
      rw [Edit.length_numbered, List.length_map, List.length_map]
    have houtcome := (Batch.outcome_insertions d.generation d.source (notes.map d.insertionOf)).1
    rw [show Batch.holding d.generation ((notes.map d.insertionOf).map Insertion.replacement) = d.batchOf notes from
      rfl] at houtcome
    rw [hedits, houtcome] at hend
    exact hend.imp_right And.right

/-- Annotating puts each of the comments that it counts in front of a byte, and takes nothing away. No
statement gets a comment twice; the comments on methods come first, then those on `find`, then those on events. -/
theorem add_inserts (closed : d.batch = none) (hd : d.Legible) (hshow : d.StatementsShow)
    (h : add wrappers attr snapshot ⟨d, file, findings⟩ = .ok n s) :
    ∃ methods finds events : List Remark,
      n = (methods ++ finds ++ events).length ∧
      s.document.source.data.toList =
        Insertion.bytes d.source ((methods ++ finds ++ events).map d.insertionOf) ∧
      ((methods ++ finds ++ events).map Remark.key).Nodup ∧
      (∀ note ∈ methods ++ finds ++ events,
        BeginsLine d.source note.1.node.start (d.lineStart note.1.node.start) ∧
        Guidance.OneLine note.2 ∧ ∀ c ∈ note.2.toList, isLineBreak c = false) ∧
      (∀ note ∈ methods, ∃ wrapper ∈ wrappers,
        Document.Notes (d.methodComment wrapper) (d.found (d.callsOn wrapper)) note) ∧
      (∀ note ∈ finds,
        Document.Notes (d.findComment attr snapshot) (d.found (d.callsMethod (.exactly "find"))) note) ∧
      ∀ note ∈ events, Document.Notes d.eventComment (d.found (d.callsMethod (.exactly "simulate"))) note := by
  obtain ⟨hn, hshows, -, -, d', rfl, hend⟩ := add_ok closed hd hshow h rfl
  obtain ⟨methods, hmethods, hofMethods⟩ := Document.notesFrom_grows (d := d) (d.askedOnMethods wrappers) []
  obtain ⟨finds, hfinds, hofFinds⟩ := Document.notesFrom_grows (d := d) (d.askedOnFinds attr snapshot) methods
  obtain ⟨events, hevents, hofEvents⟩ := Document.notesFrom_grows (d := d) d.askedOnEvents (methods ++ finds)
  have hall : d.notesFrom [] (d.asked wrappers attr snapshot) = methods ++ finds ++ events := by
    unfold Document.asked
    rw [Document.notesFrom_append, Document.notesFrom_append, hmethods, List.nil_append, hfinds, hevents]
  have hnodup : ((d.notesFrom [] (d.asked wrappers attr snapshot)).map Remark.key).Nodup :=
    Document.nodup_notesFrom List.nodup_nil
  rw [hall] at hn hshows hend hnodup
  have hmethods : ∀ note ∈ methods, ∃ wrapper ∈ wrappers,
      Document.Notes (d.methodComment wrapper) (d.found (d.callsOn wrapper)) note := by
    intro note hnote
    obtain ⟨a, ha, hstatement, hcomment⟩ := hofMethods note hnote
    obtain ⟨wrapper, hwrapper, ha⟩ := List.mem_flatMap.mp ha
    exact ⟨wrapper, hwrapper, Document.notes_of_askedOf ha hstatement hcomment⟩
  have hfinds : ∀ note ∈ finds,
      Document.Notes (d.findComment attr snapshot) (d.found (d.callsMethod (.exactly "find"))) note := by
    intro note hnote
    obtain ⟨a, ha, hstatement, hcomment⟩ := hofFinds note hnote
    exact Document.notes_of_askedOf ha hstatement hcomment
  have hevents : ∀ note ∈ events,
      Document.Notes d.eventComment (d.found (d.callsMethod (.exactly "simulate"))) note := by
    intro note hnote
    obtain ⟨a, ha, hstatement, hcomment⟩ := hofEvents note hnote
    exact Document.notes_of_askedOf ha hstatement hcomment
  have honeLine : ∀ note ∈ methods ++ finds ++ events, Guidance.OneLine note.2 :=
    fun note hnote => Document.oneLine_of_noted (hall ▸ hnote)
  refine ⟨methods, finds, events, hn, ?_, hnodup, ?_, hmethods, hfinds, hevents⟩
  · have hsource : d'.source = Insertion.made d.source ((methods ++ finds ++ events).map d.insertionOf) := by
      rcases hend with ⟨hnone, rfl⟩ | ⟨root, -, rfl⟩
      · rw [hnone]
        exact (Insertion.made_nil d'.source).symm
      · rfl
    rw [hsource]
    refine Insertion.toList_made (List.forall_mem_map.mpr fun note hnote => ?_)
    exact Document.insertionOf_le (hshows note hnote)
  · intro note hnote
    exact ⟨(hshows note hnote).beginsLine, honeLine note hnote, (honeLine note hnote).unbroken⟩

/-- The comment on an event that is simulated without arguments. -/
def onPlainEvent : String := "// Conversion suggestion: .simulate() --> userEvent.<method>(<DOM_element>)"

/-- Of two statements on a line only the first one leads it. -/
theorem add_inserts_two : ∃ d s, Document.ofString none "\tw.simulate();v.simulate()" = .ok d ∧ d.batch = none ∧
    d.Legible ∧ d.StatementsShow ∧ add [] "data-testid" none ⟨d, none, []⟩ = .ok 2 s ∧
    s.document.source =
      ("\t" ++ onPlainEvent ++ "\n\tw.simulate();" ++ onPlainEvent ++ "\n\tv.simulate()").toUTF8 ∧
    ∃ notes : List Remark, notes.length = 2 ∧
      s.document.source.data.toList = Insertion.bytes d.source (notes.map d.insertionOf) ∧
      (notes.map Remark.key).Nodup := by
  have hrun : (add [] "data-testid" none).onScript? "\tw.simulate();v.simulate()"
      (fun d n s => (n, decide d.StatementsShow,
        spelledBy ["\t", onPlainEvent, "\n\tw.simulate();", onPlainEvent, "\n\tv.simulate()"] s.document.source)) =
        some (2, true, true) := by
    decide +kernel
  obtain ⟨d, n, s, hd, hrun, hobserved⟩ := Pass.exists_of_onScript? hrun
  simp only [Prod.mk.injEq, decide_eq_true_eq] at hobserved
  obtain ⟨rfl, hshow, hspelled⟩ := hobserved
  have hsource := eq_of_spelledBy hspelled
  have hclosed := (Document.sound_of_ofBytes hd).2
  have hlegible := Document.legible_ofString hd
  obtain ⟨methods, finds, events, hn, hbytes, hnodup, -⟩ := add_inserts hclosed hlegible hshow hrun
  exact ⟨d, s, hd, hclosed, hlegible, hshow, hrun, hsource, _, hn.symm, hbytes, hnodup⟩

/-- A statement that is the first thing on its line but for a blank that is no ASCII character: the comment
is not put at the start of the line, so the old text is not all behind it. -/
theorem add_after_wideBlank : ∃ d s p, Document.ofString none "\u00a0w.simulate()" = .ok d ∧ p ∈ d.places ∧
    p.node.kind = .expressionStatement ∧ BeginsLine d.source p.node.start 0 ∧
    d.source.extract 0 p.node.start = "\u00a0".toUTF8 ∧ isBlank '\u00a0' = true ∧
    add [] "data-testid" none ⟨d, none, []⟩ = .ok 1 s ∧
    s.document.source = ("\u00a0" ++ onPlainEvent ++ "\nw.simulate()").toUTF8 ∧
    ¬ d.source.data.toList <:+ s.document.source.data.toList := by
  have hrun : (add [] "data-testid" none).onScript? "\u00a0w.simulate()" (fun d n s => (n,
      (d.places.find? (·.node.kind == .expressionStatement)).map (·.node.start),
      spelledBy ["\u00a0", onPlainEvent, "\nw.simulate()"] s.document.source)) = some (1, some 2, true) := by
    decide +kernel
  obtain ⟨d, n, s, hd, hrun, hobserved⟩ := Pass.exists_of_onScript? hrun
  simp only [Prod.mk.injEq] at hobserved
  obtain ⟨rfl, hfound, hspelled⟩ := hobserved
  have hsource := (Conversion.ofString_ok hd).2
  have hafter := eq_of_spelledBy hspelled
  obtain ⟨p, hp, hstart⟩ := Option.map_eq_some_iff.mp hfound
  refine ⟨d, s, p, hd, List.mem_of_find?_eq_some hp, ?_, ?_, ?_, by decide, hrun, hafter, ?_⟩
  · exact eq_of_beq (List.find?_some (p := fun q : Place => q.node.kind == .expressionStatement) hp)
  · rw [hstart, hsource]
    exact beginsLine_lineStart _ 2
  · rw [hstart, hsource]
    decide +kernel
  · rw [hsource, hafter]
    decide +kernel

end Suggestion

end TestMigration
