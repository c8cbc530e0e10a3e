import TestMigration.Proofs.Blocks
import TestMigration.Proofs.Exchange
import TestMigration.Proofs.Rereading
import TestMigration.Proofs.Settled

/-! Annotating a second time. If each statement that got a comment leads its line, the comments stand in
blocks above the statements, and a second run reads them there. It adds nothing, unless a comment has come
into the text that another comment quotes. -/

namespace TestMigration

open Script (Node Kind Field Place)
open Suggestion (Remark statementKinds)
open Insertion (Clear movedStart movedStop)
open Script.Place (Follows)

namespace Document

/-- What annotating puts into the text. -/
def annotations (d : Document) (wrappers : List String) (attr : String) (snapshot : Option Snapshot) :
    List Insertion :=
  (d.notesFrom [] (d.asked wrappers attr snapshot)).map d.insertionOf

/-- Statements above which comments are asked for are the first thing on their line. -/
def AskedLead (d : Document) (wrappers : List String) (attr : String) (snapshot : Option Snapshot) : Prop :=
  ∀ a ∈ d.asked wrappers attr snapshot, ∀ statement ∈ a.1.closest? statementKinds, d.Leads statement.node.start

/-- Nothing is put into what comments on calls quote: of a method of a wrapper the first argument, of the
others all that is between the parentheses. -/
structure QuotesClear (d : Document) (wrappers : List String) (is : List Insertion) : Prop where
  methods : ∀ wrapper ∈ wrappers, ∀ p ∈ d.found (d.callsOn wrapper), (p.closest? statementKinds).isSome = true →
    ∀ q ∈ p.callArguments.head?, Clear is q.node.start q.node.stop
  others : ∀ name ∈ ["find", "simulate"], ∀ p ∈ d.found (d.callsMethod (.exactly name)),
    (p.closest? statementKinds).isSome = true → ∀ q ∈ p.field? .arguments, Clear is q.node.start q.node.stop

/-- No two calls are of one range. -/
def CallsApart (d : Document) : Prop :=
  (d.places.filter (·.node.kind == .callExpression)).Pairwise fun p q => p.node.range ≠ q.node.range

instance (d : Document) : Decidable d.CallsApart := inferInstanceAs (Decidable (List.Pairwise _ _))

instance (d : Document) (wrappers : List String) (attr : String) (snapshot : Option Snapshot) :
    Decidable (d.AskedLead wrappers attr snapshot) := inferInstanceAs (Decidable (∀ _ ∈ _, ∀ _ ∈ _, _))

instance (d : Document) (wrappers : List String) (is : List Insertion) : Decidable (d.QuotesClear wrappers is) :=
  decidable_of_iff
    ((∀ wrapper ∈ wrappers, ∀ p ∈ d.found (d.callsOn wrapper), (p.closest? statementKinds).isSome = true →
      ∀ q ∈ p.callArguments.head?, Clear is q.node.start q.node.stop) ∧
      ∀ name ∈ ["find", "simulate"], ∀ p ∈ d.found (d.callsMethod (.exactly name)),
        (p.closest? statementKinds).isSome = true → ∀ q ∈ p.field? .arguments, Clear is q.node.start q.node.stop)
    ⟨fun h => ⟨h.1, h.2⟩, fun h => ⟨h.methods, h.others⟩⟩

variable {d d' : Document} {is : List Insertion} {p p' : Place} {note : Remark} {notes : List Remark}
  {wrappers : List String} {attr : String} {snapshot : Option Snapshot} {offset : Nat} {text : String}

/-! ## Comments that are put above -/

theorem indentation_blank (d : Document) (offset : Nat) :
    ∀ c ∈ (d.indentation offset).toList, c = ' ' ∨ c = '\t' := by
  intro c hc
  unfold indentation at hc
  rw [String.toList_ofList] at hc
  obtain ⟨b, hb, rfl⟩ := List.mem_map.mp hc
  have hblank := List.mem_takeWhile_imp hb
  rw [Bool.or_eq_true, beq_iff_eq, beq_iff_eq] at hblank
  rcases hblank with rfl | rfl
  · exact .inl rfl
  · exact .inr rfl

/-- Above a statement that leads its line the comment is put on a line of its own. -/
theorem insertionOf_leads (hlead : d.Leads note.1.node.start) (hone : Guidance.OneLine note.2) :
    (d.insertionOf note).Writes ∧ (d.insertionOf note).comment = note.2 ∧
      (d.insertionOf note).1 = d.lineStart note.1.node.start := by
  have hinsertion : d.insertionOf note =
      (d.lineStart note.1.node.start, d.indentation note.1.node.start ++ note.2 ++ "\n") := if_pos hlead
  have hindent := d.indentation_blank note.1.node.start
  have hcomment : (d.insertionOf note).comment = note.2 := by
    rw [hinsertion]
    refine (Blank.trim_line fun c hc => ?_).trans hone.trimmed
    rcases hindent c hc with rfl | rfl <;> decide
  refine ⟨⟨hcomment ▸ hone, d.indentation note.1.node.start, ?_, hindent⟩, hcomment, ?_⟩
  · rw [hcomment, hinsertion]
  · rw [hinsertion]

/-- All that is put into the text are comments on lines of their own. -/
theorem writes_annotations (hshow : d.StatementsShow) (hlead : d.AskedLead wrappers attr snapshot) :
    ∀ i ∈ d.annotations wrappers attr snapshot, i.Writes ∧ BeginsAt d.source i.1 ∧ i.1 ≤ d.source.size := by
  refine List.forall_mem_map.mpr fun note hnote => ?_
  obtain ⟨a, ha, hstatement, -⟩ := exists_of_noted hnote
  obtain ⟨hplace, hkind⟩ := closest_mem_places (mem_places_of_asked ha) hstatement
  have hshows := hshow _ hplace hkind
  obtain ⟨hwrites, -, hline⟩ := insertionOf_leads (hlead a ha _ hstatement) (oneLine_of_noted hnote)
  exact ⟨hwrites, hline ▸ hshows.beginsLine.begins, insertionOf_le hshows⟩

/-- What is noted for a statement, or stands above it, stands above it when the comments are put in. -/
theorem Stands.above (htext : d.source = text.toUTF8) (hshow : d.StatementsShow)
    (hlead : d.AskedLead wrappers attr snapshot)
    (hmade : d'.source = Insertion.made d.source (d.annotations wrappers attr snapshot)) {a : Place × Text}
    (ha : a ∈ d.asked wrappers attr snapshot)
    (hstands : d.Stands (d.notesFrom [] (d.asked wrappers attr snapshot)) a) {statement : Place}
    (hstatement : a.1.closest? statementKinds = some statement) :
    ∃ above, Suggestion.commentsAbove d' (movedStart (d.annotations wrappers attr snapshot) statement.node.start) =
      .ok above ∧ a.2 ∈ above.map Text.ofString := by
  obtain ⟨hplace, hkind⟩ := closest_mem_places (mem_places_of_asked ha) hstatement
  obtain ⟨above, above', habove, habove', hkept, hput⟩ := commentsAbove_made hmade
    (writes_annotations hshow hlead) (hshow _ hplace hkind).1.le htext
  refine ⟨above', habove', ?_⟩
  rcases hstands statement hstatement with hnoted | hthere
  · obtain ⟨note, hnote, hkey⟩ := List.mem_map.mp hnoted
    obtain ⟨hstart, hcomment⟩ := Prod.mk.inj hkey
    obtain ⟨b, hb, hnear, -⟩ := exists_of_noted hnote
    obtain ⟨-, hsame, hline⟩ := insertionOf_leads (hlead b hb _ hnear) (oneLine_of_noted hnote)
    rw [← hcomment, ← hsame]
    refine List.mem_map_of_mem (hput _ (List.mem_map_of_mem hnote) ?_)
    rw [hline, hstart]
  · have hlines : d.commentsAbove statement.node.start = above := by
      unfold commentsAbove
      rw [habove]
      rfl
    rw [hlines] at hthere
    obtain ⟨line, hline, hsame⟩ := List.mem_map.mp hthere
    exact hsame ▸ List.mem_map_of_mem (hkept line hline)

theorem CallsApart.mem_found (hapart : d.CallsApart) {test : Place → Bool}
    (htest : ∀ p, test p = true → p.node.kind = .callExpression) (hp : p ∈ d.places) (hholds : test p = true) :
    p ∈ d.found test := by
  rw [found_eq_filter]
  · exact List.mem_filter.mpr ⟨hp, hholds⟩
  · refine (hapart.sublist (List.monotone_filter_right _ fun q hq => ?_)).imp .inl
    exact beq_iff_eq.mpr (htest q hq)

end Document

namespace Suggestion

variable {d d' : Document} {wrappers : List String} {attr : String} {snapshot : Option Snapshot} {n : Nat}
  {file : Option String} {findings : List Diagnostic} {s : Session}

/-- Calls that were found before, with comments that were asked for before, are annotated. -/
theorem allAnnotated_of_reread {pattern : Pattern} {comment : Handle → Looking (Option Text)} {test' : Place → Bool}
    {g' : Place → Except Failure (Option Text)} (test : Place → Bool) (g : Place → Except Failure (Option Text))
    (hreread : d.Reread d' (d.annotations wrappers attr snapshot)) (hd' : d'.Legible) (hshow : d.StatementsShow)
    (hlead : d.AskedLead wrappers attr snapshot)
    (hfound' : ∀ p' ∈ d'.places, pattern.holdsOf (d'.handle p') d' = .ok (test' p'))
    (hcomment' : ∀ p', p'.Within d'.root → comment (d'.handle p') d' = g' p')
    (hcall' : ∀ p', test' p' = true → p'.node.kind = .callExpression)
    (hsame : ∀ p ∈ d.places, ∀ p', Follows (movedStart (d.annotations wrappers attr snapshot))
      (movedStop (d.annotations wrappers attr snapshot)) p p' → test' p' = true →
        p ∈ d.found test ∧ (∃ t, g' p' = .ok t) ∧ ((p.closest? statementKinds).isSome = true → g' p' = g p))
    (hstands : ∀ a ∈ Document.askedOf g (d.found test), a ∈ d.asked wrappers attr snapshot ∧
      d.Stands (d.notesFrom [] (d.asked wrappers attr snapshot)) a) :
    AllAnnotated pattern comment d' := by
  obtain ⟨text, htext⟩ := hreread.worded.text
  refine ⟨_, Document.findAll_eq hfound', List.forall_mem_map.mpr fun p' hp' => ?_⟩
  obtain ⟨hplace', htest'⟩ := Document.mem_found hp'
  have hwithin' := Document.within_of_mem_places hplace'
  obtain ⟨p, hp, hfollows⟩ := hreread.exists_place hplace' (by
    unfold Script.Node.isComment
    rw [hcall' p' htest']
    rfl)
  obtain ⟨hfound, ⟨t, ht⟩, hg⟩ := hsame p hp p' hfollows htest'
  refine ⟨t, (hcomment' p' hwithin').trans ht, fun c hc => ?_⟩
  subst hc
  refine ⟨_, Handle.closest?_handle hd' hwithin' statementKinds, fun h hh => ?_⟩
  obtain ⟨statement', hstatement', rfl⟩ := Option.map_eq_some_iff.mp hh
  have hclosest := hfollows.closest? statementKinds
  rw [hstatement'] at hclosest
  cases hstatement : p.closest? statementKinds with
  | none =>
    rw [hstatement] at hclosest
    cases hclosest
  | some statement =>
    rw [hstatement] at hclosest
    obtain hmoved : Follows _ _ statement statement' := by
      cases hclosest with
      | some hmoved => exact hmoved
    obtain ⟨hasked, hstand⟩ := hstands (p, c) (Document.mem_askedOf.mpr
      ⟨hfound, (hg (by rw [hstatement]; rfl)).symm.trans ht⟩)
    obtain ⟨above, habove, hmem⟩ := hstand.above htext hshow hlead hreread.source hasked hstatement
    have hkind := (Document.closest_mem_places hp hstatement).2
    have hstart := ((Script.Node.followed hmoved.node).range.resolve_left fun hprogram => by
      rw [hprogram] at hkind
      cases hkind).1
    obtain ⟨line, hline, hcomment⟩ := List.mem_map.mp hmem
    refine ⟨statement'.node.start, above, look_bind_eq Handle.node_handle rfl, ?_, line, hline, hcomment⟩
    rw [hstart]
    exact habove

section Reread

variable (hreread : d.Reread d' (d.annotations wrappers attr snapshot)) (hd' : d'.Legible)
  (hshow : d.StatementsShow) (hapart : d.CallsApart) (hlead : d.AskedLead wrappers attr snapshot)
  (hquotes : d.QuotesClear wrappers (d.annotations wrappers attr snapshot))
  (hstands : ∀ a ∈ d.asked wrappers attr snapshot,
    d.Stands (d.notesFrom [] (d.asked wrappers attr snapshot)) a)

include hreread hd' hshow hapart hlead hquotes hstands

theorem allAnnotated_methods {wrapper : String} (hwrapper : wrapper ∈ wrappers) :
    AllAnnotated (methodsOf wrapper) (onWrapper wrapper) d' := by
  refine allAnnotated_of_reread (d.callsOn wrapper) (d.methodComment wrapper) hreread hd' hshow hlead
    (fun p' hp' => holdsOf_methodsOf hd' (Document.within_of_mem_places hp') wrapper)
    (fun p' hp' => onWrapper_handle hd' hp' wrapper)
    (fun p' hcalls => Document.kind_of_callsMethod (Document.callsOn_iff.mp hcalls).1) ?_ ?_
  · intro p hp p' hfollows hcalls'
    obtain ⟨hcalls, hname⟩ := hreread.callsOn hp hfollows hcalls'
    have hfound := hapart.mem_found (fun q hq => Document.kind_of_callsMethod (Document.callsOn_iff.mp hq).1)
      hp hcalls
    refine ⟨hfound, ⟨_, rfl⟩, fun hstatement => ?_⟩
    exact hreread.methodComment hp hfollows hname (hquotes.methods wrapper hwrapper p hfound hstatement) wrapper
  · intro a ha
    have hasked : a ∈ d.asked wrappers attr snapshot :=
      List.mem_append_left _ (List.mem_append_left _ (List.mem_flatMap.mpr ⟨wrapper, hwrapper, ha⟩))
    exact ⟨hasked, hstands a hasked⟩

theorem allAnnotated_finds
    (hanswered : ∀ p ∈ d.found (d.callsMethod (.exactly "find")), ∃ t, d.findComment attr snapshot p = .ok t) :
    AllAnnotated Selector.findCalls (onFind attr snapshot) d' := by
  refine allAnnotated_of_reread (d.callsMethod (.exactly "find")) (d.findComment attr snapshot) hreread hd' hshow
    hlead (fun p' hp' => holdsOf_anyMethodCall hd' (Document.within_of_mem_places hp') _)
    (fun p' hp' => onFind_handle hd' hp' attr snapshot) (fun p' hcalls => Document.kind_of_callsMethod hcalls) ?_ ?_
  · intro p hp p' hfollows hcalls'
    obtain ⟨hcalls, -⟩ := hreread.callsMethod hp hfollows hcalls'
    have hfound := hapart.mem_found (fun q hq => Document.kind_of_callsMethod hq) hp hcalls
    refine ⟨hfound, hreread.findComment_answers hp hfollows (hanswered p hfound), fun hstatement => ?_⟩
    exact hreread.findComment hp hfollows (hquotes.others "find" (by decide) p hfound hstatement) attr snapshot
  · intro a ha
    have hasked : a ∈ d.asked wrappers attr snapshot := List.mem_append_left _ (List.mem_append_right _ ha)
    exact ⟨hasked, hstands a hasked⟩

theorem allAnnotated_events : AllAnnotated Simulation.simulateCalls onSimulate d' := by
  refine allAnnotated_of_reread (d.callsMethod (.exactly "simulate")) d.eventComment hreread hd' hshow hlead
    (fun p' hp' => holdsOf_anyMethodCall hd' (Document.within_of_mem_places hp') _)
    (fun p' hp' => onSimulate_handle hd' hp') (fun p' hcalls => Document.kind_of_callsMethod hcalls) ?_ ?_
  · intro p hp p' hfollows hcalls'
    obtain ⟨hcalls, -⟩ := hreread.callsMethod hp hfollows hcalls'
    have hfound := hapart.mem_found (fun q hq => Document.kind_of_callsMethod hq) hp hcalls
    refine ⟨hfound, ⟨_, rfl⟩, fun hstatement => ?_⟩
    exact hreread.eventComment hp hfollows (hquotes.others "simulate" (by decide) p hfound hstatement)
  · intro a ha
    have hasked : a ∈ d.asked wrappers attr snapshot := List.mem_append_right _ ha
    exact ⟨hasked, hstands a hasked⟩

end Reread

/-- What annotating leaves is what its insertions make of the text. -/
theorem source_of_add (closed : d.batch = none) (hd : d.Legible) (hshow : d.StatementsShow)
    (h : add wrappers attr snapshot ⟨d, file, findings⟩ = .ok n s) :
    s.document.source = Insertion.made d.source (d.annotations wrappers attr snapshot) := by
  obtain ⟨-, -, -, -, d', rfl, hend⟩ := add_ok closed hd hshow h rfl
  rcases hend with ⟨hnone, rfl⟩ | ⟨root, -, rfl⟩
  · unfold Document.annotations
    rw [hnone]
    exact (Insertion.made_nil d'.source).symm
  · rfl

/-- After a run that has put comments the new text has been read. -/
theorem rereads_of_add (closed : d.batch = none) (hd : d.Legible) (hshow : d.StatementsShow)
    (h : add wrappers attr snapshot ⟨d, file, findings⟩ = .ok n s) (hn : n ≠ 0) :
    ∃ root, d.read s.document.source = .ok root ∧ s.document = d.reread s.document.source root := by
  obtain ⟨hcount, -, -, -, d', rfl, hend⟩ := add_ok closed hd hshow h rfl
  rcases hend with ⟨hnone, -⟩ | ⟨root, hroot, rfl⟩
  · rw [hnone] at hcount
    exact absurd hcount hn
  · exact ⟨root, hroot, rfl⟩

/-- Comments on lines of their own leave a script. -/
theorem worded_of_add (closed : d.batch = none) (hd : d.Worded) (hshow : d.StatementsShow)
    (hlead : d.AskedLead wrappers attr snapshot)
    (h : add wrappers attr snapshot ⟨d, file, findings⟩ = .ok n s) : s.document.Worded := by
  have hsource := source_of_add closed hd.legible hshow h
  obtain ⟨-, -, -, -, d', rfl, hend⟩ := add_ok closed hd.legible hshow h rfl
  rcases hend with ⟨-, rfl⟩ | ⟨root, hroot, rfl⟩
  · exact hd
  · obtain ⟨text, htext⟩ := hd.text
    have hmade : (Insertion.made text.toUTF8 (d.annotations wrappers attr snapshot)).IsValidUTF8 :=
      made_isText fun i hi => htext ▸ (Document.writes_annotations hshow hlead i hi).2
    refine ⟨⟨String.ofByteArray _ hmade, ?_⟩, hd.script, hroot⟩
    rw [hsource, htext]
    rfl

/-- If each statement above which a comment is asked for leads its line, and no comment comes into what another
one quotes, annotating again finds all comments where they belong. -/
theorem add_again (closed : d.batch = none) (hd : d.Worded) (hshow : d.StatementsShow) (hapart : d.CallsApart)
    (hlead : d.AskedLead wrappers attr snapshot)
    (hquotes : d.QuotesClear wrappers (d.annotations wrappers attr snapshot))
    (h : add wrappers attr snapshot ⟨d, file, findings⟩ = .ok n s)
    (hshifted : d.Shifted s.document (d.annotations wrappers attr snapshot)) :
    ∃ s', add wrappers attr snapshot s = .ok 0 s' ∧ s'.document = s.document := by
  have hlegible := (worded_of_add closed hd hshow hlead h).legible
  have hclosed : s.document.batch = none := (programmed_add _ _ _).closed h closed
  have hreread : d.Reread s.document (d.annotations wrappers attr snapshot) :=
    ⟨hd, source_of_add closed hd.legible hshow h,
      fun i hi => (Document.writes_annotations hshow hlead i hi).2.2, hshifted⟩
  obtain ⟨-, -, hstands, hanswered, -⟩ := add_ok closed hd.legible hshow h rfl
  refine ((idles_add wrappers attr snapshot).stays s 0 hclosed).mpr
    ⟨⟨fun wrapper hwrapper => ?_, ?_, ?_⟩, rfl⟩
  · exact allAnnotated_methods hreread hlegible hshow hapart hlead hquotes hstands hwrapper
  · exact allAnnotated_finds hreread hlegible hshow hapart hlead hquotes hstands hanswered
  · exact allAnnotated_events hreread hlegible hshow hapart hlead hquotes hstands

theorem add_again_indented : ∃ d s s', Document.ofString none "\tw.simulate()" = .ok d ∧ d.batch = none ∧ d.Worded ∧
    d.StatementsShow ∧ d.CallsApart ∧ d.AskedLead [] "data-testid" none ∧
    d.QuotesClear [] (d.annotations [] "data-testid" none) ∧
    add [] "data-testid" none ⟨d, none, []⟩ = .ok 1 s ∧
    d.Shifted s.document (d.annotations [] "data-testid" none) ∧
    s.document.source = ("\t" ++ onPlainEvent ++ "\n\tw.simulate()").toUTF8 ∧
    add [] "data-testid" none s = .ok 0 s' ∧ s'.document = s.document := by
  have hrun : (add [] "data-testid" none).onScript? "\tw.simulate()" (fun d n s => (n,
      decide (d.StatementsShow ∧ d.CallsApart ∧ d.AskedLead [] "data-testid" none ∧
        d.QuotesClear [] (d.annotations [] "data-testid" none) ∧
        d.Shifted s.document (d.annotations [] "data-testid" none)),
      spelledBy ["\t", onPlainEvent, "\n\tw.simulate()"] s.document.source)) = some (1, true, true) := by
    decide +kernel
  obtain ⟨d, n, s, hd, hrun, hobserved⟩ := Pass.exists_of_onScript? hrun
  simp only [Prod.mk.injEq, decide_eq_true_eq] at hobserved
  obtain ⟨rfl, ⟨hshow, hapart, hlead, hquotes, hshifted⟩, hspelled⟩ := hobserved
  have hclosed := (Document.sound_of_ofBytes hd).2
  have hworded := Document.worded_ofString hd
  obtain ⟨s', hagain, hsame⟩ := add_again hclosed hworded hshow hapart hlead hquotes hrun hshifted
  exact ⟨d, s, s', hd, hclosed, hworded, hshow, hapart, hlead, hquotes, hrun, hshifted, eq_of_spelledBy hspelled,
    hagain, hsame⟩

/-- A run that puts nothing found all comments above their statements. -/
theorem stands_of_add_zero (closed : d.batch = none) (hd : d.Legible) (hshow : d.StatementsShow)
    (h : add wrappers attr snapshot ⟨d, file, findings⟩ = .ok 0 s) :
    ∀ a ∈ d.asked wrappers attr snapshot, d.Stands [] a := by
  obtain ⟨hn, -, hstands, -⟩ := add_ok closed hd hshow h rfl
  rwa [List.eq_nil_of_length_eq_zero hn.symm] at hstands

/-- A part of the source is what stands at its place. -/
theorem slice_of_source {d : Document} {first last : Nat} (front text back : String)
    (h : d.source = (front ++ text ++ back).toUTF8) (hfirst : first = front.utf8ByteSize)
    (hlast : last = front.utf8ByteSize + text.utf8ByteSize) : d.slice first last = .ok text := by
  refine Conversion.decode_ok.mpr ?_
  rw [h, String.append_assoc, hfirst, hlast]
  simp only [String.toUTF8_eq_toByteArray, String.toByteArray_append]
  exact (ByteArray.extract_append_size_add (i := 0)).trans (ByteArray.extract_append_eq_left rfl)

theorem commentsAbove_of_slice {d : Document} {start : Nat} {comment : String}
    (h : d.slice 0 (d.lineStart start) = .ok (comment ++ "\n")) (hone : Guidance.OneLine comment) :
    d.commentsAbove start = [comment] := by
  unfold Document.commentsAbove Suggestion.commentsAbove Document.linesBefore
  rw [h]
  change ((Blank.lines (comment ++ "\n")).reverse.map Blank.trim).takeWhile _ = [comment]
  rw [Blank.lines_line hone.unbroken, List.reverse_singleton, List.map_singleton, hone.trimmed]
  exact List.takeWhile_cons_of_pos hone.startsWith

/-- The comment on a call whose argument holds a call. -/
def outerComment : String :=
  "// Conversion suggestion: .simulate(()=>\x7b b.simulate()\x7d) --> userEvent.<method>(<DOM_element>)"

theorem outerComment_eq : Guidance.onEvent "()=>\x7b\nb.simulate()\x7d" = Text.ofString outerComment := by
  unfold Guidance.onEvent
  simp only [Text.ofString_append]
  decide +kernel

theorem oneLine_outerComment : Guidance.OneLine outerComment :=
  Guidance.oneLine_of_marks (outerComment_eq ▸ Guidance.marks_onEvent _)

/-- The argument with the comment on the call in it. -/
def commentedArgument : String :=
  "()=>\x7b\n// Conversion suggestion: .simulate() --> userEvent.<method>(<DOM_element>)\nb.simulate()\x7d"

/-- The comment that the call asks for with the one on the inner call in it is another one. -/
theorem onEvent_commentedArgument : Guidance.onEvent commentedArgument ≠ Text.ofString outerComment := by
  unfold Guidance.onEvent
  simp only [Text.ofString_append]
  decide +kernel

theorem argumentText_of_slice {d : Document} {p list : Place} {argument : String}
    (hlist : p.field? .arguments = some list)
    (hslice : d.slice list.node.start list.node.stop = .ok ("(" ++ argument ++ ")"))
    (htrim : Blank.trim argument = argument) : d.argumentText p = argument := by
  unfold Document.argumentText Document.wording Document.textOf
  rw [hlist]
  dsimp only
  rw [hslice]
  change Blank.trim (String.ofList (("(" ++ argument ++ ")").toList.drop 1).dropLast) = _
  rw [String.toList_append, String.toList_append]
  change Blank.trim (String.ofList (argument.toList ++ [')']).dropLast) = _
  rw [List.dropLast_concat, String.ofList_toList, htrim]

/-- The call with both comments. -/
def nestedText : String := outerComment ++ "\n" ++ "a.simulate" ++ "(" ++ commentedArgument ++ ")"

/-- The comment on a statement in an argument comes into the comment on the call, so a second run finds that one
missing. -/
theorem add_again_nested : ∃ d s, Document.ofString none "a.simulate(()=>\x7b\nb.simulate()\x7d)" = .ok d ∧
    d.batch = none ∧ d.Worded ∧ d.StatementsShow ∧ d.CallsApart ∧ d.AskedLead [] "data-testid" none ∧
    add [] "data-testid" none ⟨d, none, []⟩ = .ok 2 s ∧
    d.Shifted s.document (d.annotations [] "data-testid" none) ∧
    ∀ s', add [] "data-testid" none s ≠ .ok 0 s' := by
  have hrun : (add [] "data-testid" none).onScript? "a.simulate(()=>\x7b\nb.simulate()\x7d)" (fun d n s => (n,
      decide (d.StatementsShow ∧ d.CallsApart ∧ d.AskedLead [] "data-testid" none),
      spelledBy [outerComment, "\n", "a.simulate", "(", commentedArgument, ")"] s.document.source)) =
        some (2, true, true) := by decide +kernel
  have hreread : (Document.ofString none "a.simulate(()=>\x7b\nb.simulate()\x7d)").toOption.map (fun d =>
      (d.read nestedText.toUTF8).toOption.all fun root =>
        let d' := d.reread nestedText.toUTF8 root
        decide (d.Shifted d' (d.annotations [] "data-testid" none) ∧ d'.StatementsShow) &&
          (d'.found (d'.callsMethod (.exactly "simulate"))).any fun p =>
            (p.field? .arguments).any (·.node.range == (105, 202)) && (p.closest? statementKinds).any fun statement =>
              d'.lineStart statement.node.start == 95) = some true := by decide +kernel
  obtain ⟨d, n, s, hd, hrun, hobserved⟩ := Pass.exists_of_onScript? hrun
  obtain ⟨d₁, hd₁, hreread⟩ := exists_of_toOption_map hreread
  cases hd.symm.trans hd₁
  simp only [Prod.mk.injEq, decide_eq_true_eq] at hobserved
  obtain ⟨rfl, ⟨hshow, hapart, hlead⟩, hspelled⟩ := hobserved
  have hclosed := (Document.sound_of_ofBytes hd).2
  have hworded := Document.worded_ofString hd
  have hworded' := worded_of_add hclosed hworded hshow hlead hrun
  have hclosed' : s.document.batch = none := (programmed_add _ _ _).closed hrun hclosed
  have hsource : s.document.source = nestedText.toUTF8 := eq_of_spelledBy hspelled
  obtain ⟨root, hroot, hafter⟩ := rereads_of_add hclosed hworded.legible hshow hrun (by decide)
  rw [hsource] at hroot hafter
  simp only [hroot, ← hafter, Except.toOption, Option.all_some, Bool.and_eq_true, decide_eq_true_eq, List.any_eq_true,
    Option.any_eq_true, beq_iff_eq] at hreread
  obtain ⟨⟨hshifted, hshow'⟩, p, hp, ⟨list, hlist, hrange⟩, statement, hstatement, hline⟩ := hreread
  -- the outer call asks for a comment with the one on the inner call in it, and the one above is without
  have hargument : s.document.argumentText p = commentedArgument := by
    have hslice : s.document.slice 105 202 = .ok ("(" ++ commentedArgument ++ ")") := by
      refine slice_of_source (outerComment ++ "\n" ++ "a.simulate") _ "" ?_ (by decide +kernel) (by decide +kernel)
      rw [hsource, nestedText]
      simp only [String.append_assoc, String.append_empty]
    obtain ⟨hstart, hstop⟩ := Prod.mk.inj hrange
    exact argumentText_of_slice hlist (by rw [hstart, hstop, hslice]) (by decide +kernel)
  have hasked : (p, Guidance.onEvent commentedArgument) ∈ s.document.asked [] "data-testid" none := by
    refine List.mem_append_right _ (Document.mem_askedOf.mpr ⟨hp, ?_⟩)
    unfold Document.eventComment
    rw [hargument]
  have habove : s.document.commentsAbove statement.node.start = [outerComment] := by
    have hslice : s.document.slice 0 95 = .ok (outerComment ++ "\n") := by
      refine slice_of_source "" _ ("a.simulate" ++ "(" ++ commentedArgument ++ ")") ?_ rfl (by decide +kernel)
      rw [hsource, nestedText]
      simp only [String.append_assoc, String.empty_append]
    exact commentsAbove_of_slice (by rw [hline, hslice]) oneLine_outerComment
  refine ⟨d, s, hd, hclosed, hworded, hshow, hapart, hlead, hrun, hshifted, fun s' hagain => ?_⟩
  obtain ⟨d', file, findings⟩ := s
  rcases stands_of_add_zero hclosed' hworded'.legible hshow' hagain _ hasked statement hstatement with hnoted | hthere
  · cases hnoted
  · rw [habove, List.map_singleton, List.mem_singleton] at hthere
    dsimp only at hthere
    exact onEvent_commentedArgument hthere

end Suggestion

end TestMigration
