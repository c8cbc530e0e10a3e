import TestMigration.Proofs.Counts
import TestMigration.Proofs.Holders

/-! Replacements as they are made. The texts that are built for nodes of different ranges are recorded
one after the other, the block makes a new text of them, and rounds of such blocks go on as long as
edits are left over. -/

namespace TestMigration

open Script (Node Place)

/-- A range, and what is put in its place. -/
abbrev Replacement := Stretch × String

/-- The range begins before the other one, or with it and is longer. -/
def Stretch.Leads (a b : Stretch) : Prop := a.1 < b.1 ∨ a.1 = b.1 ∧ b.2 < a.2

namespace Edit

def ofReplacement (turn : Nat) (r : Replacement) : Edit := ⟨r.1.1, r.1.2, r.2.toUTF8, turn, false⟩

/-- Replacements as a batch records them, counted from `turn` on. -/
def numbered : Nat → List Replacement → List Edit
  | _, [] => []
  | turn, r :: rest => ofReplacement turn r :: numbered (turn + 1) rest

variable {turn : Nat} {rs : List Replacement} {e : Edit}

@[simp] theorem range_ofReplacement (r : Replacement) : (ofReplacement turn r).range = r.1 := rfl

theorem numbered_append (more : List Replacement) :
    numbered turn (rs ++ more) = numbered turn rs ++ numbered (turn + rs.length) more := by
  induction rs generalizing turn with
  | nil => rfl
  | cons r rest ih =>
    rw [List.cons_append, numbered, numbered, ih, List.length_cons, Nat.add_assoc, Nat.add_comm 1]
    rfl

@[simp] theorem length_numbered : (numbered turn rs).length = rs.length := by
  induction rs generalizing turn with
  | nil => rfl
  | cons r rest ih => rw [numbered, List.length_cons, ih, List.length_cons]

@[simp] theorem map_range_numbered : (numbered turn rs).map range = rs.map Prod.fst := by
  induction rs generalizing turn with
  | nil => rfl
  | cons r rest ih => rw [numbered, List.map_cons, ih, List.map_cons, range_ofReplacement]

theorem mem_numbered (h : e ∈ numbered turn rs) : ∃ r ∈ rs, e.Puts r.1.1 r.1.2 r.2 := by
  induction rs generalizing turn with
  | nil => cases h
  | cons r rest ih =>
    rcases List.mem_cons.mp h with rfl | h
    · exact ⟨r, List.mem_cons_self, rfl, rfl, rfl⟩
    · obtain ⟨r', hr', hputs⟩ := ih h
      exact ⟨r', List.mem_cons_of_mem _ hr', hputs⟩

theorem before_of_leads {a b : Edit} (ha : a.start < a.stop) (hb : b.start < b.stop)
    (h : Stretch.Leads a.range b.range) : a.before b = true := by
  have hwide : a.isInsertion = false ∧ b.isInsertion = false :=
    ⟨beq_eq_false_iff_ne.mpr ha.ne, beq_eq_false_iff_ne.mpr hb.ne⟩
  unfold Stretch.Leads range at h
  unfold before
  rcases h with hlt | ⟨hsame, hlt⟩
  · rw [if_pos (bne_iff_ne.mpr (Nat.ne_of_lt hlt))]
    exact decide_eq_true hlt
  · rw [if_neg fun hne => bne_iff_ne.mp hne hsame, hwide.1, hwide.2, if_neg (by decide),
      if_pos (bne_iff_ne.mpr (Nat.ne_of_gt hlt))]
    exact decide_eq_true hlt

/-- Replacements of which each leads the ones behind it are in order. -/
theorem sorted_numbered (hwide : ∀ r ∈ rs, r.1.1 < r.1.2)
    (hleads : rs.Pairwise fun a b => Stretch.Leads a.1 b.1) :
    sorted (numbered turn rs) = numbered turn rs := by
  induction rs generalizing turn with
  | nil => rfl
  | cons r rs ih =>
    obtain ⟨hr, hrest⟩ := List.forall_mem_cons.mp hwide
    obtain ⟨hfirst, hpairs⟩ := List.pairwise_cons.mp hleads
    rw [numbered, sorted, ih hrest hpairs]
    cases rs with
    | nil => rfl
    | cons r' rs =>
      have hr' := hrest r' List.mem_cons_self
      have hbefore : (ofReplacement turn r).before (ofReplacement (turn + 1) r') = true :=
        before_of_leads hr hr' (hfirst r' List.mem_cons_self)
      rw [numbered, place, if_pos hbefore]

/-- Edits that begin before the cursor are all deferred. -/
theorem settle_within {cursor : Nat} {es later : List Edit} (h : ∀ e ∈ es, e.start < cursor) :
    settle cursor (es ++ later) = ((settle cursor later).1, es ++ (settle cursor later).2) := by
  induction es with
  | nil => rfl
  | cons e es ih =>
    obtain ⟨he, hes⟩ := List.forall_mem_cons.mp h
    rw [List.cons_append, settle, if_pos he, ih hes]
    rfl

end Edit

/-! ## One block -/

namespace Batch

/-- An uncommitted batch with the replacements. -/
def holding (generation : Nat) (rs : List Replacement) : Batch :=
  { Batch.open' generation with edits := Edit.numbered 0 rs }

variable {b : Batch} {generation length start stop : Nat} {rs : List Replacement} {r : Replacement}
  {text : Text} {s : String} {ahead : Bool}

/-- An edit that the batch does not hold yet is put at its end. -/
theorem add_new (hopen : b.committed = false) (hinside : start ≤ stop ∧ stop ≤ length)
    (hs : text.toString? = some s) (hnew : ∀ e ∈ b.edits, ¬ e.Puts start stop s) :
    b.add b.generation length start stop text ahead =
      .ok { b with edits := b.edits ++ [⟨start, stop, s.toUTF8, b.size, ahead⟩] } := by
  have hrange : ¬ (((start : Int) < 0 || (stop : Int) < start || (stop : Int) > length) = true) := by
    simp only [Bool.or_eq_true, decide_eq_true_iff]
    omega
  have hfresh : (b.edits.any fun e => e.start == start && e.stop == stop && e.text == s.toUTF8) =
      false := by
    rw [List.any_eq_false]
    intro e he hsame
    simp only [Bool.and_eq_true, beq_iff_eq] at hsame
    exact hnew e he ⟨hsame.1.1, hsame.1.2, eq_of_bytes hsame.2⟩
  unfold add
  rw [if_neg (by rw [hopen]; exact Bool.false_ne_true), if_neg (by simp), if_neg hrange, hs]
  dsimp only [Int.toNat_natCast]
  rw [if_neg (by rw [hfresh]; exact Bool.false_ne_true)]

theorem add_holding (hinside : r.1.1 ≤ r.1.2 ∧ r.1.2 ≤ length) (hfresh : r.1 ∉ rs.map Prod.fst) :
    (holding generation rs).add generation length r.1.1 r.1.2 (.ofString r.2) false =
      .ok (holding generation (rs ++ [r])) := by
  have hnew : ∀ e ∈ (holding generation rs).edits, ¬ e.Puts r.1.1 r.1.2 r.2 := by
    rintro e he ⟨hstart, hstop, -⟩
    refine hfresh ?_
    have hmem : e.range ∈ rs.map Prod.fst := by
      rw [← Edit.map_range_numbered]
      exact List.mem_map_of_mem he
    rwa [Edit.range, hstart, hstop] at hmem
  refine (add_new (b := holding generation rs) rfl hinside (Text.toString?_ofString _) hnew).trans ?_
  unfold holding size
  rw [Edit.numbered_append, Nat.zero_add, Edit.length_numbered]
  rfl

end Batch

/-! ## Recording, step by step -/

section Steps

variable {α β : Type} {d : Document} {b b₁ b' : Batch}

theorem records_pure (a : α) : Records (pure a) d b a b := rfl

theorem Records.andThen {m : Editing α} {f : α → Editing β} {a : α} {x : β} (h : Records m d b a b₁)
    (hf : Records (f a) d b₁ x b') : Records (m >>= f) d b x b' := by
  unfold Records at h hf ⊢
  rw [Document.bind_apply, h]
  exact hf

theorem records_look_bind {l : Looking α} {f : α → Editing β} {a : α} {x : β} (hl : Plain l)
    (h : l d = .ok a) (hf : Records (f a) d b x b') :
    Records ((liftM l : Editing α) >>= f) d b x b' := by
  refine Records.andThen (a := a) ?_ hf
  change Document.looking l _ = _
  rw [Document.looking_apply, hl.blind, h]

theorem records_recordEdit_of_add {start stop : Int} {text : Text} {ahead : Bool}
    (h : b.add d.generation d.source.size start stop text ahead = .ok b') :
    Records (Document.recordEdit start stop text ahead) d b () b' := by
  have hrun : (Program.add start stop text ahead).run { d with batch := some b } =
      .ok () { d with batch := some b' } := by
    rw [Program.run_add_of_open (b := b) rfl]
    dsimp only
    rw [h]
  exact hrun

end Steps

variable {d : Document} {build : Handle → Looking (Option Text)} {g : Place → Option String}
  {rs : List Replacement} {p : Place} {ps : List Place}

/-- The replacement of a node for which there is a text. -/
def Script.Place.replacement? (g : Place → Option String) (p : Place) : Option Replacement :=
  (g p).map fun text => (p.node.range, text)

/-- Where there is a text for every node, each is replaced. -/
theorem replacements_eq (h : ps.map (·.replacement? g) = rs.map some) :
    ps.filterMap (·.replacement? g) = rs ∧ ps.map (·.node.range) = rs.map Prod.fst := by
  induction ps generalizing rs with
  | nil =>
    cases rs with
    | nil => exact ⟨rfl, rfl⟩
    | cons r rs => cases h
  | cons p ps ih =>
    cases rs with
    | nil => cases h
    | cons r rs =>
      obtain ⟨hfirst, hrest⟩ := List.cons.inj h
      obtain ⟨hreplaced, hranges⟩ := ih hrest
      obtain ⟨text, -, rfl⟩ := Option.map_eq_some_iff.mp hfirst
      rw [List.filterMap_cons_some hfirst, hreplaced, List.map_cons, List.map_cons, hranges]
      exact ⟨rfl, rfl⟩

/-- The text that is built for each of the nodes is the one given. -/
def Builds (d : Document) (build : Handle → Looking (Option Text)) (g : Place → Option String)
    (ps : List Place) : Prop :=
  ∀ p ∈ ps, build (d.handle p) d = .ok ((g p).map Text.ofString)

/-- The nodes have ranges of their own, each within the text. -/
structure Document.Separate (d : Document) (ps : List Place) : Prop where
  distinct : (ps.map (·.node.range)).Nodup
  inside : ∀ p ∈ ps, p.node.start ≤ p.node.stop ∧ p.node.stop ≤ d.source.size

theorem records_replaceWith_holding {text : String}
    (hinside : p.node.start ≤ p.node.stop ∧ p.node.stop ≤ d.source.size)
    (hfresh : p.node.range ∉ rs.map Prod.fst) :
    Records ((d.handle p).replaceWith (.ofString text)) d (.holding d.generation rs) ()
      (.holding d.generation (rs ++ [(p.node.range, text)])) := by
  refine records_look_bind (Handle.plain_node _) Handle.node_handle ?_
  exact records_recordEdit_of_add (Batch.add_holding (r := (p.node.range, text)) hinside hfresh)

theorem records_replaceBy_holding (hb : ∀ h, Plain (build h))
    (hbuild : build (d.handle p) d = .ok ((g p).map Text.ofString))
    (hinside : p.node.start ≤ p.node.stop ∧ p.node.stop ≤ d.source.size)
    (hfresh : p.node.range ∉ rs.map Prod.fst) :
    ∃ n, Records ((d.handle p).replaceBy build) d (.holding d.generation rs) n
      (.holding d.generation (rs ++ (p.replacement? g).toList)) := by
  unfold Place.replacement?
  cases hg : g p with
  | none =>
    rw [hg] at hbuild
    refine ⟨0, records_look_bind (hb _) hbuild ?_⟩
    rw [show rs ++ ((none : Option String).map fun text => (p.node.range, text)).toList = rs from
      List.append_nil rs]
    exact records_pure 0
  | some text =>
    rw [hg] at hbuild
    exact ⟨1, records_look_bind (hb _) hbuild
      ((records_replaceWith_holding hinside hfresh).andThen (records_pure 1))⟩

/-- The nodes have their turns in order, and what is recorded is what is replaced in that order. -/
theorem records_replaceEach_holding (rs : List Replacement) (hb : ∀ h, Plain (build h))
    (hbuild : Builds d build g ps) (hdistinct : (rs.map Prod.fst ++ ps.map (·.node.range)).Nodup)
    (hinside : ∀ p ∈ ps, p.node.start ≤ p.node.stop ∧ p.node.stop ≤ d.source.size) :
    ∃ counts, Records ((ps.map d.handle).mapM (·.replaceBy build)) d (.holding d.generation rs) counts
      (.holding d.generation (rs ++ ps.filterMap (·.replacement? g))) := by
  induction ps generalizing rs with
  | nil =>
    refine ⟨[], ?_⟩
    rw [List.filterMap_nil, List.append_nil]
    exact records_pure []
  | cons p ps ih =>
    obtain ⟨hp, hps⟩ := List.forall_mem_cons.mp hbuild
    obtain ⟨hpin, hpsin⟩ := List.forall_mem_cons.mp hinside
    have hfresh : p.node.range ∉ rs.map Prod.fst := fun hmem =>
      (List.nodup_append.mp hdistinct).2.2 _ hmem _ List.mem_cons_self rfl
    have hmore : ((rs ++ (p.replacement? g).toList).map Prod.fst ++ ps.map (·.node.range)).Nodup := by
      refine hdistinct.sublist ?_
      rw [List.map_append, List.append_assoc, List.map_cons]
      refine List.Sublist.append_left ?_ _
      unfold Place.replacement?
      cases g p with
      | none => exact (List.Sublist.refl _).cons _
      | some text => exact .refl _
    obtain ⟨n, hfirst⟩ := records_replaceBy_holding hb hp hpin hfresh
    obtain ⟨counts, hrest⟩ := ih _ hps hmore hpsin
    refine ⟨n :: counts, ?_⟩
    rw [List.map_cons, List.mapM_cons]
    refine hfirst.andThen (hrest.andThen ?_)
    have hedits : rs ++ (p :: ps).filterMap (·.replacement? g) =
        rs ++ (p.replacement? g).toList ++ ps.filterMap (·.replacement? g) := by
      rw [List.filterMap_cons, List.append_assoc]
      cases p.replacement? g with
      | none => rfl
      | some r => rfl
    rw [hedits]
    exact records_pure _

/-- Everything that a pattern finds is replaced in an open block. -/
theorem records_replaceAll_holding {pattern : Pattern} (hquiet : pattern.Quiet)
    (hb : ∀ h, Plain (build h)) (hfound : findAll pattern d = .ok (ps.map d.handle))
    (hbuild : Builds d build g ps) (hps : d.Separate ps) :
    ∃ n, Records (do (← (MatchSet.ofTree pattern : Looking _)).replaceWith build) d
      (.open' d.generation) n (.holding d.generation (ps.filterMap (·.replacement? g))) := by
  have hset : ∃ n, Records ((MatchSet.within [⟨d.generation, .root d.root⟩] pattern).replaceWith build)
      d (.open' d.generation) n (.holding d.generation (ps.filterMap (·.replacement? g))) := by
    obtain ⟨counts, hrecords⟩ := records_replaceEach_holding [] hb hbuild hps.distinct hps.inside
    have hmembers : Records (do
        if (ps.map d.handle).isEmpty then return 0
        Document.editing do
          let counts ← (ps.map d.handle).mapM (·.replaceBy build)
          return counts.foldr (· + ·) 0) d (.open' d.generation)
        (if (ps.map d.handle).isEmpty then 0 else counts.foldr (· + ·) 0)
        (.holding d.generation (ps.filterMap (·.replacement? g))) := by
      cases ps with
      | nil => rfl
      | cons p ps => exact hrecords.andThen (records_pure _)
    exact ⟨_, records_look_bind (MatchSet.plain_members _ hquiet) hfound hmembers⟩
  exact hset

/-! ## The end of a block -/

namespace Document

/-- The document with another text. -/
def reread (d : Document) (source : ByteArray) (root : Node) : Document :=
  { d with source := source, root := root, generation := d.generation + 1 }

variable {α : Type} {d' : Document} {b : Batch} {a : α} {body : Editing α}

/-- How a block ends that has recorded its edits. -/
theorem batched_of_records (hm : Made body) (closed : d.batch = none) (h : Records body d (.open' d.generation) a b) :
    (b.edits = [] ∧ batched body d = .ok (a, { b with committed := true }) d) ∨
      (b.edits ≠ [] ∧ ∃ root, d.read (b.outcome d.source) = .ok root ∧
        batched body d = .ok (a, b.spent) (d.reread (b.outcome d.source) root)) ∨
      (b.edits ≠ [] ∧ ∃ place snippet, d.read (b.outcome d.source) = .error place ∧
        batched body d = .error (.invalidEdit place snippet) d) := by
  obtain ⟨p, rfl, -⟩ := hm
  rcases p.batched_cases closed with ⟨e, ⟨d', hbody⟩, -, -⟩ | ⟨a', b', hbody, -, -, hend⟩
  · cases hbody.symm.trans h
  · obtain ⟨rfl, hsame⟩ := EStateM.Result.ok.inj (hbody.symm.trans h)
    obtain rfl : b' = b := Option.some.inj (congrArg Document.batch hsame)
    exact hend

theorem batched_of_nothing (hm : Made body) (closed : d.batch = none)
    (h : Records body d (.open' d.generation) a b) (hnone : b.edits = []) :
    batched body d = .ok (a, { b with committed := true }) d := by
  rcases batched_of_records hm closed h with ⟨-, hrun⟩ | ⟨hsome, -⟩ | ⟨hsome, -⟩
  · exact hrun
  · exact absurd hnone hsome
  · exact absurd hnone hsome

theorem batched_of_something (hm : Made body) (closed : d.batch = none)
    (h : Records body d (.open' d.generation) a b) (hsome : b.edits ≠ []) {root : Node}
    (hread : d.read (b.outcome d.source) = .ok root) :
    batched body d = .ok (a, b.spent) (d.reread (b.outcome d.source) root) := by
  rcases batched_of_records hm closed h with ⟨hnone, -⟩ | ⟨-, root', hread', hrun⟩ | ⟨-, place, snippet, hread', -⟩
  · exact absurd hnone hsome
  · cases hread.symm.trans hread'
    exact hrun
  · cases hread.symm.trans hread'

/-- A block whose outcome cannot be read leaves the document as it was. -/
theorem batched_of_unread (hm : Made body) (closed : d.batch = none)
    (h : Records body d (.open' d.generation) a b) (hsome : b.edits ≠ []) {place : Script.Location}
    (hread : d.read (b.outcome d.source) = .error place) :
    ∃ snippet, batched body d = .error (.invalidEdit place snippet) d := by
  rcases batched_of_records hm closed h with ⟨hnone, -⟩ | ⟨-, root, hread', -⟩ | ⟨-, place', snippet, hread', hrun⟩
  · exact absurd hnone hsome
  · cases hread'.symm.trans hread
  · cases hread'.symm.trans hread
    exact ⟨snippet, hrun⟩

/-- A block that has ended well has left the document as it was, or has read the text anew. -/
theorem batched_ok (hm : Made body) (closed : d.batch = none) {spent : Batch}
    (h : batched body d = .ok (a, spent) d') : ∃ b, Records body d (.open' d.generation) a b ∧
      (b.edits = [] ∧ d' = d ∨ b.edits ≠ [] ∧
        ∃ root, d.read (b.outcome d.source) = .ok root ∧ d' = d.reread (b.outcome d.source) root) := by
  obtain ⟨p, rfl, -⟩ := hm
  have hrun : (Program.batched p).run d = .ok (a, spent) d' := h
  rcases p.batched_cases closed with ⟨e, -, hr, -⟩ | ⟨a', b, hbody, -, -, hend⟩
  · cases hr.symm.trans hrun
  · rcases hend with ⟨hnone, hr⟩ | ⟨hsome, root, hread, hr⟩ | ⟨-, place, snippet, -, hr⟩
    · cases hr.symm.trans hrun
      exact ⟨b, hbody, .inl ⟨hnone, rfl⟩⟩
    · cases hr.symm.trans hrun
      exact ⟨b, hbody, .inr ⟨hsome, root, hread, rfl⟩⟩
    · cases hr.symm.trans hrun

/-- Outside blocks an edit makes up a block of its own. -/
theorem recordEdit_ok {start stop : Nat} {text : Text} {ahead : Bool} {u : Unit} (closed : d.batch = none)
    (h : recordEdit start stop text ahead d = .ok u d') :
    ∃ b, (Batch.open' d.generation).add d.generation d.source.size start stop text ahead = .ok b ∧
      (b.edits = [] ∧ d' = d ∨ b.edits ≠ [] ∧
        ∃ root, d.read (b.outcome d.source) = .ok root ∧ d' = d.reread (b.outcome d.source) root) := by
  unfold recordEdit editing at h
  rw [bind_apply, get_apply] at h
  dsimp only at h
  rw [closed] at h
  obtain ⟨⟨u', spent⟩, t, hbatched, hpure⟩ := Leaves.bind_ok h
  obtain ⟨-, rfl⟩ := Leaves.pure hpure
  have hmade : Made (addToBatch start stop text ahead) := ⟨.add start stop text ahead, rfl, trivial⟩
  obtain ⟨b, hrecords, hend⟩ := batched_ok hmade closed hbatched
  exact ⟨b, records_add hrecords, hend⟩

/-! ## Rounds -/

variable {round : Editing Unit} {limit : Int} {rounds total : Nat}

theorem roundsFrom_last (h : batched round d = .ok ((), b) d') (hnone : b.deferred = []) :
    roundsFrom round limit (rounds + 1) total d = .ok (total + b.applied) d' := by
  unfold roundsFrom
  rw [bind_apply, h]
  dsimp only
  rw [hnone]
  rfl

theorem roundsFrom_more (h : batched round d = .ok ((), b) d') (hsome : b.deferred ≠ []) :
    roundsFrom round limit (rounds + 1) total d = roundsFrom round limit rounds (total + b.applied) d' := by
  conv_lhs => unfold roundsFrom
  rw [bind_apply, h]
  dsimp only
  rw [if_neg (by simpa using hsome)]

end Document

/-! ## What a search finds -/

/-- Where no two are the same, all are kept. -/
theorem distinct_eq_self {hs : List Handle} (h : hs.Pairwise fun a b => b.same a = false) :
    MatchSet.distinct hs = hs := by
  have hloop : ∀ hs kept : List Handle, (∀ k ∈ kept, ∀ h ∈ hs, h.same k = false) →
      (hs.Pairwise fun a b => b.same a = false) →
      hs.foldl (fun kept h => if kept.any h.same then kept else h :: kept) kept = hs.reverse ++ kept := by
    intro hs
    induction hs with
    | nil => exact fun _ _ _ => rfl
    | cons first rest ih =>
      intro kept hkept hpairs
      obtain ⟨hfirst, hrest⟩ := List.pairwise_cons.mp hpairs
      have hnew : kept.any first.same = false := by
        rw [List.any_eq_false]
        intro k hk
        rw [hkept k hk first List.mem_cons_self]
        exact Bool.false_ne_true
      rw [List.foldl_cons, hnew, if_neg Bool.false_ne_true, ih, List.reverse_cons, List.append_assoc]
      · rfl
      · refine List.forall_mem_cons.mpr ⟨hfirst, ?_⟩
        exact fun k hk h hh => hkept k hk h (List.mem_cons_of_mem _ hh)
      · exact hrest
  unfold MatchSet.distinct
  rw [hloop hs [] (by simp) h, List.append_nil, List.reverse_reverse]

/-- Places of one document are told apart by ranges and kinds. -/
theorem Document.found_eq_filter {test : Place → Bool}
    (h : (d.places.filter test).Pairwise fun p q =>
      p.node.range ≠ q.node.range ∨ p.node.kind ≠ q.node.kind) :
    d.found test = d.places.filter test := by
  unfold found
  rw [distinct_eq_self, List.map_map]
  · exact List.map_id _
  · refine List.pairwise_map.mpr (h.imp ?_)
    intro p q hne
    rw [← Bool.not_eq_true]
    intro hsame
    simp only [Handle.same, Document.handle, Bool.and_eq_true, beq_iff_eq] at hsame
    refine hne.elim (fun hrange => hrange ?_) fun hkind => hkind hsame.2.symm
    rw [Node.range, Node.range, hsame.1.1.2, hsame.1.2]

end TestMigration
