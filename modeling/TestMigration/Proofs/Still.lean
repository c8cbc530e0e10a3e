import TestMigration.Proofs.Leaves
import TestMigration.Proofs.Pass
import Mathlib.Data.List.Forall2

/-! Computations that leave the document as it was. A step of a program either does so or moves on:
a commit begins a new generation, and in a block the batch grows. No step goes back, so a run that
ends where it began has moved at no step, and what it saw on the way is what the document shows. -/

namespace TestMigration

open Script (Node Kind Field Place)

namespace Document

/-- The edits of the open batch. -/
def recorded (d : Document) : List Edit := (d.batch.map (·.edits)).getD []

/-- Something was applied, or recorded. -/
def Moves (d d' : Document) : Prop :=
  d.generation < d'.generation ∨
    d.generation = d'.generation ∧ d.recorded.length < d'.recorded.length

theorem recorded_opened (d : Document) : d.opened.recorded = [] := rfl

theorem recorded_of_closed {d : Document} (h : d.batch = none) : d.recorded = [] := by
  unfold recorded
  rw [h]
  rfl

theorem Moves.trans {d d' d'' : Document} (h : d.Moves d') (h' : d'.Moves d'') : d.Moves d'' := by
  unfold Moves at *
  omega

theorem not_moves (d : Document) : ¬ d.Moves d := by
  unfold Moves
  omega

end Document

theorem Program.stays_or_moves {α : Type} (p : Program α) (d : Document) :
    p.after d = d ∨ d.Moves (p.after d) := by
  refine run_closes (R := fun d _ d' => d' = d ∨ d.Moves d') ?_ ?_ ?_ ?_ ?_ p d
  · exact fun d => .inl rfl
  · intro d d' d'' cs cs' h h'
    rcases h with rfl | h
    · exact h'
    · rcases h' with rfl | h'
      · exact .inr h
      · exact .inr (h.trans h')
  · intro d b b' h hr
    obtain ⟨more, rfl⟩ := hr
    cases more with
    | nil => exact .inl (by rw [List.append_nil, ← h])
    | cons e more => exact .inr (.inr ⟨rfl, by simp [Document.recorded, h]⟩)
  · exact fun _ _ => .inl rfl
  · exact fun _ _ _ _ => .inr (.inl (Nat.lt_succ_self _))

section

variable {α β : Type}

theorem Made.stays_or_moves {m : Editing α} (hm : Made m) {d d' : Document} {a : α}
    (h : m d = .ok a d') : d' = d ∨ d.Moves d' := by
  obtain ⟨p, rfl, -⟩ := hm
  rw [← Program.after_of_ok h]
  exact p.stays_or_moves d

/-! ## Steps -/

theorem still_look {l : Looking α} {d : Document} {a : α} :
    (liftM l : Editing α) d = .ok a d ↔ l d = .ok a := by
  change Document.looking l d = .ok a d ↔ _
  rw [Document.looking_apply]
  cases l d with
  | ok a' => simp
  | error e => simp

/-- A run that ends where it began passes through no other document. -/
theorem still_bind {x : Editing α} {next : α → Editing β} (hx : Made x) (hn : ∀ a, Made (next a))
    {d : Document} {b : β} :
    (x >>= next) d = .ok b d ↔ ∃ a, x d = .ok a d ∧ next a d = .ok b d := by
  rw [Document.bind_apply]
  cases hd : x d with
  | error e d' => simp
  | ok a d' =>
    constructor
    · intro h
      rcases hx.stays_or_moves hd with rfl | hmoves
      · exact ⟨a, rfl, h⟩
      · rcases (hn a).stays_or_moves h with rfl | hback
        · exact absurd hmoves (Document.not_moves _)
        · exact absurd (hmoves.trans hback) (Document.not_moves _)
    · intro hr
      obtain ⟨a', h, hb⟩ := hr
      cases h
      exact hb

theorem still_look_bind {l : Looking α} {next : α → Editing β} {d : Document} {b : β} :
    ((liftM l : Editing α) >>= next) d = .ok b d ↔ ∃ a, l d = .ok a ∧ next a d = .ok b d := by
  change (Document.looking l >>= next) d = .ok b d ↔ _
  rw [Document.bind_apply, Document.looking_apply]
  cases l d with
  | ok a => simp
  | error e => simp

/-- A computation over a list that leaves the document alone has done so at each element. -/
theorem still_mapM {f : α → Editing β} (hf : ∀ a, Made (f a)) {holds : α → Prop} {b : β}
    {d : Document} (h : ∀ a c, f a d = .ok c d ↔ holds a ∧ c = b) {as : List α} {bs : List β} :
    as.mapM f d = .ok bs d ↔ (∀ a ∈ as, holds a) ∧ bs = List.replicate as.length b := by
  induction as generalizing bs with
  | nil =>
    constructor
    · intro hr
      cases hr
      exact ⟨by simp, rfl⟩
    · intro hk
      obtain ⟨-, rfl⟩ := hk
      rfl
  | cons a as ih =>
    have hrest := made_stepwise.mapM hf as
    rw [List.mapM_cons, still_bind (hf a) fun _ => hrest.bind fun _ => made_pure _]
    simp only [still_bind hrest fun _ => made_pure _, h, ih, List.forall_mem_cons]
    constructor
    · intro hk
      obtain ⟨c, ⟨ha, rfl⟩, cs, ⟨has, rfl⟩, hbs⟩ := hk
      cases hbs
      exact ⟨⟨ha, has⟩, rfl⟩
    · intro hk
      obtain ⟨⟨ha, has⟩, rfl⟩ := hk
      exact ⟨b, ⟨ha, rfl⟩, _, ⟨has, rfl⟩, rfl⟩

/-- Turns that each count for nothing count for nothing together. -/
theorem foldr_zeros (n : Nat) : (List.replicate n 0).foldr (· + ·) 0 = 0 := by
  induction n with
  | zero => rfl
  | succ n ih => rw [List.replicate_succ, List.foldr_cons, ih]

theorem still_foldlM {f : β → α → Editing β} (hf : ∀ b a, Made (f b a)) {holds : α → Prop} {b : β}
    {d : Document} (h : ∀ a c, f b a d = .ok c d ↔ holds a ∧ c = b) {as : List α} {c : β} :
    as.foldlM f b d = .ok c d ↔ (∀ a ∈ as, holds a) ∧ c = b := by
  induction as generalizing c with
  | nil =>
    constructor
    · intro hr
      cases hr
      exact ⟨by simp, rfl⟩
    · intro hk
      obtain ⟨-, rfl⟩ := hk
      rfl
  | cons a as ih =>
    rw [List.foldlM_cons, still_bind (hf b a) fun b => made_stepwise.foldlM hf as b]
    simp only [h, List.forall_mem_cons]
    constructor
    · intro hk
      obtain ⟨_, ⟨ha, rfl⟩, hr⟩ := hk
      obtain ⟨has, hc⟩ := ih.mp hr
      exact ⟨⟨ha, has⟩, hc⟩
    · intro hk
      obtain ⟨⟨ha, has⟩, hc⟩ := hk
      exact ⟨b, ⟨ha, rfl⟩, ih.mpr ⟨has, hc⟩⟩

theorem still_except_bind {x : Except Failure α} {next : α → Editing β} {d : Document} {b : β} :
    ((liftM x : Editing α) >>= next) d = .ok b d ↔ ∃ a, x = .ok a ∧ next a d = .ok b d := by
  rw [Document.bind_apply]
  cases x with
  | ok a =>
    change next a d = _ ↔ _
    simp
  | error e =>
    change EStateM.Result.error e d = _ ↔ _
    simp

/-! ## Blocks -/

/-- A block changes nothing if and only if nothing is recorded in it. -/
theorem still_batched {body : Editing α} (hb : Made body) {d : Document} (h : d.batch = none)
    {a : α} {b : Batch} :
    Document.batched body d = .ok (a, b) d ↔ body d.opened = .ok a d.opened ∧
      b = { Batch.open' d.generation with committed := true } := by
  obtain ⟨p, rfl, -⟩ := hb
  have hrun : Document.batched p.run d = (Program.batched p).run d := rfl
  rw [hrun]
  rcases Program.batched_cases p h with ⟨e, ⟨d', hbody⟩, hr, -⟩ | ⟨a', b', hbody, -, hmore, hend⟩
  · rw [hr, hbody]
    simp
  · have hopened : p.run d.opened = .ok a d.opened → b'.edits = [] := by
      intro ho
      rw [hbody] at ho
      have hd := congrArg Document.recorded (EStateM.Result.ok.inj ho).2
      simpa [Document.recorded, Document.opened, Batch.open'] using hd
    rcases hend with ⟨he, hr⟩ | ⟨he, root, -, hr⟩ | ⟨he, place, snippet, -, hr⟩
    · obtain ⟨more, rfl⟩ := hmore
      obtain rfl : more = [] := he
      rw [hr, hbody]
      constructor
      · intro heq
        cases heq
        exact ⟨rfl, rfl⟩
      · intro hk
        obtain ⟨heq, rfl⟩ := hk
        cases heq
        rfl
    · rw [hr]
      constructor
      · intro heq
        have hd := congrArg Document.generation (EStateM.Result.ok.inj heq).2
        simp at hd
      · intro hk
        obtain ⟨ho, -⟩ := hk
        exact absurd (hopened ho) he
    · rw [hr]
      constructor
      · intro heq
        cases heq
      · intro hk
        obtain ⟨ho, -⟩ := hk
        exact absurd (hopened ho) he

theorem still_untilStable {round : Editing Unit} (hr : Made round) {limit : Int} (hl : 0 < limit)
    {d : Document} (h : d.batch = none) {n : Nat} :
    Document.untilStable round limit d = .ok n d ↔ round d.opened = .ok () d.opened ∧ n = 0 := by
  obtain ⟨rounds, hrounds⟩ : ∃ rounds, limit.toNat = rounds + 1 := ⟨limit.toNat - 1, by omega⟩
  have hrest : ∀ r : Unit × Batch, Made (
      if r.2.deferred.isEmpty then pure (0 + r.2.applied)
      else Document.roundsFrom round limit rounds (0 + r.2.applied)) := by
    intro r
    split
    · exact made_pure _
    · exact made_roundsFrom hr _ _ _
  have hstep : Document.untilStable round limit d = .ok n d ↔ ∃ r, Document.batched round d = .ok r d ∧
      (if r.2.deferred.isEmpty then pure (0 + r.2.applied)
        else Document.roundsFrom round limit rounds (0 + r.2.applied) : Editing Nat) d = .ok n d := by
    rw [← still_bind (made_batched hr) hrest]
    unfold Document.untilStable
    rw [hrounds]
    rfl
  rw [hstep]
  constructor
  · intro hk
    obtain ⟨⟨⟨⟩, b⟩, hb, hn⟩ := hk
    obtain ⟨hround, rfl⟩ := (still_batched hr h).mp hb
    cases hn
    exact ⟨hround, rfl⟩
  · intro hk
    obtain ⟨hround, rfl⟩ := hk
    exact ⟨_, (still_batched hr h).mpr ⟨hround, rfl⟩, rfl⟩

/-- An edit that is the first of its batch is recorded. -/
theorem recordEdit_moves {start stop : Int} {text : Text} {ahead : Bool} {d : Document}
    (h : d.recorded = []) : Document.recordEdit start stop text ahead d ≠ .ok () d := by
  have hadd : ∀ {d : Document}, d.batch.isSome → d.recorded = [] →
      Document.addToBatch start stop text ahead d ≠ .ok () d := by
    intro d ho h hr
    obtain ⟨b, hb⟩ := Option.isSome_iff_exists.mp ho
    have hr : (Program.add start stop text ahead).run d = .ok () d := hr
    have hedits : b.edits = [] := by simpa [Document.recorded, hb] using h
    rw [Program.run_add_of_open hb] at hr
    cases ha : b.add d.generation d.source.size start stop text ahead with
    | error e =>
      rw [ha] at hr
      cases hr
    | ok b' =>
      rw [ha] at hr
      have hd := congrArg Document.recorded (EStateM.Result.ok.inj hr).2
      rcases Batch.add_of_ok ha with ⟨hne, -⟩ | ⟨e, rfl⟩
      · exact hne hedits
      · simp [Document.recorded, hb] at hd
  have hm : Made (Document.addToBatch start stop text ahead) :=
    ⟨.add start stop text ahead, rfl, trivial⟩
  intro hr
  unfold Document.recordEdit Document.editing at hr
  rw [Document.bind_apply, Document.get_apply] at hr
  dsimp only at hr
  cases hb : d.batch with
  | some b =>
    have ho : d.batch.isSome := by rw [hb]; rfl
    rw [if_pos ho] at hr
    exact hadd ho h hr
  | none =>
    rw [if_neg (by rw [hb]; simp)] at hr
    obtain ⟨⟨⟨⟩, b⟩, hbatched, -⟩ := (still_bind (made_batched hm) fun _ => made_pure _).mp hr
    exact hadd rfl rfl ((still_batched hm hb).mp hbatched).1

theorem insertAtTop_moves {text : Text} (ht : text.isEmpty = false) {d : Document}
    (h : d.recorded = []) : Document.insertAtTop text d ≠ .ok () d := by
  intro hr
  unfold Document.insertAtTop at hr
  rw [ht] at hr
  exact recordEdit_moves h hr

theorem remove_moves {h : Handle} {d : Document} (hd : d.recorded = []) : h.remove d ≠ .ok () d := by
  intro hr
  obtain ⟨n, -, hr⟩ := still_look_bind.mp hr
  rw [Document.bind_apply, Document.get_apply] at hr
  obtain ⟨statement, -, hr⟩ := still_look_bind.mp hr
  exact recordEdit_moves hd hr

theorem insertBefore_moves {h : Handle} {text : Text} {d : Document} (hd : d.recorded = []) :
    h.insertBefore text d ≠ .ok () d := by
  intro hr
  obtain ⟨n, -, hr⟩ := still_look_bind.mp hr
  rw [Document.bind_apply, Document.get_apply] at hr
  dsimp only at hr
  split at hr
  · exact recordEdit_moves hd hr
  · exact recordEdit_moves hd hr

theorem replaceWith_moves {h : Handle} {text : Text} {d : Document} (hd : d.recorded = []) :
    h.replaceWith text d ≠ .ok () d := by
  intro hr
  obtain ⟨n, -, hr⟩ := still_look_bind.mp hr
  exact recordEdit_moves hd hr

/-- The document as a body finds it that joins the open block or has one of its own. -/
def Document.joined (d : Document) : Document := if d.batch.isSome then d else d.opened

theorem recorded_joined {d : Document} (h : d.recorded = []) : d.joined.recorded = [] := by
  unfold Document.joined
  split
  · exact h
  · rfl

theorem Plain.joined {l : Looking α} (hl : Plain l) (d : Document) : l d.joined = l d := by
  unfold Document.joined
  split
  · rfl
  · exact hl.blind d _

theorem still_editing {body : Editing α} (hb : Made body) {d : Document} {a : α} :
    Document.editing body d = .ok a d ↔ body d.joined = .ok a d.joined := by
  unfold Document.editing Document.joined
  rw [Document.bind_apply, Document.get_apply]
  dsimp only
  split
  · exact Iff.rfl
  · rename_i hclosed
    have h : d.batch = none := by simpa using hclosed
    rw [still_bind (made_batched hb) fun _ => made_pure _]
    constructor
    · intro hk
      obtain ⟨⟨a', b⟩, hr, ha⟩ := hk
      cases ha
      exact ((still_batched hb h).mp hr).1
    · intro ha
      exact ⟨(a, _), (still_batched hb h).mpr ⟨ha, rfl⟩, rfl⟩

theorem still_replaceBy {build : Handle → Looking (Option Text)} {h : Handle} {d : Document}
    (hd : d.recorded = []) {n : Nat} :
    h.replaceBy build d = .ok n d ↔ build h d = .ok none ∧ n = 0 := by
  constructor
  · intro hn
    obtain ⟨text, htext, hn⟩ := still_look_bind.mp hn
    cases text with
    | none =>
      cases hn
      exact ⟨htext, rfl⟩
    | some text =>
      obtain ⟨⟨⟩, hr, -⟩ := (still_bind (h.made_replaceWith text) fun _ => made_pure _).mp hn
      exact absurd hr (replaceWith_moves hd)
  · intro hk
    obtain ⟨hnone, rfl⟩ := hk
    exact still_look_bind.mpr ⟨none, hnone, rfl⟩

/-- A set is left as it is if and only if there is nothing to replace its members by. -/
theorem still_replaceWith {set : MatchSet} {build : Handle → Looking (Option Text)}
    (hb : ∀ h, Plain (build h)) {d : Document} (hd : d.recorded = []) {n : Nat} :
    set.replaceWith build d = .ok n d ↔
      (∃ members, set.members d = .ok members ∧ ∀ h ∈ members, build h d = .ok none) ∧ n = 0 := by
  have hmade := Handle.made_replaceBy hb
  have hbody : ∀ members : List Handle,
      Document.editing (do
        return (← members.mapM (·.replaceBy build)).foldr (· + ·) 0) d = .ok n d ↔
        (∀ h ∈ members, build h d = .ok none) ∧ n = 0 := by
    intro members
    have hm := made_stepwise.mapM hmade members
    have heach : ∀ h c, h.replaceBy build d.joined = .ok c d.joined ↔
        build h d = .ok none ∧ c = 0 := by
      intro h c
      rw [still_replaceBy (recorded_joined hd), (hb h).joined]
    rw [still_editing (hm.bind fun _ => made_pure _), still_bind hm fun _ => made_pure _]
    simp only [still_mapM hmade heach]
    constructor
    · intro hr
      obtain ⟨counts, ⟨hnone, rfl⟩, hn⟩ := hr
      cases hn
      exact ⟨hnone, foldr_zeros _⟩
    · intro hr
      obtain ⟨hnone, rfl⟩ := hr
      exact ⟨_, ⟨hnone, rfl⟩, by rw [foldr_zeros]; rfl⟩
  unfold MatchSet.replaceWith
  rw [still_look_bind]
  constructor
  · intro hr
    obtain ⟨members, hmembers, hn⟩ := hr
    split at hn
    · rename_i hempty
      cases hn
      exact ⟨⟨members, hmembers, by simp [List.isEmpty_iff.mp hempty]⟩, rfl⟩
    · obtain ⟨hnone, hzero⟩ := (hbody members).mp hn
      exact ⟨⟨members, hmembers, hnone⟩, hzero⟩
  · intro hr
    obtain ⟨⟨members, hmembers, hnone⟩, hzero⟩ := hr
    refine ⟨members, hmembers, ?_⟩
    split
    · rw [hzero]
      rfl
    · exact (hbody members).mpr ⟨hnone, hzero⟩

/-- For nothing that the pattern finds in the tree is there a replacement. -/
def Exhausted (p : Pattern) (build : Handle → Looking (Option Text)) (d : Document) : Prop :=
  ∃ found, findAll p d = .ok found ∧ ∀ h ∈ found, build h d = .ok none

theorem exhausted_opened {p : Pattern} (hp : p.Quiet) {build : Handle → Looking (Option Text)}
    (hb : ∀ h, Plain (build h)) {d : Document} : Exhausted p build d.opened ↔ Exhausted p build d := by
  unfold Exhausted Document.opened
  rw [(plain_findAll hp).blind]
  simp only [fun h => (hb h).blind]

theorem still_ofTree_replaceWith {p : Pattern} {build : Handle → Looking (Option Text)}
    (hb : ∀ h, Plain (build h)) {d : Document} (hd : d.recorded = []) {n : Nat} :
    (do (← (MatchSet.ofTree p : Looking _)).replaceWith build : Editing Nat) d = .ok n d ↔
      Exhausted p build d ∧ n = 0 :=
  @still_replaceWith (.within [⟨d.generation, .root d.root⟩] p) build hb d hd n

/-- A round that replaces what a pattern finds before it goes on. -/
theorem still_round {p : Pattern} (hp : p.Quiet) {build : Handle → Looking (Option Text)}
    (hb : ∀ h, Plain (build h)) {next : Editing α} (hn : Made next) {d : Document}
    (hd : d.recorded = []) {a : α} :
    (do
      let _ ← (← (MatchSet.ofTree p : Looking _)).replaceWith build
      next : Editing α) d = .ok a d ↔ Exhausted p build d ∧ next d = .ok a d := by
  have hround := MatchSet.made_ofTree_bind hp fun set hs => set.made_replaceWith hs hb
  have hsplit : (do
      let _ ← (← (MatchSet.ofTree p : Looking _)).replaceWith build
      next : Editing α) = (do (← (MatchSet.ofTree p : Looking _)).replaceWith build : Editing Nat) >>=
        fun _ => next := (bind_assoc _ _ _).symm
  rw [hsplit, still_bind hround fun _ => hn]
  simp only [still_ofTree_replaceWith hb hd]
  exact ⟨fun ⟨_, ⟨he, _⟩, ha⟩ => ⟨he, ha⟩, fun ⟨he, ha⟩ => ⟨0, ⟨he, rfl⟩, ha⟩⟩

end

/-! ## Passes -/

namespace Pass

variable {α β : Type}

/-- The pass succeeds and leaves the document as it was. -/
def Stays (m : Pass α) (s : Session) (a : α) (s' : Session) : Prop :=
  m s = .ok a s' ∧ s'.document = s.document

theorem stays_lift {edit : Editing α} {s s' : Session} {a : α} :
    Stays (lift edit) s a s' ↔ edit s.document = .ok a s.document ∧ s' = s := by
  unfold Stays lift
  cases he : edit s.document with
  | error e d =>
    constructor
    · intro hr
      obtain ⟨h, -⟩ := hr
      cases h
    · intro hr
      obtain ⟨h, -⟩ := hr
      cases h
  | ok a' d =>
    constructor
    · intro hr
      obtain ⟨h, hd⟩ := hr
      cases h
      replace hd : d = s.document := hd
      subst hd
      exact ⟨rfl, rfl⟩
    · intro hr
      obtain ⟨h, rfl⟩ := hr
      cases h
      exact ⟨rfl, rfl⟩

theorem stays_bind {x : Pass α} {next : α → Pass β} (hx : Programmed x)
    (hn : ∀ a, Programmed (next a)) {s s'' : Session} {b : β} :
    Stays (x >>= next) s b s'' ↔ ∃ a s', Stays x s a s' ∧ Stays (next a) s' b s'' := by
  constructor
  · intro hr
    obtain ⟨hrun, hd⟩ := hr
    cases hx' : x s with
    | error e s' =>
      rw [Leaves.of_bind_error hx'] at hrun
      cases hrun
    | ok a s' =>
      rw [Leaves.of_bind_ok hx'] at hrun
      have hfirst : s'.document = s.document ∨ s.document.Moves s'.document :=
        (hx s.file s.findings).stays_or_moves (a := a) (by unfold onDocument; rw [hx'])
      have hsecond : s''.document = s'.document ∨ s'.document.Moves s''.document :=
        (hn a s'.file s'.findings).stays_or_moves (a := b) (by
          unfold onDocument
          replace hrun : next a s' = .ok b s'' := hrun
          rw [hrun])
      have hs' : s'.document = s.document := by
        rcases hfirst with h | hmoves
        · exact h
        · rw [← hd] at hmoves
          rcases hsecond with h | hback
          · rw [h] at hmoves
            exact absurd hmoves (Document.not_moves _)
          · exact absurd (hmoves.trans hback) (Document.not_moves _)
      exact ⟨a, s', ⟨hx', hs'⟩, hrun, hd.trans hs'.symm⟩
  · intro hr
    obtain ⟨a, s', ⟨hx', hs'⟩, hrun, hd⟩ := hr
    refine ⟨?_, hd.trans hs'⟩
    rw [Leaves.of_bind_ok hx']
    exact hrun

/-- How the pass can run without a change to a document that has no open batch: it then yields what
`R` has for the document. -/
structure Idles (m : Pass α) (R : Document → α → Prop) : Prop where
  programmed : Programmed m
  stays : ∀ s a, s.document.batch = none → ((∃ s', Stays m s a s') ↔ R s.document a)

theorem Idles.congr {m : Pass α} {R R' : Document → α → Prop} (hm : Idles m R)
    (hR : ∀ d a, d.batch = none → (R d a ↔ R' d a)) : Idles m R' :=
  ⟨hm.programmed, fun s a h => (hm.stays s a h).trans (hR s.document a h)⟩

theorem Idles.bind {x : Pass α} {next : α → Pass β} {R : Document → α → Prop}
    {S : α → Document → β → Prop} (hx : Idles x R) (hn : ∀ a, Idles (next a) (S a)) :
    Idles (x >>= next) fun d b => ∃ a, R d a ∧ S a d b := by
  refine ⟨hx.programmed.bind fun a => (hn a).programmed, fun s b h => ?_⟩
  simp only [stays_bind hx.programmed fun a => (hn a).programmed]
  constructor
  · intro hr
    obtain ⟨s'', a, s', hfirst, hsecond⟩ := hr
    refine ⟨a, (hx.stays s a h).mp ⟨s', hfirst⟩, ?_⟩
    rw [← hfirst.2]
    exact ((hn a).stays s' b (by rw [hfirst.2]; exact h)).mp ⟨s'', hsecond⟩
  · intro hr
    obtain ⟨a, hR, hS⟩ := hr
    obtain ⟨s', hfirst⟩ := (hx.stays s a h).mpr hR
    rw [← hfirst.2] at hS
    obtain ⟨s'', hsecond⟩ := ((hn a).stays s' b (by rw [hfirst.2]; exact h)).mpr hS
    exact ⟨s'', a, s', hfirst, hsecond⟩

theorem Idles.bind_never {x : Pass α} {next : α → Pass β} (hx : Idles x fun _ _ => False)
    (hn : ∀ a, Programmed (next a)) : Idles (x >>= next) fun _ _ => False := by
  refine ⟨hx.programmed.bind hn, fun s b h => ⟨?_, False.elim⟩⟩
  intro hr
  obtain ⟨s'', hrun⟩ := hr
  obtain ⟨a, s', hfirst, -⟩ := (stays_bind hx.programmed hn).mp hrun
  exact (hx.stays s a h).mp ⟨s', hfirst⟩

/-- What comes after a part that leaves only one value matters for that value. -/
theorem Idles.bind_value {x : Pass α} {next : α → Pass β} {P : Document → Prop} {v : α}
    {S : Document → β → Prop} (hx : Idles x fun d a => P d ∧ a = v)
    (hn : ∀ a, Programmed (next a)) (hv : Idles (next v) S) :
    Idles (x >>= next) fun d b => P d ∧ S d b := by
  refine ⟨hx.programmed.bind hn, fun s b h => ?_⟩
  simp only [stays_bind hx.programmed hn]
  constructor
  · intro hr
    obtain ⟨s'', a, s', hfirst, hsecond⟩ := hr
    obtain ⟨hP, rfl⟩ := (hx.stays s a h).mp ⟨s', hfirst⟩
    have hS := (hv.stays s' b (by rw [hfirst.2]; exact h)).mp ⟨s'', hsecond⟩
    rw [hfirst.2] at hS
    exact ⟨hP, hS⟩
  · intro hr
    obtain ⟨hP, hS⟩ := hr
    obtain ⟨s', hfirst⟩ := (hx.stays s v h).mpr ⟨hP, rfl⟩
    rw [← hfirst.2] at hS
    obtain ⟨s'', hsecond⟩ := (hv.stays s' b (by rw [hfirst.2]; exact h)).mpr hS
    exact ⟨s'', v, s', hfirst, hsecond⟩

theorem idles_pure (a : α) : Idles (pure a) fun _ b => b = a := by
  refine ⟨programmed_pure a, fun s b _ => ?_⟩
  constructor
  · intro h
    obtain ⟨s', hrun, -⟩ := h
    cases hrun
    rfl
  · intro h
    subst h
    exact ⟨s, rfl, rfl⟩

theorem idles_lift {edit : Editing α} (he : Made edit) :
    Idles (lift edit) fun d a => edit d = .ok a d := by
  refine ⟨programmed_lift he, fun s a _ => ?_⟩
  simp only [stays_lift]
  exact ⟨fun ⟨_, ha, _⟩ => ha, fun ha => ⟨s, ha, rfl⟩⟩

theorem idles_look {l : Looking α} (hl : Plain l) :
    Idles (liftM l : Pass α) fun d a => l d = .ok a :=
  (idles_lift (made_look hl)).congr fun _ _ _ => still_look

/-- A block of which only the result of its body is kept. -/
theorem idles_batched {body : Editing α} (hb : Made body) {f : α → β} {R : Document → α → Prop}
    (hR : ∀ d a, d.batch = none → (body d.opened = .ok a d.opened ↔ R d a)) :
    Idles (do
      let r ← (Document.batched body : Editing _)
      return f r.1) fun d b => ∃ a, R d a ∧ b = f a := by
  refine ((idles_lift (made_batched hb)).bind fun r => idles_pure (f r.1)).congr fun d b h => ?_
  constructor
  · intro hk
    obtain ⟨r, hr, rfl⟩ := hk
    exact ⟨r.1, (hR d r.1 h).mp ((still_batched hb h).mp hr).1, rfl⟩
  · intro hk
    obtain ⟨a, ha, rfl⟩ := hk
    exact ⟨(a, _), (still_batched hb h).mpr ⟨(hR d a h).mpr ha, rfl⟩, rfl⟩

theorem idles_report (code : DiagnosticCode) (message : String) (level : DiagnosticLevel)
    (line : Option Int) : Idles (report code message level line) fun _ _ => True :=
  ⟨programmed_report _ _ _ _, fun _ _ _ => ⟨fun _ => trivial, fun _ => ⟨_, rfl, rfl⟩⟩⟩

theorem idles_mapM {f : α → Pass β} {R : α → Document → β → Prop} (hf : ∀ a, Idles (f a) (R a))
    (as : List α) :
    Idles (as.mapM f) fun d bs => List.Forall₂ (fun a b => R a d b) as bs := by
  induction as with
  | nil => exact (idles_pure []).congr fun d bs _ => by simp
  | cons a as ih =>
    rw [List.mapM_cons]
    refine ((hf a).bind fun b => ih.bind fun bs => idles_pure (b :: bs)).congr fun d bs _ => ?_
    rw [List.forall₂_cons_left_iff]
    exact ⟨fun ⟨b, hb, bs, hbs, h⟩ => ⟨b, bs, hb, hbs, h⟩,
      fun ⟨b, bs, hb, hbs, h⟩ => ⟨b, hb, bs, hbs, h⟩⟩

/-- A loop leaves the document alone if and only if each of its turns does. -/
theorem idles_forIn {f : α → Pass PUnit} {holds : α → Document → Prop}
    (hf : ∀ a, Idles (f a) fun d _ => holds a d) (as : List α) :
    Idles (ForIn.forIn as PUnit.unit fun a _ => do
      f a
      return ForInStep.yield PUnit.unit) fun d _ => ∀ a ∈ as, holds a d := by
  induction as with
  | nil =>
    rw [List.forIn_nil]
    exact (idles_pure _).congr fun d _ _ => by simp
  | cons a as ih =>
    rw [List.forIn_cons, bind_assoc]
    simp only [pure_bind, List.forall_mem_cons]
    refine ((hf a).bind fun _ => ih).congr fun d _ _ => ?_
    exact ⟨fun ⟨_, ha, has⟩ => ⟨ha, has⟩, fun ⟨ha, has⟩ => ⟨⟨⟩, ha, has⟩⟩

end Pass

end TestMigration
