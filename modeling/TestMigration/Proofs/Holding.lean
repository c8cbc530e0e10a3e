import TestMigration.Proofs.Atomic
import TestMigration.Proofs.Navigation

/-! Handles that are held while a document changes. Whatever is done to the document, a handle that
was taken at some generation stands in the document's own tree as long as the generation is that
one, and is refused at every use from the next one on. A generation never comes back, for commits
are all that changes a text and each of them counts. -/

namespace TestMigration

open Script (Node Field Place)

/-! ## Uses -/

/-- The pattern says something of the node itself, its fields or its arguments. -/
def Pattern.asks : Pattern → Bool
  | mk kinds text fields leading count _ =>
    kinds.isSome || text.isSome || !fields.isEmpty || leading.isSome || count.isSome

/-- The test that a pattern asks last. -/
def Pattern.last : Pattern → Option (Handle → Looking Bool)
  | mk _ _ _ _ _ also => also

/-- What can be looked up with a handle. -/
inductive Handle.Looks (h : Handle) : {α : Type} → Looking α → Prop where
  | kind : Looks h h.kind
  | text : Looks h h.text
  | start : Looks h h.start
  | stop : Looks h h.stop
  | line : Looks h h.line
  | parent : Looks h h.parent?
  | children : Looks h h.namedChildren
  | field (f : Field) : Looks h (h.field? f)
  | ancestors : Looks h h.ancestors
  | descendants : Looks h h.descendants
  | isStatement : Looks h h.isStatement
  | closest (p : Pattern) : Looks h (h.closest? p)
  | find (p : Pattern) : Looks h (MatchSet.within [h] p).members
  | covers (inner : Handle) : Looks h (h.covers inner)
  | coveredBy (outer : Handle) : Looks h (outer.covers h)
  | textWith (replacements : List (Handle × String)) : Looks h (h.textWith replacements)
  | replacedIn (outer : Handle) (replacements : List (Handle × String))
      (mem : h ∈ replacements.map (·.1)) : Looks h (outer.textWith replacements)
  | holds (p : Pattern) (asks : p.asks = true) : Looks h (p.holdsOf h)

/-- What can be done with a handle. -/
inductive Handle.Uses (h : Handle) : {α : Type} → Editing α → Prop where
  | look {α : Type} {l : Looking α} (looks : h.Looks l) : Uses h (Document.looking l)
  | replaceWith (text : Text) : Uses h (h.replaceWith text)
  | remove : Uses h h.remove
  | insertBefore (text : Text) : Uses h (h.insertBefore text)

/-- What can be done with a set. -/
inductive MatchSet.Uses (s : MatchSet) : {α : Type} → Editing α → Prop where
  | members : Uses s (Document.looking s.members)
  | first : Uses s (Document.looking s.first?)
  | replaceWith (build : Handle → Looking (Option Text)) : Uses s (s.replaceWith build)
  | remove : Uses s s.remove

/-! ## Refusals -/

/-- The look fails because a handle is of another generation. -/
def Outdated {α : Type} (l : Looking α) (d : Document) : Prop :=
  ∃ e, l d = .error e ∧ e.kind = .stale

/-- The computation fails for that reason, and has changed nothing. -/
def Refuses {α : Type} (m : Editing α) (d : Document) : Prop := ∃ e, m d = .error e d ∧ e.kind = .stale

section Refusals

variable {α β : Type} {d : Document} {h : Handle} {s : MatchSet}

theorem Outdated.bind {l : Looking α} (hl : Outdated l d) (next : α → Looking β) :
    Outdated (l >>= next) d := by
  obtain ⟨e, he, hkind⟩ := hl
  refine ⟨e, ?_, hkind⟩
  change (l d).bind (fun a => next a d) = _
  rw [he]
  rfl

theorem outdated_bind_of_ok {l : Looking α} {a : α} (hl : l d = .ok a) {next : α → Looking β}
    (hnext : Outdated (next a) d) : Outdated (l >>= next) d := by
  obtain ⟨e, he, hkind⟩ := hnext
  refine ⟨e, ?_, hkind⟩
  change (l d).bind (fun a => next a d) = _
  rw [hl]
  exact he

theorem Outdated.refuses {l : Looking α} (hl : Outdated l d) : Refuses (Document.looking l) d := by
  obtain ⟨e, he, hkind⟩ := hl
  refine ⟨e, ?_, hkind⟩
  rw [Document.looking_apply, he]

theorem Outdated.refuses_bind {l : Looking α} (hl : Outdated l d) (next : α → Editing β) :
    Refuses (Document.looking l >>= next) d := by
  obtain ⟨e, he, hkind⟩ := hl
  refine ⟨e, ?_, hkind⟩
  rw [Document.bind_apply, Document.looking_apply, he]

/-- Either the node is looked up, or the handle is refused. -/
theorem Handle.node_or_outdated (h : Handle) (d : Document) :
    h.node d = .ok h.place.node ∨ Outdated h.node d := by
  by_cases hsame : h.generation = d.generation
  · exact .inl (Handle.node_of_current hsame)
  · refine .inr ⟨.stale s!"Path from generation {h.generation} used after the tree moved to generation {d.generation}"
      h.generation d.generation, ?_, rfl⟩
    change (if h.generation == d.generation then Pure.pure h.place.node else throw _ :
      Looking Node) d = _
    rw [if_neg (by simpa using hsame)]
    rfl

theorem Handle.outdated_node (hne : h.generation ≠ d.generation) : Outdated h.node d := by
  rcases h.node_or_outdated d with hn | houtdated
  · exact absurd (Handle.generation_of_node hn) hne
  · exact houtdated

theorem Handle.outdated_fresh (hne : h.generation ≠ d.generation) : Outdated h.fresh d :=
  (outdated_node hne).bind _

/-- The nodes of several handles are looked up one by one, and the first that is outdated ends it. -/
theorem outdated_replacements (hne : h.generation ≠ d.generation) {replacements : List (Handle × String)}
    (hmem : h ∈ replacements.map (·.1)) :
    Outdated (replacements.mapM fun r => return (← r.1.node, r.2)) d := by
  induction replacements with
  | nil => cases hmem
  | cons r rest ih =>
    rw [List.mapM_cons]
    rcases r.1.node_or_outdated d with hn | houtdated
    · have hrest : h ∈ rest.map (·.1) := by
        rcases List.mem_cons.mp hmem with rfl | hrest
        · exact absurd (Handle.generation_of_node hn) hne
        · exact hrest
      have hfirst : (do return (← r.1.node, r.2) : Looking _) d = .ok (r.1.place.node, r.2) := by
        rw [look_bind_of_ok hn]
        rfl
      exact outdated_bind_of_ok hfirst ((ih hrest).bind _)
    · exact (houtdated.bind _).bind _

theorem Pattern.outdated_holdsOf {p : Pattern} (hp : p.asks = true)
    (hne : h.generation ≠ d.generation) : Outdated (p.holdsOf h) d := by
  obtain ⟨kinds, text, fields, leading, count, also⟩ := p
  rw [holdsOf]
  cases kinds with
  | some kinds => exact ((Handle.outdated_node hne).bind _).bind _ |>.bind _
  | none =>
    refine outdated_bind_of_ok (a := true) rfl ?_
    cases text with
    | some test =>
      exact (outdated_bind_of_ok (a := d) rfl ((Handle.outdated_node hne).bind _)).bind _ |>.bind _
    | none =>
      refine outdated_bind_of_ok (a := true) rfl ?_
      cases fields with
      | cons field rest =>
        rw [fieldsHold]
        exact ((Handle.outdated_fresh hne).bind _).bind _ |>.bind _
      | nil =>
        rw [fieldsHold]
        refine outdated_bind_of_ok (a := true) rfl ?_
        have harguments : (leading.isSome || count.isSome) = true := by simpa [asks] using hp
        dsimp only
        rw [harguments, if_pos rfl]
        exact ((Handle.outdated_fresh hne).bind _).bind _ |>.bind _

theorem MatchSet.outdated_members (hne : ∀ r ∈ s.roots, r.generation ≠ d.generation)
    (hroots : s.roots ≠ []) : Outdated s.members d := by
  induction s with
  | within roots p =>
    cases roots with
    | nil => exact absurd rfl hroots
    | cons r rest =>
      have hfirst := (Handle.outdated_fresh (hne r List.mem_cons_self)).bind fun place =>
        Handle.onAll place.descendants
      rw [members, List.mapM_cons]
      exact ((hfirst.bind _).bind _)
  | inside outer p ih => exact (ih hne hroots).bind _
  | around inner p ih => exact (ih hne hroots).bind _
  | filtered set test ih => exact (ih hne hroots).bind _

theorem MatchSet.outdated_first? (hne : ∀ r ∈ s.roots, r.generation ≠ d.generation)
    (hroots : s.roots ≠ []) : Outdated s.first? d := by
  cases s with
  | within roots p =>
    cases roots with
    | nil => exact absurd rfl hroots
    | cons r rest =>
      have hfirst := (Handle.outdated_fresh (hne r List.mem_cons_self)).bind fun place =>
        Handle.onAll place.descendants
      rw [first?, List.mapM_cons]
      exact ((hfirst.bind _).bind _)
  | inside outer p => exact (outdated_members (s := outer) hne hroots).bind _
  | around inner p => exact (outdated_members (s := .around inner p) hne hroots).bind _
  | filtered set test => exact (outdated_members (s := .filtered set test) hne hroots).bind _

theorem Handle.Looks.outdated {l : Looking α} (hl : h.Looks l)
    (hne : h.generation ≠ d.generation) : Outdated l d := by
  have hnode := outdated_node hne
  have hfresh := outdated_fresh hne
  cases hl with
  | kind => exact hnode.bind _
  | text => exact outdated_bind_of_ok (a := d) rfl (hnode.bind _)
  | start => exact hnode.bind _
  | stop => exact hnode.bind _
  | line => exact outdated_bind_of_ok (a := d) rfl (hnode.bind _)
  | parent => exact hfresh.bind _
  | children => exact hfresh.bind _
  | field f => exact hfresh.bind _
  | ancestors => exact hfresh.bind _
  | descendants => exact hfresh.bind _
  | isStatement => exact hfresh.bind _
  | closest p => exact (hfresh.bind _).bind _
  | find p =>
    refine MatchSet.outdated_members (fun r hr => ?_) (List.cons_ne_nil _ _)
    rwa [List.mem_singleton.mp hr]
  | covers inner => exact hnode.bind _
  | coveredBy outer =>
    rcases outer.node_or_outdated d with hn | houtdated
    · exact outdated_bind_of_ok hn (hnode.bind _)
    · exact houtdated.bind _
  | textWith replacements => exact hnode.bind _
  | replacedIn outer replacements mem =>
    rcases outer.node_or_outdated d with hn | houtdated
    · exact outdated_bind_of_ok hn ((outdated_replacements hne mem).bind _)
    · exact houtdated.bind _
  | holds p asks => exact Pattern.outdated_holdsOf asks hne

theorem Handle.Uses.refuses {m : Editing α} (hm : h.Uses m) (hne : h.generation ≠ d.generation) :
    Refuses m d := by
  cases hm with
  | look looks => exact (looks.outdated hne).refuses
  | replaceWith text => exact (outdated_node hne).refuses_bind _
  | remove => exact (outdated_node hne).refuses_bind _
  | insertBefore text => exact (outdated_node hne).refuses_bind _

theorem MatchSet.Uses.refuses {m : Editing α} (hm : s.Uses m)
    (hne : ∀ r ∈ s.roots, r.generation ≠ d.generation) (hroots : s.roots ≠ []) : Refuses m d := by
  cases hm with
  | members => exact (outdated_members hne hroots).refuses
  | first => exact (outdated_first? hne hroots).refuses
  | replaceWith build => exact (outdated_members hne hroots).refuses_bind _
  | remove => exact (outdated_members hne hroots).refuses_bind _

/-- A pattern that asks nothing is answered by its last test alone, whatever the handle. -/
theorem Pattern.holdsOf_of_not_asks {p : Pattern} (hp : p.asks = false) (h : Handle) :
    p.holdsOf h = alsoHolds p.last h := by
  obtain ⟨kinds, text, fields, leading, count, also⟩ := p
  simp only [asks, Bool.or_eq_false_iff, Option.isSome_eq_false_iff, Option.isNone_iff_eq_none,
    Bool.not_eq_false', List.isEmpty_iff] at hp
  obtain ⟨⟨⟨⟨rfl, rfl⟩, rfl⟩, rfl⟩, rfl⟩ := hp
  funext d
  rw [holdsOf, fieldsHold]
  rfl

end Refusals

/-! ## Time -/

namespace Document

/-- `d'` comes after `d`: the text is the same, or the generation is a later one. -/
structure Precedes (d d' : Document) : Prop where
  read : d'.read = d.read
  parses : d.read d.source = .ok d.root → d.read d'.source = .ok d'.root
  moves : d'.SameText d ∨ d.generation < d'.generation

variable {d d' d'' : Document}

theorem Precedes.of_sameText (hread : d'.read = d.read) (h : d'.SameText d) : d.Precedes d' where
  read := hread
  parses hd := by
    rw [h.1, h.2.1]
    exact hd
  moves := .inl h

theorem Precedes.refl (d : Document) : d.Precedes d := .of_sameText rfl (.refl d)

theorem Precedes.le (h : d.Precedes d') : d.generation ≤ d'.generation := by
  rcases h.moves with hsame | hlt
  · exact Nat.le_of_eq hsame.2.2.symm
  · exact Nat.le_of_lt hlt

theorem Precedes.trans (h : d.Precedes d') (h' : d'.Precedes d'') : d.Precedes d'' where
  read := h'.read.trans h.read
  parses hd := by
    rw [← h.read]
    exact h'.parses (by rw [h.read]; exact h.parses hd)
  moves := by
    rcases h.moves with ⟨hsource, hroot, hgeneration⟩ | hlt
    · rcases h'.moves with ⟨hsource', hroot', hgeneration'⟩ | hlt'
      · exact .inl ⟨hsource'.trans hsource, hroot'.trans hroot, hgeneration'.trans hgeneration⟩
      · exact .inr (hgeneration ▸ hlt')
    · exact .inr (Nat.lt_of_lt_of_le hlt h'.le)

/-- A new text, parsed, begins a new generation. -/
theorem Precedes.of_parse {source : ByteArray} {root : Node} (h : d.read source = .ok root) :
    d.Precedes { d with source := source, root := root, generation := d.generation + 1 } where
  read := rfl
  parses _ := h
  moves := .inr (Nat.lt_succ_self _)

theorem precedes_commit (d : Document) (b : Batch) : d.Precedes (d.commit b).2.2 := by
  rcases commit_cases d b with ⟨-, h⟩ | ⟨-, -, h⟩ | ⟨-, -, root, hroot, h⟩ | ⟨-, -, place, snippet, -, h⟩
  · rw [h]
    exact .refl d
  · rw [h]
    exact .refl d
  · rw [h]
    exact .of_parse hroot
  · rw [h]
    exact .refl d

end Document

theorem Program.precedes {α : Type} (p : Program α) (d : Document) : d.Precedes (p.after d) := by
  refine run_closes (R := fun d _ d' => d.Precedes d') ?_ ?_ ?_ ?_ ?_ p d
  · exact .refl
  · exact fun h h' => h.trans h'
  · exact fun _ _ _ => .of_sameText rfl ⟨rfl, rfl, rfl⟩
  · exact fun _ _ => .refl _
  · exact fun _ _ _ hroot => .of_parse hroot

/-! ## Visits -/

/-- What can have happened to a document since the first one, and the handles taken on the way, each
with the generation at which it was taken. A block is entered by opening a batch; it is left by
dropping the batch, which may then be committed as any batch may. -/
inductive Visit (first : Document) : Document → List (Nat × Handle) → Prop where
  | start : Visit first first []
  | run {d : Document} {held : List (Nat × Handle)} {α : Type} (v : Visit first d held)
      (p : Program α) : Visit first (p.after d) held
  | enter {d : Document} {held : List (Nat × Handle)} (v : Visit first d held)
      (closed : d.batch = none) : Visit first d.opened held
  | drop {d : Document} {held : List (Nat × Handle)} (v : Visit first d held) :
      Visit first d.closed held
  | commit {d : Document} {held : List (Nat × Handle)} (v : Visit first d held) (b : Batch) :
      Visit first (d.commit b).2.2 held
  | root {d : Document} {held : List (Nat × Handle)} {h : Handle} (v : Visit first d held)
      (found : Handle.root d = .ok h) : Visit first d ((d.generation, h) :: held)
  | lead {d : Document} {held : List (Nat × Handle)} {g : Nat} {h h' : Handle}
      (v : Visit first d held) (holds : (g, h) ∈ held) (leads : h.Leads d h') :
      Visit first d ((d.generation, h') :: held)
  | member {d : Document} {held : List (Nat × Handle)} {s : MatchSet} {hs : List Handle} {h : Handle}
      (v : Visit first d held) (holds : ∀ r ∈ s.roots, ∃ g, (g, r) ∈ held)
      (found : s.members d = .ok hs) (mem : h ∈ hs) : Visit first d ((d.generation, h) :: held)
  | first {d : Document} {held : List (Nat × Handle)} {s : MatchSet} {h : Handle}
      (v : Visit first d held) (holds : ∀ r ∈ s.roots, ∃ g, (g, r) ∈ held)
      (found : s.first? d = .ok (some h)) : Visit first d ((d.generation, h) :: held)

/-- The handle bears the generation at which it was taken, which is not to come, and while that is
the generation of the document it stands in the tree. -/
structure Handle.Kept (d : Document) (g : Nat) (h : Handle) : Prop where
  stamp : h.generation = g
  past : g ≤ d.generation
  within : d.generation = g → h.place.Within d.root

namespace Handle

variable {d d' : Document} {g : Nat} {h : Handle}

theorem Current.kept (hh : h.Current d) : h.Kept d d.generation :=
  ⟨hh.stamp, Nat.le_refl _, fun _ => hh.within⟩

theorem Kept.standing (hh : h.Kept d g) : h.Standing d :=
  fun hsame => hh.within (hsame.symm.trans hh.stamp)

/-- Later, the handle is either outdated or still in the same tree. -/
theorem Kept.later (hh : h.Kept d g) (hd : d.Precedes d') : h.Kept d' g where
  stamp := hh.stamp
  past := Nat.le_trans hh.past hd.le
  within hg := by
    rcases hd.moves with ⟨-, hroot, hgeneration⟩ | hlt
    · rw [hroot]
      exact hh.within (hgeneration.symm.trans hg)
    · exact absurd (hg ▸ hlt) (Nat.not_lt.mpr hh.past)

end Handle

namespace Visit

variable {first d : Document} {held : List (Nat × Handle)}

theorem precedes (v : Visit first d held) : first.Precedes d := by
  induction v with
  | start => exact .refl first
  | run v p ih => exact ih.trans (p.precedes _)
  | enter v closed ih => exact ih.trans (.of_sameText rfl ⟨rfl, rfl, rfl⟩)
  | drop v ih => exact ih.trans (.of_sameText rfl ⟨rfl, rfl, rfl⟩)
  | commit v b ih => exact ih.trans (Document.precedes_commit _ b)
  | root v found ih => exact ih
  | lead v holds leads ih => exact ih
  | member v holds found mem ih => exact ih
  | first v holds found ih => exact ih

theorem kept (v : Visit first d held) : ∀ g h, (g, h) ∈ held → h.Kept d g := by
  have hcons : ∀ {d held} {h : Handle}, (∀ g h, (g, h) ∈ held → Handle.Kept d g h) → h.Current d →
      ∀ g' h', (g', h') ∈ (d.generation, h) :: held → h'.Kept d g' := by
    intro d held h ih hh g' h' hmem
    rcases List.mem_cons.mp hmem with hnew | hold
    · cases hnew
      exact hh.kept
    · exact ih g' h' hold
  induction v with
  | start => simp
  | run v p ih => exact fun g h hmem => (ih g h hmem).later (p.precedes _)
  | enter v closed ih =>
    exact fun g h hmem => (ih g h hmem).later (.of_sameText rfl ⟨rfl, rfl, rfl⟩)
  | drop v ih => exact fun g h hmem => (ih g h hmem).later (.of_sameText rfl ⟨rfl, rfl, rfl⟩)
  | commit v b ih => exact fun g h hmem => (ih g h hmem).later (Document.precedes_commit _ b)
  | root v found ih => exact hcons ih (root_current found)
  | lead v holds leads ih => exact hcons ih ((ih _ _ holds).standing.leads leads)
  | @member d held s hs h v holds found mem ih =>
    refine hcons ih (MatchSet.members_current s (fun r hr => ?_) hs found h mem)
    obtain ⟨g, hg⟩ := holds r hr
    exact (ih g r hg).standing
  | @first d held s h v holds found ih =>
    refine hcons ih (MatchSet.first?_current s (fun r hr => ?_) found)
    obtain ⟨g, hg⟩ := holds r hr
    exact (ih g r hg).standing

end Visit

/-- A handle that was taken at generation `g`, at some later time. Only at that generation can it be
used, and then it shows a node of the tree, whose text is a slice of the source. -/
structure Handle.Faithful (d : Document) (g : Nat) (h : Handle) : Prop where
  refuses : d.generation ≠ g → ∀ {α : Type} {m : Editing α}, h.Uses m → Refuses m d
  within : d.generation = g → h.place.Within d.root
  node : d.generation = g → h.node d = .ok h.place.node
  text : d.generation = g → h.text d = d.slice h.place.node.start h.place.node.stop
  line : d.generation = g → h.line d = .ok (d.lineOf h.place.node.start)
  leads : d.generation = g → ∀ h', h.Leads d h' → h'.Current d

/-- A set on handles that were taken at generation `g`. -/
structure MatchSet.Faithful (d : Document) (g : Nat) (s : MatchSet) : Prop where
  refuses : d.generation ≠ g → ∀ {α : Type} {m : Editing α}, s.Uses m → Refuses m d
  members : d.generation = g → ∀ hs, s.members d = .ok hs → ∀ h ∈ hs, h.Current d
  first : d.generation = g → ∀ h, s.first? d = .ok (some h) → h.Current d

theorem Handle.Kept.faithful {d : Document} {g : Nat} {h : Handle} (hh : h.Kept d g) :
    h.Faithful d g := by
  have hnode : d.generation = g → h.node d = .ok h.place.node :=
    fun hg => Handle.node_of_current (hh.stamp.trans hg.symm)
  refine ⟨?_, hh.within, hnode, ?_, ?_, fun _ h' => hh.standing.leads⟩
  · intro hne α m hm
    exact hm.refuses fun hsame => hne (hsame.symm.trans hh.stamp)
  · intro hg
    have hgo : ∀ look : Node → Looking String, (Except.ok h.place.node).bind (look · d) = look h.place.node d :=
      fun _ => rfl
    change (h.node d).bind _ = _
    rw [hnode hg, hgo, liftM_apply, Document.textOf]
  · intro hg
    change (h.node d).bind _ = _
    rw [hnode hg]
    rfl

/-- A comment is put above the only statement of a script. -/
def commented (first : Document) : Document :=
  (Program.record 0 0 (.ofString "// x\n") false).after first

/-- The script before and after it, in numbers. -/
theorem exists_commented : ∃ first, Document.ofString none "foo();\n" = .ok first ∧
    first.generation = 0 ∧ (commented first).generation = 1 ∧
    ((commented first).textOf (commented first).root).toOption = some "// x\nfoo();\n" := by
  obtain ⟨first, hfirst, hafter⟩ := exists_of_toOption_map
    (x := Document.ofString none "foo();\n")
    (f := fun first => (first.generation, (commented first).generation,
      ((commented first).textOf (commented first).root).toOption))
    (b := (0, 1, some "// x\nfoo();\n")) (by decide +kernel)
  simp only [Prod.mk.injEq] at hafter
  exact ⟨first, hfirst, hafter⟩

end TestMigration
