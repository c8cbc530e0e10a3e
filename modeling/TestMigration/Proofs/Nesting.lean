import TestMigration.Proofs.Replacing

/-! Replacements of nodes that lie within one another. A walk meets a node before those within it and
after those that end before it, so replacements that are recorded along a walk are in order already, and
a block makes the outermost of them. -/

namespace TestMigration

open Script (Node Place Field)

namespace Script

/-! ## Trees that are laid out -/

namespace Node

mutual

/-- The children lie within the node, one behind the other. -/
def laid : Node → Bool
  | mk _ _ start stop children => laidAll start stop children

def laidAll (first last : Nat) : List Node → Bool
  | [] => first ≤ last
  | n :: rest => first ≤ n.start && (laid n && laidAll n.stop last rest)

end

theorem laidAll_cons {first last : Nat} {n : Node} {rest : List Node} :
    laidAll first last (n :: rest) = true ↔
      first ≤ n.start ∧ n.laid = true ∧ laidAll n.stop last rest = true := by
  rw [laidAll, Bool.and_eq_true_iff, Bool.and_eq_true_iff, decide_eq_true_iff]

mutual

theorem start_le_stop_of_laid : ∀ n : Node, n.laid = true → n.start ≤ n.stop
  | mk _ _ start stop children => le_of_laidAll start stop children

theorem le_of_laidAll (first last : Nat) : ∀ ns : List Node, laidAll first last ns = true → first ≤ last
  | [] => fun h => of_decide_eq_true h
  | n :: rest => fun h => by
    obtain ⟨hfirst, hn, hrest⟩ := laidAll_cons.mp h
    exact hfirst.trans ((start_le_stop_of_laid n hn).trans (le_of_laidAll n.stop last rest hrest))

end

theorem laidAll_mem {c : Node} {ns : List Node} {first last : Nat} (h : laidAll first last ns = true)
    (hc : c ∈ ns) : c.laid = true ∧ first ≤ c.start ∧ c.stop ≤ last := by
  induction ns generalizing first with
  | nil => cases hc
  | cons n rest ih =>
    obtain ⟨hfirst, hn, hrest⟩ := laidAll_cons.mp h
    rcases List.mem_cons.mp hc with rfl | hc
    · exact ⟨hn, hfirst, le_of_laidAll _ _ _ hrest⟩
    · obtain ⟨hlaid, hstart, hstop⟩ := ih hrest hc
      exact ⟨hlaid, hfirst.trans ((start_le_stop_of_laid n hn).trans hstart), hstop⟩

theorem laid_child {n c : Node} (h : n.laid = true) (hc : c ∈ n.children) :
    c.laid = true ∧ n.start ≤ c.start ∧ c.stop ≤ n.stop := by
  obtain ⟨role, kind, start, stop, children⟩ := n
  exact laidAll_mem h hc

end Node

namespace Place

theorem laid_of_within {root : Node} {p : Place} (hroot : root.laid = true) (hp : p.Within root) :
    p.node.laid = true ∧ root.start ≤ p.node.start ∧ p.node.stop ≤ root.stop := by
  induction hp with
  | root => exact ⟨hroot, Nat.le_refl _, Nat.le_refl _⟩
  | child _ hn ih =>
    obtain ⟨hlaid, hstart, hstop⟩ := ih
    obtain ⟨hchild, hfirst, hlast⟩ := Node.laid_child hlaid hn
    exact ⟨hchild, hstart.trans hfirst, hlast.trans hstop⟩

theorem laid_field? {p q : Place} {f : Field} (hp : p.node.laid = true) (hq : p.field? f = some q) :
    q.node.laid = true ∧ p.node.start ≤ q.node.start ∧ q.node.stop ≤ p.node.stop := by
  obtain ⟨n, hn, rfl⟩ := Option.map_eq_some_iff.mp hq
  exact Node.laid_child hp (List.mem_of_find?_eq_some hn)

/-! ## The order of a walk -/

/-- The node ends before the other one begins, or holds it. -/
def Precedes (p q : Place) : Prop :=
  p.node.stop ≤ q.node.start ∨ p.node.start ≤ q.node.start ∧ q.node.stop ≤ p.node.stop

mutual

theorem walk_inside (above : List Node) : ∀ n : Node, n.laid = true → ∀ p ∈ walk above n,
    n.start ≤ p.node.start ∧ p.node.start ≤ p.node.stop ∧ p.node.stop ≤ n.stop
  | .mk role kind start stop children => by
    intro h p hp
    rw [walk] at hp
    rcases List.mem_cons.mp hp with rfl | hp
    · exact ⟨Nat.le_refl _, Node.start_le_stop_of_laid _ h, Nat.le_refl _⟩
    · exact walkAll_inside _ start stop children h p hp

theorem walkAll_inside (above : List Node) (first last : Nat) : ∀ ns : List Node,
    Node.laidAll first last ns = true → ∀ p ∈ walkAll above ns,
      first ≤ p.node.start ∧ p.node.start ≤ p.node.stop ∧ p.node.stop ≤ last
  | [] => fun _ _ hp => nomatch hp
  | n :: rest => by
    intro h p hp
    obtain ⟨hfirst, hn, hrest⟩ := Node.laidAll_cons.mp h
    rw [walkAll] at hp
    rcases List.mem_append.mp hp with hp | hp
    · split at hp
      · obtain ⟨hstart, hle, hstop⟩ := walk_inside above n hn p hp
        exact ⟨hfirst.trans hstart, hle, hstop.trans (Node.le_of_laidAll _ _ _ hrest)⟩
      · cases hp
    · obtain ⟨hstart, hle, hstop⟩ := walkAll_inside above n.stop last rest hrest p hp
      exact ⟨hfirst.trans ((Node.start_le_stop_of_laid n hn).trans hstart), hle, hstop⟩

end

/-- What is in a child ends before what is in the children behind it begins. -/
theorem walk_before_rest {above : List Node} {n : Node} {rest : List Node} {last : Nat} {p q : Place}
    (hn : n.laid = true) (hrest : Node.laidAll n.stop last rest = true)
    (hp : p ∈ if n.kind.isNamed then walk above n else []) (hq : q ∈ walkAll above rest) :
    p.node.stop ≤ q.node.start := by
  split at hp
  · exact (walk_inside above n hn p hp).2.2.trans (walkAll_inside above n.stop last rest hrest q hq).1
  · cases hp

mutual

theorem walk_precedes (above : List Node) : ∀ n : Node, n.laid = true → (walk above n).Pairwise Precedes
  | .mk role kind start stop children => by
    intro h
    rw [walk]
    refine List.pairwise_cons.mpr ⟨fun p hp => ?_, walkAll_precedes _ start stop children h⟩
    obtain ⟨hstart, -, hstop⟩ := walkAll_inside _ start stop children h p hp
    exact .inr ⟨hstart, hstop⟩

theorem walkAll_precedes (above : List Node) (first last : Nat) : ∀ ns : List Node,
    Node.laidAll first last ns = true → (walkAll above ns).Pairwise Precedes
  | [] => fun _ => .nil
  | n :: rest => by
    intro h
    obtain ⟨-, hn, hrest⟩ := Node.laidAll_cons.mp h
    rw [walkAll]
    refine List.pairwise_append.mpr ⟨?_, walkAll_precedes above n.stop last rest hrest,
      fun p hp q hq => .inl (walk_before_rest hn hrest hp hq)⟩
    split
    · exact walk_precedes above n hn
    · exact .nil

end

/-! ## The outermost nodes -/

variable {g : Place → Option String} {p : Place} {r : Replacement}

mutual

/-- The replacements of nodes that are not within others to be replaced. -/
def outermost (g : Place → Option String) (above : List Node) : Node → List Replacement
  | n@(.mk _ _ _ _ children) =>
    match replacement? g ⟨n, above⟩ with
    | some r => [r]
    | none => outermostAll g (n :: above) children

def outermostAll (g : Place → Option String) (above : List Node) : List Node → List Replacement
  | [] => []
  | n :: rest => (if n.kind.isNamed then outermost g above n else []) ++ outermostAll g above rest

end

mutual

/-- These are among the replacements of all nodes, in the same order. -/
theorem outermost_sublist (above : List Node) : ∀ n : Node,
    (outermost g above n).Sublist ((walk above n).filterMap (·.replacement? g))
  | .mk role kind start stop children => by
    rw [outermost, walk]
    cases hreplaced : replacement? g ⟨.mk role kind start stop children, above⟩ with
    | none =>
      rw [List.filterMap_cons_none hreplaced]
      exact outermostAll_sublist _ children
    | some r =>
      rw [List.filterMap_cons_some hreplaced]
      exact (List.nil_sublist _).cons_cons r

theorem outermostAll_sublist (above : List Node) : ∀ ns : List Node,
    (outermostAll g above ns).Sublist ((walkAll above ns).filterMap (·.replacement? g))
  | [] => .refl _
  | n :: rest => by
    rw [outermostAll, walkAll, List.filterMap_append]
    refine List.Sublist.append ?_ (outermostAll_sublist above rest)
    split
    · exact outermost_sublist above n
    · exact .refl _

end

theorem range_replacement? (h : p.replacement? g = some r) : r.1 = p.node.range := by
  obtain ⟨text, -, rfl⟩ := Option.map_eq_some_iff.mp h
  rfl

theorem sublist_replacements (ps : List Place) :
    ((ps.filterMap (·.replacement? g)).map Prod.fst).Sublist (ps.map (·.node.range)) := by
  induction ps with
  | nil => exact .refl _
  | cons p ps ih =>
    cases hreplaced : p.replacement? g with
    | none =>
      rw [List.filterMap_cons_none hreplaced]
      exact ih.cons _
    | some r =>
      rw [List.filterMap_cons_some hreplaced, List.map_cons, List.map_cons, range_replacement? hreplaced]
      exact ih.cons_cons _

/-- Whatever is replaced has a text. -/
def Wide (g : Place → Option String) (ps : List Place) : Prop :=
  ∀ p ∈ ps, (g p).isSome = true → p.node.start < p.node.stop

theorem wide_replacements {ps : List Place} (hwide : Wide g ps) : ∀ r ∈ ps.filterMap (·.replacement? g),
    ∃ p ∈ ps, r.1 = p.node.range ∧ p.node.start < p.node.stop := by
  intro r hr
  obtain ⟨p, hp, hreplaced⟩ := List.mem_filterMap.mp hr
  obtain ⟨text, htext, -⟩ := Option.map_eq_some_iff.mp hreplaced
  exact ⟨p, hp, range_replacement? hreplaced, hwide p hp (by rw [htext]; rfl)⟩

/-- Replacements that are met in the order of a walk, each of a range of its own, lead one another. -/
theorem leads_replacements {ps : List Place} (hwide : Wide g ps) (hprecedes : ps.Pairwise Precedes)
    (hdistinct : ((ps.filterMap (·.replacement? g)).map Prod.fst).Nodup) :
    (ps.filterMap (·.replacement? g)).Pairwise fun a b => Stretch.Leads a.1 b.1 := by
  induction ps with
  | nil => exact .nil
  | cons p ps ih =>
    obtain ⟨hp, hps⟩ := List.pairwise_cons.mp hprecedes
    have hrest : Wide g ps := fun q hq => hwide q (List.mem_cons_of_mem _ hq)
    cases hreplaced : p.replacement? g with
    | none =>
      rw [List.filterMap_cons_none hreplaced] at hdistinct ⊢
      exact ih hrest hps hdistinct
    | some r =>
      rw [List.filterMap_cons_some hreplaced] at hdistinct ⊢
      obtain ⟨hfresh, hdistinct⟩ := List.nodup_cons.mp hdistinct
      refine List.pairwise_cons.mpr ⟨fun r' hr' => ?_, ih hrest hps hdistinct⟩
      have hrange := range_replacement? hreplaced
      have hne : r.1 ≠ r'.1 := fun hsame => hfresh (List.mem_map.mpr ⟨r', hr', hsame.symm⟩)
      obtain ⟨q, hq, hrange', hlt⟩ := wide_replacements hrest r' hr'
      obtain ⟨text, htext, -⟩ := Option.map_eq_some_iff.mp hreplaced
      have hlt' := hwide p List.mem_cons_self (by rw [htext]; rfl)
      have hpq := hp q hq
      rw [hrange, hrange'] at hne ⊢
      unfold Node.range at hne
      unfold Precedes at hpq
      unfold Stretch.Leads Node.range
      rw [ne_eq, Prod.mk.injEq] at hne
      dsimp only
      omega

end Place

end Script

namespace Edit

variable {cursor turn : Nat} {es later : List Edit} {g : Place → Option String}

/-- The cursor is no matter where everything begins behind it. -/
theorem settle_behind {cursor' : Nat} (h : ∀ e ∈ es, cursor ≤ e.start) (h' : ∀ e ∈ es, cursor' ≤ e.start) :
    settle cursor es = settle cursor' es := by
  cases es with
  | nil => rfl
  | cons e es =>
    rw [settle, settle, if_neg (h e List.mem_cons_self).not_gt, if_neg (h' e List.mem_cons_self).not_gt]

/-- The edits make the replacements. -/
def Makes (es : List Edit) (rs : List Replacement) : Prop :=
  List.Forall₂ (fun e r => e.Puts r.1.1 r.1.2 r.2) es rs

/-- Of what is asked for between two offsets the replacements in `outer` are made, whatever is asked for
behind. -/
def Sweeps (first last : Nat) (asked outer : List Replacement) : Prop :=
  ∀ (turn cursor : Nat) (later : List Edit), cursor ≤ first → (∀ e ∈ later, last ≤ e.start) →
    ∃ made, (settle cursor (numbered turn asked ++ later)).1 = made ++ (settle last later).1 ∧
      Makes made outer

namespace Sweeps

variable {first middle last : Nat} {asked outer asked' outer' : List Replacement} {r : Replacement}

theorem nil (h : first ≤ last) : Sweeps first last [] [] := by
  intro turn cursor later hcursor hlater
  refine ⟨[], ?_, .nil⟩
  exact congrArg Prod.fst (settle_behind (fun e he => hcursor.trans (h.trans (hlater e he))) hlater)

theorem mono (h : Sweeps middle last asked outer) (hle : first ≤ middle) : Sweeps first last asked outer :=
  fun turn cursor later hcursor => h turn cursor later (hcursor.trans hle)

theorem append (h : Sweeps first middle asked outer) (h' : Sweeps middle last asked' outer')
    (hbehind : ∀ r ∈ asked', middle ≤ r.1.1) (hle : middle ≤ last) :
    Sweeps first last (asked ++ asked') (outer ++ outer') := by
  intro turn cursor later hcursor hlater
  rw [numbered_append, List.append_assoc]
  have hrest : ∀ e ∈ numbered (turn + asked.length) asked' ++ later, middle ≤ e.start := by
    intro e he
    rcases List.mem_append.mp he with he | he
    · obtain ⟨r, hr, hputs⟩ := mem_numbered he
      rw [hputs.1]
      exact hbehind r hr
    · exact hle.trans (hlater e he)
  obtain ⟨made, hmade, hmakes⟩ := h turn cursor _ hcursor hrest
  obtain ⟨made', hmade', hmakes'⟩ := h' (turn + asked.length) middle later (Nat.le_refl _) hlater
  refine ⟨made ++ made', ?_, List.rel_append hmakes hmakes'⟩
  rw [hmade, hmade', List.append_assoc]

/-- What is asked for within a replacement is deferred. -/
theorem hide (h : ∀ r' ∈ asked, r'.1.1 < r.1.2) : Sweeps r.1.1 r.1.2 (r :: asked) [r] := by
  intro turn cursor later hcursor hlater
  refine ⟨[ofReplacement turn r], ?_, .cons ⟨rfl, rfl, rfl⟩ .nil⟩
  have hwithin : ∀ e ∈ numbered (turn + 1) asked, e.start < r.1.2 := by
    intro e he
    obtain ⟨r', hr', hputs⟩ := mem_numbered he
    rw [hputs.1]
    exact h r' hr'
  have hstart : ¬ (ofReplacement turn r).start < cursor := hcursor.not_gt
  have hdeferred : (settle (ofReplacement turn r).stop (numbered (turn + 1) asked ++ later)).1 =
      (settle r.1.2 later).1 := by
    rw [show (ofReplacement turn r).stop = r.1.2 from rfl, settle_within hwithin]
  rw [numbered, List.cons_append, settle, if_neg hstart]
  exact congrArg (ofReplacement turn r :: ·) hdeferred

end Sweeps

mutual

theorem sweeps_walk (above : List Node) : ∀ n : Node, n.laid = true → Place.Wide g (Place.walk above n) →
    Sweeps n.start n.stop ((Place.walk above n).filterMap (·.replacement? g)) (Place.outermost g above n)
  | .mk role kind start stop children => by
    intro hlaid hwide
    have hbelow : Place.Wide g (Place.walkAll (.mk role kind start stop children :: above) children) :=
      fun p hp => hwide p (List.mem_cons_of_mem _ hp)
    rw [Place.walk, Place.outermost]
    cases hreplaced : Place.replacement? g ⟨.mk role kind start stop children, above⟩ with
    | none =>
      rw [List.filterMap_cons_none hreplaced]
      exact sweeps_walkAll _ start stop children hlaid hbelow
    | some r =>
      rw [List.filterMap_cons_some hreplaced]
      have hrange := Place.range_replacement? hreplaced
      have hsweeps : Sweeps r.1.1 r.1.2 _ [r] := Sweeps.hide fun r' hr' => by
        obtain ⟨p, hp, hrange', hlt⟩ := Place.wide_replacements hbelow r' hr'
        rw [hrange, hrange']
        exact hlt.trans_le (Place.walkAll_inside _ start stop children hlaid p hp).2.2
      rw [hrange] at hsweeps
      exact hsweeps

theorem sweeps_walkAll (above : List Node) (first last : Nat) : ∀ ns : List Node,
    Node.laidAll first last ns = true → Place.Wide g (Place.walkAll above ns) →
      Sweeps first last ((Place.walkAll above ns).filterMap (·.replacement? g))
        (Place.outermostAll g above ns)
  | [] => fun hlaid _ => Sweeps.nil (Node.le_of_laidAll _ _ _ hlaid)
  | n :: rest => by
    intro hlaid hwide
    obtain ⟨hfirst, hn, hrest⟩ := Node.laidAll_cons.mp hlaid
    rw [Place.walkAll] at hwide
    rw [Place.walkAll, Place.outermostAll, List.filterMap_append]
    have hbelow : Place.Wide g (Place.walkAll above rest) := fun p hp => hwide p (List.mem_append_right _ hp)
    refine Sweeps.append (Sweeps.mono ?_ hfirst)
      (sweeps_walkAll above n.stop last rest hrest hbelow) ?_ (Node.le_of_laidAll _ _ _ hrest)
    · split
      · rename_i hnamed
        rw [if_pos hnamed] at hwide
        exact sweeps_walk above n hn fun p hp => hwide p (List.mem_append_left _ hp)
      · exact Sweeps.nil (Node.start_le_stop_of_laid n hn)
    · intro r hr
      obtain ⟨p, hp, hrange, -⟩ := Place.wide_replacements hbelow r hr
      rw [hrange]
      exact (Place.walkAll_inside above n.stop last rest hrest p hp).1

end

/-- What is spliced is in the ranges and the texts alone. -/
theorem splice_of_makes {source : ByteArray} {rs : List Replacement} (h : Makes es rs) :
    splice source cursor es = splice source cursor (numbered turn rs) := by
  induction h generalizing cursor turn with
  | nil => rfl
  | cons hputs _ ih =>
    obtain ⟨hstart, hstop, htext⟩ := hputs
    rw [numbered, splice, splice, hstart, hstop, htext, ih]
    rfl

end Edit

namespace Document

variable {d : Document} {g : Place → Option String}

/-- The text with the outermost nodes replaced for which there is a text. -/
def replaced (d : Document) (g : Place → Option String) : ByteArray :=
  Edit.splice d.source 0 (Edit.numbered 0 (Place.outermost g [] d.root))

/-- A block of replacements makes the outermost ones. -/
theorem outcome_holding (generation : Nat) (hlaid : d.root.laid = true) (hwide : Place.Wide g d.places)
    (hdistinct : ((d.places.filterMap (·.replacement? g)).map Prod.fst).Nodup) :
    (Batch.holding generation (d.places.filterMap (·.replacement? g))).outcome d.source = d.replaced g ∧
      (Batch.holding generation (d.places.filterMap (·.replacement? g))).spent.applied =
        (Place.outermost g [] d.root).length := by
  have hleads := Place.leads_replacements hwide (Place.walk_precedes [] d.root hlaid) hdistinct
  have hranges : ∀ r ∈ d.places.filterMap (·.replacement? g), r.1.1 < r.1.2 := by
    intro r hr
    obtain ⟨p, -, hrange, hlt⟩ := Place.wide_replacements hwide r hr
    rw [hrange]
    exact hlt
  obtain ⟨made, hmade, hmakes⟩ := Edit.sweeps_walk [] d.root hlaid hwide 0 0 [] (Nat.zero_le _)
    (List.forall_mem_nil _)
  rw [List.append_nil, Edit.settle, List.append_nil] at hmade
  have hsettled : (Batch.holding generation (d.places.filterMap (·.replacement? g))).settled.1 = made := by
    unfold Batch.settled Batch.holding
    dsimp only
    rw [Edit.sorted_numbered hranges hleads]
    exact hmade
  constructor
  · unfold Batch.outcome replaced
    rw [hsettled]
    exact Edit.splice_of_makes hmakes
  · unfold Batch.spent
    rw [hsettled]
    exact hmakes.length_eq

end Document

end TestMigration
