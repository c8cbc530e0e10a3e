import TestMigration.Proofs.Annotating
import TestMigration.Proofs.Gathering

/-! Searches below what searches found. A walk meets each node before those below it and goes below it at once,
so what is found below nodes of a walk, without repeats, is in the order of the walk again, and a chain of
searches lists the nodes that are reached by way of matching ones, each of them once. -/

namespace TestMigration

open Script (Node Kind Field Place)

namespace Script.Place

/-! ## What a walk meets -/

section Walks

variable {P : Place → Prop}

mutual

/-- What holds of a node and passes on to named children holds of everything that a walk meets. -/
theorem walk_all (hchild : ∀ p, P p → ∀ c ∈ p.node.children, c.kind.isNamed = true → P (p.child c))
    (above : List Node) : ∀ n : Node, P ⟨n, above⟩ → ∀ q ∈ walk above n, P q
  | .mk role kind start stop children => by
    intro hn q hq
    rw [walk] at hq
    rcases List.mem_cons.mp hq with rfl | hq
    · exact hn
    · exact walkAll_all hchild _ children (fun c hc hnamed => hchild _ hn c hc hnamed) q hq

theorem walkAll_all (hchild : ∀ p, P p → ∀ c ∈ p.node.children, c.kind.isNamed = true → P (p.child c))
    (above : List Node) : ∀ ns : List Node, (∀ n ∈ ns, n.kind.isNamed = true → P ⟨n, above⟩) →
      ∀ q ∈ walkAll above ns, P q
  | [] => fun _ _ hq => nomatch hq
  | n :: rest => by
    intro hns q hq
    obtain ⟨hn, hrest⟩ := List.forall_mem_cons.mp hns
    rw [walkAll] at hq
    rcases List.mem_append.mp hq with hq | hq
    · split at hq
      · rename_i hnamed
        exact walk_all hchild above n (hn hnamed) q hq
      · cases hq
    · exact walkAll_all hchild above rest hrest q hq

end

end Walks

/-- The place is the other one or lies below it. -/
def Under (q p : Place) : Prop := q = p ∨ p ∈ q.ancestors

variable {root : Node} {p q : Place}

theorem Under.child (h : q.Under p) (c : Node) : (q.child c).Under p := by
  rcases h with rfl | h
  · exact .inr List.mem_cons_self
  · exact .inr (List.mem_cons_of_mem _ h)

theorem under_of_mem_descendants (h : q ∈ p.descendants) : q.Under p :=
  walk_all (P := fun q => q.Under p) (fun _ hq c _ _ => hq.child c) p.above p.node (.inl rfl) q h

theorem descendants_subset (hq : q ∈ p.descendants) : ∀ r ∈ q.descendants, r ∈ p.descendants :=
  walk_all (P := fun r => r ∈ p.descendants) (child_mem_walk p.node p.above) q.above q.node hq

theorem within_under (hq : q.Within root) : q.Under (.root root) := by
  induction hq with
  | root => exact .inl rfl
  | child _ _ ih => exact ih.child _

/-! ## The order of a walk -/

theorem length_of_mem_ancestorsOf {above : List Node} (h : p ∈ ancestorsOf above) :
    p.above.length < above.length := by
  induction above with
  | nil => cases h
  | cons n above ih =>
    rcases List.mem_cons.mp h with rfl | h
    · exact Nat.lt_succ_self _
    · exact (ih h).trans (Nat.lt_succ_self _)

theorem length_of_mem_walkAll {above : List Node} {ns : List Node} (h : q ∈ walkAll above ns) :
    above.length ≤ q.above.length :=
  walkAll_all (P := fun q => above.length ≤ q.above.length) (fun _ hp _ _ _ => Nat.le_succ_of_le hp) above ns
    (fun _ _ _ => Nat.le_refl _) q h

/-- What is met among the children of a node lies below it. -/
theorem ancestor_of_mem_walkAll {n : Node} {above ns : List Node} (h : q ∈ walkAll (n :: above) ns) :
    ⟨n, above⟩ ∈ q.ancestors :=
  walkAll_all (P := fun q => ⟨n, above⟩ ∈ q.ancestors) (fun _ hp _ _ _ => List.mem_cons_of_mem _ hp)
    (n :: above) ns (fun _ _ _ => List.mem_cons_self) q h

mutual

/-- Of two nodes of a walk the first ends before the second begins, or is around it. -/
theorem walk_ordered (above : List Node) : ∀ n : Node, n.laid = true → (walk above n).Pairwise fun p q =>
    p.node.stop ≤ q.node.start ∨ p ∈ q.ancestors
  | .mk role kind start stop children => by
    intro h
    rw [walk]
    exact List.pairwise_cons.mpr ⟨fun q hq => .inr (ancestor_of_mem_walkAll hq),
      walkAll_ordered _ start stop children h⟩

theorem walkAll_ordered (above : List Node) (first last : Nat) : ∀ ns : List Node,
    Node.laidAll first last ns = true → (walkAll above ns).Pairwise fun p q =>
      p.node.stop ≤ q.node.start ∨ p ∈ q.ancestors
  | [] => fun _ => .nil
  | n :: rest => by
    intro h
    obtain ⟨-, hn, hrest⟩ := Node.laidAll_cons.mp h
    rw [walkAll]
    refine List.pairwise_append.mpr ⟨?_, walkAll_ordered above n.stop last rest hrest,
      fun p hp q hq => .inl (walk_before_rest hn hrest hp hq)⟩
    split
    · exact walk_ordered above n hn
    · exact .nil

end

mutual

/-- No node of a walk is met after one below it. -/
theorem walk_downward (above : List Node) : ∀ n : Node, (walk above n).Nodup →
    (walk above n).Pairwise fun p q => q ∉ p.ancestors
  | .mk role kind start stop children => by
    intro h
    rw [walk] at h ⊢
    refine List.pairwise_cons.mpr ⟨fun q hq hmem => ?_, walkAll_downward _ children (List.nodup_cons.mp h).2⟩
    have hdown := length_of_mem_ancestorsOf (ancestor_of_mem_walkAll hq)
    exact absurd (length_of_mem_ancestorsOf hmem) (Nat.lt_asymm hdown)

theorem walkAll_downward (above : List Node) : ∀ ns : List Node, (walkAll above ns).Nodup →
    (walkAll above ns).Pairwise fun p q => q ∉ p.ancestors
  | [] => fun _ => .nil
  | n :: rest => by
    intro h
    rw [walkAll] at h ⊢
    obtain ⟨hn, hrest, hapart⟩ := List.nodup_append.mp h
    refine List.pairwise_append.mpr ⟨?_, walkAll_downward above rest hrest, fun p hp q hq hmem => ?_⟩
    · split
      · rename_i hnamed
        rw [if_pos hnamed] at hn
        exact walk_downward above n hn
      · exact .nil
    · split at hp
      · rename_i hnamed
        rw [if_pos hnamed] at hapart
        rcases ancestor_of_walk above n p hp q hmem with hsame | hout
        · exact hapart q hsame q hq rfl
        · exact absurd (length_of_mem_ancestorsOf hout) (Nat.not_lt.mpr (length_of_mem_walkAll hq))
      · cases hp

end

end Script.Place

/-! ## Lists without repeats -/

namespace MatchSet

theorem distinct_append (as bs : List Handle) : distinct (as ++ bs) =
    distinct as ++ distinct (bs.filter fun h => !(distinct as).any h.same) := by
  -- What is known from before stays behind what is kept, whatever is kept in front of it.
  have hloop : ∀ bs kept known : List Handle,
      bs.foldl (fun kept h => if kept.any h.same then kept else h :: kept) (kept ++ known) =
        (bs.filter fun h => !known.any h.same).foldl
          (fun kept h => if kept.any h.same then kept else h :: kept) kept ++ known := by
    intro bs
    induction bs with
    | nil => exact fun _ _ => rfl
    | cons h bs ih =>
      intro kept known
      rw [List.foldl_cons, List.any_append, List.filter_cons]
      cases hknown : known.any h.same with
      | true =>
        rw [Bool.or_true, if_pos rfl, if_neg (by decide), ih]
      | false =>
        rw [Bool.or_false, Bool.not_false, if_pos rfl, List.foldl_cons]
        cases kept.any h.same with
        | true => exact ih kept known
        | false => exact ih (h :: kept) known
  unfold distinct
  rw [List.foldl_append, ← List.nil_append (List.foldl _ [] as), hloop, List.reverse_append]
  simp only [List.nil_append, List.any_reverse]

theorem distinct_sublist (hs : List Handle) : (distinct hs).Sublist hs := by
  have hloop : ∀ hs kept : List Handle,
      (hs.foldl (fun kept h => if kept.any h.same then kept else h :: kept) kept).reverse.Sublist
        (kept.reverse ++ hs) := by
    intro hs
    induction hs with
    | nil => exact fun kept => by rw [List.append_nil]; exact .refl _
    | cons h hs ih =>
      intro kept
      rw [List.foldl_cons]
      split
      · exact (ih kept).trans ((List.Sublist.refl _).append (List.sublist_cons_self h hs))
      · refine (ih (h :: kept)).trans ?_
        rw [List.reverse_cons, List.append_assoc, List.singleton_append]
  exact hloop hs []

end MatchSet

/-! ## Well-formed trees -/

namespace Script.Node

mutual

/-- Tokens have no children. -/
def tokensBare : Node → Bool
  | mk _ kind _ _ children => (kind.isNamed || children.isEmpty) && tokensBareAll children

def tokensBareAll : List Node → Bool
  | [] => true
  | n :: rest => tokensBare n && tokensBareAll rest

end

theorem tokensBare_child {n c : Node} (h : n.tokensBare = true) (hc : c ∈ n.children) :
    n.kind.isNamed = true ∧ c.tokensBare = true := by
  have hall : ∀ ns : List Node, tokensBareAll ns = true → c ∈ ns → c.tokensBare = true := by
    intro ns
    induction ns with
    | nil => exact fun _ hc => absurd hc List.not_mem_nil
    | cons n rest ih =>
      intro h hc
      obtain ⟨hn, hrest⟩ := Bool.and_eq_true_iff.mp h
      rcases List.mem_cons.mp hc with rfl | hc
      · exact hn
      · exact ih hrest hc
  obtain ⟨role, kind, start, stop, children⟩ := n
  obtain ⟨hnamed, hchildren⟩ := Bool.and_eq_true_iff.mp h
  refine ⟨(Bool.or_eq_true_iff.mp hnamed).resolve_right fun hempty => ?_, hall children hchildren hc⟩
  rw [List.isEmpty_iff.mp hempty] at hc
  cases hc

end Script.Node

namespace Script.Place

variable {root : Node} {p q : Place}

theorem tokensBare_of_within (hroot : root.tokensBare = true) (hp : p.Within root) : p.node.tokensBare = true := by
  induction hp with
  | root => exact hroot
  | child _ hn ih => exact (Node.tokensBare_child ih hn).2

theorem mem_descendants_iff (hroot : root.tokensBare = true) (hq : q.Within root)
    (hnamed : q.node.kind.isNamed = true) : q ∈ p.descendants ↔ q.Under p := by
  refine ⟨under_of_mem_descendants, fun h => ?_⟩
  induction hq with
  | root =>
    rcases h with rfl | h
    · exact mem_walk _ _
    · cases h
  | @child r c hr hc ih =>
    rcases h with rfl | h
    · exact mem_walk _ _
    · have hunder : r.Under p := (List.mem_cons.mp h).imp Eq.symm id
      have hmem := ih (Node.tokensBare_child (tokensBare_of_within hroot hr) hc).1 hunder
      exact child_mem_walk p.node p.above r hmem c hc hnamed

end Script.Place

namespace Document

/-- Nodes lie in order in the nodes around them, tokens are leaves, and no two named nodes have the same
range and kind. -/
structure WellFormed (d : Document) : Prop where
  named : d.root.kind.isNamed = true
  laid : d.root.laid = true
  bare : d.root.tokensBare = true
  distinct : (d.places.map fun p => (p.node.range, p.node.kind)).Nodup

/-- The named nodes of the tree. -/
def Named (d : Document) (p : Place) : Prop := p.Within d.root ∧ p.node.kind.isNamed = true

variable {d : Document} {p q : Place}

theorem WellFormed.mem_places_iff (h : d.WellFormed) : p ∈ d.places ↔ d.Named p := by
  constructor
  · intro hp
    refine ⟨within_of_mem_places hp, ?_⟩
    exact Place.walk_all (P := fun p => p.node.kind.isNamed = true) (fun _ _ _ _ hnamed => hnamed) [] d.root
      h.named p hp
  · rintro ⟨hp, hnamed⟩
    exact (Place.mem_descendants_iff h.bare hp hnamed).mpr (Place.within_under hp)

theorem WellFormed.eq_of_same (h : d.WellFormed) (hp : p ∈ d.places) (hq : q ∈ d.places)
    (hsame : (d.handle p).same (d.handle q) = true) : p = q := by
  refine List.inj_on_of_nodup_map h.distinct hp hq ?_
  unfold Handle.same at hsame
  simp only [Bool.and_eq_true, beq_iff_eq] at hsame
  exact Prod.ext (Prod.ext hsame.1.1.2 hsame.1.2) hsame.2

/-! ## What is found below some nodes -/

/-- The nodes below the given ones that pass the test, those that are reached twice included. -/
def below (d : Document) (test : Place → Bool) (ps : List Place) : List Handle :=
  ((ps.flatMap Place.descendants).filter test).map d.handle

variable {test : Place → Bool} {ps : List Place}

theorem below_append (d : Document) (test : Place → Bool) (ps qs : List Place) :
    d.below test (ps ++ qs) = d.below test ps ++ d.below test qs := by
  unfold below
  rw [List.flatMap_append, List.filter_append, List.map_append]

theorem filter_below (d : Document) (test : Place → Bool) (keep : Handle → Bool) (ps : List Place) :
    (d.below test ps).filter keep = d.below (fun p => test p && keep (d.handle p)) ps := by
  unfold below
  rw [List.filter_map, List.filter_filter]
  congr 2
  funext p
  exact Bool.and_comm _ _

theorem mem_below {h : Handle} : h ∈ d.below test ps ↔
    ∃ q, (∃ p ∈ ps, q ∈ p.descendants) ∧ test q = true ∧ h = d.handle q := by
  unfold below
  rw [List.mem_map]
  constructor
  · rintro ⟨q, hq, rfl⟩
    obtain ⟨hq, htest⟩ := List.mem_filter.mp hq
    exact ⟨q, List.mem_flatMap.mp hq, htest, rfl⟩
  · rintro ⟨q, hq, htest, rfl⟩
    exact ⟨q, List.mem_filter.mpr ⟨List.mem_flatMap.mpr hq, htest⟩, rfl⟩

/-- Below a node lies everything that is found below nodes within it. -/
theorem distinct_below_cons (hps : ∀ p ∈ ps, p ∈ q.descendants) :
    MatchSet.distinct (d.below test (q :: ps)) = MatchSet.distinct (d.below test [q]) := by
  have hnone : (d.below test ps).filter (fun h => !(MatchSet.distinct (d.below test [q])).any h.same) = [] := by
    refine List.filter_eq_nil_iff.mpr fun h hh => ?_
    obtain ⟨r, ⟨p, hp, hr⟩, htest, hplace⟩ := mem_below.mp hh
    have hmem : h ∈ d.below test [q] :=
      mem_below.mpr
        ⟨r, ⟨q, List.mem_singleton_self q, Place.descendants_subset (hps p hp) r hr⟩, htest, hplace⟩
    obtain ⟨k, hk, hsame⟩ := exists_same_distinct hmem
    rw [List.any_eq_true.mpr ⟨k, hk, hsame⟩]
    decide
  rw [← List.singleton_append, below_append, MatchSet.distinct_append, hnone]
  exact List.append_nil _

theorem distinct_below_singleton (d : Document) (test : Place → Bool) (q : Place) :
    (MatchSet.distinct (d.below test [q])).Sublist (q.descendants.map d.handle) := by
  refine (MatchSet.distinct_sublist _).trans ?_
  unfold below
  rw [List.flatMap_singleton]
  exact List.filter_sublist.map _

mutual

/-- What is found below nodes of a walk, each node once, is in the order of the walk. -/
theorem sublist_walk (d : Document) (above : List Node) : ∀ (n : Node) (test : Place → Bool) (ps : List Place),
    ps.Sublist (Place.walk above n) →
      (MatchSet.distinct (d.below test ps)).Sublist ((Place.walk above n).map d.handle)
  | .mk role kind start stop children, test, ps, hps => by
    rw [Place.walk] at hps
    cases hps with
    | cons _ hps =>
      rw [Place.walk, List.map_cons]
      exact (sublist_walkAll d _ children test ps hps).cons _
    | cons_cons _ hrest =>
      rw [distinct_below_cons]
      · exact distinct_below_singleton d test ⟨.mk role kind start stop children, above⟩
      · intro p hp
        change p ∈ Place.walk above (.mk role kind start stop children)
        rw [Place.walk]
        exact List.mem_cons_of_mem _ (hrest.subset hp)

theorem sublist_walkAll (d : Document) (above : List Node) : ∀ (ns : List Node) (test : Place → Bool)
    (ps : List Place), ps.Sublist (Place.walkAll above ns) →
      (MatchSet.distinct (d.below test ps)).Sublist ((Place.walkAll above ns).map d.handle)
  | [], test, ps, hps => by
    rw [List.sublist_nil.mp hps]
    exact List.nil_sublist _
  | n :: rest, test, ps, hps => by
    rw [Place.walkAll] at hps ⊢
    obtain ⟨firsts, others, rfl, hfirsts, hothers⟩ := List.sublist_append_iff.mp hps
    rw [below_append, MatchSet.distinct_append, filter_below, List.map_append]
    refine List.Sublist.append ?_ (sublist_walkAll d above rest _ others hothers)
    split
    · rename_i hnamed
      rw [if_pos hnamed] at hfirsts
      exact sublist_walk d above n test firsts hfirsts
    · rename_i hnamed
      rw [if_neg hnamed] at hfirsts
      rw [List.sublist_nil.mp hfirsts]
      exact List.nil_sublist _

end

/-- The nodes that are found below nodes in document order are in document order again. -/
theorem WellFormed.exists_found (h : d.WellFormed) (test : Place → Bool) (hps : ps.Sublist d.places) :
    ∃ qs : List Place, qs.Sublist d.places ∧ MatchSet.distinct (d.below test ps) = qs.map d.handle ∧
      ∀ q, q ∈ qs ↔ (∃ p ∈ ps, q ∈ p.descendants) ∧ test q = true := by
  obtain ⟨qs, hqs, heq⟩ := List.sublist_map_iff.mp (sublist_walk d [] d.root test ps hps)
  have hplaces : ∀ q, (∃ p ∈ ps, q ∈ p.descendants) → q ∈ d.places := by
    rintro q ⟨p, hp, hq⟩
    exact Place.descendants_subset (hps.subset hp) q hq
  refine ⟨qs, hqs, heq, fun q => ⟨fun hq => ?_, fun ⟨hbelow, htest⟩ => ?_⟩⟩
  · have hmem : d.handle q ∈ MatchSet.distinct (d.below test ps) := heq ▸ List.mem_map_of_mem hq
    obtain ⟨r, hr, htest, hplace⟩ := mem_below.mp (mem_of_mem_distinct hmem)
    obtain rfl : q = r := congrArg Handle.place hplace
    exact ⟨hr, htest⟩
  · obtain ⟨k, hk, hsame⟩ := exists_same_distinct (mem_below.mpr ⟨q, hbelow, htest, rfl⟩)
    rw [heq] at hk
    obtain ⟨r, hr, rfl⟩ := List.mem_map.mp hk
    rwa [h.eq_of_same (hplaces q hbelow) (hqs.subset hr) hsame]

end Document

/-! ## Patterns that answer -/

namespace Pattern

mutual

/-- What the pattern asks besides the form of a node is answered at every node of the tree. -/
def Answers (d : Document) : Pattern → Prop
  | mk _ _ fields leading _ also =>
    FieldsAnswer d fields ∧ LeadingAnswer d leading ∧
      ∀ test, also = some test → ∀ p : Place, p.Within d.root → ∃ b, test (d.handle p) d = .ok b

def LeadingAnswer (d : Document) : Option (List Pattern) → Prop
  | none => True
  | some patterns => ArgumentsAnswer d patterns

def FieldsAnswer (d : Document) : List (Field × Pattern) → Prop
  | [] => True
  | (_, p) :: rest => p.Answers d ∧ FieldsAnswer d rest

def ArgumentsAnswer (d : Document) : List Pattern → Prop
  | [] => True
  | p :: rest => p.Answers d ∧ ArgumentsAnswer d rest

end

variable {d : Document}

mutual

/-- A pattern that answers holds of a node or does not. -/
theorem Answers.holdsOf (hd : d.Legible) : ∀ pattern : Pattern, pattern.Answers d →
    ∀ p : Place, p.Within d.root → ∃ b, pattern.holdsOf (d.handle p) d = .ok b
  | mk kinds text fields leading count also, h, p, hp => by
    obtain ⟨hfields, hleading, halso⟩ := h
    obtain ⟨fielded, hfielded⟩ := FieldsAnswer.fieldsHold hd fields hfields p hp
    obtain ⟨led, hled⟩ :=
      LeadingAnswer.leadingHold hd leading hleading p.callArguments fun q hq => hp.argument hq
    obtain ⟨asked, hasked⟩ : ∃ asked, alsoHolds also (d.handle p) d = .ok asked := by
      cases also with
      | none => exact ⟨true, rfl⟩
      | some test => exact halso test rfl p hp
    exact ⟨_, holdsOf_handle hd hp hfielded hled hasked⟩

theorem LeadingAnswer.leadingHold (hd : d.Legible) : ∀ leading : Option (List Pattern),
    LeadingAnswer d leading → ∀ ps : List Place, (∀ p ∈ ps, p.Within d.root) →
      ∃ b, leadingHold leading (ps.map d.handle) d = .ok b
  | none, _, _, _ => ⟨true, rfl⟩
  | some patterns, h, ps, hps => ArgumentsAnswer.argumentsHold hd patterns h ps hps

theorem FieldsAnswer.fieldsHold (hd : d.Legible) : ∀ fields : List (Field × Pattern), FieldsAnswer d fields →
    ∀ p : Place, p.Within d.root → ∃ b, fieldsHold fields (d.handle p) d = .ok b
  | [], _, p, _ => ⟨true, fieldsHold_nil (d.handle p)⟩
  | (f, pattern) :: rest, h, p, hp => by
    rw [Pattern.fieldsHold]
    refine answers_option (Handle.field?_handle f) ⟨false, rfl⟩ fun q hq => ?_
    obtain ⟨b, hb⟩ := Answers.holdsOf hd pattern h.1 q (hp.field? hq)
    exact answers_test hb ⟨false, rfl⟩ (FieldsAnswer.fieldsHold hd rest h.2 p hp)

theorem ArgumentsAnswer.argumentsHold (hd : d.Legible) : ∀ patterns : List Pattern,
    ArgumentsAnswer d patterns → ∀ ps : List Place, (∀ p ∈ ps, p.Within d.root) →
      ∃ b, argumentsHold patterns (ps.map d.handle) d = .ok b
  | [], _, _, _ => by
    rw [Pattern.argumentsHold]
    exact ⟨true, rfl⟩
  | pattern :: rest, h, [], _ => by
    rw [List.map_nil, Pattern.argumentsHold]
    exact ⟨false, rfl⟩
  | pattern :: rest, h, p :: ps, hps => by
    obtain ⟨hp, hps⟩ := List.forall_mem_cons.mp hps
    rw [List.map_cons, Pattern.argumentsHold]
    obtain ⟨b, hb⟩ := Answers.holdsOf hd pattern h.1 p hp
    exact answers_test hb ⟨false, rfl⟩ (ArgumentsAnswer.argumentsHold hd rest h.2 ps hps)

end

end Pattern

/-! ## Chains of searches -/

namespace MatchSet

/-- What is found below a node for a pattern, below the members of that for the next one, and so on. -/
def chain (root : Handle) (pattern : Pattern) (patterns : List Pattern) : MatchSet :=
  patterns.foldl .inside (.within [root] pattern)

/-- The set has the handles of these nodes as its members, in document order. -/
structure Lists (set : MatchSet) (d : Document) (ps : List Place) : Prop where
  members : set.members d = .ok (ps.map d.handle)
  first : set.first? d = .ok (ps.head?.map d.handle)
  inOrder : ps.Sublist d.places

end MatchSet

namespace Document

/-- The node is reached from another one by nodes that match the patterns in turn, each of them the one before
it or a named node below that. -/
def Chained (d : Document) : List Pattern → Place → Place → Prop
  | [], p, n => n = p
  | pattern :: rest, p, n => ∃ q, d.Named q ∧ q.Under p ∧ pattern.holdsOf (d.handle q) d = .ok true ∧
      d.Chained rest q n

variable {d : Document} {pattern : Pattern} {patterns : List Pattern} {test : Place → Bool} {p n : Place}
  {ps : List Place} {set : MatchSet}

theorem candidates_handle (ps : List Place) : (ps.map d.handle).mapM (·.descendants) d =
    .ok (ps.map fun p => p.descendants.map d.handle) := by
  have h : ∀ k ∈ ps.map d.handle, k.descendants d = .ok (k.place.descendants.map d.handle) := by
    intro k hk
    obtain ⟨p, -, rfl⟩ := List.mem_map.mp hk
    exact Handle.descendants_handle
  rw [mapM_eq h, List.map_map]
  rfl

theorem flatten_candidates (ps : List Place) :
    (ps.map fun p => p.descendants.map d.handle).flatten = (ps.flatMap Place.descendants).map d.handle := by
  rw [List.map_flatMap]
  rfl

/-- The candidates that match, and the first of them. -/
theorem matching_candidates (hps : ∀ p ∈ ps, p.Within d.root)
    (htest : ∀ p, p.Within d.root → pattern.holdsOf (d.handle p) d = .ok (test p)) :
    (ps.map fun p => p.descendants.map d.handle).flatten.filterM pattern.holdsOf d = .ok (d.below test ps) ∧
      (ps.map fun p => p.descendants.map d.handle).flatten.findM? pattern.holdsOf d =
        .ok (d.below test ps).head? := by
  have h : ∀ k ∈ (ps.flatMap Place.descendants).map d.handle,
      pattern.holdsOf k d = .ok ((fun k : Handle => test k.place) k) := by
    intro k hk
    obtain ⟨q, hq, rfl⟩ := List.mem_map.mp hk
    obtain ⟨p, hp, hq⟩ := List.mem_flatMap.mp hq
    exact htest q ((hps p hp).descendants hq)
  have hbelow : ((ps.flatMap Place.descendants).map d.handle).filter (fun k => test k.place) = d.below test ps := by
    rw [List.filter_map]
    rfl
  rw [flatten_candidates, filterM_eq h, findM?_eq h, ← List.head?_filter, hbelow]
  exact ⟨rfl, rfl⟩

theorem WellFormed.exists_lists (h : d.WellFormed) (hps : ps.Sublist d.places)
    (htest : ∀ p, p.Within d.root → pattern.holdsOf (d.handle p) d = .ok (test p))
    (hmembers : set.members d = .ok (MatchSet.distinct (d.below test ps)))
    (hfirst : set.first? d = .ok (d.below test ps).head?) :
    ∃ qs, set.Lists d qs ∧ ∀ n, n ∈ qs ↔ ∃ p ∈ ps, d.Chained [pattern] p n := by
  obtain ⟨qs, hqs, heq, hmem⟩ := h.exists_found test hps
  refine ⟨qs, ⟨by rw [hmembers, heq], ?_, hqs⟩, fun n => ?_⟩
  · rw [hfirst, ← head?_distinct, heq, List.head?_map]
  · rw [hmem]
    constructor
    · rintro ⟨⟨p, hp, hn⟩, hholds⟩
      have hnamed := h.mem_places_iff.mp (Place.descendants_subset (hps.subset hp) n hn)
      exact ⟨p, hp, n, hnamed, Place.under_of_mem_descendants hn, by rw [htest n hnamed.1, hholds], rfl⟩
    · rintro ⟨p, hp, q, hnamed, hunder, hholds, rfl⟩
      rw [htest n hnamed.1] at hholds
      exact ⟨⟨p, hp, (Place.mem_descendants_iff h.bare hnamed.1 hnamed.2).mpr hunder⟩, Except.ok.inj hholds⟩

theorem exists_test (hd : d.Legible) (hanswers : pattern.Answers d) :
    ∃ test : Place → Bool, ∀ p, p.Within d.root → pattern.holdsOf (d.handle p) d = .ok (test p) := by
  refine ⟨fun p => (pattern.holdsOf (d.handle p) d).toOption.getD false, fun p hp => ?_⟩
  obtain ⟨b, hb⟩ := Pattern.Answers.holdsOf hd pattern hanswers p hp
  dsimp only
  rw [hb]
  rfl

/-- The first search, from the root of the tree. -/
theorem WellFormed.lists_within (h : d.WellFormed) (hd : d.Legible) (hanswers : pattern.Answers d) :
    ∃ qs, (MatchSet.within [d.handle (.root d.root)] pattern).Lists d qs ∧
      ∀ n, n ∈ qs ↔ d.Chained [pattern] (.root d.root) n := by
  obtain ⟨test, htest⟩ := exists_test hd hanswers
  have hroot : [Place.root d.root].Sublist d.places :=
    List.singleton_sublist.mpr (h.mem_places_iff.mpr ⟨.root, h.named⟩)
  have hcandidates := candidates_handle (d := d) [.root d.root]
  obtain ⟨hkept, hfirst⟩ := matching_candidates (List.forall_mem_singleton.mpr .root) htest
  have hmembers : (MatchSet.within [d.handle (.root d.root)] pattern).members d =
      .ok (MatchSet.distinct (d.below test [.root d.root])) :=
    look_bind_eq hcandidates (look_bind_eq hkept rfl)
  obtain ⟨qs, hqs, hmem⟩ := h.exists_lists hroot htest hmembers (look_bind_eq hcandidates hfirst)
  refine ⟨qs, hqs, fun n => ?_⟩
  rw [hmem]
  exact ⟨fun ⟨p, hp, hn⟩ => List.mem_singleton.mp hp ▸ hn, fun hn => ⟨_, List.mem_singleton_self _, hn⟩⟩

/-- A search below the members of a set. -/
theorem WellFormed.lists_inside (h : d.WellFormed) (hd : d.Legible) (hanswers : pattern.Answers d)
    (hset : set.Lists d ps) : ∃ qs, (set.inside pattern).Lists d qs ∧
      ∀ n, n ∈ qs ↔ ∃ p ∈ ps, d.Chained [pattern] p n := by
  obtain ⟨test, htest⟩ := exists_test hd hanswers
  have hcandidates := candidates_handle (d := d) ps
  have hwithin : ∀ p ∈ ps, p.Within d.root := fun p hp => within_of_mem_places (hset.inOrder.subset hp)
  obtain ⟨hkept, hfirst⟩ := matching_candidates hwithin htest
  exact h.exists_lists hset.inOrder htest
    (look_bind_eq hset.members (look_bind_eq hcandidates (look_bind_eq hkept rfl)))
    (look_bind_eq hset.members (look_bind_eq hcandidates hfirst))

/-- A chain of searches below the members of a set. -/
theorem WellFormed.lists_foldl (h : d.WellFormed) (hd : d.Legible) (hanswers : ∀ p ∈ patterns, p.Answers d)
    (hset : set.Lists d ps) : ∃ qs, (patterns.foldl .inside set).Lists d qs ∧
      ∀ n, n ∈ qs ↔ ∃ p ∈ ps, d.Chained patterns p n := by
  induction patterns generalizing set ps with
  | nil =>
    refine ⟨ps, hset, fun n => ⟨fun hn => ⟨n, hn, rfl⟩, ?_⟩⟩
    rintro ⟨p, hp, rfl⟩
    exact hp
  | cons pattern patterns ih =>
    obtain ⟨hpattern, hpatterns⟩ := List.forall_mem_cons.mp hanswers
    obtain ⟨qs, hqs, hnext⟩ := h.lists_inside hd hpattern hset
    obtain ⟨rs, hrs, hrest⟩ := ih hpatterns hqs
    refine ⟨rs, hrs, fun n => ?_⟩
    rw [hrest]
    constructor
    · rintro ⟨q, hq, hn⟩
      obtain ⟨p, hp, _, hnamed, hunder, hholds, rfl⟩ := (hnext q).mp hq
      exact ⟨p, hp, q, hnamed, hunder, hholds, hn⟩
    · rintro ⟨p, hp, q, hnamed, hunder, hholds, hn⟩
      exact ⟨q, (hnext q).mpr ⟨p, hp, q, hnamed, hunder, hholds, rfl⟩, hn⟩

end Document

namespace MatchSet

/-- The set lists the goals and nothing else: each of them once, in document order with a node before those below
it, the same whenever it is asked, and so do its first member, its size and whether there is one. -/
structure Enumerates (set : MatchSet) (d : Document) (goal : Place → Prop) (hs : List Handle) : Prop where
  members : set.members d = .ok hs
  mem_iff : ∀ h, h ∈ hs ↔ ∃ n, d.Named n ∧ goal n ∧ h = d.handle n
  once : hs.Pairwise fun a b => a ≠ b ∧ b.same a = false
  ordered : hs.Pairwise fun a b =>
    (a.place.node.stop ≤ b.place.node.start ∨ a.place ∈ b.place.ancestors) ∧ b.place ∉ a.place.ancestors
  again : (do return (← set.members, ← set.members) : Looking _) d = .ok (hs, hs)
  first : set.first? d = .ok hs.head?
  size : set.size d = .ok hs.length
  nonempty : set.nonempty d = .ok (!hs.isEmpty)

end MatchSet

namespace Document

variable {d : Document}

theorem WellFormed.ordered (h : d.WellFormed) : d.places.Pairwise fun p q =>
    p ≠ q ∧ (p.node.stop ≤ q.node.start ∨ p ∈ q.ancestors) ∧ q ∉ p.ancestors := by
  have hnodup : d.places.Nodup := List.Nodup.of_map _ h.distinct
  exact hnodup.and ((Place.walk_ordered [] d.root h.laid).and (Place.walk_downward [] d.root hnodup))

theorem chained_named {pattern : Pattern} {patterns : List Pattern} {p n : Place}
    (h : d.Chained (pattern :: patterns) p n) : d.Named n := by
  induction patterns generalizing pattern p with
  | nil =>
    obtain ⟨q, hnamed, -, -, rfl⟩ := h
    exact hnamed
  | cons pattern patterns ih =>
    obtain ⟨q, -, -, -, hrest⟩ := h
    exact ih hrest

/-- In a well-formed tree a chain of searches from the root enumerates the nodes that are reached by way of nodes
that match the patterns in turn. -/
theorem chain_enumerates (hd : d.Legible) (h : d.WellFormed) (pattern : Pattern) (patterns : List Pattern)
    (hanswers : ∀ p ∈ pattern :: patterns, p.Answers d) :
    ∃ hs, (MatchSet.chain (d.handle (.root d.root)) pattern patterns).Enumerates d
      (d.Chained (pattern :: patterns) (.root d.root)) hs := by
  obtain ⟨hpattern, hpatterns⟩ := List.forall_mem_cons.mp hanswers
  obtain ⟨ps, hps, hfound⟩ := h.lists_within hd hpattern
  obtain ⟨ns, ⟨hmembers, hfirst, horder⟩, hreached⟩ := h.lists_foldl hd hpatterns hps
  have hgoal : ∀ n, n ∈ ns ↔ d.Chained (pattern :: patterns) (.root d.root) n := by
    intro n
    rw [hreached]
    constructor
    · rintro ⟨p, hp, hn⟩
      obtain ⟨_, hnamed, hunder, hholds, rfl⟩ := (hfound p).mp hp
      exact ⟨p, hnamed, hunder, hholds, hn⟩
    · rintro ⟨p, hnamed, hunder, hholds, hn⟩
      exact ⟨p, (hfound p).mpr ⟨p, hnamed, hunder, hholds, rfl⟩, hn⟩
  refine ⟨ns.map d.handle, hmembers, fun k => ?_, ?_, ?_, look_bind_eq hmembers (look_bind_eq hmembers rfl), ?_,
    look_bind_eq hmembers rfl, (look_bind_eq hfirst rfl).trans ?_⟩
  · rw [List.mem_map]
    constructor
    · rintro ⟨n, hn, rfl⟩
      exact ⟨n, chained_named ((hgoal n).mp hn), (hgoal n).mp hn, rfl⟩
    · rintro ⟨n, -, hn, rfl⟩
      exact ⟨n, (hgoal n).mpr hn, rfl⟩
  · refine List.pairwise_map.mpr ((h.ordered.sublist horder).imp_of_mem fun {p q} hp hq hpq =>
      ⟨fun heq => ?_, ?_⟩)
    · exact hpq.1 (congrArg Handle.place heq)
    · refine Bool.eq_false_iff.mpr fun hsame => hpq.1 ?_
      exact (h.eq_of_same (horder.subset hq) (horder.subset hp) hsame).symm
  · exact List.pairwise_map.mpr ((h.ordered.sublist horder).imp fun hpq => hpq.2)
  · exact hfirst.trans (congrArg Except.ok List.head?_map.symm)
  · cases ns <;> rfl

/-- Calls within calls. -/
def nestedCalls : String := "a(b(c()), b(d()));\n"

theorem chain_enumerates_nestedCalls : ∃ d hs, Document.ofString none nestedCalls = .ok d ∧ d.Legible ∧
    d.WellFormed ∧ (MatchSet.chain (d.handle (.root d.root)) (.ofKind .callExpression)
      [.callTo (.exactly "b"), .ofKind .identifier]).Enumerates d
        (d.Chained [.ofKind .callExpression, .callTo (.exactly "b"), .ofKind .identifier] (.root d.root)) hs ∧
    hs.map (fun h => d.wording h.place.node) = ["b", "c", "b", "d"] := by
  obtain ⟨d, hd, hchecks⟩ := exists_of_toOption_map (show
    (Document.ofString none nestedCalls).toOption.map (fun d =>
      (d.root.kind.isNamed && (d.root.laid && (d.root.tokensBare &&
        decide (d.places.map fun p => (p.node.range, p.node.kind)).Nodup)),
      ((MatchSet.chain (d.handle (.root d.root)) (.ofKind .callExpression)
        [.callTo (.exactly "b"), .ofKind .identifier]).members d).toOption.map
          (·.map fun h => d.wording h.place.node))) = some (true, some ["b", "c", "b", "d"]) by decide +kernel)
  obtain ⟨hform, hwords⟩ := Prod.ext_iff.mp hchecks
  simp only [Bool.and_eq_true, decide_eq_true_eq] at hform
  have hwell : d.WellFormed := ⟨hform.1, hform.2.1, hform.2.2.1, hform.2.2.2⟩
  have hlegible := legible_ofString hd
  have hkind : ∀ kind : Kind, (Pattern.ofKind kind).Answers d :=
    fun kind => ⟨trivial, trivial, fun _ h => nomatch h⟩
  have hcall : (Pattern.callTo (.exactly "b")).Answers d :=
    ⟨⟨⟨trivial, trivial, fun _ h => nomatch h⟩, trivial⟩, trivial, fun _ h => nomatch h⟩
  obtain ⟨hs, hlists⟩ := chain_enumerates hlegible hwell (.ofKind .callExpression)
    [.callTo (.exactly "b"), .ofKind .identifier] (by simp [hkind, hcall])
  refine ⟨d, hs, hd, hlegible, hwell, hlists, ?_⟩
  rw [hlists.members] at hwords
  exact Option.some.inj hwords

end Document

end TestMigration
