import TestMigration.Proofs.Recording
import TestMigration.Tree.Call

/-! Where looks at a tree lead. A place of the tree is a node with the nodes above it, down from the
root; what is found from a handle or among the members of a set is again such a place, and carries
the generation of the tree that was looked at. A handle whose own generation is another one leads
nowhere. -/

namespace TestMigration

open Script (Node Field Place)

/-! ## Places of a tree -/

namespace Script.Place

/-- The nodes above the place lead down to it from `root`. -/
inductive Within (root : Node) : Place → Prop where
  | root : Within root (.root root)
  | child {p : Place} {n : Node} (h : Within root p) (hn : n ∈ p.node.children) :
      Within root (p.child n)

variable {root : Node} {p q : Place}

theorem Within.parent? (h : Within root p) (hq : p.parent? = some q) : Within root q := by
  cases h with
  | root => cases hq
  | child h _ =>
    cases hq
    exact h

theorem Within.namedChildren (h : Within root p) (hq : q ∈ p.namedChildren) : Within root q := by
  obtain ⟨n, hn, rfl⟩ := List.mem_map.mp hq
  exact h.child (List.mem_of_mem_filter hn)

theorem Within.field? {f : Field} (h : Within root p) (hq : p.field? f = some q) :
    Within root q := by
  obtain ⟨n, hn, rfl⟩ := Option.map_eq_some_iff.mp hq
  exact h.child (List.mem_of_find?_eq_some hn)

theorem Within.ancestors (h : Within root p) (hq : q ∈ p.ancestors) : Within root q := by
  induction h with
  | root => cases hq
  | child h _ ih =>
    rcases List.mem_cons.mp hq with rfl | hq
    · exact h
    · exact ih hq

mutual

theorem Within.walk : ∀ (n : Node) (above : List Node), Within root ⟨n, above⟩ →
    ∀ q ∈ walk above n, Within root q
  | .mk role kind start stop children, above, h => by
    intro q hq
    rw [Place.walk] at hq
    rcases List.mem_cons.mp hq with rfl | hq
    · exact h
    · exact Within.walkAll children _ (fun c hc => h.child hc) q hq

theorem Within.walkAll : ∀ (ns : List Node) (above : List Node), (∀ c ∈ ns, Within root ⟨c, above⟩) →
    ∀ q ∈ walkAll above ns, Within root q
  | [], _, _ => by
    intro q hq
    cases hq
  | n :: rest, above, h => by
    intro q hq
    rw [Place.walkAll] at hq
    rcases List.mem_append.mp hq with hq | hq
    · split at hq
      · exact Within.walk n above (h n List.mem_cons_self) q hq
      · cases hq
    · exact Within.walkAll rest above (fun c hc => h c (List.mem_cons_of_mem _ hc)) q hq

end

/-- A walk begins with where it begins. -/
theorem mem_walk (n : Node) (above : List Node) : ⟨n, above⟩ ∈ walk above n := by
  cases n with
  | mk role kind start stop children =>
    rw [Place.walk]
    exact List.mem_cons_self

theorem mem_walkAll {ns : List Node} {c : Node} (above : List Node) (hc : c ∈ ns)
    (hnamed : c.kind.isNamed = true) : ⟨c, above⟩ ∈ walkAll above ns := by
  induction ns with
  | nil => cases hc
  | cons n rest ih =>
    rw [Place.walkAll]
    rcases List.mem_cons.mp hc with rfl | hc
    · rw [if_pos hnamed]
      exact List.mem_append_left _ (mem_walk c above)
    · exact List.mem_append_right _ (ih hc)

mutual

/-- A named child of what a walk meets is met as well. -/
theorem child_mem_walk : ∀ (n : Node) (above : List Node), ∀ p ∈ walk above n,
    ∀ c ∈ p.node.children, c.kind.isNamed = true → p.child c ∈ walk above n
  | .mk role kind start stop children, above => by
    intro p hp c hc hnamed
    rw [Place.walk] at hp ⊢
    refine List.mem_cons_of_mem _ ?_
    rcases List.mem_cons.mp hp with rfl | hp
    · exact mem_walkAll _ hc hnamed
    · exact child_mem_walkAll children _ p hp c hc hnamed

theorem child_mem_walkAll : ∀ (ns : List Node) (above : List Node), ∀ p ∈ walkAll above ns,
    ∀ c ∈ p.node.children, c.kind.isNamed = true → p.child c ∈ walkAll above ns
  | [], _ => by
    intro p hp
    cases hp
  | n :: rest, above => by
    intro p hp c hc hnamed
    rw [Place.walkAll] at hp ⊢
    rcases List.mem_append.mp hp with hp | hp
    · split at hp
      · rename_i hn
        rw [if_pos hn]
        exact List.mem_append_left _ (child_mem_walk n above p hp c hc hnamed)
      · cases hp
    · exact List.mem_append_right _ (child_mem_walkAll rest above p hp c hc hnamed)

end

theorem Within.descendants (h : Within root p) (hq : q ∈ p.descendants) : Within root q :=
  Within.walk p.node p.above h q hq

mutual

theorem Within.awaitedIn : ∀ (n : Node) (above : List Node), Within root ⟨n, above⟩ →
    ∀ q, Handle.awaitedIn above n = some q → Within root q
  | .mk role kind start stop children, above, h => by
    intro q hq
    rw [Handle.awaitedIn] at hq
    split at hq
    · exact Within.awaitedAmong children _ (fun c hc => h.child hc) q hq
    · cases hq
      exact h

theorem Within.awaitedAmong : ∀ (ns : List Node) (above : List Node),
    (∀ c ∈ ns, Within root ⟨c, above⟩) →
    ∀ q, Handle.awaitedAmong above ns = some q → Within root q
  | [], _, _ => by
    intro q hq
    cases hq
  | n :: rest, above, h => by
    intro q hq
    rw [Handle.awaitedAmong] at hq
    split at hq
    · exact Within.awaitedIn n above (h n List.mem_cons_self) q hq
    · exact Within.awaitedAmong rest above (fun c hc => h c (List.mem_cons_of_mem _ hc)) q hq

end

end Script.Place

/-! ## Looks at lists -/

section Lists

variable {α β : Type} {d : Document}

theorem mem_of_mapM_ok {f : α → Looking β} {as : List α} {bs : List β} (h : as.mapM f d = .ok bs) :
    ∀ b ∈ bs, ∃ a ∈ as, f a d = .ok b := by
  induction as generalizing bs with
  | nil =>
    cases h
    simp
  | cons first rest ih =>
    rw [List.mapM_cons] at h
    obtain ⟨c, hc, h⟩ := looks_bind h
    obtain ⟨cs, hcs, h⟩ := looks_bind h
    cases h
    intro b hb
    rcases List.mem_cons.mp hb with rfl | hb
    · exact ⟨first, List.mem_cons_self, hc⟩
    · obtain ⟨a, ha, hab⟩ := ih hcs b hb
      exact ⟨a, List.mem_cons_of_mem _ ha, hab⟩

theorem mem_of_findM?_ok {f : α → Looking Bool} {as : List α} {a : α}
    (h : as.findM? f d = .ok (some a)) : a ∈ as := by
  induction as with
  | nil => cases h
  | cons first rest ih =>
    obtain ⟨holds, -, h⟩ := looks_bind h
    cases holds with
    | true =>
      cases h
      exact List.mem_cons_self
    | false => exact List.mem_cons_of_mem _ (ih h)

theorem mem_of_filterM_ok {f : α → Looking Bool} {as kept : List α} (h : as.filterM f d = .ok kept) :
    ∀ a ∈ kept, a ∈ as := by
  have hloop : ∀ as kept acc, List.filterAuxM f as acc d = .ok kept →
      ∀ a ∈ kept, a ∈ as ∨ a ∈ acc := by
    intro as
    induction as with
    | nil =>
      intro kept acc h a ha
      cases h
      exact .inr ha
    | cons first rest ih =>
      intro kept acc h a ha
      obtain ⟨holds, -, h⟩ := looks_bind h
      rcases ih kept _ h a ha with hrest | hacc
      · exact .inl (List.mem_cons_of_mem _ hrest)
      · cases holds with
        | false => exact .inr hacc
        | true =>
          rcases List.mem_cons.mp hacc with rfl | hacc
          · exact .inl List.mem_cons_self
          · exact .inr hacc
  obtain ⟨kept', hkept, h⟩ := looks_bind h
  cases h
  intro a ha
  rcases hloop as kept' [] hkept a (List.mem_reverse.mp ha) with has | hnil
  · exact has
  · cases hnil

theorem mem_of_mem_distinct {h : Handle} {hs : List Handle} (hmem : h ∈ MatchSet.distinct hs) :
    h ∈ hs := by
  have hloop : ∀ hs kept : List Handle,
      h ∈ hs.foldl (fun kept h => if kept.any h.same then kept else h :: kept) kept →
        h ∈ hs ∨ h ∈ kept := by
    intro hs
    induction hs with
    | nil => exact fun kept hkept => .inr hkept
    | cons first rest ih =>
      intro kept hkept
      rcases ih _ hkept with hrest | hkept
      · exact .inl (List.mem_cons_of_mem _ hrest)
      · dsimp only at hkept
        split at hkept
        · exact .inr hkept
        · rcases List.mem_cons.mp hkept with rfl | hkept
          · exact .inl List.mem_cons_self
          · exact .inr hkept
  rcases hloop hs [] (List.mem_reverse.mp hmem) with hhs | hnil
  · exact hhs
  · cases hnil

end Lists

/-! ## Where a look leads -/

/-- The handle is one of the document's own generation, and its place is in the document's tree. -/
structure Handle.Current (d : Document) (h : Handle) : Prop where
  stamp : h.generation = d.generation
  within : h.place.Within d.root

/-- The handle may be outdated; if it is not, it stands in the tree. -/
def Handle.Standing (d : Document) (h : Handle) : Prop :=
  h.generation = d.generation → h.place.Within d.root

theorem Handle.Current.standing {d : Document} {h : Handle} (hh : h.Current d) : h.Standing d :=
  fun _ => hh.within

/-- `h'` is what a look at the tree finds from `h`. -/
inductive Handle.Leads (d : Document) (h : Handle) : Handle → Prop where
  | parent {h' : Handle} (found : h.parent? d = .ok (some h')) : Leads d h h'
  | child {hs : List Handle} {h' : Handle} (found : h.namedChildren d = .ok hs) (mem : h' ∈ hs) :
      Leads d h h'
  | field {f : Field} {h' : Handle} (found : h.field? f d = .ok (some h')) : Leads d h h'
  | ancestor {hs : List Handle} {h' : Handle} (found : h.ancestors d = .ok hs) (mem : h' ∈ hs) :
      Leads d h h'
  | descendant {hs : List Handle} {h' : Handle} (found : h.descendants d = .ok hs) (mem : h' ∈ hs) :
      Leads d h h'
  | closest {p : Pattern} {h' : Handle} (found : h.closest? p d = .ok (some h')) : Leads d h h'
  | argument {hs : List Handle} {h' : Handle} (found : callArguments h d = .ok hs) (mem : h' ∈ hs) :
      Leads d h h'
  | receiver {h' : Handle} (found : h.receiver? d = .ok (some h')) : Leads d h h'
  | awaited {h' : Handle} (found : h.awaited? d = .ok (some h')) : Leads d h h'
  | moduleLiteral {h' : Handle} (found : h.moduleLiteral? d = .ok (some h')) : Leads d h h'

section Looks

variable {d : Document} {h h' : Handle}

theorem on_ok {p : Place} (hon : Handle.on p d = .ok h) : h = ⟨d.generation, p⟩ := by
  cases hon
  rfl

theorem mem_of_onAll {ps : List Place} {hs : List Handle} (hon : Handle.onAll ps d = .ok hs)
    (hh : h ∈ hs) : ∃ p ∈ ps, h = ⟨d.generation, p⟩ := by
  obtain ⟨p, hp, hon⟩ := mem_of_mapM_ok hon h hh
  exact ⟨p, hp, on_ok hon⟩

theorem Handle.node_of_current (hh : h.generation = d.generation) : h.node d = .ok h.place.node := by
  change (if h.generation == d.generation then Pure.pure h.place.node else throw _ :
    Looking Node) d = _
  rw [hh, beq_self_eq_true, if_pos rfl]
  rfl

theorem Handle.generation_of_node {n : Node} (hn : h.node d = .ok n) :
    h.generation = d.generation := by
  change (if h.generation == d.generation then Pure.pure h.place.node else throw _ :
    Looking Node) d = .ok n at hn
  split at hn
  · rename_i hsame
    exact beq_iff_eq.mp hsame
  · cases hn

theorem Handle.Standing.fresh {p : Place} (hh : h.Standing d) (hp : h.fresh d = .ok p) :
    p = h.place ∧ p.Within d.root := by
  obtain ⟨n, hn, hp⟩ := looks_bind hp
  cases hp
  exact ⟨rfl, hh (Handle.generation_of_node hn)⟩

theorem root_current (hr : Handle.root d = .ok h) : h.Current d := by
  cases hr
  exact ⟨rfl, .root⟩

namespace Handle.Standing

variable {hs : List Handle} {f : Field} {p : Pattern}

theorem parent? (hh : h.Standing d) (hfound : h.parent? d = .ok (some h')) : h'.Current d := by
  obtain ⟨place, hplace, hfound⟩ := looks_bind hfound
  obtain ⟨-, hplace⟩ := hh.fresh hplace
  cases hq : place.parent? with
  | some q =>
    rw [hq] at hfound
    cases hfound
    exact ⟨rfl, hplace.parent? hq⟩
  | none =>
    rw [hq] at hfound
    cases hfound

theorem namedChildren (hh : h.Standing d) (hfound : h.namedChildren d = .ok hs) (hmem : h' ∈ hs) :
    h'.Current d := by
  obtain ⟨place, hplace, hfound⟩ := looks_bind hfound
  obtain ⟨-, hplace⟩ := hh.fresh hplace
  obtain ⟨q, hq, rfl⟩ := mem_of_onAll hfound hmem
  exact ⟨rfl, hplace.namedChildren hq⟩

theorem field? (hh : h.Standing d) (hfound : h.field? f d = .ok (some h')) : h'.Current d := by
  obtain ⟨place, hplace, hfound⟩ := looks_bind hfound
  obtain ⟨-, hplace⟩ := hh.fresh hplace
  cases hq : place.field? f with
  | some q =>
    rw [hq] at hfound
    cases hfound
    exact ⟨rfl, hplace.field? hq⟩
  | none =>
    rw [hq] at hfound
    cases hfound

theorem ancestors (hh : h.Standing d) (hfound : h.ancestors d = .ok hs) (hmem : h' ∈ hs) :
    h'.Current d := by
  obtain ⟨place, hplace, hfound⟩ := looks_bind hfound
  obtain ⟨-, hplace⟩ := hh.fresh hplace
  obtain ⟨q, hq, rfl⟩ := mem_of_onAll hfound hmem
  exact ⟨rfl, hplace.ancestors hq⟩

theorem descendants (hh : h.Standing d) (hfound : h.descendants d = .ok hs) (hmem : h' ∈ hs) :
    h'.Current d := by
  obtain ⟨place, hplace, hfound⟩ := looks_bind hfound
  obtain ⟨-, hplace⟩ := hh.fresh hplace
  obtain ⟨q, hq, rfl⟩ := mem_of_onAll hfound hmem
  exact ⟨rfl, hplace.descendants hq⟩

theorem closest? (hh : h.Standing d) (hfound : h.closest? p d = .ok (some h')) : h'.Current d := by
  obtain ⟨above, habove, hfound⟩ := looks_bind hfound
  exact hh.ancestors habove (mem_of_findM?_ok hfound)

theorem callArguments (hh : h.Standing d) (hfound : TestMigration.callArguments h d = .ok hs)
    (hmem : h' ∈ hs) : h'.Current d := by
  obtain ⟨list, hlist, hfound⟩ := looks_bind hfound
  cases list with
  | none =>
    cases hfound
    cases hmem
  | some list =>
    obtain ⟨kind, -, hfound⟩ := looks_bind hfound
    split at hfound
    · cases hfound
      cases hmem
    · obtain ⟨children, hchildren, hfound⟩ := looks_bind hfound
      cases hfound
      exact (hh.field? hlist).standing.namedChildren hchildren (List.mem_of_mem_filter hmem)

theorem receiver? (hh : h.Standing d) (hfound : h.receiver? d = .ok (some h')) : h'.Current d := by
  obtain ⟨member, hmember, hfound⟩ := looks_bind hfound
  cases member with
  | none => cases hfound
  | some member =>
    obtain ⟨callee, hcallee, hmember⟩ := looks_bind hmember
    cases callee with
    | none => cases hmember
    | some callee =>
      obtain ⟨kind, -, hmember⟩ := looks_bind hmember
      split at hmember
      · cases hmember
        exact (hh.field? hcallee).standing.field? hfound
      · cases hmember

theorem awaited? (hh : h.Standing d) (hfound : h.awaited? d = .ok (some h')) : h'.Current d := by
  obtain ⟨place, hplace, hfound⟩ := looks_bind hfound
  obtain ⟨-, hplace⟩ := hh.fresh hplace
  cases hq : Handle.awaitedIn place.above place.node with
  | some q =>
    rw [hq] at hfound
    cases hfound
    exact ⟨rfl, Place.Within.awaitedIn place.node place.above hplace q hq⟩
  | none =>
    rw [hq] at hfound
    cases hfound

theorem moduleLiteral? (hh : h.Standing d) (hfound : h.moduleLiteral? d = .ok (some h')) :
    h'.Current d := by
  obtain ⟨source, hsource, hfound⟩ := looks_bind hfound
  cases source with
  | some literal =>
    cases hfound
    exact hh.field? hsource
  | none =>
    obtain ⟨kind, -, hfound⟩ := looks_bind hfound
    split at hfound
    · cases hfound
    · obtain ⟨children, hchildren, hfound⟩ := looks_bind hfound
      exact hh.namedChildren hchildren (mem_of_findM?_ok hfound)

/-- Whatever a look finds from a handle stands in the tree that was looked at. -/
theorem leads (hh : h.Standing d) (hleads : h.Leads d h') : h'.Current d := by
  cases hleads with
  | parent found => exact hh.parent? found
  | child found mem => exact hh.namedChildren found mem
  | field found => exact hh.field? found
  | ancestor found mem => exact hh.ancestors found mem
  | descendant found mem => exact hh.descendants found mem
  | closest found => exact hh.closest? found
  | argument found mem => exact hh.callArguments found mem
  | receiver found => exact hh.receiver? found
  | awaited found => exact hh.awaited? found
  | moduleLiteral found => exact hh.moduleLiteral? found

end Handle.Standing

/-! ### Sets -/

namespace MatchSet

/-- The handles on which a set is built. -/
def roots : MatchSet → List Handle
  | within roots _ => roots
  | inside outer _ => outer.roots
  | around inner _ => inner.roots
  | filtered set _ => set.roots

theorem candidates_current {hs : List Handle} (hroots : ∀ r ∈ hs, r.Standing d)
    {found : List (List Handle)} (hfound : hs.mapM (·.descendants) d = .ok found)
    (hh : h ∈ found.flatten) : h.Current d := by
  obtain ⟨list, hlist, hh⟩ := List.mem_flatten.mp hh
  obtain ⟨r, hr, hdescend⟩ := mem_of_mapM_ok hfound list hlist
  exact (hroots r hr).descendants hdescend hh

theorem members_current : ∀ (s : MatchSet), (∀ r ∈ s.roots, r.Standing d) →
    ∀ hs, s.members d = .ok hs → ∀ h ∈ hs, h.Current d
  | within roots p, hroots => by
    intro hs hfound h hh
    obtain ⟨candidates, hcandidates, hfound⟩ := looks_bind hfound
    obtain ⟨kept, hkept, hfound⟩ := looks_bind hfound
    cases hfound
    exact candidates_current hroots hcandidates
      (mem_of_filterM_ok hkept h (mem_of_mem_distinct hh))
  | inside outer p, hroots => by
    intro hs hfound h hh
    obtain ⟨above, habove, hfound⟩ := looks_bind hfound
    obtain ⟨candidates, hcandidates, hfound⟩ := looks_bind hfound
    obtain ⟨kept, hkept, hfound⟩ := looks_bind hfound
    cases hfound
    have houter := members_current outer hroots above habove
    exact candidates_current (fun r hr => (houter r hr).standing) hcandidates
      (mem_of_filterM_ok hkept h (mem_of_mem_distinct hh))
  | around inner p, hroots => by
    intro hs hfound h hh
    obtain ⟨below, hbelow, hfound⟩ := looks_bind hfound
    obtain ⟨nearest, hnearest, hfound⟩ := looks_bind hfound
    cases hfound
    have hinner := members_current inner hroots below hbelow
    obtain ⟨x, hx, rfl⟩ := List.mem_filterMap.mp (mem_of_mem_distinct hh)
    obtain ⟨r, hr, hclosest⟩ := mem_of_mapM_ok hnearest _ hx
    exact (hinner r hr).standing.closest? hclosest
  | filtered set test, hroots => by
    intro hs hfound h hh
    obtain ⟨all, hall, hfound⟩ := looks_bind hfound
    obtain ⟨kept, hkept, hfound⟩ := looks_bind hfound
    cases hfound
    exact members_current set hroots all hall h (mem_of_filterM_ok hkept h (mem_of_mem_distinct hh))

theorem first?_current (s : MatchSet) (hroots : ∀ r ∈ s.roots, r.Standing d)
    (hfound : s.first? d = .ok (some h)) : h.Current d := by
  have hhead : ∀ (s : MatchSet), (∀ r ∈ s.roots, r.Standing d) →
      (do return (← s.members).head? : Looking _) d = .ok (some h) → h.Current d := by
    intro s hroots hfound
    obtain ⟨all, hall, hfound⟩ := looks_bind hfound
    refine members_current s hroots all hall h (List.mem_of_mem_head? ?_)
    exact Except.ok.inj hfound
  cases s with
  | within roots p =>
    obtain ⟨candidates, hcandidates, hfound⟩ := looks_bind hfound
    exact candidates_current hroots hcandidates (mem_of_findM?_ok hfound)
  | inside outer p =>
    obtain ⟨above, habove, hfound⟩ := looks_bind hfound
    obtain ⟨candidates, hcandidates, hfound⟩ := looks_bind hfound
    have houter := members_current outer hroots above habove
    exact candidates_current (fun r hr => (houter r hr).standing) hcandidates
      (mem_of_findM?_ok hfound)
  | around inner p => exact hhead _ hroots hfound
  | filtered set test => exact hhead _ hroots hfound

end MatchSet

end Looks

end TestMigration
