import TestMigration.Proofs.Absolutes
import TestMigration.Proofs.Annotating
import TestMigration.Proofs.Shifting
import Mathlib.Data.List.Find

/-! Trees that are read anew, of a text in which things have moved and to which comments have come. The
nodes of the old tree are those of the new one that are no comments, so whatever is looked at from an
old node is found from the new one, too, moved as it is. -/

namespace TestMigration

open Script (Node Kind Field Place)

theorem exists_of_forall₂ {α β : Type} {R : α → β → Prop} {as : List α} {bs : List β} (h : List.Forall₂ R as bs)
    {b : β} (hb : b ∈ bs) : ∃ a ∈ as, R a b := by
  induction h with
  | nil => cases hb
  | @cons a b' as bs hab _ ih =>
    rcases List.mem_cons.mp hb with rfl | hb
    · exact ⟨a, List.mem_cons_self, hab⟩
    · obtain ⟨a', ha', hr⟩ := ih hb
      exact ⟨a', List.mem_cons_of_mem _ ha', hr⟩

namespace Script.Node

def isComment (n : Node) : Bool := n.kind == .comment

/-- A comment has no role among the parts of a node, and no parts of its own. -/
def isBare (n : Node) : Bool := !n.isComment || (n.role.isNone && n.children.isEmpty)

/-- The parts of a node that are no comments. -/
def parts (n : Node) : List Node := n.children.filter (!·.isComment)

mutual

/-- The other node is the same one, moved: it has the same role and kind and, comments aside, the same
parts. The script as a whole begins and ends where its text does. -/
def follows (first last : Nat → Nat) : Node → Node → Bool
  | .mk role kind start stop children, n' =>
    role == n'.role && (kind == n'.kind &&
      ((kind == .program || (n'.start == first start && n'.stop == last stop)) &&
        ((children.all isBare && n'.children.all isBare) && followAll first last children n'.parts)))

def followAll (first last : Nat → Nat) : List Node → List Node → Bool
  | [], ns' => ns'.isEmpty
  | n :: rest, ns' =>
    if n.isComment then followAll first last rest ns'
    else match ns' with
      | [] => false
      | n' :: rest' => follows first last n n' && followAll first last rest rest'

end

variable {first last : Nat → Nat} {n n' : Node} {ns ns' : List Node} {f : Field}

theorem followAll_iff : followAll first last ns ns' = true ↔
    List.Forall₂ (fun n n' => follows first last n n' = true) (ns.filter (!·.isComment)) ns' := by
  induction ns generalizing ns' with
  | nil =>
    rw [followAll, List.isEmpty_iff, List.filter_nil]
    exact List.forall₂_nil_left_iff.symm
  | cons n rest ih =>
    have hnext : followAll first last (n :: rest) ns' = if n.isComment then followAll first last rest ns'
        else match ns' with
          | [] => false
          | n' :: rest' => follows first last n n' && followAll first last rest rest' := by
      cases ns' <;> rfl
    rw [hnext, List.filter_cons]
    cases hcomment : n.isComment with
    | true => exact ih
    | false =>
      rw [if_neg Bool.false_ne_true, Bool.not_false, if_pos rfl]
      cases ns' with
      | nil => exact iff_of_false Bool.false_ne_true fun h => nomatch h
      | cons n' rest' => rw [Bool.and_eq_true_iff, ih, List.forall₂_cons]

/-- What the relation says of two nodes. -/
structure Followed (first last : Nat → Nat) (n n' : Node) : Prop where
  role : n.role = n'.role
  kind : n.kind = n'.kind
  range : n.kind = .program ∨ n'.start = first n.start ∧ n'.stop = last n.stop
  bare : ∀ c ∈ n.children ++ n'.children, c.isBare = true
  parts : List.Forall₂ (fun n n' => follows first last n n' = true) n.parts n'.parts

theorem followed (h : follows first last n n' = true) : Followed first last n n' := by
  obtain ⟨role, kind, start, stop, children⟩ := n
  rw [follows] at h
  simp only [Bool.and_eq_true, Bool.or_eq_true, beq_iff_eq] at h
  obtain ⟨hrole, hkind, hrange, ⟨hbare, hbare'⟩, hparts⟩ := h
  exact ⟨hrole, hkind, hrange, List.forall_mem_append.mpr ⟨List.all_eq_true.mp hbare, List.all_eq_true.mp hbare'⟩,
    followAll_iff.mp hparts⟩

/-- A part under a field is no comment. -/
theorem field?_eq_parts (hbare : ∀ c ∈ n.children, c.isBare = true) (f : Field) :
    n.field? f = n.parts.find? (·.role == some f) := by
  unfold field? parts
  rw [List.find?_filter]
  refine List.find?_congr fun c hc => ?_
  have hc := hbare c hc
  unfold isBare at hc
  cases hcomment : c.isComment with
  | false => simp only [Bool.not_false, true_and, Bool.decide_eq_true]
  | true =>
    rw [hcomment, Bool.not_true, Bool.false_or, Bool.and_eq_true_iff] at hc
    rw [Option.isNone_iff_eq_none.mp hc.1]
    rfl

theorem field?_of_follows (h : follows first last n n' = true) (f : Field) :
    Option.Rel (fun n n' => follows first last n n' = true) (n.field? f) (n'.field? f) := by
  obtain ⟨-, -, -, hbare, hparts⟩ := followed h
  obtain ⟨hbare, hbare'⟩ := List.forall_mem_append.mp hbare
  rw [field?_eq_parts hbare, field?_eq_parts hbare']
  exact forall₂_find? (fun n n' hn => by rw [(followed hn).role]) hparts

end Script.Node

namespace Script.Place

open Script.Node (follows followed)

/-- The places are of the same node in both trees, and so are those around them. -/
structure Follows (first last : Nat → Nat) (p p' : Place) : Prop where
  node : follows first last p.node p'.node = true
  above : List.Forall₂ (fun n n' => follows first last n n' = true) p.above p'.above

variable {first last : Nat → Nat} {p p' q q' : Place}

namespace Follows

theorem kind (h : Follows first last p p') : p.node.kind = p'.node.kind := (followed h.node).kind

theorem field? (h : Follows first last p p') (f : Field) :
    Option.Rel (Follows first last) (p.field? f) (p'.field? f) := by
  have hfound := Node.field?_of_follows h.node f
  unfold Place.field?
  generalize p.node.field? f = c at hfound
  generalize p'.node.field? f = c' at hfound
  cases hfound with
  | none => exact .none
  | some hn => exact .some ⟨hn, .cons h.node h.above⟩

theorem field?_some {f : Field} (h : Follows first last p p') (hq' : p'.field? f = some q') :
    ∃ q, p.field? f = some q ∧ Follows first last q q' := by
  have hfield := h.field? f
  rw [hq'] at hfield
  generalize p.field? f = c at hfield
  cases hfield with
  | some hq => exact ⟨_, rfl, hq⟩

theorem ancestors (h : Follows first last p p') : List.Forall₂ (Follows first last) p.ancestors p'.ancestors := by
  have hall : ∀ {above above' : List Node}, List.Forall₂ (fun n n' => follows first last n n' = true) above above' →
      List.Forall₂ (Follows first last) (ancestorsOf above) (ancestorsOf above') := by
    intro above above' h
    induction h with
    | nil => exact .nil
    | cons hn hrest ih => exact .cons ⟨hn, hrest⟩ ih
  exact hall h.above

theorem closest? (h : Follows first last p p') (kinds : List Kind) :
    Option.Rel (Follows first last) (p.closest? kinds) (p'.closest? kinds) :=
  forall₂_find? (fun q q' hq => by rw [hq.kind]) h.ancestors

theorem callArguments (h : Follows first last p p') :
    List.Forall₂ (Follows first last) p.callArguments p'.callArguments := by
  have hlist := h.field? .arguments
  unfold Place.callArguments
  generalize p.field? .arguments = l at hlist
  generalize p'.field? .arguments = l' at hlist
  cases hlist with
  | none => exact .nil
  | @some l l' hl =>
    have harguments : ∀ r : Place, r.namedChildren.filter (·.node.kind != .comment) =
        (r.node.parts.filter (·.kind.isNamed)).map r.child := by
      intro r
      unfold Place.namedChildren Node.namedChildren Node.parts
      rw [List.filter_map, List.filter_filter, List.filter_filter]
      refine congrArg (List.map r.child) (List.filter_congr fun n _ => ?_)
      rw [Bool.and_comm]
      rfl
    rw [Option.elim_some, Option.elim_some, hl.kind]
    split
    · rw [harguments, harguments, List.forall₂_map_left_iff, List.forall₂_map_right_iff]
      refine (forall₂_filter (fun n n' hn => by rw [(followed hn).kind]) (followed hl.node).parts).imp ?_
      exact fun n n' hn => ⟨hn, .cons hl.node hl.above⟩
    · exact .nil

end Follows

theorem walk_sub_walkAll {ns : List Node} {n : Node} {above : List Node} (hn : n ∈ ns)
    (hnamed : n.kind.isNamed = true) : ∀ p ∈ walk above n, p ∈ walkAll above ns := by
  intro p hp
  induction ns with
  | nil => cases hn
  | cons first rest ih =>
    rw [walkAll]
    rcases List.mem_cons.mp hn with rfl | hn
    · rw [if_pos hnamed]
      exact List.mem_append_left _ hp
    · exact List.mem_append_right _ (ih hn)

/-- A comment has nothing in it. -/
theorem eq_of_mem_comment {n : Node} {above : List Node} (hbare : n.isBare = true) (hcomment : n.isComment = true)
    (hp : p ∈ walk above n) : p = ⟨n, above⟩ := by
  obtain ⟨role, kind, start, stop, children⟩ := n
  unfold Node.isBare at hbare
  rw [hcomment, Bool.not_true, Bool.false_or, Bool.and_eq_true_iff] at hbare
  obtain rfl : children = [] := List.isEmpty_iff.mp hbare.2
  rw [walk, walkAll] at hp
  exact List.mem_singleton.mp hp

mutual

/-- Each node of the new tree that is no comment was there before. -/
theorem exists_of_follows : ∀ (n' n : Node) (above above' : List Node), follows first last n n' = true →
    List.Forall₂ (fun n n' => follows first last n n' = true) above above' →
      ∀ p' ∈ walk above' n', p'.node.isComment = false → ∃ p ∈ walk above n, Follows first last p p'
  | .mk role' kind' start' stop' children', .mk role kind start stop children, above, above' => by
    intro h habove p' hp' hother
    rw [walk] at hp' ⊢
    rcases List.mem_cons.mp hp' with rfl | hp'
    · exact ⟨_, List.mem_cons_self, h, habove⟩
    · have hparts := (followed h).parts
      have hbare : ∀ c ∈ children', c.isBare = true := fun c hc =>
        (followed h).bare c (List.mem_append_right _ hc)
      obtain ⟨p, hp, hfollows⟩ := exists_of_followsAll children' children _ _ hbare (fun n' hn' hkind => by
        obtain ⟨n, hn, hsame⟩ := exists_of_forall₂ hparts (List.mem_filter.mpr ⟨hn', by rw [hkind]; rfl⟩)
        exact ⟨n, List.mem_of_mem_filter hn, hsame⟩) (.cons h habove) p' hp' hother
      exact ⟨p, List.mem_cons_of_mem _ hp, hfollows⟩

theorem exists_of_followsAll : ∀ (ns' ns : List Node) (above above' : List Node),
    (∀ n' ∈ ns', n'.isBare = true) →
    (∀ n' ∈ ns', n'.isComment = false → ∃ n ∈ ns, follows first last n n' = true) →
    List.Forall₂ (fun n n' => follows first last n n' = true) above above' →
      ∀ p' ∈ walkAll above' ns', p'.node.isComment = false → ∃ p ∈ walkAll above ns, Follows first last p p'
  | [], _, _, _ => fun _ _ _ _ hp' => nomatch hp'
  | n' :: rest', ns, above, above' => by
    intro hbare hall habove p' hp' hother
    obtain ⟨hn', hrest'⟩ := List.forall_mem_cons.mp hbare
    obtain ⟨hfirst, hothers⟩ := List.forall_mem_cons.mp hall
    rw [walkAll] at hp'
    rcases List.mem_append.mp hp' with hp' | hp'
    · split at hp'
      · rename_i hnamed
        cases hkind : n'.isComment with
        | false =>
          obtain ⟨n, hn, hsame⟩ := hfirst hkind
          obtain ⟨p, hp, hfollows⟩ := exists_of_follows n' n above above' hsame habove p' hp' hother
          exact ⟨p, walk_sub_walkAll hn ((followed hsame).kind ▸ hnamed) p hp, hfollows⟩
        | true =>
          rw [eq_of_mem_comment hn' hkind hp', hkind] at hother
          cases hother
      · cases hp'
    · exact exists_of_followsAll rest' ns above above' hrest' hothers habove p' hp' hother

end

end Script.Place

namespace Document

open Insertion (Clear movedStart movedStop)
open Script.Place (Follows)

/-! ## Documents that are read anew -/

/-- The tokens into which nothing is put. -/
def wordKinds : List Kind := [.identifier, .propertyIdentifier, .string]

/-- The tree of the other document is that of this one, moved by what is put into the text, and comments;
no name and no string literal is parted, and only the tree as a whole is a program. -/
structure Shifted (d d' : Document) (is : List Insertion) : Prop where
  same : d.root.follows (movedStart is) (movedStop is) d'.root = true
  whole : ∀ p ∈ d.places, wordKinds.contains p.node.kind = true → Clear is p.node.start p.node.stop
  alone : ∀ p ∈ d.places, p.node.kind = .program → p.above = []

instance (d d' : Document) (is : List Insertion) : Decidable (d.Shifted d' is) :=
  decidable_of_iff (d.root.follows (movedStart is) (movedStop is) d'.root = true ∧
      (∀ p ∈ d.places, wordKinds.contains p.node.kind = true → Clear is p.node.start p.node.stop) ∧
        ∀ p ∈ d.places, p.node.kind = .program → p.above = [])
    ⟨fun h => ⟨h.1, h.2.1, h.2.2⟩, fun h => ⟨h.same, h.whole, h.alone⟩⟩

/-- The other document holds what insertions make of the text of this one, and it is read as its tree. -/
structure Reread (d d' : Document) (is : List Insertion) : Prop where
  worded : d.Worded
  source : d'.source = Insertion.made d.source is
  inside : ∀ i ∈ is, i.1 ≤ d.source.size
  shifted : d.Shifted d' is

variable {d d' : Document} {is : List Insertion} {p p' q : Place} {test : TextTest}

theorem callsOn_iff {wrapper : String} : d.callsOn wrapper p = true ↔ d.callsMethod Suggestion.anyName p = true ∧
    ∃ c, p.field? .callee = some c ∧ ∃ o, c.field? .object = some o ∧ o.node.kind = .identifier ∧
      d.wording o.node = wrapper := by
  unfold callsOn callsMethod
  simp only [Bool.and_eq_true, Option.any_eq_true, beq_iff_eq]
  constructor
  · rintro ⟨hcall, c, hc, hmember, hproperty, hobject⟩
    exact ⟨⟨hcall, c, hc, hmember, hproperty⟩, c, hc, hobject⟩
  · rintro ⟨⟨hcall, c, hc, hmember, hproperty⟩, c', hc', hobject⟩
    cases hc.symm.trans hc'
    exact ⟨hcall, c, hc, hmember, hproperty, hobject⟩

theorem callee_of_callsMethod {c : Place} (h : d.callsMethod test p = true) (hc : p.field? .callee = some c) :
    c.node.kind = .memberExpression := by
  unfold callsMethod at h
  rw [hc, Option.any_some, Bool.and_eq_true_iff, Bool.and_eq_true_iff, beq_iff_eq (a := c.node.kind)] at h
  exact h.2.1

theorem Shifted.field?_not_program {f : Field} (h : d.Shifted d' is) (hp : p ∈ d.places)
    (hq : p.field? f = some q) : q.node.kind ≠ .program := by
  intro hprogram
  have habove := h.alone q (field?_mem_places hp hq (by rw [hprogram]; rfl)) hprogram
  obtain ⟨n, -, rfl⟩ := Option.map_eq_some_iff.mp hq
  cases habove

theorem Shifted.argument_not_program (h : d.Shifted d' is) (hp : p ∈ d.places) (hq : q ∈ p.callArguments) :
    q.node.kind ≠ .program := by
  intro hprogram
  have habove := h.alone q (argument_mem_places hp hq) hprogram
  obtain ⟨list, -, -, hmem⟩ := Place.argument_of_list hq
  obtain ⟨n, -, rfl⟩ := List.mem_map.mp hmem
  cases habove

namespace Reread

/-- Each node that is no comment was there before. -/
theorem exists_place (h : d.Reread d' is) (hp' : p' ∈ d'.places) (hother : p'.node.isComment = false) :
    ∃ p ∈ d.places, Follows (movedStart is) (movedStop is) p p' :=
  Script.Place.exists_of_follows d'.root d.root [] [] h.shifted.same .nil p' hp' hother

/-- A node into which nothing is put is spelt as it was. -/
theorem wording (h : d.Reread d' is) (hp : p.Within d.root)
    (hfollows : Follows (movedStart is) (movedStop is) p p') (hother : p.node.kind ≠ .program)
    (hclear : Clear is p.node.start p.node.stop) : d'.wording p'.node = d.wording p.node := by
  obtain ⟨hstart, hstop⟩ := (Script.Node.followed hfollows.node).range.resolve_left hother
  obtain ⟨source, hsource⟩ := h.worded.text
  have hlast : p.node.stop ≤ d.source.size := by
    rw [hsource]
    exact (h.worded.cuts hsource hp).2.le_size
  have htext : d'.textOf p'.node = d.textOf p.node := by
    unfold textOf slice
    rw [hstart, hstop, h.source, Insertion.extract_made h.inside hclear hlast]
  unfold Document.wording
  rw [htext]

theorem word (h : d.Reread d' is) (hp : p ∈ d.places) (hfollows : Follows (movedStart is) (movedStop is) p p')
    (hkind : wordKinds.contains p'.node.kind = true) : d'.wording p'.node = d.wording p.node := by
  rw [← hfollows.kind] at hkind
  refine h.wording (within_of_mem_places hp) hfollows (fun hprogram => ?_) (h.shifted.whole p hp hkind)
  rw [hprogram] at hkind
  cases hkind

/-- A call of a method is one of the same method as before. -/
theorem callsMethod (h : d.Reread d' is) (hp : p ∈ d.places)
    (hfollows : Follows (movedStart is) (movedStop is) p p') (hcalls : d'.callsMethod test p' = true) :
    d.callsMethod test p = true ∧ d'.method? p' = d.method? p := by
  unfold Document.callsMethod at hcalls
  simp only [Bool.and_eq_true, Option.any_eq_true, beq_iff_eq] at hcalls
  obtain ⟨hcall, c', hc', hmember, q', hq', hproperty, htest⟩ := hcalls
  obtain ⟨c, hc, hcfollows⟩ := hfollows.field?_some hc'
  obtain ⟨q, hq, hqfollows⟩ := hcfollows.field?_some hq'
  have hcplace := field?_mem_places hp hc (by rw [hcfollows.kind, hmember]; rfl)
  have hqplace := field?_mem_places hcplace hq (by rw [hqfollows.kind, hproperty]; rfl)
  have hword := h.word hqplace hqfollows (by rw [hproperty]; decide)
  constructor
  · unfold Document.callsMethod
    simp only [Bool.and_eq_true, Option.any_eq_true, beq_iff_eq]
    exact ⟨hfollows.kind.trans hcall, c, hc, hcfollows.kind.trans hmember, q, hq, hqfollows.kind.trans hproperty,
      hword ▸ htest⟩
  · unfold method?
    rw [hc', hc, Option.filter_some, Option.filter_some, hcfollows.kind, hmember, beq_self_eq_true, if_pos rfl,
      if_pos rfl, Option.bind_some, Option.bind_some, hq', hq, Option.map_some, Option.map_some, hword]

theorem callsOn {wrapper : String} (h : d.Reread d' is) (hp : p ∈ d.places)
    (hfollows : Follows (movedStart is) (movedStop is) p p') (hcalls : d'.callsOn wrapper p' = true) :
    d.callsOn wrapper p = true ∧ d'.method? p' = d.method? p := by
  obtain ⟨hmethod', c', hc', o', ho', hobject, hwrapper⟩ := callsOn_iff.mp hcalls
  obtain ⟨hmethod, hname⟩ := h.callsMethod hp hfollows hmethod'
  obtain ⟨c, hc, hcfollows⟩ := hfollows.field?_some hc'
  obtain ⟨o, ho, hofollows⟩ := hcfollows.field?_some ho'
  have hcplace := field?_mem_places hp hc (callee_of_callsMethod hmethod hc ▸ rfl)
  have hoplace := field?_mem_places hcplace ho (by rw [hofollows.kind, hobject]; rfl)
  have hword := h.word hoplace hofollows (by rw [hobject]; decide)
  exact ⟨callsOn_iff.mpr ⟨hmethod, c, hc, o, ho, hofollows.kind.trans hobject, hword ▸ hwrapper⟩, hname⟩

/-! ## What the comments say -/

theorem firstArgument? (hfollows : Follows (movedStart is) (movedStop is) p p') :
    Option.Rel (Follows (movedStart is) (movedStop is)) p.callArguments.head? p'.callArguments.head? := by
  have hall := hfollows.callArguments
  generalize p.callArguments = as at hall
  generalize p'.callArguments = as' at hall
  cases hall with
  | nil => exact .none
  | cons hfirst _ => exact .some hfirst

theorem methodComment (h : d.Reread d' is) (hp : p ∈ d.places)
    (hfollows : Follows (movedStart is) (movedStop is) p p') (hname : d'.method? p' = d.method? p)
    (hclear : ∀ q ∈ p.callArguments.head?, Clear is q.node.start q.node.stop) (wrapper : String) :
    d'.methodComment wrapper p' = d.methodComment wrapper p := by
  have hargument : (p'.callArguments.head?.map fun q => d'.wording q.node) =
      p.callArguments.head?.map fun q => d.wording q.node := by
    have hfirst := firstArgument? hfollows
    have hmem : ∀ q ∈ p.callArguments.head?, q ∈ p.callArguments := fun q hq => List.mem_of_mem_head? hq
    generalize p.callArguments.head? = a at hfirst hclear hmem
    generalize p'.callArguments.head? = a' at hfirst
    cases hfirst with
    | none => rw [Option.map_none, Option.map_none]
    | @some q q' hq =>
      rw [Option.map_some, Option.map_some,
        h.wording ((within_of_mem_places hp).argument (hmem q rfl)) hq
          (h.shifted.argument_not_program hp (hmem q rfl)) (hclear q rfl)]
  unfold Document.methodComment
  rw [hname, hargument]

theorem argumentText (h : d.Reread d' is) (hp : p ∈ d.places)
    (hfollows : Follows (movedStart is) (movedStop is) p p')
    (hclear : ∀ q ∈ p.field? .arguments, Clear is q.node.start q.node.stop) :
    d'.argumentText p' = d.argumentText p := by
  have hlist := hfollows.field? .arguments
  have hwithin := fun q (hq : p.field? .arguments = some q) => (within_of_mem_places hp).field? hq
  have hother := fun q (hq : p.field? .arguments = some q) => h.shifted.field?_not_program hp hq
  unfold Document.argumentText
  generalize p.field? .arguments = l at hlist hclear hwithin hother
  generalize p'.field? .arguments = l' at hlist
  cases hlist with
  | none => rfl
  | @some l l' hl =>
    dsimp only
    rw [h.wording (hwithin l rfl) hl (hother l rfl) (hclear l rfl)]

/-- The value of the first argument is that which it had. -/
theorem valueSpelt (h : d.Reread d' is) (hp : p ∈ d.places)
    (hfollows : Follows (movedStart is) (movedStop is) p p') :
    (p'.callArguments.head?.elim (.ok none) fun q => Handle.valueSpelt q.node.kind (d'.wording q.node)) =
      p.callArguments.head?.elim (.ok none) fun q => Handle.valueSpelt q.node.kind (d.wording q.node) := by
  have hfirst := firstArgument? hfollows
  have hmem : ∀ q ∈ p.callArguments.head?, q ∈ p.callArguments := fun q hq => List.mem_of_mem_head? hq
  generalize p.callArguments.head? = a at hfirst hmem
  generalize p'.callArguments.head? = a' at hfirst
  cases hfirst with
  | none => rw [Option.elim_none, Option.elim_none]
  | @some q q' hq =>
    have hkind := hq.kind
    change Handle.valueSpelt q'.node.kind (d'.wording q'.node) = Handle.valueSpelt q.node.kind (d.wording q.node)
    by_cases hstring : q'.node.kind = .string
    · rw [h.word (argument_mem_places hp (hmem q rfl)) hq (by rw [hstring]; decide), hkind]
    · rw [Handle.valueSpelt_of_ne hstring, Handle.valueSpelt_of_ne (hkind ▸ hstring)]

theorem findComment (h : d.Reread d' is) (hp : p ∈ d.places)
    (hfollows : Follows (movedStart is) (movedStop is) p p')
    (hclear : ∀ q ∈ p.field? .arguments, Clear is q.node.start q.node.stop) (attr : String)
    (snapshot : Option Snapshot) : d'.findComment attr snapshot p' = d.findComment attr snapshot p := by
  unfold Document.findComment
  rw [h.valueSpelt hp hfollows, h.argumentText hp hfollows hclear]

/-- A call of `find` that had a comment has one, whatever has come into the text that it quotes. -/
theorem findComment_answers {attr : String} {snapshot : Option Snapshot} (h : d.Reread d' is) (hp : p ∈ d.places)
    (hfollows : Follows (movedStart is) (movedStop is) p p')
    (hanswered : ∃ t, d.findComment attr snapshot p = .ok t) : ∃ t, d'.findComment attr snapshot p' = .ok t := by
  obtain ⟨t, ht⟩ := hanswered
  obtain ⟨selector, comment, hvalue, hcomment, -⟩ := exists_of_findComment ht
  obtain ⟨comment', hcomment'⟩ := Guidance.onSelector_answers hcomment
  refine ⟨some comment', ?_⟩
  unfold Document.findComment
  rw [h.valueSpelt hp hfollows, hvalue]
  change Except.bind (Guidance.onSelector (d'.argumentText p') selector attr snapshot) _ = _
  rw [hcomment']
  rfl

theorem eventComment (h : d.Reread d' is) (hp : p ∈ d.places)
    (hfollows : Follows (movedStart is) (movedStop is) p p')
    (hclear : ∀ q ∈ p.field? .arguments, Clear is q.node.start q.node.stop) :
    d'.eventComment p' = d.eventComment p := by
  unfold Document.eventComment
  rw [h.argumentText hp hfollows hclear]

end Reread

end Document

end TestMigration
