import TestMigration.Proofs.Exchange
import TestMigration.Proofs.Gathering
import TestMigration.Proofs.Renaming

/-! Callees that are renamed. The callees of the old library and those of a helper that makes room are
given their names in one block. Names do not hold one another, so whatever calls lie within the arguments
of others, no edit of the block is deferred. -/

namespace TestMigration

open Script (Node Kind Field Place)

namespace Script

/-! ## Nodes that meet -/

namespace Node

/-- One of the nodes ends before the other begins, or holds it. -/
def Meets (a b : Node) : Prop :=
  a.stop ≤ b.start ∨ b.stop ≤ a.start ∨ a.start ≤ b.start ∧ b.stop ≤ a.stop ∨ b.start ≤ a.start ∧ a.stop ≤ b.stop

theorem Meets.symm {a b : Node} (h : a.Meets b) : b.Meets a := by
  unfold Meets at h ⊢
  omega

/-- Of the nodes in a row, two are apart if they are not the same. -/
theorem eq_or_apart {ns : List Node} {first last : Nat} (h : laidAll first last ns = true) {a b : Node}
    (ha : a ∈ ns) (hb : b ∈ ns) : a = b ∨ a.stop ≤ b.start ∨ b.stop ≤ a.start := by
  induction ns generalizing first with
  | nil => cases ha
  | cons n rest ih =>
    obtain ⟨-, -, hrest⟩ := laidAll_cons.mp h
    rcases List.mem_cons.mp ha with rfl | hlater
    · rcases List.mem_cons.mp hb with rfl | hlater'
      · exact .inl rfl
      · exact .inr (.inl (laidAll_mem hrest hlater').2.1)
    · rcases List.mem_cons.mp hb with rfl | hlater'
      · exact .inr (.inr (laidAll_mem hrest hlater).2.1)
      · exact ih hrest hlater hlater'

end Node

namespace Place

/-- A place below a node is the node or is below one of its children. -/
theorem Within.split {n : Node} {p : Place} (h : p.Within n) :
    p = .root n ∨ ∃ c ∈ n.children, ∃ q : Place, q.Within c ∧ q.node = p.node := by
  induction h with
  | root => exact .inl rfl
  | @child p m _ hm ih =>
    rcases ih with rfl | ⟨c, hc, q, hq, hnode⟩
    · exact .inr ⟨m, hm, .root m, .root, rfl⟩
    · exact .inr ⟨c, hc, q.child m, hq.child (hnode ▸ hm), rfl⟩

mutual

theorem meets_of_within : ∀ n : Node, n.laid = true → ∀ p q : Place, p.Within n → q.Within n →
    p.node.Meets q.node
  | .mk role kind start stop children => by
    intro h p q hp hq
    obtain ⟨-, hpstart, hpstop⟩ := laid_of_within h hp
    obtain ⟨-, hqstart, hqstop⟩ := laid_of_within h hq
    rcases hp.split with rfl | ⟨c, hc, p', hp', hpnode⟩
    · exact .inr (.inr (.inl ⟨hqstart, hqstop⟩))
    · rcases hq.split with rfl | ⟨c', hc', q', hq', hqnode⟩
      · exact .inr (.inr (.inr ⟨hpstart, hpstop⟩))
      · rw [← hpnode, ← hqnode]
        exact meetsAll_of_within start stop children h c hc c' hc' p' q' hp' hq'

theorem meetsAll_of_within (first last : Nat) : ∀ ns : List Node, Node.laidAll first last ns = true →
    ∀ c ∈ ns, ∀ c' ∈ ns, ∀ p q : Place, p.Within c → q.Within c' → p.node.Meets q.node
  | [] => fun _ _ hc => nomatch hc
  | n :: rest => by
    intro h c hc c' hc' p q hp hq
    obtain ⟨-, hn, hrest⟩ := Node.laidAll_cons.mp h
    -- what is below the first node ends before anything below those behind it begins
    have hahead : ∀ m ∈ rest, ∀ p q : Place, p.Within n → q.Within m → p.node.stop ≤ q.node.start := by
      intro m hm p q hp hq
      obtain ⟨hlaid, hstart, -⟩ := Node.laidAll_mem hrest hm
      have hlast := (laid_of_within hn hp).2.2
      have hfirst := (laid_of_within hlaid hq).2.1
      omega
    rcases List.mem_cons.mp hc with hfirst | hlater
    · rw [hfirst] at hp
      rcases List.mem_cons.mp hc' with hfirst' | hlater'
      · rw [hfirst'] at hq
        exact meets_of_within n hn p q hp hq
      · exact .inl (hahead c' hlater' p q hp hq)
    · rcases List.mem_cons.mp hc' with hfirst' | hlater'
      · rw [hfirst'] at hq
        exact .inr (.inl (hahead c hlater q p hq hp))
      · exact meetsAll_of_within n.stop last rest hrest c hlater c' hlater' p q hp hq

end

/-- Each node that a walk of children meets lies within one of them. -/
theorem walkAll_within_child {above ns : List Node} {first last : Nat} {q : Place}
    (h : Node.laidAll first last ns = true) (hq : q ∈ walkAll above ns) :
    ∃ m ∈ ns, m.start ≤ q.node.start ∧ q.node.stop ≤ m.stop := by
  induction ns generalizing first with
  | nil => cases hq
  | cons n rest ih =>
    obtain ⟨-, hn, hrest⟩ := Node.laidAll_cons.mp h
    rw [walkAll] at hq
    rcases List.mem_append.mp hq with hq | hq
    · split at hq
      · obtain ⟨hstart, -, hstop⟩ := walk_inside above n hn q hq
        exact ⟨n, List.mem_cons_self, hstart, hstop⟩
      · cases hq
    · obtain ⟨m, hm, hinside⟩ := ih hrest hq
      exact ⟨m, List.mem_cons_of_mem _ hm, hinside⟩

mutual

/-- Of two nodes of a walk the first ends before the second begins, or one of its children holds it. -/
theorem walk_below (above : List Node) : ∀ n : Node, n.laid = true → (walk above n).Pairwise fun p q =>
    p.node.stop ≤ q.node.start ∨ ∃ m ∈ p.node.children, m.start ≤ q.node.start ∧ q.node.stop ≤ m.stop
  | .mk role kind start stop children => by
    intro h
    rw [walk]
    exact List.pairwise_cons.mpr
      ⟨fun q hq => .inr (walkAll_within_child h hq), walkAll_below _ start stop children h⟩

theorem walkAll_below (above : List Node) (first last : Nat) : ∀ ns : List Node,
    Node.laidAll first last ns = true → (walkAll above ns).Pairwise fun p q =>
      p.node.stop ≤ q.node.start ∨ ∃ m ∈ p.node.children, m.start ≤ q.node.start ∧ q.node.stop ≤ m.stop
  | [] => fun _ => .nil
  | n :: rest => by
    intro h
    obtain ⟨-, hn, hrest⟩ := Node.laidAll_cons.mp h
    rw [walkAll]
    refine List.pairwise_append.mpr ⟨?_, walkAll_below above n.stop last rest hrest,
      fun p hp q hq => .inl (walk_before_rest hn hrest hp hq)⟩
    split
    · exact walk_below above n hn
    · exact .nil

end

end Place

end Script

/-! ## Names that the code around a call binds -/

namespace Script.Place

/-- The nearest node around the place that is of one of the kinds. -/
def closest? (kinds : List Kind) (p : Place) : Option Place := p.ancestors.find? (kinds.contains ·.node.kind)

/-- What stands under the field, if it is a plain name. -/
def plainName? (f : Field) (p : Place) : Option Place := (p.field? f).filter (·.node.kind == .identifier)

def assignedName? (p : Place) : Option Place := (p.closest? [.assignmentExpression]).bind (plainName? .left)

/-- Of a declaration of several variables the first counts. -/
def declaredName? (p : Place) : Option Place :=
  ((p.closest? [.lexicalDeclaration, .variableDeclaration]).bind fun declaration =>
    declaration.declarators.head?.bind (plainName? .name)).or p.assignedName?

/-- The name that is bound around the place: that of the function declaration, else of the variable
declaration, else of the assignment. -/
def boundName? (p : Place) : Option Place :=
  ((p.closest? [.functionDeclaration]).bind (·.field? .name)).or p.declaredName?

variable {root : Node} {p q : Place} {kinds : List Kind} {f : Field}

theorem Within.closest? (hp : p.Within root) (hq : p.closest? kinds = some q) : q.Within root :=
  hp.ancestors (List.mem_of_find?_eq_some hq)

theorem Within.plainName? (hp : p.Within root) (hq : p.plainName? f = some q) : q.Within root :=
  hp.field? (Option.filter_eq_some_iff.mp hq).1

theorem Within.assignedName? (hp : p.Within root) (hq : p.assignedName? = some q) : q.Within root := by
  obtain ⟨assignment, hassignment, hname⟩ := Option.bind_eq_some_iff.mp hq
  exact (hp.closest? hassignment).plainName? hname

theorem Within.declaredName? (hp : p.Within root) (hq : p.declaredName? = some q) : q.Within root := by
  rcases Option.or_eq_some_iff.mp hq with hq | ⟨-, hq⟩
  · obtain ⟨declaration, hdeclaration, hq⟩ := Option.bind_eq_some_iff.mp hq
    obtain ⟨declarator, hdeclarator, hname⟩ := Option.bind_eq_some_iff.mp hq
    exact ((hp.closest? hdeclaration).declarator (List.mem_of_head? hdeclarator)).plainName? hname
  · exact hp.assignedName? hq

theorem Within.boundName? (hp : p.Within root) (hq : p.boundName? = some q) : q.Within root := by
  rcases Option.or_eq_some_iff.mp hq with hq | ⟨-, hq⟩
  · obtain ⟨function, hfunction, hname⟩ := Option.bind_eq_some_iff.mp hq
    exact (hp.closest? hfunction).field? hname
  · exact hp.declaredName? hq

end Script.Place

section Looks

variable {d : Document} {p : Place}

theorem Handle.closest?_handle (hd : d.Legible) (hp : p.Within d.root) (kinds : List Kind) :
    (d.handle p).closest? (.ofKinds kinds) d = .ok ((p.closest? kinds).map d.handle) := by
  have hancestors : (d.handle p).ancestors d = .ok (p.ancestors.map d.handle) :=
    look_bind_eq fresh_handle (onAll_eq _)
  refine look_bind_eq hancestors ((findM?_eq (g := fun h : Handle => kinds.contains h.place.node.kind)
    fun h hh => ?_).trans ?_)
  · obtain ⟨q, hq, rfl⟩ := List.mem_map.mp hh
    exact Document.holdsOf_ofKinds hd (hp.ancestors hq) kinds
  · rw [List.find?_map]
    rfl

namespace RenderCall

theorem plainName?_handle (f : Field) :
    (do plainName? (← (d.handle p).field? f)) d = .ok ((p.plainName? f).map d.handle) := by
  refine look_bind_eq (Handle.field?_handle f) ?_
  unfold Place.plainName?
  cases hq : p.field? f with
  | none => rfl
  | some q =>
    refine look_bind_eq Handle.kind_handle ?_
    rw [Option.filter_some]
    cases q.node.kind == Kind.identifier <;> rfl

theorem assignedName?_handle (hd : d.Legible) (hp : p.Within d.root) :
    assignedName? (d.handle p) d = .ok (p.assignedName?.map d.handle) := by
  refine look_bind_eq (Handle.closest?_handle hd hp [.assignmentExpression]) ?_
  unfold Place.assignedName?
  cases p.closest? [.assignmentExpression] with
  | none => rfl
  | some assignment => exact plainName?_handle .left

theorem declarationName?_handle :
    declarationName? (d.handle p) d = .ok ((p.declarators.head?.bind (Place.plainName? .name)).map d.handle) := by
  refine look_bind_eq Handle.namedChildren_handle ?_
  refine look_bind_eq (findM?_eq (g := fun h : Handle => h.place.node.kind == .variableDeclarator)
    fun h hh => ?_) ?_
  · obtain ⟨q, -, rfl⟩ := List.mem_map.mp hh
    exact look_bind_eq Handle.kind_handle rfl
  · have hfirst : (p.namedChildren.map d.handle).find? (fun h => h.place.node.kind == .variableDeclarator) =
        p.declarators.head?.map d.handle := by
      unfold Place.declarators
      rw [List.find?_map, List.head?_filter]
      rfl
    rw [hfirst]
    cases p.declarators.head? with
    | none => rfl
    | some declarator => exact plainName?_handle .name

theorem declaredName?_handle (hd : d.Legible) (hp : p.Within d.root) :
    declaredName? (d.handle p) d = .ok (p.declaredName?.map d.handle) := by
  refine look_bind_eq (Handle.closest?_handle hd hp [.lexicalDeclaration, .variableDeclaration]) ?_
  unfold Place.declaredName?
  cases p.closest? [.lexicalDeclaration, .variableDeclaration] with
  | none => exact assignedName?_handle hd hp
  | some declaration =>
    refine look_bind_eq (declarationName?_handle (p := declaration)) ?_
    rw [Option.bind_some]
    cases declaration.declarators.head?.bind (Place.plainName? .name) with
    | none => exact assignedName?_handle hd hp
    | some name => rfl

theorem boundName?_handle (hd : d.Legible) (hp : p.Within d.root) :
    boundName? (d.handle p) d = .ok (p.boundName?.map d.handle) := by
  refine look_bind_eq (Handle.closest?_handle hd hp [.functionDeclaration]) ?_
  unfold Place.boundName?
  cases p.closest? [.functionDeclaration] with
  | none => exact declaredName?_handle hd hp
  | some function =>
    refine look_bind_eq (Handle.field?_handle .name) ?_
    rw [Option.bind_some]
    cases function.field? .name with
    | none => exact declaredName?_handle hd hp
    | some name => rfl

end RenderCall

end Looks

/-! ## Names in the text -/

namespace Document

/-- The names that give way to others. -/
def formerNames : List String := RenderCall.renderName :: RenderCall.primitives

/-- None of the names holds another. -/
theorem formerNames_apart : ∀ a ∈ formerNames, ∀ b ∈ formerNames, ∀ k < 8,
    (a.toUTF8.data.toList.drop k).take b.toUTF8.size = b.toUTF8.data.toList →
      k + b.toUTF8.size ≤ a.toUTF8.size → k = 0 ∧ b.toUTF8.size = a.toUTF8.size := by decide +kernel

theorem size_formerNames : ∀ a ∈ formerNames, 0 < a.toUTF8.size ∧ a.toUTF8.size < 8 := by decide +kernel

variable {d : Document} {p q c c' : Place} {name : String}

/-- Nodes of the script, with the names that give way to others. -/
structure Gives (d : Document) (p : Place) : Prop where
  within : p.Within d.root
  named : d.wording p.node ∈ formerNames

/-- Trees that are laid out in their text. -/
structure LaidOut (d : Document) : Prop where
  legible : d.Legible
  laid : d.root.laid = true
  inside : d.root.stop ≤ d.source.size

namespace LaidOut

theorem le (hd : d.LaidOut) (hp : p.Within d.root) : p.node.start ≤ p.node.stop ∧ p.node.stop ≤ d.source.size := by
  obtain ⟨hlaid, -, hstop⟩ := Place.laid_of_within hd.laid hp
  exact ⟨Node.start_le_stop_of_laid _ hlaid, hstop.trans hd.inside⟩

theorem extract_wording (hd : d.LaidOut) (hp : p.Within d.root) :
    d.source.extract p.node.start p.node.stop = (d.wording p.node).toUTF8 :=
  Conversion.decode_ok.mp (hd.legible p hp)

theorem size_wording (hd : d.LaidOut) (hp : p.Within d.root) :
    (d.wording p.node).toUTF8.size = p.node.stop - p.node.start := by
  have hle := hd.le hp
  rw [← hd.extract_wording hp, ByteArray.size_extract]
  omega

/-- A node with one of the names within another one with one of them has the same range. -/
theorem range_of_held (hd : d.LaidOut) (hp : d.Gives p) (hq : d.Gives q)
    (hheld : p.node.start ≤ q.node.start ∧ q.node.stop ≤ p.node.stop) : p.node.range = q.node.range := by
  have hple := hd.le hp.within
  have hqle := hd.le hq.within
  have hpsize := hd.size_wording hp.within
  have hqsize := hd.size_wording hq.within
  have hsmall := size_formerNames _ hp.named
  have hwide := size_formerNames _ hq.named
  have hpart : ((d.wording p.node).toUTF8.data.toList.drop (q.node.start - p.node.start)).take
      (d.wording q.node).toUTF8.size = (d.wording q.node).toUTF8.data.toList := by
    rw [hqsize, ← hd.extract_wording hp.within, ← hd.extract_wording hq.within]
    exact (Edit.extract_part d.source hheld.1 hheld.2).trans (Edit.toList_extract _ _ _).symm
  obtain ⟨hzero, hsame⟩ := formerNames_apart _ hp.named _ hq.named
    (q.node.start - p.node.start) (by omega) hpart (by omega)
  exact Prod.ext (by change p.node.start = q.node.start; omega) (by change p.node.stop = q.node.stop; omega)

theorem wording_of_range (hd : d.LaidOut) (hp : p.Within d.root) (hq : q.Within d.root)
    (h : p.node.range = q.node.range) : d.wording p.node = d.wording q.node := by
  have hstart : p.node.start = q.node.start := congrArg Prod.fst h
  have hstop : p.node.stop = q.node.stop := congrArg Prod.snd h
  have hbytes := hd.extract_wording hp
  rw [hstart, hstop, hd.extract_wording hq] at hbytes
  exact (String.toByteArray_inj.mp hbytes).symm

theorem same_or_apart (hd : d.LaidOut) (hp : d.Gives p) (hq : d.Gives q) :
    p.node.range = q.node.range ∨ p.node.range.Apart q.node.range := by
  rcases Place.meets_of_within d.root hd.laid p q hp.within hq.within with h | h | h | h
  · exact .inr (.inl h)
  · exact .inr (.inr h)
  · exact .inl (hd.range_of_held hp hq h)
  · exact .inl (hd.range_of_held hq hp h).symm

end LaidOut

/-! ## Callees -/

/-- The calls of a plain name. -/
def callsOf (d : Document) (name : String) : List Place := d.places.filter (d.callsName (.exactly name))

/-- The callees of the calls of a plain name. -/
def callees (d : Document) (name : String) : List Place := (d.callsOf name).filterMap (·.field? .callee)

theorem callee_of_callsName (h : d.callsName (.exactly name) p = true) :
    ∃ c, p.field? .callee = some c ∧ d.wording c.node = name := by
  obtain ⟨c, hc, hname⟩ := (Option.any_eq_true _ _).mp (Bool.and_eq_true_iff.mp h).2
  exact ⟨c, hc, beq_iff_eq.mp (Bool.and_eq_true_iff.mp hname).2⟩

theorem gives_callee (hname : name ∈ formerNames) (hp : p ∈ d.places)
    (hcalls : d.callsName (.exactly name) p = true) (hc : p.field? .callee = some c) :
    d.Gives c ∧ d.wording c.node = name := by
  obtain ⟨c', hc', hword⟩ := callee_of_callsName hcalls
  cases hc.symm.trans hc'
  exact ⟨⟨(within_of_mem_places hp).field? hc, hword ▸ hname⟩, hword⟩

/-- In a call of the same range as one of its callers' nodes the callee is all that there is. -/
theorem LaidOut.callee_of_below (hd : d.LaidOut) (hname : name ∈ formerNames) (hp : p ∈ d.places)
    (hq : q ∈ d.places) (hpcalls : d.callsName (.exactly name) p = true)
    (hqcalls : d.callsName (.exactly name) q = true)
    (hrange : p.node.range = q.node.range) (hc : p.field? .callee = some c) (hc' : q.field? .callee = some c')
    (hbelow : p.node.stop ≤ q.node.start ∨
      ∃ m ∈ p.node.children, m.start ≤ q.node.start ∧ q.node.stop ≤ m.stop) :
    c.node.range = c'.node.range := by
  have hstart : p.node.start = q.node.start := congrArg Prod.fst hrange
  have hstop : p.node.stop = q.node.stop := congrArg Prod.snd hrange
  obtain ⟨hgives, hword⟩ := gives_callee hname hp hpcalls hc
  obtain ⟨hgives', -⟩ := gives_callee hname hq hqcalls hc'
  have hsize := hd.size_wording hgives.within
  have hpos := (size_formerNames _ hgives.named).1
  obtain ⟨hplaid, -, -⟩ := Place.laid_of_within hd.laid (within_of_mem_places hp)
  obtain ⟨hqlaid, -, -⟩ := Place.laid_of_within hd.laid (within_of_mem_places hq)
  obtain ⟨-, hcstart, hcstop⟩ := Place.laid_field? hplaid hc
  obtain ⟨-, hcstart', hcstop'⟩ := Place.laid_field? hqlaid hc'
  rcases hbelow with hapart | ⟨m, hm, hmstart, hmstop⟩
  · omega
  · obtain ⟨n, hn, rfl⟩ := Option.map_eq_some_iff.mp hc
    have hnode : ((p.child n).node).start = n.start ∧ ((p.child n).node).stop = n.stop := ⟨rfl, rfl⟩
    -- the child that holds the second call fills the first one, so it is the callee
    have hsame : m = n := by
      have hrow : Node.laidAll p.node.start p.node.stop p.node.children = true := by
        revert hplaid
        cases p.node
        exact id
      rcases Node.eq_or_apart hrow hm (List.mem_of_find?_eq_some hn) with hsame | hapart
      · exact hsame
      · omega
    rw [hsame] at hmstart hmstop
    exact hd.range_of_held hgives hgives' ⟨by omega, by omega⟩

/-- Calls of one range have their callees at one place. -/
theorem LaidOut.callee_of_range (hd : d.LaidOut) (hname : name ∈ formerNames) (hp : p ∈ d.places)
    (hq : q ∈ d.places) (hpcalls : d.callsName (.exactly name) p = true)
    (hqcalls : d.callsName (.exactly name) q = true)
    (hrange : p.node.range = q.node.range) (hc : p.field? .callee = some c) (hc' : q.field? .callee = some c') :
    c.node.range = c'.node.range := by
  by_cases hpq : p = q
  · subst hpq
    cases hc.symm.trans hc'
    rfl
  · let R (p q : Place) : Prop := p.node.stop ≤ q.node.start ∨
      ∃ m ∈ p.node.children, m.start ≤ q.node.start ∧ q.node.stop ≤ m.stop
    have hsymm : Std.Symm fun p q : Place => R p q ∨ R q p := ⟨fun _ _ => Or.symm⟩
    have hpairs : d.places.Pairwise fun p q => R p q ∨ R q p := (Place.walk_below [] d.root hd.laid).imp .inl
    rcases hpairs.forall hp hq hpq with hbelow | hbelow
    · exact hd.callee_of_below hname hp hq hpcalls hqcalls hrange hc hc' hbelow
    · exact (hd.callee_of_below hname hq hp hqcalls hpcalls hrange.symm hc' hc hbelow).symm

end Document

/-! ## The block -/

namespace RenderCall

open Replacement (joined gathered)

variable {d : Document} {p c : Place} {name : String} {rs : List Replacement} {ps : List Place}

def given (name : String) (c : Place) : Replacement := (c.node.range, name)

theorem records_renameCallee_joined (hd : d.LaidOut) (hp : p.Within d.root) (hc : p.field? .callee = some c) :
    Records (renameCallee name (d.handle p)) d (.holding d.generation rs) ()
      (.holding d.generation (joined rs (given name c))) := by
  have hfield : (d.handle p).field? .callee d = .ok (some (d.handle c)) := by
    rw [Handle.field?_handle, hc]
    rfl
  exact records_look_bind (Handle.plain_field? _ _) hfield (records_replaceWith_joined (hd.le (hp.field? hc)))

theorem records_renameEach (hd : d.LaidOut) (hps : ∀ p ∈ ps, p.Within d.root ∧ (p.field? .callee).isSome = true) :
    Records ((ps.map d.handle).forM (renameCallee name)) d (.holding d.generation rs) ⟨⟩
      (.holding d.generation (gathered rs ((ps.filterMap (·.field? .callee)).map (given name)))) := by
  induction ps generalizing rs with
  | nil => exact records_pure _
  | cons p ps ih =>
    obtain ⟨⟨hp, hsome⟩, hrest⟩ := List.forall_mem_cons.mp hps
    obtain ⟨c, hc⟩ := Option.isSome_iff_exists.mp hsome
    have hcallees : (p :: ps).filterMap (·.field? .callee) = c :: ps.filterMap (·.field? .callee) :=
      List.filterMap_cons_some hc
    rw [List.map_cons, hcallees, List.map_cons]
    exact (records_renameCallee_joined hd hp hc).andThen (ih hrest)

/-- The calls of a name that a search finds. -/
def foundCalls (d : Document) (name : String) : List Place := d.found (d.callsName (.exactly name))

theorem findAll_callTo (hd : d.Legible) (name : String) :
    findAll (.callTo (.exactly name)) d = .ok ((foundCalls d name).map d.handle) := by
  refine Document.findAll_eq fun p hp => ?_
  refine (holdsOf_callTo hd (Document.within_of_mem_places hp) none).trans ?_
  rw [Pattern.countHolds, Bool.and_true]

theorem has_callee (hp : p ∈ foundCalls d name) : p.Within d.root ∧ (p.field? .callee).isSome = true := by
  obtain ⟨hplace, hcalls⟩ := Document.mem_found hp
  obtain ⟨c, hc, -⟩ := Document.callee_of_callsName hcalls
  exact ⟨Document.within_of_mem_places hplace, by rw [hc]; rfl⟩

/-- What is put in the place of the callees that are found. -/
def calleesTo (d : Document) (name text : String) : List Replacement :=
  ((foundCalls d name).filterMap (·.field? .callee)).map (given text)

/-- What is asked for to make room, where the name that is bound is taken. -/
def roomFor (d : Document) (binding : Option Place) : List Replacement :=
  (binding.filter (d.wording ·.node == renderName)).elim []
    fun b => given helperName b :: calleesTo d renderName helperName

theorem records_renameHelper_gathered (rs : List Replacement) (hd : d.LaidOut) {binding : Option Place}
    (hbinding : ∀ b ∈ binding, b.Within d.root) :
    Records (renameHelper (binding.map d.handle) (binding.map (d.wording ·.node))) d (.holding d.generation rs) ⟨⟩
      (.holding d.generation (gathered rs (roomFor d binding))) := by
  unfold roomFor renameHelper
  cases binding with
  | none => exact records_pure _
  | some b =>
    have hb := hbinding b rfl
    rw [Option.map_some, Option.map_some, Option.filter_some]
    dsimp only
    by_cases htaken : d.wording b.node = renderName
    · rw [if_pos (by rw [htaken]; rfl), if_pos (by rw [htaken]; rfl)]
      have hfound := findAll_callTo hd.legible renderName
      exact (records_replaceWith_joined (hd.le hb)).andThen
        (records_look_bind (plain_findAll (Pattern.quiet_callTo _)) hfound
          (records_renameEach hd fun p hp => has_callee hp))
    · rw [if_neg (by simpa using htaken), if_neg (by simpa using htaken)]
      exact records_pure _

/-- What is asked for in all. -/
def asked (d : Document) (primitive : String) (binding : Option Place) : List Replacement :=
  roomFor d binding ++ calleesTo d primitive renderName

theorem records_renameCalls (hd : d.LaidOut) (primitive : String) (binding : Option Place)
    (hbinding : ∀ b ∈ binding, b.Within d.root) :
    Records (renameCalls (binding.map d.handle) (binding.map (d.wording ·.node))
        ((foundCalls d primitive).map d.handle)) d (.open' d.generation) ⟨⟩
      (.holding d.generation (gathered [] (asked d primitive binding))) := by
  have hroom := records_renameHelper_gathered [] hd hbinding
  unfold asked
  rw [Replacement.gathered_append]
  exact hroom.andThen (records_renameEach hd fun p hp => has_callee hp)

/-! ## What is renamed -/

/-- The ranges that are given new names. Each call of the one function is a call of `render` from then on;
and just where the name that is bound around the first of them is `render`, this name and the callees of
that name are another one. -/
inductive Rewrites (d : Document) (primitive : String) (first : Place) : Stretch → String → Prop where
  | call {c : Place} (h : c ∈ d.callees primitive) : Rewrites d primitive first c.node.range renderName
  | binding {b : Place} (bound : first.boundName? = some b) (taken : d.wording b.node = renderName) :
      Rewrites d primitive first b.node.range helperName
  | use {b c : Place} (bound : first.boundName? = some b) (taken : d.wording b.node = renderName)
      (h : c ∈ d.callees renderName) : Rewrites d primitive first c.node.range helperName

variable {primitive : String} {first : Place} {r : Replacement}

theorem mem_calleesTo (hd : d.LaidOut) (hname : name ∈ Document.formerNames) {text : String} :
    r ∈ calleesTo d name text ↔ r.2 = text ∧ ∃ c ∈ d.callees name, c.node.range = r.1 := by
  unfold calleesTo
  rw [List.mem_map]
  constructor
  · rintro ⟨c, hc, rfl⟩
    obtain ⟨p, hp, hcallee⟩ := List.mem_filterMap.mp hc
    obtain ⟨hplace, hcalls⟩ := Document.mem_found hp
    exact ⟨rfl, c, List.mem_filterMap.mpr ⟨p, List.mem_filter.mpr ⟨hplace, hcalls⟩, hcallee⟩, rfl⟩
  · rintro ⟨htext, c, hc, hrange⟩
    obtain ⟨p, hp, hcallee⟩ := List.mem_filterMap.mp hc
    obtain ⟨hplace, hcalls⟩ := List.mem_filter.mp hp
    -- of the calls of this range one is found, and its callee is at the same place
    obtain ⟨q, hq, hsame⟩ := Document.exists_found hplace hcalls
    obtain ⟨hqplace, hqcalls⟩ := Document.mem_found hq
    obtain ⟨c', hcallee', -⟩ := Document.callee_of_callsName hqcalls
    refine ⟨c', List.mem_filterMap.mpr ⟨q, hq, hcallee'⟩, Prod.ext ?_ htext.symm⟩
    exact (hd.callee_of_range hname hqplace hplace hqcalls hcalls hsame hcallee' hcallee).trans hrange

theorem mem_asked (hd : d.LaidOut) (hprimitive : primitive ∈ primitives) :
    r ∈ asked d primitive first.boundName? ↔ Rewrites d primitive first r.1 r.2 := by
  have hrender : renderName ∈ Document.formerNames := List.mem_cons_self
  have hname : primitive ∈ Document.formerNames := List.mem_cons_of_mem _ hprimitive
  obtain ⟨range, text⟩ := r
  unfold asked roomFor
  rw [List.mem_append, mem_calleesTo hd hname]
  constructor
  · rintro (hroom | ⟨htext, c, hc, hrange⟩)
    · cases hbinding : first.boundName?.filter (d.wording ·.node == renderName) with
      | none =>
        rw [hbinding] at hroom
        cases hroom
      | some b =>
        obtain ⟨hbound, htaken⟩ := Option.filter_eq_some_iff.mp hbinding
        have htaken := eq_of_beq htaken
        rw [hbinding, Option.elim_some] at hroom
        rcases List.mem_cons.mp hroom with hself | huse
        · cases hself
          exact .binding hbound htaken
        · obtain ⟨htext, c, hc, hrange⟩ := (mem_calleesTo hd hrender).mp huse
          cases htext
          cases hrange
          exact .use hbound htaken hc
    · cases htext
      cases hrange
      exact .call hc
  · intro h
    have hfilter : ∀ b, first.boundName? = some b → d.wording b.node = renderName →
        first.boundName?.filter (d.wording ·.node == renderName) = some b := fun b hbound htaken =>
      Option.filter_eq_some_iff.mpr ⟨hbound, beq_iff_eq.mpr htaken⟩
    cases h with
    | call hc => exact .inr ⟨rfl, _, hc, rfl⟩
    | @binding b hbound htaken =>
      rw [hfilter b hbound htaken]
      exact .inl List.mem_cons_self
    | @use b c hbound htaken hc =>
      rw [hfilter b hbound htaken]
      exact .inl (List.mem_cons_of_mem _ ((mem_calleesTo hd hrender).mpr ⟨rfl, c, hc, rfl⟩))

/-- What is rewritten is a name that gives way, and what it gives way to depends on the name alone. -/
theorem Rewrites.gives (hprimitive : primitive ∈ primitives) (hfirst : first.Within d.root) {range : Stretch}
    {text : String} (h : Rewrites d primitive first range text) :
    ∃ p, d.Gives p ∧ p.node.range = range ∧
      text = if d.wording p.node = renderName then helperName else renderName := by
  have hother : ∀ name ∈ primitives, name ≠ renderName := by decide
  cases h with
  | @call c hc =>
    obtain ⟨p, hp, hcallee⟩ := List.mem_filterMap.mp hc
    obtain ⟨hplace, hcalls⟩ := List.mem_filter.mp hp
    obtain ⟨hgives, hword⟩ := Document.gives_callee (List.mem_cons_of_mem _ hprimitive) hplace hcalls hcallee
    exact ⟨c, hgives, rfl, by rw [hword, if_neg (hother primitive hprimitive)]⟩
  | @binding b hbound htaken =>
    exact ⟨b, ⟨hfirst.boundName? hbound, htaken ▸ List.mem_cons_self⟩, rfl, by rw [if_pos htaken]⟩
  | @use b c hbound htaken hc =>
    obtain ⟨p, hp, hcallee⟩ := List.mem_filterMap.mp hc
    obtain ⟨hplace, hcalls⟩ := List.mem_filter.mp hp
    obtain ⟨hgives, hword⟩ := Document.gives_callee List.mem_cons_self hplace hcalls hcallee
    exact ⟨c, hgives, rfl, by rw [if_pos hword]⟩

/-- Two rewritings are one, or they are apart. -/
theorem rewrites_apart (hd : d.LaidOut) (hprimitive : primitive ∈ primitives) (hfirst : first.Within d.root)
    {r r' : Replacement} (h : Rewrites d primitive first r.1 r.2) (h' : Rewrites d primitive first r'.1 r'.2)
    (hne : r ≠ r') : r.1.Apart r'.1 := by
  obtain ⟨p, hp, hrange, htext⟩ := h.gives hprimitive hfirst
  obtain ⟨q, hq, hrange', htext'⟩ := h'.gives hprimitive hfirst
  rcases hd.same_or_apart hp hq with hsame | hapart
  · refine absurd (Prod.ext ?_ ?_) hne
    · rw [← hrange, ← hrange', hsame]
    · rw [htext, htext', hd.wording_of_range hp.within hq.within hsame]
  · rwa [hrange, hrange'] at hapart

/-- The batch of the block and what it comes to. -/
theorem outcome_asked (hd : d.LaidOut) (hprimitive : primitive ∈ primitives) (hfirst : first.Within d.root) :
    ∃ made : List Replacement, (∀ r, r ∈ made ↔ Rewrites d primitive first r.1 r.2) ∧
      (made.Pairwise fun a b => a.1.2 ≤ b.1.1) ∧
      (Batch.holding d.generation (gathered [] (asked d primitive first.boundName?))).outcome d.source =
        Edit.splice d.source 0 (Edit.numbered 0 made) ∧
      (Batch.holding d.generation (gathered [] (asked d primitive first.boundName?))).settled.2 = [] := by
  have hmem : ∀ r, r ∈ gathered [] (asked d primitive first.boundName?) ↔ Rewrites d primitive first r.1 r.2 := by
    intro r
    rw [Replacement.mem_gathered, ← mem_asked hd hprimitive]
    exact or_iff_right List.not_mem_nil
  have hwide : ∀ r ∈ gathered [] (asked d primitive first.boundName?), r.1.1 ≤ r.1.2 := by
    intro r hr
    obtain ⟨p, hp, hrange, -⟩ := ((hmem r).mp hr).gives hprimitive hfirst
    rw [← hrange]
    exact (hd.le hp.within).1
  have hapart : (gathered [] (asked d primitive first.boundName?)).Pairwise fun a b => a.1.Apart b.1 := by
    refine (Replacement.nodup_gathered List.nodup_nil).imp_of_mem fun {a b} ha hb hne => ?_
    exact rewrites_apart hd hprimitive hfirst ((hmem a).mp ha) ((hmem b).mp hb) hne
  obtain ⟨made, hperm, horder, houtcome, hnone⟩ := Batch.outcome_apart d.source hwide hapart
  exact ⟨made, fun r => (hperm.mem_iff).trans (hmem r), horder, houtcome, hnone⟩

/-! ## The pass -/

variable (file : Option String) (findings : List Diagnostic) {rest : List Place}

theorem listed_eq (hd : d.Legible) (names : List String) :
    (names.mapM fun name => do return (name, ← (findAll (.callTo (.exactly name)) : Looking _)) :
      Pass (List (String × List Handle))) ⟨d, file, findings⟩ =
        .ok (names.map fun name => (name, (foundCalls d name).map d.handle)) ⟨d, file, findings⟩ := by
  induction names with
  | nil => rfl
  | cons name names ih =>
    have hfirst : (do return (name, ← (findAll (.callTo (.exactly name)) : Looking _)) :
        Pass (String × List Handle)) ⟨d, file, findings⟩ =
          .ok (name, (foundCalls d name).map d.handle) ⟨d, file, findings⟩ :=
      Leaves.of_bind_ok (Pass.look_eq (findAll_callTo hd name))
    rw [List.mapM_cons]
    exact (Leaves.of_bind_ok hfirst).trans (Leaves.of_bind_ok ih)

theorem head?_foundCalls (d : Document) (name : String) : (foundCalls d name).head? = (d.callsOf name).head? :=
  Document.head?_found d _

theorem foundCalls_eq_nil : foundCalls d name = [] ↔ d.callsOf name = [] := by
  rw [← List.head?_eq_none_iff, ← List.head?_eq_none_iff, head?_foundCalls]

/-- The name of the render function: what is bound around the first call, unless this is taken. -/
def functionName (d : Document) (first : Place) : Option String :=
  first.boundName?.map fun b => if d.wording b.node = renderName then helperName else d.wording b.node

theorem functionName_eq (d : Document) (first : Place) :
    (if first.boundName?.map (d.wording ·.node) == some renderName then some helperName
      else first.boundName?.map (d.wording ·.node)) = functionName d first := by
  unfold functionName
  cases first.boundName? with
  | none => rw [Option.map_none, Option.map_none, if_neg (by decide)]
  | some b =>
    rw [Option.map_some, Option.map_some]
    by_cases htaken : d.wording b.node = renderName
    · rw [if_pos (beq_iff_eq.mpr (congrArg some htaken)), if_pos htaken]
    · rw [if_neg (by simpa using htaken), if_neg htaken]

theorem boundText_handle (hd : d.Legible) (hfirst : first.Within d.root) :
    ((first.boundName?.map d.handle).mapM (·.text) : Looking _) d =
      .ok (first.boundName?.map (d.wording ·.node)) := by
  cases hbound : first.boundName? with
  | none => rfl
  | some b =>
    change ((d.handle b).text >>= fun name => pure (some name)) d = _
    exact look_bind_eq (Handle.text_handle hd (hfirst.boundName? hbound)) rfl

/-- The block in which the calls of one function are renamed. -/
def block (d : Document) (primitive : String) (first : Place) : Editing (Unit × Batch) :=
  Document.batched (renameCalls (first.boundName?.map d.handle) (first.boundName?.map (d.wording ·.node))
    ((foundCalls d primitive).map d.handle))

theorem reportUnbound_eq (primitive : String) (line : Nat) (name : Option String) (s : Session) :
    ∃ more, reportUnbound primitive line name s = .ok () { s with findings := s.findings ++ more } := by
  cases name with
  | none => exact ⟨_, rfl⟩
  | some name =>
    refine ⟨[], ?_⟩
    rw [List.append_nil]
    rfl

/-- A pass over the calls of one function is its block, between looks at the first call and a report. -/
theorem convertCalls_eq (hd : d.Legible) (hfirst : first.Within d.root)
    (hcalls : foundCalls d primitive = first :: rest) :
    (∀ a d', block d primitive first d = .ok a d' → ∃ more,
      convertCalls primitive (d.handle first) (rest.map d.handle) ⟨d, file, findings⟩ =
        .ok (functionName d first) ⟨d', file, findings ++ more⟩) ∧
    ∀ e d', block d primitive first d = .error e d' →
      convertCalls primitive (d.handle first) (rest.map d.handle) ⟨d, file, findings⟩ =
        .error e ⟨d', file, findings⟩ := by
  have hline : (d.handle first).line d = .ok (d.lineOf first.node.start) := Handle.line_handle
  have hbinding := boundName?_handle hd hfirst
  have hrun : convertCalls primitive (d.handle first) (rest.map d.handle) ⟨d, file, findings⟩ =
      (Pass.lift (block d primitive first) >>= fun _ => do
        reportUnbound primitive (d.lineOf first.node.start) (first.boundName?.map (d.wording ·.node))
        return if first.boundName?.map (d.wording ·.node) == some renderName then some helperName
          else first.boundName?.map (d.wording ·.node)) ⟨d, file, findings⟩ := by
    refine (Leaves.of_bind_ok (Pass.look_eq hline)).trans ((Leaves.of_bind_ok (Pass.look_eq hbinding)).trans
      ((Leaves.of_bind_ok (Pass.look_eq (boundText_handle hd hfirst))).trans ?_))
    unfold block
    rw [hcalls]
    rfl
  constructor
  · intro a d' hblock
    have hlift := Pass.lift_of_ok (s := ⟨d, file, findings⟩) hblock
    obtain ⟨more, hreport⟩ := reportUnbound_eq primitive (d.lineOf first.node.start)
      (first.boundName?.map (d.wording ·.node)) ⟨d', file, findings⟩
    refine ⟨more, ?_⟩
    rw [hrun, Leaves.of_bind_ok hlift, Leaves.of_bind_ok hreport, functionName_eq]
    rfl
  · intro e d' hblock
    rw [hrun]
    exact Leaves.of_bind_error (Pass.lift_of_error (s := ⟨d, file, findings⟩) hblock)

/-- The block makes the rewritings, or the document stays as it was. -/
theorem block_eq (closed : d.batch = none) (hd : d.LaidOut) (hprimitive : primitive ∈ primitives)
    (hcalls : foundCalls d primitive = first :: rest) :
    ∃ made : List Replacement, (∀ r, r ∈ made ↔ Rewrites d primitive first r.1 r.2) ∧
      (made.Pairwise fun a b => a.1.2 ≤ b.1.1) ∧
      (∀ root, d.read (Edit.splice d.source 0 (Edit.numbered 0 made)) = .ok root →
        ∃ b, block d primitive first d =
            .ok ((), b) (d.reread (Edit.splice d.source 0 (Edit.numbered 0 made)) root) ∧ b.deferred = []) ∧
      ∀ place, d.read (Edit.splice d.source 0 (Edit.numbered 0 made)) = .error place →
        ∃ snippet, block d primitive first d = .error (.invalidEdit place snippet) d := by
  have hmem : first ∈ foundCalls d primitive := by
    rw [hcalls]
    exact List.mem_cons_self
  obtain ⟨hwithin, hsome⟩ := has_callee hmem
  obtain ⟨c, hc⟩ := Option.isSome_iff_exists.mp hsome
  obtain ⟨hplace, htest⟩ := Document.mem_found hmem
  obtain ⟨made, hmade, horder, houtcome, hnone⟩ := outcome_asked hd hprimitive hwithin
  have hrecords := records_renameCalls hd primitive first.boundName? fun b hb => hwithin.boundName? hb
  have hedits : (Batch.holding d.generation (gathered [] (asked d primitive first.boundName?))).edits ≠ [] := by
    have hcallee : c ∈ d.callees primitive :=
      List.mem_filterMap.mpr ⟨first, List.mem_filter.mpr ⟨hplace, htest⟩, hc⟩
    have hasked : (c.node.range, renderName) ∈ gathered [] (asked d primitive first.boundName?) :=
      Replacement.mem_gathered.mpr (.inr ((mem_asked hd hprimitive).mpr (.call hcallee)))
    obtain ⟨e, he, -⟩ := Edit.numbered_of_mem 0 hasked
    exact List.ne_nil_of_mem he
  refine ⟨made, hmade, horder, fun root hread => ?_, fun place hread => ?_⟩
  · rw [← houtcome] at hread ⊢
    exact ⟨_, Document.batched_of_something (made_renameCalls _ _ _) closed hrecords hedits hread, hnone⟩
  · rw [← houtcome] at hread
    exact Document.batched_of_unread (made_renameCalls _ _ _) closed hrecords hedits hread

/-- Which of the functions of the old library are called. -/
theorem normalise_eq (hd : d.Legible) :
    normalise ⟨d, file, findings⟩ =
      convertFound (([("shallow", (foundCalls d "shallow").map d.handle),
        ("mount", (foundCalls d "mount").map d.handle)] : List (String × List Handle)).filter
          fun (_, cs) => !cs.isEmpty) ⟨d, file, findings⟩ :=
  Leaves.of_bind_ok (listed_eq file findings hd primitives)

/-- Where only one of the functions is called, the pass is that over its calls. -/
theorem normalise_of_one (hd : d.Legible) (hprimitive : primitive ∈ primitives)
    (hcalls : foundCalls d primitive = first :: rest)
    (hothers : ∀ other ∈ primitives, other ≠ primitive → foundCalls d other = []) :
    normalise ⟨d, file, findings⟩ =
      convertCalls primitive (d.handle first) (rest.map d.handle) ⟨d, file, findings⟩ := by
  rw [normalise_eq file findings hd]
  rcases List.mem_pair.mp hprimitive with rfl | rfl
  · rw [hcalls, hothers "mount" (by decide) (by decide)]
    rfl
  · rw [hcalls, hothers "shallow" (by decide) (by decide)]
    rfl

theorem normalise_of_both (hd : d.Legible) (hcalls : ∀ primitive ∈ primitives, d.callsOf primitive ≠ []) :
    ∃ e, normalise ⟨d, file, findings⟩ = .error e ⟨d, file, findings⟩ ∧ e.kind = .unsupportedInput := by
  have hcalled : ∀ primitive ∈ primitives, ∃ first rest, foundCalls d primitive = first :: rest :=
    fun primitive hprimitive => List.exists_cons_of_ne_nil (mt foundCalls_eq_nil.mp (hcalls primitive hprimitive))
  obtain ⟨first, rest, hshallow⟩ := hcalled "shallow" (by decide)
  obtain ⟨first', rest', hmount⟩ := hcalled "mount" (by decide)
  rw [normalise_eq file findings hd, hshallow, hmount]
  exact ⟨_, rfl, rfl⟩

theorem normalise_of_neither (hd : d.Legible) (hcalls : ∀ primitive ∈ primitives, d.callsOf primitive = []) :
    ∃ more, normalise ⟨d, file, findings⟩ = .ok none ⟨d, file, findings ++ more⟩ := by
  have hnone : ∀ primitive ∈ primitives, foundCalls d primitive = [] :=
    fun primitive hprimitive => foundCalls_eq_nil.mpr (hcalls primitive hprimitive)
  rw [normalise_eq file findings hd, hnone "shallow" (by decide), hnone "mount" (by decide)]
  exact ⟨_, rfl⟩

/-- Where only one of the functions is called, the pass makes the rewritings or fails for the text that they
leave. -/
theorem normalise_of_called (closed : d.batch = none) (hd : d.LaidOut) (hprimitive : primitive ∈ primitives)
    (hfirst : (d.callsOf primitive).head? = some first)
    (hothers : ∀ other ∈ primitives, other ≠ primitive → d.callsOf other = []) :
    ∃ made : List Replacement, (∀ r, r ∈ made ↔ Rewrites d primitive first r.1 r.2) ∧
      (made.Pairwise fun a b => a.1.2 ≤ b.1.1) ∧
      (∀ root, d.read (Edit.splice d.source 0 (Edit.numbered 0 made)) = .ok root → ∃ more b,
        normalise ⟨d, file, findings⟩ = .ok (functionName d first)
          ⟨d.reread (Edit.splice d.source 0 (Edit.numbered 0 made)) root, file, findings ++ more⟩ ∧
        block d primitive first d = .ok ((), b)
          (d.reread (Edit.splice d.source 0 (Edit.numbered 0 made)) root) ∧ b.deferred = []) ∧
      ∀ place, d.read (Edit.splice d.source 0 (Edit.numbered 0 made)) = .error place → ∃ snippet,
        normalise ⟨d, file, findings⟩ = .error (.invalidEdit place snippet) ⟨d, file, findings⟩ := by
  rw [← head?_foundCalls] at hfirst
  obtain ⟨rest, hcalls⟩ := List.head?_eq_some_iff.mp hfirst
  have hwithin : first.Within d.root := (has_callee (List.mem_of_head? hfirst)).1
  obtain ⟨made, hmade, horder, hread, hunread⟩ := block_eq closed hd hprimitive hcalls
  obtain ⟨hok, hfails⟩ := convertCalls_eq file findings hd.legible hwithin hcalls
  have hone := normalise_of_one file findings hd.legible hprimitive hcalls
    fun other hother hne => foundCalls_eq_nil.mpr (hothers other hother hne)
  refine ⟨made, hmade, horder, fun root hroot => ?_, fun place hplace => ?_⟩
  · obtain ⟨b, hblock, hnone⟩ := hread root hroot
    obtain ⟨more, hrun⟩ := hok _ _ hblock
    exact ⟨more, b, hone.trans hrun, hblock, hnone⟩
  · obtain ⟨snippet, hblock⟩ := hunread place hplace
    exact ⟨snippet, hone.trans (hfails _ _ hblock)⟩

/-- Both of the functions are called, or neither, or one of them alone. -/
theorem called_cases (d : Document) :
    (∀ primitive ∈ primitives, d.callsOf primitive ≠ []) ∨ (∀ primitive ∈ primitives, d.callsOf primitive = []) ∨
      ∃ primitive ∈ primitives, (∃ first, (d.callsOf primitive).head? = some first) ∧
        ∀ other ∈ primitives, other ≠ primitive → d.callsOf other = [] := by
  have hhead : ∀ name, d.callsOf name ≠ [] → ∃ first, (d.callsOf name).head? = some first :=
    fun name hname => Option.ne_none_iff_exists'.mp (mt List.head?_eq_none_iff.mp hname)
  have hpair : ∀ P : String → Prop, (∀ primitive ∈ primitives, P primitive) ↔ P "shallow" ∧ P "mount" := by
    intro P
    unfold primitives
    rw [List.forall_mem_cons, List.forall_mem_singleton]
  by_cases hshallow : d.callsOf "shallow" = [] <;> by_cases hmount : d.callsOf "mount" = []
  · exact .inr (.inl ((hpair _).mpr ⟨hshallow, hmount⟩))
  · refine .inr (.inr ⟨"mount", by decide, hhead _ hmount, (hpair _).mpr ⟨fun _ => hshallow, fun hne => ?_⟩⟩)
    exact absurd rfl hne
  · refine .inr (.inr ⟨"shallow", by decide, hhead _ hshallow, (hpair _).mpr ⟨fun hne => ?_, fun _ => hmount⟩⟩)
    exact absurd rfl hne
  · exact .inl ((hpair _).mpr ⟨hshallow, hmount⟩)

theorem normalise_error (closed : d.batch = none) (hd : d.LaidOut) {e : Failure} {s : Session}
    (h : normalise ⟨d, file, findings⟩ = .error e s) : s = ⟨d, file, findings⟩ ∧
      ((∀ primitive ∈ primitives, d.callsOf primitive ≠ []) ∧ e.kind = .unsupportedInput ∨
        e.kind = .invalidEdit) := by
  rcases called_cases d with hboth | hneither | ⟨primitive, hprimitive, ⟨first, hfirst⟩, hothers⟩
  · obtain ⟨e', hfails, hkind⟩ := normalise_of_both file findings hd.legible hboth
    cases h.symm.trans hfails
    exact ⟨rfl, .inl ⟨hboth, hkind⟩⟩
  · obtain ⟨more, hok⟩ := normalise_of_neither file findings hd.legible hneither
    cases h.symm.trans hok
  · obtain ⟨made, -, -, hread, hunread⟩ :=
      normalise_of_called file findings closed hd hprimitive hfirst hothers
    cases hroot : d.read (Edit.splice d.source 0 (Edit.numbered 0 made)) with
    | ok root =>
      obtain ⟨more, b, hok, -⟩ := hread root hroot
      cases h.symm.trans hok
    | error place =>
      obtain ⟨snippet, hfails⟩ := hunread place hroot
      cases h.symm.trans hfails
      exact ⟨rfl, .inr rfl⟩

/-- The pass fails for a script that calls both functions of the old library, and does nothing for one that
calls neither. Otherwise the callees of the one function are renamed, and just where the name that is bound
around the first of them is `render`, so are this name and all callees of that name; no edit is deferred.
Where the text that comes out cannot be read, the pass fails too; no failure changes anything. -/
theorem normalise_rewrites (closed : d.batch = none) (hd : d.LaidOut) :
    ((∃ e s, normalise ⟨d, file, findings⟩ = .error e s ∧ e.kind = .unsupportedInput) ↔
      ∀ primitive ∈ primitives, d.callsOf primitive ≠ []) ∧
    (∀ e s, normalise ⟨d, file, findings⟩ = .error e s → s = ⟨d, file, findings⟩) ∧
    ((∀ primitive ∈ primitives, d.callsOf primitive = []) →
      ∃ more, normalise ⟨d, file, findings⟩ = .ok none ⟨d, file, findings ++ more⟩) ∧
    ∀ primitive ∈ primitives, (∀ other ∈ primitives, other ≠ primitive → d.callsOf other = []) →
      ∀ first, (d.callsOf primitive).head? = some first → ∃ made : List Replacement,
        (∀ r, r ∈ made ↔ Rewrites d primitive first r.1 r.2) ∧ (made.Pairwise fun a b => a.1.2 ≤ b.1.1) ∧
        (∀ root, d.read (Edit.splice d.source 0 (Edit.numbered 0 made)) = .ok root → ∃ more b,
          normalise ⟨d, file, findings⟩ = .ok (functionName d first)
            ⟨d.reread (Edit.splice d.source 0 (Edit.numbered 0 made)) root, file, findings ++ more⟩ ∧
          block d primitive first d = .ok ((), b)
            (d.reread (Edit.splice d.source 0 (Edit.numbered 0 made)) root) ∧ b.deferred = []) ∧
        ∀ place, d.read (Edit.splice d.source 0 (Edit.numbered 0 made)) = .error place → ∃ snippet,
          normalise ⟨d, file, findings⟩ = .error (.invalidEdit place snippet) ⟨d, file, findings⟩ := by
  refine ⟨⟨?_, fun hboth => ?_⟩, fun e s hrun => (normalise_error file findings closed hd hrun).1,
    normalise_of_neither file findings hd.legible, fun primitive hprimitive hothers first hfirst =>
      normalise_of_called file findings closed hd hprimitive hfirst hothers⟩
  · rintro ⟨e, s, hrun, hkind⟩
    rcases (normalise_error file findings closed hd hrun).2 with ⟨hboth, -⟩ | hinvalid
    · exact hboth
    · cases hkind.symm.trans hinvalid
  · obtain ⟨e, hrun, hkind⟩ := normalise_of_both file findings hd.legible hboth
    exact ⟨e, _, hrun, hkind⟩

/-- A helper that is called `render`, with calls in the arguments of others. -/
def helperScript : String := "function render(){mount(render(mount()))}"

theorem normalise_rewrites_nested : ∃ d first made s, Document.ofString none helperScript = .ok d ∧
    d.batch = none ∧ d.LaidOut ∧ (d.callsOf "mount").head? = some first ∧
    (∀ r : Replacement, r ∈ made ↔ Rewrites d "mount" first r.1 r.2) ∧
    normalise ⟨d, none, []⟩ = .ok (some helperName) s ∧
    s.document.source = Edit.splice d.source 0 (Edit.numbered 0 made) ∧ s.document.source =
      "function renderFunc(){render(renderFunc(render()))}".toUTF8 := by
  have hrun : normalise.onScript? helperScript (fun d name s => (name, decide (d.root.laid = true),
      decide (d.root.stop ≤ d.source.size), (d.callsOf "shallow").isEmpty, (d.callsOf "mount").isEmpty,
      spelledBy ["function renderFunc(){render(renderFunc(render()))}"] s.document.source)) =
        some (some helperName, true, true, true, false, true) := by
    decide +kernel
  obtain ⟨d, name, s, hd, hrun, hobserved⟩ := Pass.exists_of_onScript? hrun
  simp only [Prod.mk.injEq, decide_eq_true_eq, List.isEmpty_iff, List.isEmpty_eq_false_iff] at hobserved
  obtain ⟨rfl, hlaid, hinside, hshallow, hmount, hspelled⟩ := hobserved
  have hclosed := (Document.sound_of_ofBytes hd).2
  have hlaidOut : d.LaidOut := ⟨Document.legible_ofString hd, hlaid, hinside⟩
  obtain ⟨first, hfirst⟩ := Option.ne_none_iff_exists'.mp (mt List.head?_eq_none_iff.mp hmount)
  have hothers : ∀ other ∈ primitives, other ≠ "mount" → d.callsOf other = [] := by
    intro other hother hne
    rcases List.mem_pair.mp hother with rfl | rfl
    · exact hshallow
    · exact absurd rfl hne
  obtain ⟨-, -, -, hone⟩ := normalise_rewrites none [] hclosed hlaidOut
  obtain ⟨made, hmade, -, hread, hunread⟩ := hone "mount" (by decide) hothers first hfirst
  refine ⟨d, first, made, s, hd, hclosed, hlaidOut, hfirst, hmade, hrun, ?_, eq_of_spelledBy hspelled⟩
  cases hroot : d.read (Edit.splice d.source 0 (Edit.numbered 0 made)) with
  | ok root =>
    obtain ⟨more, b, hok, -⟩ := hread root hroot
    rw [(EStateM.Result.ok.inj (hrun.symm.trans hok)).2]
    rfl
  | error place =>
    obtain ⟨snippet, hfails⟩ := hunread place hroot
    cases hrun.symm.trans hfails

end RenderCall

end TestMigration
