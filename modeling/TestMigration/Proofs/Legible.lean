import TestMigration.Proofs.Literals
import TestMigration.Proofs.Parsing
import TestMigration.Proofs.Repetition

/-! What a look at a tree sees. Every node of a script's tree has a text, so a look that asks for kinds,
texts and relatives of nodes answers, and its answer is a function of the place it looks from. The
same goes for the patterns that are made of such looks, and for what they find in the tree. -/

namespace TestMigration

open Script (Node Kind Field Place)

/-! ## Texts of nodes -/

namespace Document

/-- The text of a node; empty if the bytes of the node are none. -/
def wording (d : Document) (n : Node) : String := (d.textOf n).toOption.getD ""

/-- Every node of the tree has a text. -/
def Legible (d : Document) : Prop :=
  ∀ p : Place, p.Within d.root → d.textOf p.node = .ok (d.wording p.node)

/-- The places that a search of the whole tree passes. -/
def places (d : Document) : List Place := (Place.root d.root).descendants

/-- A handle on a place of the tree. -/
def handle (d : Document) (p : Place) : Handle := ⟨d.generation, p⟩

variable {d : Document} {p q : Place}

theorem within_of_mem_places (hp : p ∈ d.places) : p.Within d.root :=
  Place.Within.root.descendants hp

/-- A named child of a place that a search passes is passed as well. -/
theorem child_mem_places {n : Node} (hp : p ∈ d.places) (hn : n ∈ p.node.children)
    (hnamed : n.kind.isNamed = true) : p.child n ∈ d.places :=
  Place.child_mem_walk _ _ p hp n hn hnamed

theorem field?_mem_places {f : Field} (hp : p ∈ d.places) (hq : p.field? f = some q)
    (hnamed : q.node.kind.isNamed = true) : q ∈ d.places := by
  obtain ⟨n, hn, rfl⟩ := Option.map_eq_some_iff.mp hq
  exact child_mem_places hp (List.mem_of_find?_eq_some hn) hnamed

theorem namedChild_mem_places (hp : p ∈ d.places) (hq : q ∈ p.namedChildren) : q ∈ d.places := by
  obtain ⟨n, hn, rfl⟩ := List.mem_map.mp hq
  obtain ⟨hchild, hnamed⟩ := List.mem_filter.mp hn
  exact child_mem_places hp hchild hnamed

theorem onCuts_of_within {source : String} (hroot : d.root.OnCuts source) (hp : p.Within d.root) :
    p.node.OnCuts source := by
  induction hp with
  | root => exact hroot
  | child h hn ih => exact ih.child hn

/-- The bytes of a node lie between characters. -/
theorem textOf_of_onCuts {source : String} {n : Node} (hsource : d.source = source.toUTF8)
    (hn : n.OnCuts source) : d.textOf n = .ok (d.wording n) := by
  have htext : ∃ text, d.textOf n = .ok text := by
    unfold textOf slice
    rw [hsource]
    exact ⟨⟨_, hn.piece⟩, Conversion.decode_ok.mpr rfl⟩
  obtain ⟨text, htext⟩ := htext
  unfold wording
  rw [htext]
  rfl

theorem legible_ofString {file : Option String} {source : String}
    (h : Document.ofString file source = .ok d) : d.Legible := by
  intro p hp
  refine textOf_of_onCuts (Conversion.ofString_ok h).2 (onCuts_of_within ?_ hp)
  unfold ofString ofBytes at h
  split at h
  · cases h
  · rename_i root hroot
    cases h
    exact Script.onCuts_parse hroot

end Document

/-! ## Looks at lists -/

section Lists

variable {α β γ : Type} {d : Document} {as : List α}

theorem look_bind_eq {l : Looking α} {f : α → Looking β} {a : α} {x : Except Failure β}
    (h : l d = .ok a) (hf : f a d = x) : (l >>= f) d = x := (look_bind_of_ok h).trans hf

theorem answers_bind {l : Looking α} {f : α → Looking β} {a : α} (h : l d = .ok a)
    (hf : ∃ b, f a d = .ok b) : ∃ b, (l >>= f) d = .ok b := by
  rw [look_bind_of_ok h]
  exact hf

/-- A look at what may be absent, behind which there is an answer either way. -/
theorem answers_option {l : Looking (Option β)} {next : Option β → Looking γ} {found : Option α}
    {g : α → β} (h : l d = .ok (found.map g)) (hnone : ∃ c, next none d = .ok c)
    (hsome : ∀ a, found = some a → ∃ c, next (some (g a)) d = .ok c) :
    ∃ c, (l >>= next) d = .ok c := by
  refine answers_bind h ?_
  cases found with
  | none => exact hnone
  | some a => exact hsome a rfl

/-- A test, behind which there is an answer either way. -/
theorem answers_test {l : Looking Bool} {next : Bool → Looking γ} {b : Bool} (h : l d = .ok b)
    (hfalse : ∃ c, next false d = .ok c) (htrue : ∃ c, next true d = .ok c) :
    ∃ c, (l >>= next) d = .ok c := by
  refine answers_bind h ?_
  cases b with
  | false => exact hfalse
  | true => exact htrue

theorem mapM_eq {f : α → Looking β} {g : α → β} (h : ∀ a ∈ as, f a d = .ok (g a)) :
    as.mapM f d = .ok (as.map g) := by
  induction as with
  | nil => rfl
  | cons a as ih =>
    obtain ⟨ha, has⟩ := List.forall_mem_cons.mp h
    rw [List.mapM_cons]
    exact look_bind_eq ha (look_bind_eq (ih has) rfl)

theorem findM?_eq {f : α → Looking Bool} {g : α → Bool} (h : ∀ a ∈ as, f a d = .ok (g a)) :
    as.findM? f d = .ok (as.find? g) := by
  induction as with
  | nil => rfl
  | cons a as ih =>
    obtain ⟨ha, has⟩ := List.forall_mem_cons.mp h
    refine look_bind_eq ha ?_
    rw [List.find?_cons]
    cases g a with
    | true => rfl
    | false => exact ih has

theorem filterM_eq {f : α → Looking Bool} {g : α → Bool} (h : ∀ a ∈ as, f a d = .ok (g a)) :
    as.filterM f d = .ok (as.filter g) := by
  have hloop : ∀ (as kept : List α), (∀ a ∈ as, f a d = .ok (g a)) →
      List.filterAuxM f as kept d = .ok ((as.filter g).reverse ++ kept) := by
    intro as
    induction as with
    | nil => exact fun _ _ => rfl
    | cons a as ih =>
      intro kept h
      obtain ⟨ha, has⟩ := List.forall_mem_cons.mp h
      refine look_bind_eq ha ?_
      rw [ih _ has, List.filter_cons]
      cases g a with
      | true => simp
      | false => rfl
  refine look_bind_eq (hloop as [] h) ?_
  rw [List.append_nil, List.reverse_reverse]
  rfl

theorem filterMapM_eq {f : α → Looking (Option β)} {g : α → Option β}
    (h : ∀ a ∈ as, f a d = .ok (g a)) : as.filterMapM f d = .ok (as.filterMap g) := by
  have hloop : ∀ (as : List α) (kept : List β), (∀ a ∈ as, f a d = .ok (g a)) →
      List.filterMapM.loop f as kept d = .ok (kept.reverse ++ as.filterMap g) := by
    intro as
    induction as with
    | nil =>
      intro kept _
      rw [List.filterMap_nil, List.append_nil]
      rfl
    | cons a as ih =>
      intro kept h
      obtain ⟨ha, has⟩ := List.forall_mem_cons.mp h
      refine look_bind_eq ha ?_
      cases hg : g a with
      | none =>
        rw [List.filterMap_cons_none hg]
        exact ih _ has
      | some b =>
        rw [List.filterMap_cons_some hg]
        refine (ih _ has).trans ?_
        rw [List.reverse_cons, List.append_assoc]
        rfl
  exact hloop as [] h

end Lists

/-! ## Looks from a place -/

namespace Script.Place

/-- The argument nodes of a call. -/
def callArguments (p : Place) : List Place :=
  (p.field? .arguments).elim [] fun list =>
    if list.node.kind == .arguments then list.namedChildren.filter (·.node.kind != .comment) else []

/-- The literal that names the module of an import or a re-export. -/
def moduleLiteral? (p : Place) : Option Place :=
  (p.field? .source).or <|
    if p.node.kind == .importStatement then p.namedChildren.find? (·.node.kind == .string) else none

/-- What a method call is made on. -/
def subject? (p : Place) : Option Place := (p.field? .callee).bind (·.field? .object)

variable {p q : Place}

theorem argument_of_list (hq : q ∈ p.callArguments) :
    ∃ list, p.field? .arguments = some list ∧ list.node.kind = .arguments ∧
      q ∈ list.namedChildren := by
  unfold callArguments at hq
  cases hlist : p.field? .arguments with
  | none =>
    rw [hlist] at hq
    cases hq
  | some list =>
    rw [hlist, Option.elim_some] at hq
    split at hq
    · rename_i hkind
      exact ⟨list, rfl, beq_iff_eq.mp hkind, List.mem_of_mem_filter hq⟩
    · cases hq

theorem Within.argument {root : Node} (h : Within root p) (hq : q ∈ p.callArguments) :
    Within root q := by
  obtain ⟨list, hlist, -, hq⟩ := argument_of_list hq
  exact (h.field? hlist).namedChildren hq

theorem moduleLiteral?_child (hq : p.moduleLiteral? = some q) :
    ∃ n ∈ p.node.children, q = p.child n := by
  rcases Option.or_eq_some_iff.mp hq with hq | ⟨-, hq⟩
  · obtain ⟨n, hn, rfl⟩ := Option.map_eq_some_iff.mp hq
    exact ⟨n, List.mem_of_find?_eq_some hn, rfl⟩
  · obtain ⟨-, hq⟩ := Option.ite_none_right_eq_some.mp hq
    obtain ⟨n, hn, rfl⟩ := List.mem_map.mp (List.mem_of_find?_eq_some hq)
    exact ⟨n, List.mem_of_mem_filter hn, rfl⟩

end Script.Place

/-- The value of a string literal. -/
def Document.valueOf? (d : Document) (n : Node) : Option Text :=
  if n.kind == .string then (Quoted.decode ((d.wording n).toList.drop 1).dropLast).toOption
  else none

section Looks

variable {d : Document} {p : Place}

@[simp] theorem onAll_eq (ps : List Place) : Handle.onAll ps d = .ok (ps.map d.handle) :=
  mapM_eq fun _ _ => rfl

namespace Handle

@[simp] theorem node_handle : (d.handle p).node d = .ok p.node := node_of_current rfl

@[simp] theorem fresh_handle : (d.handle p).fresh d = .ok p := look_bind_eq node_handle rfl

@[simp] theorem kind_handle : (d.handle p).kind d = .ok p.node.kind := look_bind_eq node_handle rfl

theorem text_handle (hd : d.Legible) (hp : p.Within d.root) :
    (d.handle p).text d = .ok (d.wording p.node) := by
  refine look_bind_eq rfl (look_bind_eq node_handle ?_)
  rw [liftM_apply]
  exact hd p hp

theorem line_handle : (d.handle p).line d = .ok (d.lineOf p.node.start) :=
  look_bind_eq rfl (look_bind_eq node_handle rfl)

@[simp] theorem field?_handle (f : Field) :
    (d.handle p).field? f d = .ok ((p.field? f).map d.handle) := by
  refine look_bind_eq fresh_handle ?_
  cases p.field? f <;> rfl

@[simp] theorem namedChildren_handle :
    (d.handle p).namedChildren d = .ok (p.namedChildren.map d.handle) :=
  look_bind_eq fresh_handle (onAll_eq _)

@[simp] theorem descendants_handle :
    (d.handle p).descendants d = .ok (p.descendants.map d.handle) :=
  look_bind_eq fresh_handle (onAll_eq _)

@[simp] theorem callArguments_handle :
    TestMigration.callArguments (d.handle p) d = .ok (p.callArguments.map d.handle) := by
  refine look_bind_eq (field?_handle _) ?_
  unfold Place.callArguments
  cases p.field? .arguments with
  | none => rfl
  | some list =>
    refine look_bind_eq kind_handle ?_
    rw [Option.elim_some]
    by_cases hlist : list.node.kind = Kind.arguments
    · rw [if_neg (by simp [hlist]), if_pos (by simp [hlist])]
      refine look_bind_eq namedChildren_handle (congrArg Except.ok ?_)
      exact List.filter_map
    · rw [if_pos (by simp [hlist]), if_neg (by simp [hlist])]
      rfl

@[simp] theorem firstArgument?_handle :
    (d.handle p).firstArgument? d = .ok (p.callArguments.head?.map d.handle) :=
  look_bind_eq callArguments_handle (congrArg Except.ok List.head?_map)

@[simp] theorem moduleLiteral?_handle :
    (d.handle p).moduleLiteral? d = .ok (p.moduleLiteral?.map d.handle) := by
  refine look_bind_eq (field?_handle _) ?_
  unfold Place.moduleLiteral?
  cases p.field? .source with
  | some literal => rfl
  | none =>
    refine look_bind_eq kind_handle ?_
    by_cases hkind : p.node.kind = Kind.importStatement
    · rw [if_neg (by simp [hkind]), if_pos (by simp [hkind])]
      refine look_bind_eq namedChildren_handle ?_
      refine (findM?_eq (g := fun h : Handle => h.place.node.kind == .string) ?_).trans ?_
      · intro h hh
        obtain ⟨q, -, rfl⟩ := List.mem_map.mp hh
        exact look_bind_eq kind_handle rfl
      · rw [List.find?_map]
        rfl
    · rw [if_pos (by simp [hkind]), if_neg (by simp [hkind])]
      rfl

theorem literalValue?_of_isOk (hd : d.Legible) (hp : p.node.kind = .string → p.Within d.root)
    (hvalue : p.node.kind = .string →
      (Quoted.decode ((d.wording p.node).toList.drop 1).dropLast).isOk = true) :
    (d.handle p).literalValue? d = .ok (d.valueOf? p.node) := by
  refine look_bind_eq kind_handle ?_
  unfold Document.valueOf?
  by_cases hkind : p.node.kind = Kind.string
  · rw [if_neg (by simp [hkind]), if_pos (by simp [hkind])]
    refine look_bind_eq (text_handle hd (hp hkind)) ?_
    have hvalue := hvalue hkind
    cases hdecode : Quoted.decode ((d.wording p.node).toList.drop 1).dropLast with
    | ok value => rfl
    | error e =>
      rw [hdecode] at hvalue
      cases hvalue
  · rw [if_pos (by simp [hkind]), if_neg (by simp [hkind])]
    rfl

/-- A literal of which a value was asked has one. -/
theorem literalValue?_ok {value : Option Text} (hd : d.Legible) (hp : p.Within d.root)
    (h : (d.handle p).literalValue? d = .ok value) : value = d.valueOf? p.node ∧ (p.node.kind = .string →
      (Quoted.decode ((d.wording p.node).toList.drop 1).dropLast).isOk = true) := by
  obtain ⟨kind, hkind, h⟩ := looks_bind h
  cases kind_handle.symm.trans hkind
  unfold Document.valueOf?
  by_cases hstring : p.node.kind = .string
  · rw [if_neg (by simp [hstring])] at h
    obtain ⟨text, htext, h⟩ := looks_bind h
    cases (text_handle hd hp).symm.trans htext
    rw [if_pos (by simp [hstring])]
    cases hdecode : Quoted.decode ((d.wording p.node).toList.drop 1).dropLast with
    | error e =>
      rw [hdecode] at h
      cases h
    | ok specifier =>
      rw [hdecode] at h
      cases h
      exact ⟨rfl, fun _ => rfl⟩
  · rw [if_pos (by simp [hstring])] at h
    cases h
    exact ⟨(if_neg (by simp [hstring])).symm, fun h => absurd h hstring⟩

theorem isOk_of_spelt (hd : d.Legible) (hspelt : d.spelt = true) (hp : p ∈ d.places)
    (hkind : p.node.kind = .string) :
    (Quoted.decode ((d.wording p.node).toList.drop 1).dropLast).isOk = true := by
  simpa [hkind, hd p (Document.within_of_mem_places hp), Except.toOption] using
    List.all_eq_true.mp hspelt _ hp

/-- The literals that have to be on the way of a search are those of which a value is asked. -/
theorem literalValue?_handle (hd : d.Legible) (hspelt : d.spelt = true)
    (hp : p.node.kind = .string → p ∈ d.places) :
    (d.handle p).literalValue? d = .ok (d.valueOf? p.node) :=
  literalValue?_of_isOk hd (fun hkind => Document.within_of_mem_places (hp hkind)) fun hkind =>
    isOk_of_spelt hd hspelt (hp hkind) hkind

end Handle

end Looks

namespace Document

variable {d : Document} {p q : Place}

theorem argument_mem_places (hp : p ∈ d.places) (hq : q ∈ p.callArguments) : q ∈ d.places := by
  obtain ⟨list, hlist, hkind, hq⟩ := Place.argument_of_list hq
  refine namedChild_mem_places (field?_mem_places hp hlist ?_) hq
  rw [hkind]
  rfl

theorem moduleLiteral?_mem_places (hp : p ∈ d.places) (hq : p.moduleLiteral? = some q)
    (hkind : q.node.kind = .string) : q ∈ d.places := by
  obtain ⟨n, hn, rfl⟩ := Place.moduleLiteral?_child hq
  refine child_mem_places hp hn ?_
  rw [show n.kind = .string from hkind]
  rfl

end Document

/-! ## Tests of texts -/

namespace Expression

theorem matchesFully_never (cs : List Char) : never.matchesFully cs = false := by
  induction cs with
  | nil => rfl
  | cons c cs ih => exact ih

theorem choose_cases (a b : Expression) :
    a = never ∧ choose a b = b ∨ b = never ∧ choose a b = a ∨ choose a b = either a b := by
  cases a <;> cases b <;> simp [choose]

theorem matchesFully_either (a b : Expression) (cs : List Char) :
    (either a b).matchesFully cs = (a.matchesFully cs || b.matchesFully cs) := by
  induction cs generalizing a b with
  | nil => rfl
  | cons c cs ih =>
    change (choose (a.derivative c) (b.derivative c)).matchesFully cs =
      ((a.derivative c).matchesFully cs || (b.derivative c).matchesFully cs)
    rcases choose_cases (a.derivative c) (b.derivative c) with ⟨hnever, hrest⟩ | ⟨hnever, hrest⟩ |
      hrest
    · rw [hrest, hnever, matchesFully_never, Bool.false_or]
    · rw [hrest, hnever, matchesFully_never, Bool.or_false]
    · rw [hrest]
      exact ih _ _

theorem join_empty (e : Expression) : join empty e = e := by
  cases e <;> rfl

/-- One character after the other. -/
theorem matchesFully_word (word cs : List Char) :
    (word.foldr (fun c e => both (literal c) e) empty).matchesFully cs = (word == cs) := by
  induction word generalizing cs with
  | nil =>
    cases cs with
    | nil => rfl
    | cons c cs => exact matchesFully_never cs
  | cons w word ih =>
    cases cs with
    | nil => rfl
    | cons c cs =>
      change (join (if (CharClass.range w w).has c then empty else never) _).matchesFully cs = _
      have hhas : (CharClass.range w w).has c = (w == c) := by
        rw [CharClass.has, Bool.eq_iff_iff, beq_iff_eq, Bool.and_eq_true, decide_eq_true_iff,
          decide_eq_true_iff]
        exact ⟨fun h => Char.le_antisymm h.1 h.2, fun h => h ▸ ⟨Char.le_refl w, Char.le_refl w⟩⟩
      rw [hhas, List.cons_beq_cons]
      cases w == c with
      | true =>
        rw [if_pos rfl, join_empty, Bool.true_and]
        exact ih cs
      | false => exact matchesFully_never cs

end Expression

namespace TextTest

theorem holds_exactly (s text : String) : (exactly s).holds text = (text == s) := rfl

/-- One of several whole texts is what the test says it is. -/
theorem holds_oneOf (names : List String) (text : String) :
    (oneOf names).holds text = names.contains text := by
  have hmany : ∀ names : List String,
      (names.foldr (fun s e => Expression.either
        (s.toList.foldr (fun c e => Expression.both (Expression.literal c) e) .empty) e)
          .never).matchesFully text.toList = names.contains text := by
    intro names
    induction names with
    | nil => exact Expression.matchesFully_never _
    | cons s rest ih =>
      rw [List.foldr_cons, Expression.matchesFully_either, Expression.matchesFully_word, ih,
        List.contains_cons, Bool.beq_comm (a := s.toList)]
      congr 1
      rw [Bool.eq_iff_iff, beq_iff_eq, beq_iff_eq, String.toList_inj]
  unfold oneOf
  split
  · exact Expression.matchesFully_never _
  · rw [holds_exactly, List.contains_cons, List.contains_nil, Bool.or_false]
  · exact hmany _

end TextTest

/-! ## Patterns -/

namespace Pattern

variable {d : Document} {p : Place}

theorem kindHolds_handle (kinds : Option (List Kind)) :
    kindHolds kinds (d.handle p) d = .ok (kinds.all (·.contains p.node.kind)) := by
  cases kinds with
  | none => rfl
  | some kinds => exact look_bind_eq Handle.kind_handle rfl

theorem textHolds_handle (hd : d.Legible) (hp : p.Within d.root) (text : Option TextTest) :
    textHolds text (d.handle p) d = .ok (text.all (·.holds (d.wording p.node))) := by
  cases text with
  | none => rfl
  | some test => exact look_bind_eq (Handle.text_handle hd hp) rfl

theorem fieldsHold_nil (h : Handle) : fieldsHold [] h d = .ok true := by
  rw [fieldsHold]
  rfl

theorem fieldsHold_handle {f : Field} {q : Pattern} {b : Place → Bool}
    (h : ∀ c, p.field? f = some c → q.holdsOf (d.handle c) d = .ok (b c)) :
    fieldsHold [(f, q)] (d.handle p) d = .ok ((p.field? f).any b) := by
  rw [fieldsHold]
  refine look_bind_eq (Handle.field?_handle _) ?_
  cases hc : p.field? f with
  | none => rfl
  | some c =>
    refine look_bind_eq (h c hc) ?_
    rw [Option.any_some]
    cases b c with
    | true => exact fieldsHold_nil (d.handle p)
    | false => rfl

/-- A pattern asks for the kind, the text, the fields, the arguments and what else it has to ask. -/
theorem holdsOf_handle {kinds : Option (List Kind)} {text : Option TextTest}
    {fields : List (Field × Pattern)} {leading : Option (List Pattern)} {count : Option Int}
    {also : Option (Handle → Looking Bool)} {fielded led asked : Bool} (hd : d.Legible)
    (hp : p.Within d.root) (hfields : fieldsHold fields (d.handle p) d = .ok fielded)
    (hleading : leadingHold leading (p.callArguments.map d.handle) d = .ok led)
    (halso : alsoHolds also (d.handle p) d = .ok asked) :
    (mk kinds text fields leading count also).holdsOf (d.handle p) d =
      .ok (kinds.all (·.contains p.node.kind) && text.all (·.holds (d.wording p.node)) && fielded &&
        (countHolds count (p.callArguments.map d.handle) && led) && asked) := by
  rw [holdsOf]
  refine look_bind_eq (kindHolds_handle kinds) ?_
  cases kinds.all (·.contains p.node.kind) with
  | false => rfl
  | true =>
  refine look_bind_eq (textHolds_handle hd hp text) ?_
  cases text.all (·.holds (d.wording p.node)) with
  | false => rfl
  | true =>
  refine look_bind_eq hfields ?_
  cases fielded with
  | false => rfl
  | true =>
  cases hargued : leading.isSome || count.isSome with
  | false =>
    obtain ⟨hl, hc⟩ := Bool.or_eq_false_iff.mp hargued
    cases leading with
    | some patterns => cases hl
    | none =>
    cases count with
    | some n => cases hc
    | none =>
    cases hleading
    exact halso
  | true =>
    refine look_bind_eq Handle.callArguments_handle ?_
    cases countHolds count (p.callArguments.map d.handle) with
    | false => rfl
    | true =>
    refine look_bind_eq hleading ?_
    cases led with
    | false => rfl
    | true => exact halso

theorem holdsOf_ofKind (hd : d.Legible) (hp : p.Within d.root) (kind : Kind) :
    (ofKind kind).holdsOf (d.handle p) d = .ok (p.node.kind == kind) := by
  refine (holdsOf_handle hd hp (fieldsHold_nil _) rfl rfl).trans ?_
  simp only [countHolds, Option.all_some, Option.all_none, List.contains_cons, List.contains_nil,
    Bool.or_false, Bool.and_true]

theorem leadingHold_ofKind (hd : d.Legible) (kind : Kind) {ps : List Place}
    (hps : ∀ q ∈ ps, q.Within d.root) :
    leadingHold (some [ofKind kind]) (ps.map d.handle) d =
      .ok (ps.head?.any (·.node.kind == kind)) := by
  cases ps with
  | nil => rfl
  | cons q rest =>
    change (do if ← (ofKind kind).holdsOf (d.handle q) then argumentsHold [] _ else return false :
      Looking Bool) d = _
    refine look_bind_eq (holdsOf_ofKind hd (hps q List.mem_cons_self) kind) ?_
    rw [List.head?_cons, Option.any_some]
    cases q.node.kind == kind <;> rfl

end Pattern

/-! ## What is found in the tree -/

section Found

variable {d : Document} {pattern : Pattern} {b : Place → Bool}

/-- The candidates of a search are the places that it passes. -/
theorem candidates_eq :
    [d.handle (.root d.root)].mapM (·.descendants) d = .ok [d.places.map d.handle] := by
  refine mapM_eq (g := fun _ => d.places.map d.handle) ?_
  intro r hr
  cases List.mem_singleton.mp hr
  exact Handle.descendants_handle

theorem found_eq (h : ∀ p ∈ d.places, pattern.holdsOf (d.handle p) d = .ok (b p)) :
    findAll pattern d = .ok (MatchSet.distinct ((d.places.filter b).map d.handle)) := by
  change (MatchSet.within [d.handle (.root d.root)] pattern).members d = _
  refine look_bind_eq candidates_eq ?_
  rw [List.flatten_singleton]
  refine look_bind_eq (filterM_eq (g := fun h : Handle => b h.place) ?_) ?_
  · intro h' hh
    obtain ⟨p, hp, rfl⟩ := List.mem_map.mp hh
    exact h p hp
  · rw [List.filter_map]
    rfl

theorem first_eq (h : ∀ p ∈ d.places, pattern.holdsOf (d.handle p) d = .ok (b p)) :
    (MatchSet.within [d.handle (.root d.root)] pattern).first? d =
      .ok ((d.places.find? b).map d.handle) := by
  refine look_bind_eq candidates_eq ?_
  rw [List.flatten_singleton]
  refine (findM?_eq (g := fun h : Handle => b h.place) ?_).trans ?_
  · intro h' hh
    obtain ⟨p, hp, rfl⟩ := List.mem_map.mp hh
    exact h p hp
  · rw [List.find?_map]
    rfl

theorem found_nothing (h : ∀ p ∈ d.places, pattern.holdsOf (d.handle p) d = .ok false) :
    findAll pattern d = .ok [] := by
  refine (found_eq h).trans ?_
  rw [List.filter_eq_nil_iff.mpr (by simp)]
  rfl

theorem mem_found {h : Handle} (hh : h ∈ MatchSet.distinct ((d.places.filter b).map d.handle)) :
    ∃ p ∈ d.places, b p = true ∧ h = d.handle p := by
  obtain ⟨p, hp, rfl⟩ := List.mem_map.mp (mem_of_mem_distinct hh)
  obtain ⟨hplace, hb⟩ := List.mem_filter.mp hp
  exact ⟨p, hplace, hb, rfl⟩

end Found

end TestMigration
