import TestMigration.Proofs.Exchange
import TestMigration.Proofs.Quoting
import TestMigration.Proofs.Settled
import TestMigration.Proofs.Specifiers
import TestMigration.Proofs.Worded

/-! Relative specifiers are made absolute once. When the new text is read as the old tree, with nothing
changed but the literals that named modules by relative specifiers, then each of them has the resolved
path as its value, nothing else became the name of a module, and no specifier is left to resolve. -/

namespace TestMigration

open Script (Node Kind Field Place)

/-! ## Lists related element by element -/

section Related

variable {α β : Type} {R : α → β → Prop} {as : List α} {bs : List β} {p : α → Bool} {q : β → Bool}

theorem forall₂_find? (hpq : ∀ a b, R a b → p a = q b) (h : List.Forall₂ R as bs) :
    Option.Rel R (as.find? p) (bs.find? q) := by
  induction h with
  | nil => exact .none
  | @cons a b _ _ hab _ ih =>
    rw [List.find?_cons, List.find?_cons, hpq a b hab]
    cases q b with
    | true => exact .some hab
    | false => exact ih

theorem forall₂_filter (hpq : ∀ a b, R a b → p a = q b) (h : List.Forall₂ R as bs) :
    List.Forall₂ R (as.filter p) (bs.filter q) := by
  induction h with
  | nil => exact .nil
  | @cons a b _ _ hab _ ih =>
    rw [List.filter_cons, List.filter_cons, hpq a b hab]
    split
    · exact .cons hab ih
    · exact ih

end Related

theorem Handle.decode_of_literalValue? {d : Document} {p : Place} {value : Option Text} (hd : d.Legible)
    (hp : p.Within d.root) (hstring : p.node.kind = .string)
    (h : (d.handle p).literalValue? d = .ok value) : ∃ specifier,
      Quoted.decode ((d.wording p.node).toList.drop 1).dropLast = .ok specifier ∧ value = some specifier := by
  obtain ⟨rfl, hread⟩ := literalValue?_ok hd hp h
  unfold Document.valueOf?
  rw [if_pos (beq_iff_eq.mpr hstring)]
  cases hdecode : Quoted.decode ((d.wording p.node).toList.drop 1).dropLast with
  | error e =>
    have hread := hread hstring
    rw [hdecode] at hread
    cases hread
  | ok specifier => exact ⟨specifier, rfl, rfl⟩

namespace Document

variable {d d' : Document} {p p' q q' : Place} {n n' : Node} {new : Node → Option String}
  {cwd : PathName} {file : String}

/-! ## Literals that name modules -/

/-- The statements and calls by which a script can name a module. -/
def namesModule (n : Node) : Bool := [Kind.importStatement, .exportStatement, .callExpression].contains n.kind

/-- The literal by which an import, a re-export or a directive names a module. -/
def moduleLiteralAt? (d : Document) (p : Place) : Option Place :=
  if [Kind.importStatement, .exportStatement].contains p.node.kind then p.moduleLiteral?
  else if d.isDirective p then p.callArguments.head?.filter (·.node.kind == .string) else none

/-- What stands in place of a literal that names a module by a relative specifier. -/
def absolute? (d : Document) (cwd : PathName) (file : String) (n : Node) : Option String :=
  if (d.places.filterMap d.moduleLiteralAt?).any (·.node.range == n.range) then
    ((d.valueOf? n).filter Specifier.needsResolving).map fun specifier =>
      (Quoted.requote (d.wording n) (Specifier.resolve cwd file specifier)).shown
  else none

/-- No two of the nodes by which modules are named are of one kind and range. -/
def NamesApart (d : Document) : Prop :=
  (d.places.filter fun p => namesModule p.node).Pairwise fun p q =>
    p.node.range ≠ q.node.range ∨ p.node.kind ≠ q.node.kind

instance (d : Document) : Decidable d.NamesApart := inferInstanceAs (Decidable (List.Pairwise _ _))

/-! ## The tree with new literals -/

mutual

/-- Is one of the literals in the node a new one? -/
def touches (new : Node → Option String) : Node → Bool
  | n@(.mk _ kind _ _ children) => if kind == .string then (new n).isSome else touchesAny new children

def touchesAny (new : Node → Option String) : List Node → Bool
  | [] => false
  | n :: rest => touches new n || touchesAny new rest

end

mutual

/-- The node of the other document is the same one, but for the literals for which there are new ones: it
has the same place and kind, its parts are the same, and so is its text if no new literal is in it. -/
def relinks (d d' : Document) (new : Node → Option String) : Node → Node → Bool
  | n@(.mk role kind _ _ children), n'@(.mk role' kind' _ _ children') =>
    role == role' && (kind == kind' &&
      if kind == .string then d'.wording n' == (new n).getD (d.wording n)
      else (touchesAny new children || d'.wording n' == d.wording n) && relinksAll d d' new children children')

def relinksAll (d d' : Document) (new : Node → Option String) : List Node → List Node → Bool
  | [], [] => true
  | n :: rest, n' :: rest' => relinks d d' new n n' && relinksAll d d' new rest rest'
  | _, _ => false

end

/-- The other document has the tree of this one with just the literals changed that name modules by
relative specifiers; children lie within their nodes, and in literals no module is named. -/
structure Relinked (cwd : PathName) (file : String) (d d' : Document) : Prop where
  laid : d'.root.laid = true
  plain : ∀ p ∈ d'.places, p.node.kind = .string → ∀ q ∈ p.descendants, namesModule q.node = false
  same : relinks d d' (d.absolute? cwd file) d.root d'.root = true

instance (cwd : PathName) (file : String) (d d' : Document) : Decidable (Relinked cwd file d d') :=
  decidable_of_iff
    (d'.root.laid = true ∧
      (∀ p ∈ d'.places, p.node.kind = .string → ∀ q ∈ p.descendants, namesModule q.node = false) ∧
      relinks d d' (d.absolute? cwd file) d.root d'.root = true)
    ⟨fun h => ⟨h.1, h.2.1, h.2.2⟩, fun h => ⟨h.laid, h.plain, h.same⟩⟩

/-- The bytes of a node. -/
def bytesAt (d : Document) (n : Node) : List UInt8 := (d.source.data.toList.drop n.start).take (n.stop - n.start)

theorem wording_of_bytesAt {n n' : Node} (h : d'.bytesAt n' = d.bytesAt n) : d'.wording n' = d.wording n := by
  have hextract : d'.source.extract n'.start n'.stop = d.source.extract n.start n.stop := by
    refine ByteArray.ext (Array.ext' ?_)
    rw [ByteArray.data_extract, ByteArray.data_extract, Array.toList_extract, Array.toList_extract]
    exact h
  unfold wording Document.textOf Document.slice
  rw [hextract]

mutual

/-- Where no text is a new one the bytes are compared, and none of them is decoded. -/
def relinksBytes (d d' : Document) (new : Node → Option String) : Node → Node → Bool
  | n@(.mk role kind _ _ children), n'@(.mk role' kind' _ _ children') =>
    role == role' && (kind == kind' &&
      if kind == .string then
        match new n with
        | some text => d'.wording n' == text
        | none => d'.bytesAt n' == d.bytesAt n
      else (touchesAny new children || d'.bytesAt n' == d.bytesAt n) && relinksBytesAll d d' new children children')

def relinksBytesAll (d d' : Document) (new : Node → Option String) : List Node → List Node → Bool
  | [], [] => true
  | n :: rest, n' :: rest' => relinksBytes d d' new n n' && relinksBytesAll d d' new rest rest'
  | _, _ => false

end

mutual

theorem relinks_of_relinksBytes : ∀ n n' : Node, relinksBytes d d' new n n' = true → relinks d d' new n n' = true
  | .mk _ _ _ _ children, .mk _ _ _ _ children' => by
    intro h
    rw [relinksBytes, Bool.and_eq_true_iff, Bool.and_eq_true_iff] at h
    rw [relinks, Bool.and_eq_true_iff, Bool.and_eq_true_iff]
    refine h.imp_right (And.imp_right fun h => ?_)
    split at h
    · rename_i hstring
      rw [if_pos hstring]
      split at h
      · rename_i hnew
        rw [hnew]
        exact h
      · rename_i hnew
        rw [hnew]
        exact beq_iff_eq.mpr (wording_of_bytesAt (beq_iff_eq.mp h))
    · rename_i hother
      rw [if_neg hother]
      rw [Bool.and_eq_true_iff, Bool.or_eq_true_iff] at h ⊢
      exact ⟨h.1.imp_right fun h => beq_iff_eq.mpr (wording_of_bytesAt (beq_iff_eq.mp h)),
        relinksAll_of_relinksBytesAll children children' h.2⟩

theorem relinksAll_of_relinksBytesAll : ∀ ns ns' : List Node,
    relinksBytesAll d d' new ns ns' = true → relinksAll d d' new ns ns' = true
  | [], [] => fun _ => rfl
  | [], _ :: _ => fun h => h
  | _ :: _, [] => fun h => h
  | n :: rest, n' :: rest' => by
    intro h
    rw [relinksBytesAll, Bool.and_eq_true_iff] at h
    rw [relinksAll, Bool.and_eq_true_iff]
    exact ⟨relinks_of_relinksBytes n n' h.1, relinksAll_of_relinksBytesAll rest rest' h.2⟩

end

/-- A check of the relation. -/
def isRelinked (cwd : PathName) (file : String) (d d' : Document) : Bool :=
  d'.root.laid && relinksBytes d d' (d.absolute? cwd file) d.root d'.root &&
    d'.places.all fun p => p.node.kind != .string || p.descendants.all fun q => !namesModule q.node

theorem relinked_of_isRelinked {cwd : PathName} {file : String} (h : isRelinked cwd file d d' = true) :
    Relinked cwd file d d' := by
  unfold isRelinked at h
  simp only [Bool.and_eq_true, List.all_eq_true, Bool.or_eq_true, bne_iff_ne, Bool.not_eq_true'] at h
  obtain ⟨⟨hlaid, hsame⟩, hplain⟩ := h
  exact ⟨hlaid, fun p hp hstring => (hplain p hp).resolve_left (absurd hstring),
    relinks_of_relinksBytes d.root d'.root hsame⟩

theorem relinksAll_iff {ns ns' : List Node} :
    relinksAll d d' new ns ns' = true ↔ List.Forall₂ (fun n n' => relinks d d' new n n' = true) ns ns' := by
  induction ns generalizing ns' with
  | nil =>
    cases ns' with
    | nil => exact iff_of_true rfl .nil
    | cons n' rest' => exact iff_of_false (by simp [relinksAll]) fun h => nomatch h
  | cons n rest ih =>
    cases ns' with
    | nil => exact iff_of_false (by simp [relinksAll]) fun h => nomatch h
    | cons n' rest' => rw [relinksAll, Bool.and_eq_true_iff, ih, List.forall₂_cons]

/-- All that the relation says. -/
theorem relinks_cases (h : relinks d d' new n n' = true) : n.role = n'.role ∧ n.kind = n'.kind ∧
    (n.kind = .string → d'.wording n' = (new n).getD (d.wording n)) ∧
    (n.kind ≠ .string → (touches new n = true ∨ d'.wording n' = d.wording n) ∧
      List.Forall₂ (fun n n' => relinks d d' new n n' = true) n.children n'.children) := by
  obtain ⟨role, kind, start, stop, children⟩ := n
  obtain ⟨role', kind', start', stop', children'⟩ := n'
  rw [relinks, Bool.and_eq_true_iff, Bool.and_eq_true_iff] at h
  obtain ⟨hrole, hkind, h⟩ := h
  refine ⟨beq_iff_eq.mp hrole, beq_iff_eq.mp hkind, fun hstring => ?_, fun hother => ?_⟩
  · obtain rfl : kind = .string := hstring
    exact beq_iff_eq.mp h
  · have hkind : ¬ (kind == .string) = true := fun hstring => hother (beq_iff_eq.mp hstring)
    rw [if_neg hkind, Bool.and_eq_true_iff, Bool.or_eq_true_iff] at h
    obtain ⟨htext, hparts⟩ := h
    refine ⟨htext.imp (fun ht => ?_) beq_iff_eq.mp, relinksAll_iff.mp hparts⟩
    rw [touches, if_neg hkind]
    exact ht

theorem field?_of_relinks (h : relinks d d' new n n' = true) (hkind : n.kind ≠ .string) (f : Field) :
    Option.Rel (fun n n' => relinks d d' new n n' = true) (n.field? f) (n'.field? f) :=
  forall₂_find? (fun n n' hn => by rw [(relinks_cases hn).1]) ((relinks_cases h).2.2.2 hkind).2

/-- A node without a new literal is spelt as before. -/
theorem wording_of_untouched (h : relinks d d' new n n' = true) (huntouched : touches new n = false) :
    d'.wording n' = d.wording n := by
  obtain ⟨-, -, hstring, hparts⟩ := relinks_cases h
  by_cases hkind : n.kind = .string
  · have hnone : new n = none := by
      obtain ⟨role, kind, start, stop, children⟩ := n
      obtain rfl : kind = .string := hkind
      exact Option.isSome_eq_false_iff.mp huntouched |> Option.isNone_iff_eq_none.mp
    rw [hstring hkind, hnone]
    rfl
  · refine (hparts hkind).1.resolve_left ?_
    rw [huntouched]
    exact Bool.false_ne_true

/-! ## Nodes of both trees -/

mutual

/-- Each node by which a module can be named was there before. -/
theorem exists_of_relinks (above above' : List Node) : ∀ n n' : Node, relinks d d' new n n' = true →
    (∀ q ∈ Place.walk above' n', q.node.kind = .string → ∀ r ∈ q.descendants, namesModule r.node = false) →
      ∀ p' ∈ Place.walk above' n', namesModule p'.node = true →
        ∃ p ∈ Place.walk above n, relinks d d' new p.node p'.node = true
  | .mk role kind start stop children, .mk role' kind' start' stop' children' => by
    intro h hplain p' hp' hnames
    obtain ⟨-, hkind, -, hparts⟩ := relinks_cases h
    by_cases hstring : kind' = .string
    · rw [hplain ⟨_, above'⟩ (Place.mem_walk _ _) hstring p' hp'] at hnames
      cases hnames
    · rw [Place.walk] at hp' hplain ⊢
      rcases List.mem_cons.mp hp' with rfl | hp'
      · exact ⟨_, List.mem_cons_self, h⟩
      · have hother : kind ≠ .string := fun hsame => hstring (hkind.symm.trans hsame)
        obtain ⟨p, hp, hrelinks⟩ := exists_of_relinksAll _ _ children children' (hparts hother).2
          (fun q hq => hplain q (List.mem_cons_of_mem _ hq)) p' hp' hnames
        exact ⟨p, List.mem_cons_of_mem _ hp, hrelinks⟩

theorem exists_of_relinksAll (above above' : List Node) : ∀ ns ns' : List Node,
    List.Forall₂ (fun n n' => relinks d d' new n n' = true) ns ns' →
    (∀ q ∈ Place.walkAll above' ns', q.node.kind = .string → ∀ r ∈ q.descendants, namesModule r.node = false) →
      ∀ p' ∈ Place.walkAll above' ns', namesModule p'.node = true →
        ∃ p ∈ Place.walkAll above ns, relinks d d' new p.node p'.node = true
  | _, [] => fun _ _ _ hp' _ => nomatch hp'
  | [], _ :: _ => fun h _ _ _ _ => nomatch h
  | n :: rest, n' :: rest' => by
    intro h hplain p' hp' hnames
    obtain ⟨hn, hrest⟩ := List.forall₂_cons.mp h
    rw [Place.walkAll] at hp' hplain ⊢
    rcases List.mem_append.mp hp' with hp' | hp'
    · cases hnamed : n'.kind.isNamed with
      | false =>
        rw [hnamed] at hp'
        cases hp'
      | true =>
        rw [hnamed, if_pos rfl] at hp' hplain
        rw [(relinks_cases hn).2.1, hnamed, if_pos rfl]
        obtain ⟨p, hp, hrelinks⟩ := exists_of_relinks above above' n n' hn
          (fun q hq => hplain q (List.mem_append_left _ hq)) p' hp' hnames
        exact ⟨p, List.mem_append_left _ hp, hrelinks⟩
    · obtain ⟨p, hp, hrelinks⟩ := exists_of_relinksAll above above' rest rest' hrest
        (fun q hq => hplain q (List.mem_append_right _ hq)) p' hp' hnames
      exact ⟨p, List.mem_append_right _ hp, hrelinks⟩

end

/-- The places are of the same node in both trees. -/
def Matches (d d' : Document) (new : Node → Option String) (p p' : Place) : Prop :=
  relinks d d' new p.node p'.node = true

namespace Matches

theorem kind (h : Matches d d' new p p') : p.node.kind = p'.node.kind := (relinks_cases h).2.1

theorem field? (h : Matches d d' new p p') (hkind : p.node.kind ≠ .string) (f : Field) :
    Option.Rel (Matches d d' new) (p.field? f) (p'.field? f) := by
  have hfound := field?_of_relinks h hkind f
  unfold Place.field?
  generalize p.node.field? f = c at hfound
  generalize p'.node.field? f = c' at hfound
  cases hfound with
  | none => exact .none
  | some hn => exact .some hn

theorem namedChildren (h : Matches d d' new p p') (hkind : p.node.kind ≠ .string) :
    List.Forall₂ (Matches d d' new) p.namedChildren p'.namedChildren := by
  unfold Place.namedChildren Node.namedChildren
  rw [List.forall₂_map_left_iff, List.forall₂_map_right_iff]
  exact forall₂_filter (fun _ _ hn => congrArg Kind.isNamed (relinks_cases hn).2.1)
    ((relinks_cases h).2.2.2 hkind).2

theorem moduleLiteral? (h : Matches d d' new p p') (hkind : p.node.kind ≠ .string) :
    Option.Rel (Matches d d' new) p.moduleLiteral? p'.moduleLiteral? := by
  have hsource := h.field? hkind .source
  unfold Place.moduleLiteral?
  generalize p.field? .source = s at hsource
  generalize p'.field? .source = s' at hsource
  cases hsource with
  | some hs => exact .some hs
  | none =>
    rw [Option.none_or, Option.none_or, h.kind]
    split
    · exact forall₂_find? (fun q q' hq => by rw [hq.kind]) (h.namedChildren hkind)
    · exact .none

theorem firstArgument? (h : Matches d d' new p p') (hkind : p.node.kind ≠ .string) :
    Option.Rel (Matches d d' new) p.callArguments.head? p'.callArguments.head? := by
  have hlist := h.field? hkind .arguments
  unfold Place.callArguments
  generalize p.field? .arguments = l at hlist
  generalize p'.field? .arguments = l' at hlist
  cases hlist with
  | none => exact .none
  | some hl =>
    rw [Option.elim_some, Option.elim_some, hl.kind]
    split
    · rename_i harguments
      have hother := hl.kind.trans (beq_iff_eq.mp harguments)
      rw [List.head?_filter, List.head?_filter]
      exact forall₂_find? (fun q q' hq => by rw [hq.kind]) (hl.namedChildren (hother ▸ by decide))
    · exact .none

end Matches

/-! ## Directives -/

mutual

/-- A new literal in a node is in the node of the other tree. -/
theorem exists_of_touches : ∀ n n' : Node, relinks d d' new n n' = true → n'.laid = true →
    touches new n = true → ∃ m m' : Node, n'.start ≤ m'.start ∧ m'.start ≤ m'.stop ∧ m'.stop ≤ n'.stop ∧
      ∃ literal, new m = some literal ∧ d'.wording m' = literal
  | .mk role kind start stop children, .mk role' kind' start' stop' children' => by
    intro h hlaid htouches
    obtain ⟨-, hkind, hstring, hparts⟩ := relinks_cases h
    rw [touches] at htouches
    split at htouches
    · rename_i hliteral
      obtain ⟨literal, hnew⟩ := Option.isSome_iff_exists.mp htouches
      refine ⟨_, _, Nat.le_refl _, Node.start_le_stop_of_laid _ hlaid, Nat.le_refl _, literal, hnew, ?_⟩
      rw [hstring (beq_iff_eq.mp hliteral), hnew]
      rfl
    · rename_i hother
      exact exists_of_touchesAny start' stop' children children'
        (hparts fun h => hother (beq_iff_eq.mpr h)).2 hlaid htouches

theorem exists_of_touchesAny (first last : Nat) : ∀ ns ns' : List Node,
    List.Forall₂ (fun n n' => relinks d d' new n n' = true) ns ns' → Node.laidAll first last ns' = true →
      touchesAny new ns = true → ∃ m m' : Node, first ≤ m'.start ∧ m'.start ≤ m'.stop ∧ m'.stop ≤ last ∧
        ∃ literal, new m = some literal ∧ d'.wording m' = literal
  | [], _ => fun _ _ h => nomatch h
  | _ :: _, [] => fun h _ _ => nomatch h
  | n :: rest, n' :: rest' => by
    intro h hlaid htouches
    obtain ⟨hn, hrest⟩ := List.forall₂_cons.mp h
    obtain ⟨hfirst, hlaidn, hbehind⟩ := Node.laidAll_cons.mp hlaid
    rw [touchesAny, Bool.or_eq_true_iff] at htouches
    rcases htouches with htouches | htouches
    · obtain ⟨m, m', hstart, hle, hstop, hliteral⟩ := exists_of_touches n n' hn hlaidn htouches
      exact ⟨m, m', hfirst.trans hstart, hle, hstop.trans (Node.le_of_laidAll _ _ _ hbehind), hliteral⟩
    · obtain ⟨m, m', hstart, hle, hstop, hliteral⟩ :=
        exists_of_touchesAny n'.stop last rest rest' hrest hbehind htouches
      exact ⟨m, m', hfirst.trans ((Node.start_le_stop_of_laid n' hlaidn).trans hstart), hle, hstop, hliteral⟩

end

/-- No directive is spelt with a quote. -/
theorem no_quote_in_directives : ∀ directive ∈ Import.mockDirectives, ∀ b ∈ directive.toUTF8.data.toList,
    b ≠ 39 ∧ b ≠ 34 := by
  have hall : (Import.mockDirectives.all fun directive =>
      directive.toUTF8.data.toList.all fun b => b != 39 && b != 34) = true := by decide +kernel
  simpa only [List.all_eq_true, Bool.and_eq_true, bne_iff_ne] using hall

/-- The new literals begin with a quote. -/
def Quotes (new : Node → Option String) : Prop :=
  ∀ n, ∀ literal ∈ new n, ∃ quote rest, literal = String.ofList (quote :: rest) ∧ (quote = '\'' ∨ quote = '"')

theorem quotes_absolute? : Quotes (d.absolute? cwd file) := by
  intro n literal h
  unfold absolute? at h
  obtain ⟨-, h⟩ := Option.ite_none_right_eq_some.mp h
  obtain ⟨specifier, -, rfl⟩ := Option.map_eq_some_iff.mp h
  have hhead := Quoted.head_requote (d.wording n) (Specifier.resolve cwd file specifier)
  generalize Quoted.requote (d.wording n) (Specifier.resolve cwd file specifier) = text at hhead
  cases text with
  | nil => cases hhead <;> contradiction
  | cons g text =>
    refine ⟨g.toChar?.getD '\uFFFD', _, rfl, ?_⟩
    rcases hhead with hhead | hhead
    · cases hhead
      exact .inl rfl
    · cases hhead
      exact .inr rfl

/-- The byte of the quote is among those of a text that begins with it. -/
theorem quote_mem_bytes {quote : Char} (hquote : quote = '\'' ∨ quote = '"') (rest : List Char) :
    ∃ b ∈ (String.ofList (quote :: rest)).toUTF8.data.toList, b = 39 ∨ b = 34 := by
  have hsplit : String.ofList (quote :: rest) = String.singleton quote ++ String.ofList rest := by
    rw [← String.toList_inj]
    simp
  rw [hsplit, String.toUTF8, String.toByteArray_append, ByteArray.data_append, Array.toList_append]
  rcases hquote with rfl | rfl
  · exact ⟨39, List.mem_append_left _ (by decide), .inl rfl⟩
  · exact ⟨34, List.mem_append_left _ (by decide), .inr rfl⟩

/-- A node with a new literal in it is not spelt like a directive. -/
theorem not_directive_of_literal {m' c' : Node} {literal : String} (hc : d'.textOf c' = .ok (d'.wording c'))
    (hstart : c'.start ≤ m'.start) (hle : m'.start ≤ m'.stop) (hstop : m'.stop ≤ c'.stop)
    (hliteral : d'.wording m' = literal) {quote : Char} {rest : List Char}
    (hquoted : literal = String.ofList (quote :: rest)) (hquote : quote = '\'' ∨ quote = '"') :
    d'.wording c' ∉ Import.mockDirectives := by
  intro hmem
  have hm : d'.textOf m' = .ok literal := by
    unfold wording at hliteral
    cases htext : d'.textOf m' with
    | ok text =>
      rw [htext] at hliteral
      exact congrArg _ hliteral
    | error e =>
      rw [htext, hquoted] at hliteral
      have hempty := congrArg String.toList hliteral
      rw [String.toList_ofList] at hempty
      cases hempty
  have hinner : d'.source.extract m'.start m'.stop = literal.toUTF8 := Conversion.decode_ok.mp hm
  have houter : d'.source.extract c'.start c'.stop = (d'.wording c').toUTF8 := Conversion.decode_ok.mp hc
  obtain ⟨b, hb, hbyte⟩ := quote_mem_bytes hquote rest
  obtain ⟨hsingle, hdouble⟩ := no_quote_in_directives _ hmem b (by
    rw [← houter, ByteArray.extract_eq_extract_append_extract m'.start hstart (hle.trans hstop),
      ByteArray.extract_eq_extract_append_extract m'.stop hle hstop, hinner, ByteArray.data_append,
      Array.toList_append, ByteArray.data_append, Array.toList_append, hquoted]
    exact List.mem_append_right _ (List.mem_append_left _ hb))
  exact hbyte.elim hsingle hdouble

namespace Matches

/-- A directive was one before. -/
theorem isDirective (h : Matches d d' new p p') (hquotes : Quotes new) (hd' : d'.Legible)
    (hlaid : d'.root.laid = true) (hp' : p'.Within d'.root) (hdirective : d'.isDirective p' = true) :
    d.isDirective p = true := by
  obtain ⟨hcall, hcallee⟩ := Bool.and_eq_true_iff.mp hdirective
  obtain ⟨c', hc', hmember⟩ := (Option.any_eq_true _ _).mp hcallee
  have hother : p.node.kind ≠ .string := by
    rw [h.kind, beq_iff_eq.mp hcall]
    decide
  have hfield := h.field? hother .callee
  rw [hc'] at hfield
  cases hcalled : p.field? .callee with
  | none =>
    rw [hcalled] at hfield
    cases hfield
  | some c =>
    rw [hcalled] at hfield
    obtain hc : Matches d d' new c c' := by
      cases hfield with
      | some hc => exact hc
    have hwithin := hp'.field? hc'
    have huntouched : touches new c.node = false := by
      rw [← Bool.not_eq_true]
      intro htouches
      obtain ⟨m, m', hstart, hle, hstop, literal, hnew, hliteral⟩ :=
        exists_of_touches c.node c'.node hc (Place.laid_of_within hlaid hwithin).1 htouches
      obtain ⟨quote, rest, hquoted, hquote⟩ := hquotes m literal hnew
      exact not_directive_of_literal (hd' c' hwithin) hstart hle hstop hliteral hquoted hquote
        (List.contains_iff_mem.mp hmember)
    have hword := wording_of_untouched hc huntouched
    unfold Document.isDirective
    rw [h.kind, hcall, hcalled, Option.any_some, ← hword, hmember]
    rfl

end Matches

/-! ## The second time -/

theorem not_string_of_namesModule (h : namesModule n = true) : n.kind ≠ .string := by
  intro hkind
  unfold namesModule at h
  rw [hkind] at h
  cases h

theorem namesModule_of_statement (h : [Kind.importStatement, .exportStatement].contains n.kind = true) :
    namesModule n = true :=
  List.contains_iff_mem.mpr (List.mem_append_left [Kind.callExpression] (List.contains_iff_mem.mp h))

theorem namesModule_of_directive (h : d.isDirective p = true) : namesModule p.node = true := by
  unfold namesModule
  rw [beq_iff_eq.mp (Bool.and_eq_true_iff.mp h).1]
  rfl

theorem namesModule_of_literalAt (h : d.moduleLiteralAt? p = some q) : namesModule p.node = true := by
  unfold moduleLiteralAt? at h
  split at h
  · rename_i hstatement
    exact namesModule_of_statement hstatement
  · exact namesModule_of_directive (Option.ite_none_right_eq_some.mp h).1

/-- A literal that names a module was one before. -/
theorem literal_of_relinked (h : Relinked cwd file d d') (hd' : d'.Legible) (hp' : p' ∈ d'.places)
    (hq' : d'.moduleLiteralAt? p' = some q') : ∃ p ∈ d.places, ∃ q, d.moduleLiteralAt? p = some q ∧
      Matches d d' (d.absolute? cwd file) q q' := by
  obtain ⟨p, hp, hmatches⟩ := exists_of_relinks [] [] d.root d'.root h.same h.plain p' hp'
    (namesModule_of_literalAt hq')
  replace hmatches : Matches d d' (d.absolute? cwd file) p p' := hmatches
  refine ⟨p, hp, ?_⟩
  have hother : p.node.kind ≠ .string := by
    rw [hmatches.kind]
    exact not_string_of_namesModule (namesModule_of_literalAt hq')
  unfold moduleLiteralAt? at hq' ⊢
  rw [hmatches.kind]
  split at hq'
  · rename_i hstatement
    rw [if_pos hstatement]
    have hliteral := hmatches.moduleLiteral? hother
    rw [hq'] at hliteral
    generalize p.moduleLiteral? = literal at hliteral
    cases hliteral with
    | some hq => exact ⟨_, rfl, hq⟩
  · rename_i hstatement
    obtain ⟨hdirective, hq'⟩ := Option.ite_none_right_eq_some.mp hq'
    obtain ⟨hargument, hstring⟩ := Option.filter_eq_some_iff.mp hq'
    rw [if_neg hstatement, if_pos (hmatches.isDirective quotes_absolute? hd' h.laid
      (within_of_mem_places hp') hdirective)]
    have hfirst := hmatches.firstArgument? hother
    rw [hargument] at hfirst
    generalize p.callArguments.head? = argument at hfirst
    cases hfirst with
    | some hq => exact ⟨_, Option.filter_eq_some_iff.mpr ⟨rfl, by rw [hq.kind]; exact hstring⟩, hq⟩

/-- The literals that name modules have values, and where one is a relative specifier, the new literal can
be written out. -/
def Resolvable (d : Document) (cwd : PathName) (file : String) : Prop :=
  ∀ p ∈ d.places, ∀ q, d.moduleLiteralAt? p = some q → q.node.kind = .string →
    ∃ value, Quoted.decode ((d.wording q.node).toList.drop 1).dropLast = .ok value ∧
      (Specifier.needsResolving value = true →
        ((Quoted.requote (d.wording q.node) (Specifier.resolve cwd file value)).toString?).isSome = true)

theorem absolute?_of_literal (hp : p ∈ d.places) (hq : d.moduleLiteralAt? p = some q) :
    d.absolute? cwd file q.node = ((d.valueOf? q.node).filter Specifier.needsResolving).map fun specifier =>
      (Quoted.requote (d.wording q.node) (Specifier.resolve cwd file specifier)).shown := by
  unfold absolute?
  rw [if_pos]
  exact List.any_eq_true.mpr ⟨q, List.mem_filterMap.mpr ⟨p, hp, hq⟩, beq_self_eq_true _⟩

/-- The value of a literal that names a module is no specifier that has to be resolved. -/
theorem resolved_of_relinked (h : Relinked cwd file d d') (hd' : d'.Legible) (hresolvable : d.Resolvable cwd file)
    (hresolve : ∀ specifier, Specifier.isRelative specifier = true →
      Specifier.isRelative (Specifier.resolve cwd file specifier) = false)
    (hp' : p' ∈ d'.places) (hwithin : q'.Within d'.root) (hq' : d'.moduleLiteralAt? p' = some q') :
    Import.Resolved d' (d'.handle q') := by
  obtain ⟨p, hp, q, hq, hmatches⟩ := literal_of_relinked h hd' hp' hq'
  have hvalue : q'.node.kind = .string → ∃ value,
      Quoted.decode ((d'.wording q'.node).toList.drop 1).dropLast = .ok value ∧
        Specifier.needsResolving value = false := by
    intro hstring
    replace hstring := hmatches.kind.trans hstring
    obtain ⟨value, hdecode, hwritten⟩ := hresolvable p hp q hq hstring
    have hvalue : d.valueOf? q.node = some value := by
      unfold valueOf?
      rw [if_pos (beq_iff_eq.mpr hstring), hdecode]
      rfl
    rw [(relinks_cases hmatches).2.2.1 hstring, absolute?_of_literal hp hq, hvalue, Option.filter_some]
    cases hneeds : Specifier.needsResolving value with
    | false =>
      rw [if_neg Bool.false_ne_true, Option.map_none, Option.getD_none]
      exact ⟨value, hdecode, hneeds⟩
    | true =>
      refine ⟨_, Quoted.decode_requote (hwritten hneeds), ?_⟩
      unfold Specifier.needsResolving at hneeds ⊢
      rw [hresolve value (Bool.and_eq_true_iff.mp hneeds).1, Bool.false_and]
  refine ⟨_, Handle.literalValue?_of_isOk hd' (fun _ => hwithin) fun hstring => ?_, ?_⟩
  · obtain ⟨value, hdecode, -⟩ := hvalue hstring
    rw [hdecode]
    rfl
  · intro specifier hspecifier
    unfold valueOf? at hspecifier
    obtain ⟨hstring, hspecifier⟩ := Option.ite_none_right_eq_some.mp hspecifier
    obtain ⟨value, hdecode, hresolved⟩ := hvalue (beq_iff_eq.mp hstring)
    rw [hdecode] at hspecifier
    cases hspecifier
    exact hresolved

/-! ## What a run looks at -/

/-- The literals that a run looks at name modules, and all that do are looked at. -/
theorem moduleLiterals_answers (hd : d.Legible) : ∃ literals, Import.moduleLiterals d = .ok literals ∧
    (∀ l ∈ literals, ∃ p ∈ d.places, ∃ q, d.moduleLiteralAt? p = some q ∧ l = d.handle q) ∧
      (d.NamesApart → ∀ p ∈ d.places, ∀ q, d.moduleLiteralAt? p = some q → d.handle q ∈ literals) := by
  refine ⟨_, moduleLiterals_eq hd, ?_, ?_⟩
  · intro l hl
    rcases List.mem_append.mp hl with hl | hl
    · obtain ⟨a, ha, hl⟩ := List.mem_filterMap.mp hl
      obtain ⟨p, hp, hholds, rfl⟩ := TestMigration.mem_found ha
      obtain ⟨q, hq, rfl⟩ := Option.map_eq_some_iff.mp hl
      refine ⟨p, hp, q, ?_, rfl⟩
      unfold moduleLiteralAt?
      rw [if_pos (Bool.and_eq_true_iff.mp hholds).1]
      exact hq
    · obtain ⟨a, ha, hl⟩ := List.mem_filterMap.mp hl
      obtain ⟨p, hp, hholds, rfl⟩ := TestMigration.mem_found ha
      obtain ⟨q, hq, rfl⟩ := Option.map_eq_some_iff.mp hl
      replace hq : p.callArguments.head? = some q := hq
      obtain ⟨hdirective, hstring⟩ := Bool.and_eq_true_iff.mp hholds
      rw [hq, Option.any_some] at hstring
      refine ⟨p, hp, q, ?_, rfl⟩
      have hcall := beq_iff_eq.mp (Bool.and_eq_true_iff.mp hdirective).1
      unfold moduleLiteralAt?
      rw [if_neg (by rw [hcall]; decide), if_pos hdirective, hq]
      exact Option.filter_eq_some_iff.mpr ⟨rfl, hstring⟩
  · intro hapart p hp q hq
    have hmem : ∀ test : Place → Bool, (∀ p, test p = true → namesModule p.node = true) → test p = true →
        d.handle p ∈ MatchSet.distinct ((d.places.filter test).map d.handle) := by
      intro test htest hholds
      have hfound : d.found test = d.places.filter test := by
        refine found_eq_filter (hapart.sublist ?_)
        exact List.monotone_filter_right _ htest
      have hin : p ∈ d.found test := hfound ▸ List.mem_filter.mpr ⟨hp, hholds⟩
      obtain ⟨a, ha, rfl⟩ := List.mem_map.mp hin
      obtain ⟨r, -, -, rfl⟩ := TestMigration.mem_found ha
      exact ha
    unfold moduleLiteralAt? at hq
    split at hq
    · rename_i hstatement
      refine List.mem_append_left _ (List.mem_filterMap.mpr ⟨_, hmem _ (fun p hp => ?_) ?_, ?_⟩)
      · exact namesModule_of_statement (Bool.and_eq_true_iff.mp hp).1
      · rw [hstatement, hq]
        rfl
      · exact congrArg (Option.map d.handle) hq
    · obtain ⟨hdirective, hq⟩ := Option.ite_none_right_eq_some.mp hq
      obtain ⟨hargument, hstring⟩ := Option.filter_eq_some_iff.mp hq
      refine List.mem_append_right _ (List.mem_filterMap.mpr ⟨_, hmem _ (fun p hp => ?_) ?_, ?_⟩)
      · exact namesModule_of_directive (Bool.and_eq_true_iff.mp hp).1
      · rw [hdirective, hargument]
        exact hstring
      · exact congrArg (Option.map d.handle) hargument

theorem literalAt_within (hp : p ∈ d.places) (hq : d.moduleLiteralAt? p = some q) : q.Within d.root := by
  have hwithin := within_of_mem_places hp
  unfold moduleLiteralAt? at hq
  split at hq
  · obtain ⟨n, hn, rfl⟩ := Place.moduleLiteral?_child hq
    exact hwithin.child hn
  · obtain ⟨-, hq⟩ := Option.ite_none_right_eq_some.mp hq
    exact hwithin.argument (List.mem_of_head? (Option.filter_eq_some_iff.mp hq).1)

theorem allResolved_of_relinked (h : Relinked cwd file d d') (hd' : d'.Legible) (hresolvable : d.Resolvable cwd file)
    (hresolve : ∀ specifier, Specifier.isRelative specifier = true →
      Specifier.isRelative (Specifier.resolve cwd file specifier) = false) : Import.AllResolved d' := by
  obtain ⟨literals, hliterals, hsound, -⟩ := moduleLiterals_answers hd'
  refine ⟨literals, hliterals, fun l hl => ?_⟩
  obtain ⟨p', hp', q', hq', rfl⟩ := hsound l hl
  exact resolved_of_relinked h hd' hresolvable hresolve hp' (literalAt_within hp' hq') hq'

end Document

namespace Import

variable {cwd : PathName} {file : String} {s s' : Session} {n : Nat}

/-- What a run does in its block: all literals that name modules are made absolute, one after another. -/
def eachAbsolute (cwd : PathName) (file : String) : Editing Nat := do
  let literals ← (moduleLiterals : Looking _)
  let counts ← literals.mapM (makeAbsolute cwd file)
  return counts.foldr (· + ·) 0

theorem made_eachAbsolute (cwd : PathName) (file : String) : Made (eachAbsolute cwd file) :=
  (made_look plain_moduleLiterals).bind fun literals =>
    (made_stepwise.mapM (made_makeAbsolute cwd file) literals).bind fun _ => made_pure _

theorem batched_of_absolutize (hrun : absolutize cwd file s = .ok n s') :
    ∃ spent, Document.batched (eachAbsolute cwd file) s.document = .ok (n, spent) s'.document := by
  obtain ⟨⟨count, spent⟩, t, hbatched, hpure⟩ := Leaves.bind_ok hrun
  obtain ⟨d, hblock, rfl⟩ := Pass.lift_ok hbatched
  obtain ⟨hn, rfl⟩ := Leaves.pure hpure
  cases hn
  exact ⟨spent, hblock⟩

/-- The literals have their turns one after another. -/
theorem records_eachAbsolute {d : Document} {b b' : Batch} (h : Records (eachAbsolute cwd file) d b n b') :
    ∃ literals counts, moduleLiterals d = .ok literals ∧
      Records (literals.mapM (makeAbsolute cwd file)) d b counts b' := by
  obtain ⟨literals, hliterals, h⟩ := h.look_bind plain_moduleLiterals
  obtain ⟨counts, b₁, hcounts, h⟩ := h.bind (made_stepwise.mapM (made_makeAbsolute cwd file) literals)
  obtain ⟨-, rfl⟩ := h.pure
  exact ⟨literals, counts, hliterals, hcounts⟩

/-- The turn of a literal: it is read, and where its value is a relative specifier, the new literal can be
written out and is put in its place. -/
theorem records_makeAbsolute {d : Document} {q : Place} {b b' : Batch} (hd : d.Legible)
    (hq : q.Within d.root) (h : Records (makeAbsolute cwd file (d.handle q)) d b n b') :
    ∃ value, (d.handle q).literalValue? d = .ok value ∧
      (∀ specifier, value = some specifier → Specifier.needsResolving specifier = true →
        ((Quoted.requote (d.wording q.node) (Specifier.resolve cwd file specifier)).toString?).isSome = true) ∧
      ∀ e ∈ b'.edits, e ∈ b.edits ∨ ∃ written, e.Puts q.node.start q.node.stop written := by
  obtain ⟨value, hvalue, h⟩ := h.look_bind (Handle.plain_literalValue? _)
  refine ⟨value, hvalue, ?_⟩
  cases value with
  | none =>
    obtain ⟨-, rfl⟩ := h.pure
    exact ⟨fun _ hsome => (nomatch hsome), fun e he => .inl he⟩
  | some specifier =>
    dsimp only at h
    cases hneeds : Specifier.needsResolving specifier with
    | false =>
      rw [hneeds, Bool.not_false, if_pos rfl] at h
      obtain ⟨-, rfl⟩ := h.pure
      refine ⟨fun _ hsame hneeds' => ?_, fun e he => .inl he⟩
      rw [← Option.some.inj hsame, hneeds] at hneeds'
      cases hneeds'
    | true =>
      rw [hneeds, Bool.not_true, if_neg Bool.false_ne_true] at h
      obtain ⟨existing, hexisting, h⟩ := h.look_bind (Handle.plain_text _)
      cases (Handle.text_handle hd hq).symm.trans hexisting
      obtain ⟨u, b₁, hreplace, h⟩ := h.bind (Handle.made_replaceWith _ _)
      obtain ⟨-, rfl⟩ := h.pure
      obtain ⟨written, hwritten, -, honly⟩ := records_replaceWith hreplace
      refine ⟨fun _ hsame _ => ?_, fun e he => (honly e he).imp_right fun hputs => ⟨written, hputs⟩⟩
      rw [← Option.some.inj hsame, hwritten]
      rfl

/-- A run that comes to its end has read all literals that name modules, and written the new ones. -/
theorem resolvable_of_absolutize (closed : s.document.batch = none) (hd : s.document.Legible)
    (hapart : s.document.NamesApart) (hrun : absolutize cwd file s = .ok n s') :
    s.document.Resolvable cwd file := by
  obtain ⟨spent, hbatched⟩ := batched_of_absolutize hrun
  obtain ⟨b, hrecords, -⟩ := batched_records (made_eachAbsolute cwd file) closed hbatched
  obtain ⟨literals, counts, hliterals, hrecords⟩ := records_eachAbsolute hrecords
  obtain ⟨_, hanswers, -, hall⟩ := Document.moduleLiterals_answers hd
  cases hliterals.symm.trans hanswers
  intro p hp q hq hstring
  obtain ⟨b₁, c, b₂, hturn, -, -⟩ := hrecords.mapM_mem (made_makeAbsolute cwd file) _ (hall hapart p hp q hq)
  have hwithin := Document.literalAt_within hp hq
  obtain ⟨value, hvalue, hwritten, -⟩ := records_makeAbsolute hd hwithin hturn
  obtain ⟨specifier, hdecode, rfl⟩ := Handle.decode_of_literalValue? hd hwithin hstring hvalue
  exact ⟨specifier, hdecode, hwritten specifier rfl⟩

/-- The run leaves a script where it met one: whole nodes give way to texts. -/
theorem worded_of_absolutize (closed : s.document.batch = none) (hd : s.document.Worded)
    (hrun : absolutize cwd file s = .ok n s') : s'.document.Worded := by
  obtain ⟨spent, hbatched⟩ := batched_of_absolutize hrun
  refine batched_worded (made_eachAbsolute cwd file) closed hd hbatched fun b hrecords => ?_
  obtain ⟨literals, counts, hliterals, hrecords⟩ := records_eachAbsolute hrecords
  obtain ⟨_, hanswers, hsound, -⟩ := Document.moduleLiterals_answers hd.legible
  cases hliterals.symm.trans hanswers
  refine (hrecords.mapM_keeps (made_makeAbsolute cwd file) (I := fun b => ∀ e ∈ b.edits, s.document.Neat e)
    (Q := fun _ => True) (fun l hl b₁ c b₂ hb₁ hturn => ⟨?_, trivial⟩) fun e he => nomatch he).1
  obtain ⟨p, hp, q, hq, rfl⟩ := hsound l hl
  have hwithin := Document.literalAt_within hp hq
  obtain ⟨value, -, -, hputs⟩ := records_makeAbsolute hd.legible hwithin hturn
  intro e he
  rcases hputs e he with hold | ⟨written, hputs⟩
  · exact hb₁ e hold
  · exact hd.neat_of_puts hwithin hputs

/-- Resolving a relative specifier leads to a path that begins at the root and that holds no empty part and
no dots; its parts are those of the file's directory and then those of the specifier, and each double dot
has led back by one. A second run finds nothing to resolve, where the new text is read as the old tree
with just those literals changed. -/
theorem absolutize_once {cwd : Route} (hcwd : PathName.Proper ⟨1, cwd⟩) (hfile : ¬ Specifier.BeginsDoubly file) :
    (∀ specifier, Specifier.isRelative specifier = true →
      Specifier.resolve ⟨1, cwd⟩ file specifier =
          Specifier.slash :: Text.join [Specifier.slash] (Specifier.route cwd file specifier) ∧
        ∀ part ∈ Specifier.route cwd file specifier, part ≠ [] ∧ part ≠ Text.ofString "." ∧
          part ≠ Text.ofString ".." ∧ Specifier.slash ∉ part) ∧
    ∀ (s s' : Session) (n : Nat), s.document.batch = none → s.document.Worded → s.document.NamesApart →
      absolutize ⟨1, cwd⟩ file s = .ok n s' → Document.Relinked ⟨1, cwd⟩ file s.document s'.document →
        ∃ s'', absolutize ⟨1, cwd⟩ file s' = .ok 0 s'' ∧ s''.document = s'.document := by
  refine ⟨fun specifier hrelative => ⟨Specifier.resolve_eq hcwd hfile hrelative,
    fun part hpart => Specifier.mem_route hcwd hpart⟩, ?_⟩
  intro s s' n closed hd hapart hrun hrelinked
  have hresolve : ∀ specifier, Specifier.isRelative specifier = true →
      Specifier.isRelative (Specifier.resolve ⟨1, cwd⟩ file specifier) = false := by
    intro specifier hrelative
    rw [Specifier.resolve_eq hcwd hfile hrelative]
    rfl
  have hclosed : s'.document.batch = none := (programmed_absolutize _ _).closed hrun closed
  have hresolvable := resolvable_of_absolutize closed hd.legible hapart hrun
  have hlegible := (worded_of_absolutize closed hd hrun).legible
  exact ((idles_absolutize _ _).stays s' 0 hclosed).mpr
    ⟨Document.allResolved_of_relinked hrelinked hlegible hresolvable hresolve, rfl⟩

/-- Two specifiers that lead out of the directory of the file and into it. -/
def relativeScript : String := "import '../b';jest.mock('./c')"

theorem absolutize_once_relative : ∃ s s' s'' : Session, PathName.Proper ⟨1, ["w"]⟩ ∧
    ¬ Specifier.BeginsDoubly "t.js" ∧ Document.ofString none relativeScript = .ok s.document ∧
      s.document.batch = none ∧ s.document.Worded ∧ s.document.NamesApart ∧
      absolutize ⟨1, ["w"]⟩ "t.js" s = .ok 2 s' ∧
      Document.Relinked ⟨1, ["w"]⟩ "t.js" s.document s'.document ∧
      s'.document.source = "import '/b';jest.mock('/w/c')".toUTF8 ∧
      absolutize ⟨1, ["w"]⟩ "t.js" s' = .ok 0 s'' ∧ s''.document = s'.document ∧
      Specifier.isRelative ("../b" : String) = true ∧ Specifier.resolve ⟨1, ["w"]⟩ "t.js" ("../b" : String) =
        Specifier.slash :: Text.join [Specifier.slash] (Specifier.route ["w"] "t.js" ("../b" : String)) := by
  have hproper : PathName.Proper ⟨1, ["w"]⟩ := by
    unfold PathName.Proper
    decide
  have hfile : ¬ Specifier.BeginsDoubly "t.js" := by decide +kernel
  have hrun : (absolutize ⟨1, ["w"]⟩ "t.js").onScript? relativeScript (fun d n s =>
      (n, decide d.NamesApart, decide (Document.Relinked ⟨1, ["w"]⟩ "t.js" d s.document),
        spelledBy ["import '/b';jest.mock('/w/c')"] s.document.source)) = some (2, true, true, true) := by
    decide +kernel
  obtain ⟨d, n, s, hd, hrun, hobserved⟩ := Pass.exists_of_onScript? hrun
  simp only [Prod.mk.injEq, decide_eq_true_eq] at hobserved
  obtain ⟨rfl, hapart, hrelinked, hspelled⟩ := hobserved
  have hclosed := (Document.sound_of_ofBytes hd).2
  have hworded := Document.worded_ofString hd
  obtain ⟨hresolve, hsecond⟩ := absolutize_once hproper hfile
  obtain ⟨s', hagain, hsame⟩ := hsecond ⟨d, none, []⟩ s 2 hclosed hworded hapart hrun hrelinked
  exact ⟨⟨d, none, []⟩, s, s', hproper, hfile, hd, hclosed, hworded, hapart, hrun, hrelinked,
    eq_of_spelledBy hspelled, hagain, hsame, by decide, (hresolve _ (by decide)).1⟩

end Import

end TestMigration
