import TestMigration.Proofs.Form
import TestMigration.Proofs.TestIds

/-! Selectors in a tree without positions. What a `find` call selects by depends on its first argument
alone: on the text of a string, or on the keys and the strings of an object. So it stays the same when
calls below the argument are replaced by other calls. -/

namespace TestMigration

open Script (Node Kind Field Place Form)

/-! ## What a call selects by -/

namespace Script.Form

mutual

/-- A tree and the named trees in it, as a walk meets them. -/
def walk : Form → List Form
  | f@(mk _ _ _ parts) => f :: walkAll parts

def walkAll : List Form → List Form
  | [] => []
  | f :: rest => (if f.kind.isNamed then walk f else []) ++ walkAll rest

end

def callsMethod (method : String) (f : Form) : Bool :=
  f.kind == .callExpression && (f.field? .callee).any fun callee =>
    callee.kind == .memberExpression && (callee.field? .property).any fun property =>
      property.kind == .propertyIdentifier && property.word == method

/-- The value of a string, of which the whole literal is the word. -/
def literal? (f : Form) : Except Failure (Option Text) :=
  if f.kind != .string then .ok none
  else match Quoted.decode (f.word.toList.drop 1).dropLast with
    | .ok value => .ok (some value)
    | .error _ => .error (.of .badValue "chr() arg not in range(0x110000)")

/-- What a key names. -/
def name (key : Form) : Except Failure Text := do
  match ← key.literal? with
  | some value => return value
  | none => return .ofString key.word

def valueOf? : Option Form → Except Failure (Option Text)
  | none => return none
  | some f => f.literal?

/-- The value of the first pair under a key. -/
def objectValue (attr : Text) : List Form → Except Failure (Option Text)
  | [] => return none
  | pair :: rest =>
    if pair.kind != .pair then objectValue attr rest
    else match pair.field? .key with
      | none => objectValue attr rest
      | some key => do
        if (← key.name) == attr then valueOf? (pair.field? .value) else objectValue attr rest

/-- What the first argument of a `find` call selects by. -/
def selectorOf (attr : Text) : Option Form → Except Failure Selector
  | none => return .other
  | some f =>
    if f.kind == .object then do
      match ← objectValue attr (f.parts.filter (·.kind.isNamed)) with
      | some value => return if value.isEmpty then .other else .testId value
      | none => return .other
    else do
      match ← f.literal? with
      | none => return .other
      | some selector => return Selector.ofText attr selector

def selector (attr : Text) (call : Form) : Except Failure Selector := selectorOf attr call.arguments.head?

/-! ## Trees that differ below calls -/

/-- The trees are the same, except for what is below calls. -/
inductive Alike : Form → Form → Prop where
  | call {role : Option Field} {word : String} {parts parts' : List Form} :
    Alike (mk role .callExpression word parts) (mk role .callExpression word parts')
  | node {role : Option Field} {kind : Kind} {word : String} {parts parts' : List Form} :
    List.Forall₂ Alike parts parts' → Alike (mk role kind word parts) (mk role kind word parts')

mutual

theorem Alike.refl : ∀ f : Form, Alike f f
  | mk _ _ _ parts => .node (Alike.refl_all parts)

theorem Alike.refl_all : ∀ fs : List Form, List.Forall₂ Alike fs fs
  | [] => .nil
  | f :: fs => .cons (Alike.refl f) (Alike.refl_all fs)

end

variable {f g : Form} {fs gs : List Form} {attr : Text}

namespace Alike

theorem role (h : Alike f g) : f.role = g.role := by
  cases h <;> rfl

theorem kind (h : Alike f g) : f.kind = g.kind := by
  cases h <;> rfl

theorem word (h : Alike f g) : f.word = g.word := by
  cases h <;> rfl

theorem parts (h : Alike f g) (hkind : f.kind ≠ .callExpression) : List.Forall₂ Alike f.parts g.parts := by
  cases h with
  | call => exact absurd rfl hkind
  | node hparts => exact hparts

theorem literal? (h : Alike f g) : f.literal? = g.literal? := by
  unfold Form.literal?
  rw [h.kind, h.word]

theorem name (h : Alike f g) : f.name = g.name := by
  unfold Form.name
  rw [h.literal?, h.word]

end Alike

theorem alike_find? (h : List.Forall₂ Alike fs gs) (role : Field) :
    Option.Rel Alike (fs.find? (·.role == some role)) (gs.find? (·.role == some role)) := by
  induction h with
  | nil => exact .none
  | cons hfg _ ih =>
    rw [List.find?_cons, List.find?_cons, hfg.role]
    split
    · exact .some hfg
    · exact ih

theorem alike_filter (h : List.Forall₂ Alike fs gs) (test : Kind → Bool) :
    List.Forall₂ Alike (fs.filter (test ·.kind)) (gs.filter (test ·.kind)) := by
  induction h with
  | nil => exact .nil
  | cons hfg _ ih =>
    rw [List.filter_cons, List.filter_cons, hfg.kind]
    split
    · exact .cons hfg ih
    · exact ih

theorem valueOf?_alike {f g : Option Form} (h : Option.Rel Alike f g) : valueOf? f = valueOf? g := by
  cases h with
  | none => rfl
  | some hfg => exact hfg.literal?

theorem objectValue_alike (h : List.Forall₂ Alike fs gs) : objectValue attr fs = objectValue attr gs := by
  induction h with
  | nil => rfl
  | @cons f g fs gs hfg _ ih =>
    rw [objectValue, objectValue, hfg.kind, ih]
    split
    · rfl
    · rename_i hpair
      have hkind : f.kind ≠ .callExpression := by
        rw [hfg.kind, show g.kind = .pair by simpa using hpair]
        decide
      have hparts := hfg.parts hkind
      have hkey : Option.Rel Alike (f.field? .key) (g.field? .key) := alike_find? hparts .key
      have hvalue : valueOf? (f.field? .value) = valueOf? (g.field? .value) :=
        valueOf?_alike (alike_find? hparts .value)
      rw [hvalue]
      generalize f.field? .key = fk at hkey
      generalize g.field? .key = gk at hkey
      cases hkey with
      | none => rfl
      | some hnames =>
        dsimp only
        rw [hnames.name]

theorem selectorOf_alike {f g : Option Form} (h : Option.Rel Alike f g) :
    selectorOf attr f = selectorOf attr g := by
  cases h with
  | none => rfl
  | @some f g hfg =>
    unfold selectorOf
    dsimp only
    rw [hfg.kind, hfg.literal?]
    split
    · rename_i hobject
      have hkind : f.kind ≠ .callExpression := by
        rw [hfg.kind, beq_iff_eq.mp hobject]
        decide
      rw [objectValue_alike (alike_filter (hfg.parts hkind) Kind.isNamed)]
    · rfl

/-- What is called, and what it is called with, are seen above the calls below. -/
theorem callsMethod_alike (hkind : f.kind = g.kind) (h : List.Forall₂ Alike f.parts g.parts)
    (method : String) : f.callsMethod method = g.callsMethod method := by
  have hcallee : Option.Rel Alike (f.field? .callee) (g.field? .callee) := alike_find? h .callee
  unfold callsMethod
  rw [hkind]
  congr 1
  generalize f.field? .callee = fc at hcallee
  generalize g.field? .callee = gc at hcallee
  cases hcallee with
  | none => rfl
  | @some callee callee' halike =>
    rw [Option.any_some, Option.any_some, halike.kind]
    cases hmember : callee'.kind == Kind.memberExpression with
    | false => rfl
    | true =>
      have hparts := halike.parts (by rw [halike.kind, beq_iff_eq.mp hmember]; decide)
      have hproperty : Option.Rel Alike (callee.field? .property) (callee'.field? .property) :=
        alike_find? hparts .property
      congr 1
      generalize callee.field? .property = fp at hproperty
      generalize callee'.field? .property = gp at hproperty
      cases hproperty with
      | none => rfl
      | some hname => rw [Option.any_some, Option.any_some, hname.kind, hname.word]

theorem arguments_alike (h : List.Forall₂ Alike f.parts g.parts) :
    List.Forall₂ Alike f.arguments g.arguments := by
  have hlist : Option.Rel Alike (f.field? .arguments) (g.field? .arguments) := alike_find? h .arguments
  unfold arguments
  generalize f.field? .arguments = fl at hlist
  generalize g.field? .arguments = gl at hlist
  cases hlist with
  | none => exact .nil
  | @some list list' halike =>
    rw [Option.elim_some, Option.elim_some, halike.kind]
    split
    · rename_i hkind
      have hparts := halike.parts (by rw [halike.kind, beq_iff_eq.mp hkind]; decide)
      exact alike_filter (alike_filter hparts Kind.isNamed) (· != .comment)
    · exact .nil

theorem selector_alike (h : List.Forall₂ Alike f.parts g.parts) : f.selector attr = g.selector attr := by
  refine selectorOf_alike ?_
  have harguments := arguments_alike h
  generalize f.arguments = fs at harguments
  generalize g.arguments = gs at harguments
  cases harguments with
  | nil => exact .none
  | cons hfirst _ => exact .some hfirst

theorem name_of_literal? {value : Option Text} (h : f.literal? = .ok value) :
    f.name = .ok (value.getD (Text.ofString f.word)) := by
  unfold name
  rw [h]
  cases value <;> rfl

theorem kind_of_literal?_none (h : f.literal? = .ok none) : f.kind ≠ .string := by
  intro hkind
  unfold literal? at h
  rw [if_neg (by simp [hkind])] at h
  split at h <;> cases h

end Script.Form

/-! ## The tree of a document -/

namespace Document

variable {d : Document} {n : Node} {p q : Place} {attr : Text}

/-- What is written at a word or a string. -/
def spelling (d : Document) (n : Node) : String := if n.kind == .string then d.wording n else d.wordOf n

mutual

/-- The node without its position, and strings without parts. -/
def outlineOf (d : Document) : Node → Form
  | n@(.mk role kind _ _ children) =>
    .mk role kind (d.spelling n) (if kind == .string then [] else outlinesOf d children)

def outlinesOf (d : Document) : List Node → List Form
  | [] => []
  | n :: rest => outlineOf d n :: outlinesOf d rest

end

theorem outlinesOf_eq (ns : List Node) : d.outlinesOf ns = ns.map d.outlineOf := by
  induction ns with
  | nil => rfl
  | cons n ns ih => rw [outlinesOf, ih, List.map_cons]

@[simp] theorem role_outlineOf : (d.outlineOf n).role = n.role := by
  cases n
  rfl

@[simp] theorem kind_outlineOf : (d.outlineOf n).kind = n.kind := by
  cases n
  rfl

@[simp] theorem word_outlineOf : (d.outlineOf n).word = d.spelling n := by
  cases n
  rfl

theorem parts_outlineOf (h : n.kind ≠ .string) : (d.outlineOf n).parts = n.children.map d.outlineOf := by
  obtain ⟨role, kind, start, stop, children⟩ := n
  change (if kind == Kind.string then [] else d.outlinesOf children) = _
  have hkind : ¬ (kind == Kind.string) = true := fun hstring => h (beq_iff_eq.mp hstring)
  rw [if_neg hkind, outlinesOf_eq]
  rfl

theorem field?_outlineOf (h : n.kind ≠ .string) (f : Field) :
    (d.outlineOf n).field? f = (n.field? f).map d.outlineOf := by
  unfold Form.field? Node.field?
  rw [parts_outlineOf h, List.find?_map]
  congr 2
  funext m
  rw [Function.comp_apply, role_outlineOf]

theorem callsMethod_outlineOf (method : String) :
    (d.outlineOf p.node).callsMethod method = d.callsMethod (.exactly method) p := by
  unfold Form.callsMethod callsMethod Place.field?
  rw [kind_outlineOf]
  cases hcall : p.node.kind == Kind.callExpression with
  | false => rfl
  | true =>
    rw [field?_outlineOf (by rw [beq_iff_eq.mp hcall]; decide), Option.any_map, Option.any_map]
    congr 2
    funext callee
    change ((d.outlineOf callee).kind == _ && _) = (callee.kind == _ && _)
    rw [kind_outlineOf]
    cases hmember : callee.kind == Kind.memberExpression with
    | false => rfl
    | true =>
      rw [field?_outlineOf (by rw [beq_iff_eq.mp hmember]; decide), Option.any_map]
      change _ = (true && (Option.map _ (callee.field? .property)).any _)
      rw [Option.any_map]
      congr 2
      funext property
      change ((d.outlineOf property).kind == _ && (d.outlineOf property).word == _) =
        (property.kind == _ && d.wording property == method)
      rw [kind_outlineOf, word_outlineOf]
      -- the kind of the name decides that it is in its text
      cases hkind : property.kind == Kind.propertyIdentifier with
      | false => rw [Bool.false_and, Bool.false_and]
      | true =>
        rw [spelling, wordOf, beq_iff_eq.mp hkind]
        rfl

theorem namedParts_outlineOf (h : p.node.kind ≠ .string) :
    (d.outlineOf p.node).parts.filter (·.kind.isNamed) = p.namedChildren.map fun q => d.outlineOf q.node := by
  unfold Place.namedChildren Node.namedChildren
  rw [parts_outlineOf h, List.filter_map, List.map_map]
  simp only [Function.comp_def, kind_outlineOf]
  rfl

theorem arguments_outlineOf (h : p.node.kind ≠ .string) :
    (d.outlineOf p.node).arguments = p.callArguments.map fun q => d.outlineOf q.node := by
  unfold Form.arguments Place.callArguments Place.field?
  rw [field?_outlineOf h]
  cases p.node.field? .arguments with
  | none => rfl
  | some list =>
    rw [Option.map_some, Option.map_some, Option.elim_some, Option.elim_some, kind_outlineOf]
    change _ = List.map _ (if list.kind == Kind.arguments then _ else _)
    split
    · rename_i hkind
      have hstring : (p.child list).node.kind ≠ .string := by
        rw [show (p.child list).node.kind = .arguments from beq_iff_eq.mp hkind]
        decide
      have hparts := namedParts_outlineOf (d := d) hstring
      rw [show (p.child list).node = list from rfl] at hparts
      rw [hparts, List.filter_map]
      simp only [Function.comp_def, kind_outlineOf]
    · rfl

/-! ## What is read at a place -/

/-- The key of a pair is a word or a string, or it is computed between brackets. -/
def Keyed (d : Document) : Prop :=
  ∀ p ∈ d.places, p.node.kind = .pair → ∀ key ∈ p.field? .key,
    key.node.kind.isWord = true ∨ key.node.kind = .string ∨ (d.wording key.node).toList.head? = some '['

theorem literalValue?_outlineOf (hd : d.Legible) (hq : q.Within d.root) :
    (d.handle q).literalValue? d = (d.outlineOf q.node).literal? := by
  unfold Form.literal?
  rw [kind_outlineOf, word_outlineOf]
  refine look_bind_eq Handle.kind_handle ?_
  split
  · rfl
  · rename_i hkind
    have hstring : q.node.kind = .string := by simpa using hkind
    refine look_bind_eq (Handle.text_handle hd hq) ?_
    rw [spelling, if_pos (by rw [hstring]; rfl)]
    cases Quoted.decode ((d.wording q.node).toList.drop 1).dropLast <;> rfl

theorem look_bind_apply {α β : Type} {l : Looking α} {f : α → Looking β} :
    (l >>= f) d = (l d >>= fun a => f a d) := rfl

theorem look_bind_of_error {α β : Type} {l : Looking α} {f : α → Looking β} {e : Failure}
    (h : l d = .error e) : (l >>= f) d = .error e := by
  change (l d).bind (fun a => f a d) = _
  rw [h]
  rfl

/-- What is written at a node, unless it is computed: such a text is the name of no attribute. -/
theorem written_eq_name (hkey : n.kind.isWord = true ∨ n.kind = .string ∨
      (d.wording n).toList.head? = some '[') (hstring : n.kind ≠ .string) (hattr : Selector.Named attr) :
    (Text.ofString (d.wording n) == attr) = (Text.ofString (d.spelling n) == attr) := by
  have hspelling : d.spelling n = d.wordOf n := by
    unfold spelling
    rw [if_neg fun h => hstring (beq_iff_eq.mp h)]
  rw [hspelling, wordOf]
  split
  · rfl
  · rename_i hword
    have hbracket := (hkey.resolve_left hword).resolve_left hstring
    rw [beq_eq_false_iff_ne.mpr, beq_eq_false_iff_ne.mpr]
    · exact fun hnil => hattr.nonempty hnil.symm
    · rintro rfl
      obtain ⟨rest, hrest⟩ := List.head?_eq_some_iff.mp hbracket
      refine hattr.not_mem (g := .char '[') (by decide) ?_
      rw [Text.ofString, hrest]
      exact List.mem_cons_self

/-- A look that asks whether a node names the attribute goes on as the outline says. -/
theorem named_outlineOf {α : Type} {found later : Looking α} (hd : d.Legible) (hq : q.Within d.root)
    (hkey : q.node.kind.isWord = true ∨ q.node.kind = .string ∨
      (d.wording q.node).toList.head? = some '[') (hattr : Selector.Named attr) :
    (do
      let name ← match ← (d.handle q).literalValue? with
        | some value => pure value
        | none => pure (Text.ofString (← (d.handle q).text))
      if name == attr then found else later : Looking α) d =
    (do if (← (d.outlineOf q.node).name) == attr then found d else later d) := by
  cases hliteral : (d.outlineOf q.node).literal? with
  | error e =>
    rw [Form.name, hliteral]
    rw [← literalValue?_outlineOf hd hq] at hliteral
    exact look_bind_of_error hliteral
  | ok name =>
    rw [Form.name_of_literal? hliteral]
    refine look_bind_eq ((literalValue?_outlineOf hd hq).trans hliteral) ?_
    cases name with
    | some name =>
      change (if (name == attr) = true then found else later) d = if (name == attr) = true then _ else _
      split <;> rfl
    | none =>
      have hstring := Form.kind_of_literal?_none hliteral
      rw [kind_outlineOf] at hstring
      refine look_bind_eq (Handle.text_handle hd hq) ?_
      refine look_bind_eq (a := Text.ofString (d.wording q.node)) rfl ?_
      dsimp only
      rw [written_eq_name hkey hstring hattr, word_outlineOf]
      change _ = if (Text.ofString (d.spelling q.node) == attr) = true then found d else later d
      split <;> rfl

theorem valueOf?_outlineOf (hd : d.Legible) (hp : p.Within d.root) (hkind : p.node.kind ≠ .string)
    (role : Field) : ((do Handle.valueOf? (← (d.handle p).field? role)) : Looking _) d =
      Form.valueOf? ((d.outlineOf p.node).field? role) := by
  rw [field?_outlineOf hkind]
  refine look_bind_eq (Handle.field?_handle _) ?_
  cases hvalue : p.field? role with
  | none => rw [Option.map_eq_none_iff.mp hvalue]; rfl
  | some value =>
    obtain ⟨n, hn, rfl⟩ := Option.map_eq_some_iff.mp hvalue
    rw [hn]
    exact literalValue?_outlineOf hd (hp.field? hvalue)

/-- The value of the first pair under a key, as a look finds it. -/
theorem objectValue?_outlineOf (hd : d.Legible) (hkeyed : d.Keyed) (hattr : Selector.Named attr)
    {ps : List Place} (hps : ∀ p ∈ ps, p ∈ d.places) :
    Selector.objectValue? attr (ps.map d.handle) d =
      Form.objectValue attr (ps.map fun p => d.outlineOf p.node) := by
  induction ps with
  | nil => rfl
  | cons p ps ih =>
    obtain ⟨hp, hrest⟩ := List.forall_mem_cons.mp hps
    have hwithin := within_of_mem_places hp
    rw [List.map_cons, List.map_cons, Form.objectValue, kind_outlineOf, ← ih hrest]
    refine look_bind_eq Handle.kind_handle ?_
    split
    · rfl
    · rename_i hpair
      have hkind : p.node.kind = .pair := by simpa using hpair
      have hstring : p.node.kind ≠ .string := by rw [hkind]; decide
      rw [← valueOf?_outlineOf hd hwithin hstring, field?_outlineOf hstring]
      refine look_bind_eq (Handle.field?_handle _) ?_
      cases hkey : p.field? .key with
      | none => rw [Option.map_eq_none_iff.mp hkey]; rfl
      | some key =>
        obtain ⟨n, hn, rfl⟩ := Option.map_eq_some_iff.mp hkey
        rw [hn]
        exact named_outlineOf hd (hwithin.field? hkey) (hkeyed p hp hkind _ hkey) hattr

/-- What a call selects by is in its outline. -/
theorem classify_outlineOf (hd : d.Legible) (hkeyed : d.Keyed) (hattr : Selector.Named attr)
    (hp : p ∈ d.places) (hcall : p.node.kind = .callExpression) :
    Selector.classify attr (p.callArguments.head?.map d.handle) d =
      Form.selector attr (d.outlineOf p.node) := by
  unfold Form.selector
  rw [arguments_outlineOf (by rw [hcall]; decide), List.head?_map]
  cases hfirst : p.callArguments.head? with
  | none => rfl
  | some q =>
    have hq := argument_mem_places hp (List.mem_of_head? hfirst)
    rw [Option.map_some, Option.map_some, Form.selectorOf, kind_outlineOf]
    refine look_bind_eq Handle.kind_handle ?_
    split
    · rename_i hobject
      have hstring : q.node.kind ≠ .string := by
        rw [beq_iff_eq.mp hobject]
        decide
      have hvalue : ((do Selector.objectValue? attr (← (d.handle q).namedChildren)) : Looking _) d =
          Form.objectValue attr ((d.outlineOf q.node).parts.filter (·.kind.isNamed)) := by
        refine look_bind_eq Handle.namedChildren_handle ?_
        rw [objectValue?_outlineOf hd hkeyed hattr fun _ => namedChild_mem_places hq,
          namedParts_outlineOf hstring]
      rw [← bind_assoc, look_bind_apply, hvalue]
      congr 1
      funext value
      cases value with
      | none => rfl
      | some value => rfl
    · rw [look_bind_apply, literalValue?_outlineOf hd (within_of_mem_places hq)]
      congr 1
      funext selector
      cases selector with
      | none => rfl
      | some selector =>
        change _ = Except.ok (Selector.ofText attr selector)
        unfold Selector.ofText
        dsimp only
        cases Selector.testIdOf? attr selector with
        | some value => rfl
        | none => cases Selector.roleOf? selector <;> rfl

/-! ## Which calls there are -/

mutual

/-- The calls that a walk meets are in the outline, as long as none of them is in a string. -/
theorem mem_walk_outlineOf (d : Document) (above : List Node) : ∀ n : Node,
    (∀ p ∈ Place.walk above n, p.node.kind = .string → ∀ q ∈ p.descendants, q.node.kind ≠ .callExpression) →
      ∀ q ∈ Place.walk above n, q.node.kind = .callExpression →
        d.outlineOf q.node ∈ Form.walk (d.outlineOf n)
  | .mk role kind start stop children => by
    intro hstrings q hq hcall
    have hkind (hstring : (kind == Kind.string) = true) : False :=
      hstrings _ List.mem_cons_self (beq_iff_eq (a := kind) |>.mp hstring) q hq hcall
    rw [outlineOf, Form.walk]
    rcases List.mem_cons.mp hq with rfl | hbelow
    · exact List.mem_cons_self
    · rw [if_neg hkind]
      refine List.mem_cons_of_mem _ (mem_walkAll_outlinesOf d _ children ?_ q hbelow hcall)
      exact fun p hp => hstrings p (List.mem_cons_of_mem _ hp)

theorem mem_walkAll_outlinesOf (d : Document) (above : List Node) : ∀ ns : List Node,
    (∀ p ∈ Place.walkAll above ns,
        p.node.kind = .string → ∀ q ∈ p.descendants, q.node.kind ≠ .callExpression) →
      ∀ q ∈ Place.walkAll above ns, q.node.kind = .callExpression →
        d.outlineOf q.node ∈ Form.walkAll (d.outlinesOf ns)
  | [] => fun _ _ hq => nomatch hq
  | n :: rest => by
    intro hstrings q hq hcall
    rw [Place.walkAll] at hq hstrings
    rw [outlinesOf, Form.walkAll, kind_outlineOf]
    rcases List.mem_append.mp hq with hq | hq
    · split at hq
      · rename_i hnamed
        rw [if_pos hnamed] at hstrings ⊢
        exact List.mem_append_left _ (mem_walk_outlineOf d above n
          (fun p hp => hstrings p (List.mem_append_left _ hp)) q hq hcall)
      · cases hq
    · exact List.mem_append_right _ (mem_walkAll_outlinesOf d above rest
        (fun p hp => hstrings p (List.mem_append_right _ hp)) q hq hcall)

end

end Document

end TestMigration
