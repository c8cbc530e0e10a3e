import TestMigration.Proofs.Nesting
import TestMigration.Proofs.PageQueries

/-! `find` calls, exchanged for queries. The outermost calls for which there is a query give way to it,
and whatever was within them goes with them. The calls that are left are seen to select by the same as
before, as only calls below them have changed, so nothing is left to do for a second round. -/

namespace TestMigration

open Script (Node Kind Field Place Form)

namespace Document

variable {d d' : Document} {p q : Place} {attr : Text} {n : Node} {above : List Node}

/-! ## Trees of the grammar -/

/-- What the trees of the grammar have in common. Nodes begin and end between characters, children lie
within their nodes and one behind the other, the keys of pairs are names, literals or computed between
brackets, no two calls are of one range, and there are no calls in a string. -/
structure Grammatical (d : Document) : Prop where
  legible : d.Legible
  keyed : d.Keyed
  laid : d.root.laid = true
  inside : d.root.stop ≤ d.source.size
  distinct : ((d.places.filter (·.node.kind == .callExpression)).map (·.node.range)).Nodup
  plain : ∀ p ∈ d.places, p.node.kind = .string → ∀ q ∈ p.descendants, q.node.kind ≠ .callExpression

/-- All of this that can be seen in the tree. -/
def isRegular (d : Document) : Bool :=
  decide (∀ p ∈ d.places, p.node.kind = .pair → ∀ key ∈ p.field? .key, key.node.kind.isWord = true ∨
      key.node.kind = .string ∨ (d.wording key.node).toList.head? = some '[') &&
    (d.root.laid && (decide (d.root.stop ≤ d.source.size) &&
      (decide ((d.places.filter (·.node.kind == .callExpression)).map (·.node.range)).Nodup &&
        decide (∀ p ∈ d.places, p.node.kind = .string → ∀ q ∈ p.descendants, q.node.kind ≠ .callExpression))))

theorem grammatical_of_isRegular (hd : d.Legible) (h : d.isRegular = true) : d.Grammatical := by
  unfold isRegular at h
  simp only [Bool.and_eq_true, decide_eq_true_eq] at h
  obtain ⟨hkeyed, hlaid, hinside, hdistinct, hplain⟩ := h
  exact ⟨hd, hkeyed, hlaid, hinside, hdistinct, hplain⟩

/-- The `find` calls in the order of the text. -/
def finds (d : Document) : List Place := d.places.filter (d.callsMethod (.exactly "find"))

/-- How the query for a call is written. -/
def written? (d : Document) (attr : Text) (p : Place) : Option String := (d.query? attr p).map (·.written)

/-- The outermost calls for which there is a query, and the queries for them. -/
def exchanges (d : Document) (attr : Text) : List Replacement := Place.outermost (d.written? attr) [] d.root

/-- The text with the queries. -/
def exchanged (d : Document) (attr : Text) : ByteArray := d.replaced (d.written? attr)

mutual

/-- The tree with the queries, each in the place of an outermost call. -/
def grafted (d : Document) (attr : Text) (above : List Node) : Node → Form
  | n@(.mk role kind _ _ children) =>
    match d.query? attr ⟨n, above⟩ with
    | some query => query.form role
    | none => .mk role kind (d.spelling n)
        (if kind == .string then [] else graftedAll d attr (n :: above) children)

def graftedAll (d : Document) (attr : Text) (above : List Node) : List Node → List Form
  | [] => []
  | n :: rest =>
    (if n.kind.isNamed then grafted d attr above n else d.outlineOf n) :: graftedAll d attr above rest

end

/-- The text with the queries is read as the tree with the queries. -/
def Recomposes (d : Document) (attr : Text) : Prop :=
  ∃ root, d.read (d.exchanged attr) = .ok root ∧ (d.reread (d.exchanged attr) root).Grammatical ∧
    (d.reread (d.exchanged attr) root).outlineOf root = d.grafted attr [] d.root

def isRecomposed (d : Document) (attr : Text) : Bool :=
  match d.read (d.exchanged attr) with
  | .error _ => false
  | .ok root => (d.reread (d.exchanged attr) root).isRegular &&
      decide ((d.reread (d.exchanged attr) root).outlineOf root = d.grafted attr [] d.root)

/-- Where a script is read anew, the texts of the nodes are of no concern. -/
theorem recomposes_of_isRecomposed {file : Option String} {source text : String}
    (hd : Document.ofString file source = .ok d) (htext : d.exchanged attr = text.toUTF8)
    (h : d.isRecomposed attr = true) : d.Recomposes attr := by
  have hread : d.read = Script.parse (dialectFor file) := by
    unfold ofString ofBytes at hd
    split at hd
    · cases hd
    · cases hd
      rfl
  unfold isRecomposed at h
  split at h
  · cases h
  · rename_i root hroot
    obtain ⟨hregular, houtline⟩ := Bool.and_eq_true_iff.mp h
    refine ⟨root, hroot, grammatical_of_isRegular ?_ hregular, of_decide_eq_true houtline⟩
    rw [hread, htext] at hroot
    intro p hp
    exact textOf_of_onCuts htext (onCuts_of_within (Script.onCuts_parse hroot) hp)

/-! ## Calls -/

theorem kind_of_callsMethod {test : TextTest} (h : d.callsMethod test p = true) :
    p.node.kind = .callExpression := beq_iff_eq.mp (Bool.and_eq_true_iff.mp h).1

theorem query?_some {query : Selector.Query} (h : d.query? attr p = some query) :
    d.callsMethod (.exactly "find") p = true ∧ query.method ≠ "find" := by
  unfold query? at h
  split at h
  · rename_i hfind
    refine ⟨hfind, ?_⟩
    unfold Selector.query at h
    split at h
    · cases h
      dsimp only
      split <;> decide
    · cases h
      exact (by decide : "getByRole" ≠ "find")
    · cases h
  · cases h

/-- A `find` call without a query selects by nothing that there is a query for. -/
theorem selector_of_query?_none (hd : d.Grammatical) (hspelt : d.WellSpelt) (hattr : Selector.Named attr)
    (hp : p ∈ d.places) (hfind : d.callsMethod (.exactly "find") p = true) (hnone : d.query? attr p = none) :
    Form.selector attr (d.outlineOf p.node) = .ok .other := by
  have hcall := kind_of_callsMethod hfind
  have hclassify := classify_outlineOf hd.legible hd.keyed hattr hp hcall
  obtain ⟨selector, hselector, -⟩ := selector_wellSpelt attr hspelt hp hcall
  rw [hselector] at hclassify
  unfold query? selectorAt at hnone
  rw [if_pos hfind, hclassify] at hnone
  rw [hselector]
  cases selector with
  | testId value => cases hnone
  | role value => cases hnone
  | other => rfl

/-! ## The tree with the queries -/

mutual

/-- The tree with the queries differs from the one before below calls only. -/
theorem alike_grafted (d : Document) (attr : Text) (above : List Node) : ∀ n : Node,
    Form.Alike (d.grafted attr above n) (d.outlineOf n)
  | .mk role kind start stop children => by
    rw [grafted, outlineOf]
    split
    · rename_i query hquery
      have hcall := kind_of_callsMethod (query?_some hquery).1
      obtain rfl : kind = .callExpression := hcall
      exact .call
    · refine .node ?_
      split
      · exact .nil
      · exact alike_graftedAll d attr _ children

theorem alike_graftedAll (d : Document) (attr : Text) (above : List Node) : ∀ ns : List Node,
    List.Forall₂ Form.Alike (d.graftedAll attr above ns) (d.outlinesOf ns)
  | [] => .nil
  | n :: rest => by
    rw [graftedAll, outlinesOf]
    refine .cons ?_ (alike_graftedAll d attr above rest)
    split
    · exact alike_grafted d attr above n
    · exact Form.Alike.refl _

end

theorem kind_grafted : (d.grafted attr above n).kind = n.kind :=
  (alike_grafted d attr above n).kind.trans kind_outlineOf

/-- In a query nothing is found. -/
theorem walk_query {query : Selector.Query} (h : query.method ≠ "find") (role : Option Field) :
    ∀ f ∈ Form.walk (query.form role), f.callsMethod "find" = false := by
  have hothers : (Form.walkAll (query.form role).parts).all (·.kind != .callExpression) = true := rfl
  intro f hf
  rcases List.mem_cons.mp hf with rfl | hf
  · exact beq_eq_false_iff_ne.mpr h
  · have hkind := List.all_eq_true.mp hothers f hf
    unfold Form.callsMethod
    rw [beq_eq_false_iff_ne.mpr (bne_iff_ne.mp hkind)]
    rfl

/-- The call has a query, or it selects by nothing that there is a query for. -/
def Decided (d : Document) (attr : Text) (p : Place) : Prop :=
  d.callsMethod (.exactly "find") p = true → d.query? attr p = none →
    Form.selector attr (d.outlineOf p.node) = .ok .other

/-- A call without a query selects by the same when only calls below it have changed. -/
theorem selector_kept {f : Form} (hdecided : d.Decided attr p) (hnone : d.query? attr p = none)
    (hkind : f.kind = (d.outlineOf p.node).kind)
    (hparts : List.Forall₂ Form.Alike f.parts (d.outlineOf p.node).parts)
    (hfind : f.callsMethod "find" = true) : Form.selector attr f = .ok .other := by
  rw [Form.selector_alike hparts]
  refine hdecided ?_ hnone
  rw [← callsMethod_outlineOf, ← Form.callsMethod_alike hkind hparts]
  exact hfind

mutual

/-- The `find` calls in the tree with the queries select by nothing that there is a query for. -/
theorem walk_grafted (d : Document) (attr : Text) (above : List Node) : ∀ n : Node,
    (∀ p ∈ Place.walk above n, d.Decided attr p) → ∀ f ∈ Form.walk (d.grafted attr above n),
      f.callsMethod "find" = true → Form.selector attr f = .ok .other
  | .mk role kind start stop children => by
    intro hdecided f hf hfind
    rw [grafted] at hf
    cases hquery : d.query? attr ⟨.mk role kind start stop children, above⟩ with
    | some query =>
      rw [hquery] at hf
      rw [walk_query (query?_some hquery).2 role f hf] at hfind
      cases hfind
    | none =>
      rw [hquery] at hf
      dsimp only at hf
      rw [Form.walk] at hf
      rcases List.mem_cons.mp hf with rfl | hf
      · refine selector_kept (hdecided _ List.mem_cons_self) hquery rfl ?_ hfind
        change List.Forall₂ _ (if kind == .string then [] else _) (if kind == .string then [] else _)
        split
        · exact .nil
        · exact alike_graftedAll d attr _ children
      · split at hf
        · cases hf
        · have hbelow := fun p hp => hdecided p (List.mem_cons_of_mem _ hp)
          exact walkAll_graftedAll d attr _ children hbelow f hf hfind

theorem walkAll_graftedAll (d : Document) (attr : Text) (above : List Node) : ∀ ns : List Node,
    (∀ p ∈ Place.walkAll above ns, d.Decided attr p) → ∀ f ∈ Form.walkAll (d.graftedAll attr above ns),
      f.callsMethod "find" = true → Form.selector attr f = .ok .other
  | [] => fun _ _ hf => nomatch hf
  | n :: rest => by
    intro hdecided f hf hfind
    rw [Place.walkAll] at hdecided
    rw [graftedAll, Form.walkAll] at hf
    rcases List.mem_append.mp hf with hf | hf
    · cases hnamed : n.kind.isNamed with
      | true =>
        rw [hnamed, if_pos rfl] at hdecided
        rw [hnamed, if_pos rfl, kind_grafted, hnamed, if_pos rfl] at hf
        have hbelow := fun p hp => hdecided p (List.mem_append_left _ hp)
        exact walk_grafted d attr above n hbelow f hf hfind
      | false =>
        rw [hnamed, if_neg Bool.false_ne_true, kind_outlineOf, hnamed, if_neg Bool.false_ne_true] at hf
        cases hf
    · have hbehind := fun p hp => hdecided p (List.mem_append_right _ hp)
      exact walkAll_graftedAll d attr above rest hbehind f hf hfind

end

/-! ## What is found -/

/-- A node with a text is not empty. -/
theorem start_lt_stop_of_wording (h : d.wording n ≠ "") : n.start < n.stop := by
  by_contra hle
  have hempty : d.source.extract n.start n.stop = "".toUTF8 :=
    ByteArray.extract_eq_empty_iff.mpr (by omega)
  have htext : d.textOf n = .ok "" := Conversion.decode_ok.mpr hempty
  unfold wording at h
  rw [htext] at h
  exact h rfl

/-- A call is at least as wide as the name of the method that it calls. -/
theorem start_lt_stop_of_callsMethod {method : String} (hlaid : d.root.laid = true) (hp : p.Within d.root)
    (hmethod : method ≠ "") (h : d.callsMethod (.exactly method) p = true) : p.node.start < p.node.stop := by
  obtain ⟨-, hcallee⟩ := Bool.and_eq_true_iff.mp h
  obtain ⟨callee, hcallee, hmember⟩ := (Option.any_eq_true _ _).mp hcallee
  obtain ⟨property, hproperty, hname⟩ := (Option.any_eq_true _ _).mp (Bool.and_eq_true_iff.mp hmember).2
  have hword : d.wording property.node = method := beq_iff_eq.mp (Bool.and_eq_true_iff.mp hname).2
  obtain ⟨hlaid, hfirst, hlast⟩ := Place.laid_field? (Place.laid_of_within hlaid hp).1 hcallee
  obtain ⟨-, hstart, hstop⟩ := Place.laid_field? hlaid hproperty
  have hlt := start_lt_stop_of_wording (hword ▸ hmethod : d.wording property.node ≠ "")
  omega

theorem mem_finds : p ∈ d.finds ↔ p ∈ d.places ∧ d.callsMethod (.exactly "find") p = true := List.mem_filter

namespace Grammatical

theorem nodup_finds (hd : d.Grammatical) : (d.finds.map (·.node.range)).Nodup := by
  refine hd.distinct.sublist (List.Sublist.map _ ?_)
  refine List.monotone_filter_right _ fun p hfind => ?_
  exact beq_iff_eq.mpr (kind_of_callsMethod hfind)

theorem findAll_finds (hd : d.Grammatical) : findAll Selector.findCalls d = .ok (d.finds.map d.handle) := by
  have hholds : ∀ p ∈ d.places,
      Selector.findCalls.holdsOf (d.handle p) d = .ok (d.callsMethod (.exactly "find") p) := by
    intro p hp
    have hall : Pattern.leadingHold none (p.callArguments.map d.handle) d = .ok true := rfl
    refine (@holdsOf_methodCall _ _ _ hd.legible (within_of_mem_places hp) none none true hall).trans ?_
    rw [Pattern.countHolds, Bool.and_true, Bool.and_true]
  rw [findAll_eq hholds, found_eq_filter ((List.pairwise_map.mp hd.nodup_finds).imp .inl)]
  rfl

theorem separate_finds (hd : d.Grammatical) : d.Separate d.finds where
  distinct := hd.nodup_finds
  inside := by
    intro p hp
    obtain ⟨hlaid, -, hstop⟩ := Place.laid_of_within hd.laid (within_of_mem_places (mem_finds.mp hp).1)
    exact ⟨Node.start_le_stop_of_laid _ hlaid, hstop.trans hd.inside⟩

end Grammatical

theorem isSome_written? (h : (d.written? attr p).isSome = true) :
    d.callsMethod (.exactly "find") p = true := by
  unfold written? at h
  rw [Option.isSome_map] at h
  obtain ⟨query, hquery⟩ := Option.isSome_iff_exists.mp h
  exact (query?_some hquery).1

theorem wide_written? (attr : Text) (hd : d.Grammatical) : Place.Wide (d.written? attr) d.places := by
  intro p hp hsome
  exact start_lt_stop_of_callsMethod hd.laid (within_of_mem_places hp) (by decide) (isSome_written? hsome)

/-- Only `find` calls are replaced. -/
theorem replacements_finds : d.finds.filterMap (·.replacement? (d.written? attr)) =
    d.places.filterMap (·.replacement? (d.written? attr)) := by
  unfold finds
  rw [List.filterMap_filter]
  refine List.filterMap_congr fun p hp => ?_
  split
  · rfl
  · rename_i hfind
    unfold Place.replacement?
    cases hwritten : d.written? attr p with
    | none => rfl
    | some text => exact absurd (isSome_written? (by rw [hwritten]; rfl)) hfind

theorem nodup_replacements (hd : d.Grammatical) :
    ((d.places.filterMap (·.replacement? (d.written? attr))).map Prod.fst).Nodup := by
  rw [← replacements_finds]
  exact hd.nodup_finds.sublist (Place.sublist_replacements d.finds)

end Document

namespace Selector

open Document (Grammatical)

variable {d d' : Document} {p : Place} {attr : Text} {g : Place → Option String}

/-! ## One round -/

/-- One round of the pass. -/
def round (attr : Text) : Editing Unit := do
  let _ ← (← (MatchSet.ofTree findCalls : Looking _)).replaceWith (query? attr)

theorem made_round : Made (round attr) :=
  MatchSet.made_ofTree_bind quiet_findCalls fun set hs =>
    (set.made_replaceWith hs (plain_query? attr)).bind fun _ => made_pure _

theorem records_round (hd : d.Grammatical) (hbuild : Builds d (query? attr) g d.finds) :
    Records (round attr) d (.open' d.generation) ()
      (.holding d.generation (d.finds.filterMap (·.replacement? g))) := by
  obtain ⟨n, hrecords⟩ := records_replaceAll_holding quiet_findCalls (plain_query? attr) hd.findAll_finds
    hbuild hd.separate_finds
  exact hrecords.andThen (records_pure ())

/-- Nothing in the document selects by anything that there is a query for. -/
def Unqueried (attr : Text) (d : Document) : Prop :=
  ∀ p ∈ d.finds, classify attr (p.callArguments.head?.map d.handle) d = .ok .other

/-- A round in which there is no query for any call does nothing. -/
theorem batched_unqueried (closed : d.batch = none) (hd : d.Grammatical) (hunqueried : Unqueried attr d) :
    ∃ b, Document.batched (round attr) d = .ok ((), b) d ∧ b.applied = 0 ∧ b.deferred = [] := by
  have hbuild : Builds d (query? attr) (fun _ => none) d.finds := fun p hp =>
    look_bind_eq Handle.firstArgument?_handle (look_bind_eq (hunqueried p hp) rfl)
  have hrecords := records_round hd hbuild
  have hnone : d.finds.filterMap (·.replacement? fun _ => none) = [] :=
    List.filterMap_eq_nil_iff.mpr fun _ _ => rfl
  rw [hnone] at hrecords
  exact ⟨_, Document.batched_of_nothing made_round closed hrecords rfl, rfl, rfl⟩

/-! ## All rounds -/

theorem builds_written? (hd : d.Grammatical) (hspelt : d.WellSpelt) (hattr : Named attr) :
    Builds d (query? attr) (d.written? attr) d.finds := by
  intro p hp
  obtain ⟨hplace, hfind⟩ := Document.mem_finds.mp hp
  refine (Document.query?_handle hd.legible hd.keyed hspelt hattr hplace hfind).trans (congrArg Except.ok ?_)
  rw [Document.written?, Option.map_map, Function.comp_def]

theorem unqueried_of_outline (hd : d.Grammatical) (hattr : Named attr)
    (h : ∀ p ∈ d.finds, Form.selector attr (d.outlineOf p.node) = .ok .other) : Unqueried attr d := by
  intro p hp
  obtain ⟨hplace, hfind⟩ := Document.mem_finds.mp hp
  rw [Document.classify_outlineOf hd.legible hd.keyed hattr hplace (Document.kind_of_callsMethod hfind)]
  exact h p hp

theorem decided (hd : d.Grammatical) (hspelt : d.WellSpelt) (hattr : Named attr) :
    ∀ p ∈ d.places, d.Decided attr p :=
  fun _ hp hfind hnone => Document.selector_of_query?_none hd hspelt hattr hp hfind hnone

/-- Where no call has a query, there is none to be had. -/
theorem unqueried_of_nothing (hd : d.Grammatical) (hspelt : d.WellSpelt) (hattr : Named attr)
    (hnothing : d.finds.filterMap (·.replacement? (d.written? attr)) = []) : Unqueried attr d := by
  refine unqueried_of_outline hd hattr fun p hp => ?_
  obtain ⟨hplace, hfind⟩ := Document.mem_finds.mp hp
  refine decided hd hspelt hattr p hplace hfind ?_
  have hnone := List.filterMap_eq_nil_iff.mp hnothing p hp
  exact Option.map_eq_none_iff.mp (Option.map_eq_none_iff.mp hnone)

/-- The tree with the queries has no call for which there is one. -/
theorem unqueried_of_grafted (hd : d.Grammatical) (hspelt : d.WellSpelt) (hattr : Named attr)
    (hd' : d'.Grammatical) (houtline : d'.outlineOf d'.root = d.grafted attr [] d.root) :
    Unqueried attr d' := by
  refine unqueried_of_outline hd' hattr fun p hp => ?_
  obtain ⟨hplace, hfind⟩ := Document.mem_finds.mp hp
  have hcall := Document.kind_of_callsMethod hfind
  have hmem := Document.mem_walk_outlineOf d' [] d'.root hd'.plain p hplace hcall
  rw [houtline] at hmem
  refine Document.walk_grafted d attr [] d.root (decided hd hspelt hattr) _ hmem ?_
  rw [Document.callsMethod_outlineOf]
  exact hfind

/-- Two rounds are enough: the first makes the exchange, and the second finds nothing to do. -/
theorem roundsFrom_exchange (closed : d.batch = none) (hd : d.Grammatical) (hspelt : d.WellSpelt)
    (hattr : Named attr) (hrecomposes : d.Recomposes attr) : ∃ d' : Document, d'.source = d.exchanged attr ∧
      d'.Grammatical ∧ Unqueried attr d' ∧ ∀ (limit : Int) (rounds : Nat),
        Document.roundsFrom (round attr) limit (rounds + 2) 0 d = .ok (d.exchanges attr).length d' := by
  have hrecords := records_round hd (builds_written? hd hspelt hattr)
  obtain ⟨houtcome, happlied⟩ := Document.outcome_holding d.generation hd.laid
    (Document.wide_written? attr hd) (Document.nodup_replacements hd)
  rw [← Document.replacements_finds] at houtcome happlied
  by_cases hnothing : d.finds.filterMap (·.replacement? (d.written? attr)) = []
  · have hunqueried := unqueried_of_nothing hd hspelt hattr hnothing
    obtain ⟨b, hrun, hnone, hlast⟩ := batched_unqueried closed hd hunqueried
    rw [hnothing] at houtcome happlied
    refine ⟨d, ?_, hd, hunqueried, fun limit rounds => ?_⟩
    · refine Eq.trans ?_ houtcome
      exact (ByteArray.extract_zero_size).symm
    · rw [Document.roundsFrom_last hrun hlast, hnone]
      exact congrArg (EStateM.Result.ok · d) happlied
  · obtain ⟨root, hread, hd', houtline⟩ := hrecomposes
    have hunqueried := unqueried_of_grafted hd hspelt hattr hd' houtline
    have hsome : Edit.numbered 0 (d.finds.filterMap (·.replacement? (d.written? attr))) ≠ [] := by
      rw [← List.length_pos_iff_ne_nil, Edit.length_numbered]
      exact List.length_pos_iff_ne_nil.mpr hnothing
    have hrun := Document.batched_of_something made_round closed hrecords hsome
      (by rw [houtcome]; exact hread)
    rw [houtcome] at hrun
    refine ⟨_, rfl, hd', hunqueried, fun limit rounds => ?_⟩
    by_cases hlast : (Batch.holding d.generation
        (d.finds.filterMap (·.replacement? (d.written? attr)))).spent.deferred = []
    · rw [Document.roundsFrom_last hrun hlast, happlied, Nat.zero_add]
      rfl
    · have hclosed : (d.reread (d.exchanged attr) root).batch = none := closed
      obtain ⟨b, hagain, hnone, hdone⟩ := batched_unqueried hclosed hd' hunqueried
      rw [Document.roundsFrom_more hrun hlast]
      refine (Document.roundsFrom_last hagain hdone).trans ?_
      rw [happlied, hnone, Nat.zero_add]
      rfl

end Selector

/-! ## Reports -/

theorem Pass.look_eq {α : Type} {l : Looking α} {s : Session} {a : α} (h : l s.document = .ok a) :
    (liftM l : Pass α) s = .ok a s := by
  change Pass.lift (Document.looking l) s = _
  exact Pass.lift_of_ok (by rw [Document.looking_apply, h])

namespace Selector

variable {d : Document} {p : Place} {attr : Text} {file : Option String} {findings : List Diagnostic}

/-- What is reported of a call that is left. -/
def unconverted (d : Document) (file : Option String) (p : Place) : Diagnostic :=
  let shown : String := (p.callArguments.head?.map fun q => d.wording q.node).getD "<none>"
  ⟨.unconvertedSelector, s!"Selector {shown} has no direct screen query", .info, file,
    some (d.lineOf p.node.start)⟩

theorem reportUnconverted_handle (hd : d.Legible) (hp : p.Within d.root) :
    reportUnconverted (d.handle p) ⟨d, file, findings⟩ =
      .ok () ⟨d, file, findings ++ [unconverted d file p]⟩ := by
  have hshown : (d.handle p).shownArgument "<none>" d =
      .ok ((p.callArguments.head?.map fun q => d.wording q.node).getD "<none>") := by
    refine look_bind_eq Handle.firstArgument?_handle ?_
    cases hfirst : p.callArguments.head? with
    | none => rfl
    | some q =>
      rw [Option.map_some, Option.map_some, Option.getD_some]
      exact Handle.text_handle hd (hp.argument (List.mem_of_head? hfirst))
  have hline : (d.handle p).line d = .ok (d.lineOf p.node.start) := Handle.line_handle
  exact (Leaves.of_bind_ok (Pass.look_eq hshown)).trans (Leaves.of_bind_ok (Pass.look_eq hline))

/-- Of the calls each is reported, in their order. -/
theorem report_each (hd : d.Legible) {ps : List Place} (hps : ∀ p ∈ ps, p.Within d.root) :
    (forIn (ps.map d.handle) PUnit.unit fun call _ => do
      reportUnconverted call
      return ForInStep.yield PUnit.unit : Pass PUnit) ⟨d, file, findings⟩ =
        .ok PUnit.unit ⟨d, file, findings ++ ps.map (unconverted d file)⟩ := by
  induction ps generalizing findings with
  | nil =>
    rw [List.map_nil, List.map_nil, List.forIn_nil, List.append_nil]
    rfl
  | cons p ps ih =>
    obtain ⟨hp, hrest⟩ := List.forall_mem_cons.mp hps
    rw [List.map_cons, List.forIn_cons, bind_assoc]
    refine (Leaves.of_bind_ok (reportUnconverted_handle hd hp)).trans ?_
    rw [pure_bind]
    refine (ih hrest).trans ?_
    rw [List.map_cons, List.append_assoc]
    rfl

/-- The pass exchanges the outermost `find` calls for which there is a query, in two rounds at most, and
yields how many these are. The calls that are left select by nothing that there is a query for, and each
of them is reported once, in their order. -/
theorem convert_exchanges {name : String} (hname : Setting.isAttributeName name = true)
    (closed : d.batch = none) (hd : d.Grammatical) (hspelt : d.WellSpelt) (hrecomposes : d.Recomposes name) :
    (d.exchanges name).Sublist (d.finds.filterMap (·.replacement? (d.written? name))) ∧ ∃ d' : Document,
      convert name ⟨d, file, findings⟩ = .ok (d.exchanges name).length
          ⟨d', file, findings ++ d'.finds.map (unconverted d' file)⟩ ∧
        (∀ limit : Int, 2 ≤ limit →
          Document.untilStable (round name) limit d = .ok (d.exchanges name).length d') ∧
        d'.source = d.exchanged name ∧ findAll findCalls d' = .ok (d'.finds.map d'.handle) ∧
        (d'.finds.map (·.node.range)).Nodup ∧
        ∀ p ∈ d'.finds, classify name (p.callArguments.head?.map d'.handle) d' = .ok .other := by
  obtain ⟨d', hsource, hd', hunqueried, hrounds⟩ :=
    roundsFrom_exchange closed hd hspelt (named_of_isAttributeName hname) hrecomposes
  have hsettles : ∀ limit : Int, 2 ≤ limit →
      Document.untilStable (round name) limit d = .ok (d.exchanges name).length d' := by
    intro limit hlimit
    obtain ⟨rounds, hrounds'⟩ : ∃ rounds, limit.toNat = rounds + 2 := ⟨limit.toNat - 2, by omega⟩
    unfold Document.untilStable
    rw [hrounds']
    exact hrounds limit rounds
  refine ⟨?_, d', ?_, hsettles, hsource, hd'.findAll_finds, hd'.nodup_finds, hunqueried⟩
  · rw [Document.replacements_finds]
    exact Place.outermost_sublist [] d.root
  have hlift := Pass.lift_of_ok (s := ⟨d, file, findings⟩) (hsettles Document.roundLimit (by decide))
  refine (Leaves.of_bind_ok hlift).trans ((Leaves.of_bind_ok (Pass.look_eq hd'.findAll_finds)).trans ?_)
  refine (Leaves.of_bind_ok (report_each hd'.legible fun p hp => ?_)).trans rfl
  exact Document.within_of_mem_places (Document.mem_finds.mp hp).1

/-- Of two calls in a third the outer one is exchanged, and the third is left. -/
def nestedFinds : String := "v.find(w.find('[data-testid=\"a\"]').find('[role=\"b\"]'))"

theorem convert_exchanges_nested : ∃ d d' : Document,
    Document.ofString none nestedFinds = .ok d ∧
      Setting.isAttributeName "data-testid" = true ∧ d.batch = none ∧ d.Grammatical ∧ d.WellSpelt ∧
      d.Recomposes ("data-testid" : String) ∧
      convert ("data-testid" : String) ⟨d, none, []⟩ =
        .ok 1 ⟨d', none, d'.finds.map (unconverted d' none)⟩ ∧
      d'.source = "v.find(screen.getByRole(\"b\"))".toUTF8 ∧
      findAll findCalls d' = .ok (d'.finds.map d'.handle) ∧
      ∀ p ∈ d'.finds,
        classify ("data-testid" : String) (p.callArguments.head?.map d'.handle) d' = .ok .other := by
  have hchecks : (Document.ofString none nestedFinds).toOption.map (fun d =>
      (d.isRegular, d.isWellSpelt, d.isRecomposed ("data-testid" : String),
        (d.exchanges ("data-testid" : String)).length,
        spelledBy ["v.find(screen.getByRole(\"b\"))"] (d.exchanged ("data-testid" : String)))) =
      some (true, true, true, 1, true) := by
    decide +kernel
  obtain ⟨d, hd, hchecks⟩ := exists_of_toOption_map hchecks
  simp only [Prod.mk.injEq] at hchecks
  obtain ⟨hregular, hspelt, hrecomposed, hcount, hspelled⟩ := hchecks
  have htext := eq_of_spelledBy hspelled
  have hgrammatical := Document.grammatical_of_isRegular (Document.legible_ofString hd) hregular
  have hrecomposes := Document.recomposes_of_isRecomposed hd htext hrecomposed
  have hwellSpelt := Document.wellSpelt_of_isWellSpelt hspelt
  have hclosed := (Document.sound_of_ofBytes hd).2
  obtain ⟨-, d', hconvert, -, hsource, hfound, -, hunqueried⟩ := convert_exchanges
    (by decide) hclosed hgrammatical hwellSpelt hrecomposes
  rw [hcount] at hconvert
  exact ⟨d, d', hd, by decide, hclosed, hgrammatical, hwellSpelt, hrecomposes, hconvert,
    hsource.trans htext, hfound, hunqueried⟩

end Selector

end TestMigration
