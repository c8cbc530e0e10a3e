import TestMigration.Proofs.Intact

/-! What looks see of a document that holds a text. A handle that is held is either refused or stands in
the tree, so the bytes that are decoded for it are those of a node, and what is found from it is held as
well. The lemmas follow the looks, one for each, and rest on a rule for steps and rules for lists. -/

namespace TestMigration

open Script (Node Kind Field Place)

/-- The handle was taken from the document, now or at an earlier generation. -/
def Handle.Held (d : Document) (h : Handle) : Prop := h.Kept d h.generation

theorem Handle.Current.held {d : Document} {h : Handle} (hh : h.Current d) : h.Held d := by
  unfold Handle.Held
  rw [hh.stamp]
  exact hh.kept

/-- Where the document holds a text, the answer is as told, and a failure is not over bytes that are no
text. -/
def Finds {α : Type} (d : Document) (l : Looking α) (Q : α → Prop) : Prop :=
  d.Intact → (∀ a, l d = .ok a → Q a) ∧ ∀ e, l d = .error e → e.kind ≠ .undecodable

/-- Where the document holds a text, the look does not fail over bytes that are none. -/
def Safe {α : Type} (d : Document) (l : Looking α) : Prop := Finds d l fun _ => True

section Steps

variable {α β : Type} {d : Document} {Q : α → Prop} {R : β → Prop} {l : Looking α} {a : α}

theorem finds_pure (ha : Q a) : Finds d (pure a) Q := by
  refine fun _ => ⟨fun b hb => ?_, nofun⟩
  cases hb
  exact ha

theorem safe_pure (a : α) : Safe d (pure a) := finds_pure trivial

theorem finds_none : Finds d (pure none) fun found => ∀ a ∈ found, Q a :=
  finds_pure fun a ha => absurd ha (Option.not_mem_none a)

theorem Finds.bind {f : α → Looking β} (hl : Finds d l Q) (hf : ∀ a, Q a → Finds d (f a) R) :
    Finds d (l >>= f) R := by
  intro hd
  obtain ⟨hanswer, hfails⟩ := hl hd
  change (∀ b, (l d).bind (fun a => f a d) = .ok b → R b) ∧
    ∀ e, (l d).bind (fun a => f a d) = .error e → e.kind ≠ .undecodable
  cases hla : l d with
  | ok a => exact hf a (hanswer a hla) hd
  | error e =>
    refine ⟨nofun, fun e' he' => ?_⟩
    cases he'
    exact hfails e hla

theorem Finds.imp {P : α → Prop} (hl : Finds d l Q) (h : ∀ a, Q a → P a) : Finds d l P :=
  fun hd => ((hl hd).imp_left) fun hanswer a ha => h a (hanswer a ha)

theorem Finds.safe (hl : Finds d l Q) : Safe d l := hl.imp fun _ _ => trivial

theorem Safe.bind {f : α → Looking β} (hl : Safe d l) (hf : ∀ a, Finds d (f a) R) :
    Finds d (l >>= f) R := Finds.bind hl fun a _ => hf a

theorem finds_throw {e : Failure} (he : e.kind ≠ .undecodable) : Finds d (throw e : Looking α) Q := by
  refine fun _ => ⟨nofun, fun e' he' => ?_⟩
  cases he'
  exact he

theorem finds_except {x : Except Failure α} (hx : ∀ a, x = .ok a → Q a)
    (hfails : ∀ e, x = .error e → e.kind ≠ .undecodable) : Finds d (liftM x : Looking α) Q :=
  fun _ => ⟨hx, hfails⟩

theorem finds_except_bind {x : Except Failure α} {f : α → Except Failure β}
    (hx : Finds d (liftM x : Looking α) Q) (hf : ∀ a, Q a → Finds d (liftM (f a) : Looking β) R) :
    Finds d (liftM (x >>= f) : Looking β) R := hx.bind hf

/-- A text can be decoded. -/
theorem safe_decode {bytes : ByteArray} (h : bytes.IsValidUTF8) :
    Safe d (liftM (Document.decode bytes) : Looking String) := by
  obtain ⟨text, htext, -⟩ := Document.decode_of_isText h
  refine finds_except (fun _ _ => trivial) fun e he => ?_
  cases htext.symm.trans he

theorem finds_of_intact (h : d.Intact → Finds d l Q) : Finds d l Q := fun hd => h hd hd

theorem finds_read_bind {f : Document → Looking α} (hf : Finds d (f d) Q) : Finds d (read >>= f) Q := hf

end Steps

section Lists

variable {α β : Type} {d : Document} {Q : β → Prop} {as : List α}

theorem finds_mapM {f : α → Looking β} (hf : ∀ a ∈ as, Finds d (f a) Q) :
    Finds d (as.mapM f) fun bs => ∀ b ∈ bs, Q b := by
  induction as with
  | nil => exact finds_pure (List.forall_mem_nil Q)
  | cons a as ih =>
    obtain ⟨ha, has⟩ := List.forall_mem_cons.mp hf
    rw [List.mapM_cons]
    exact ha.bind fun b hb => (ih has).bind fun bs hbs => finds_pure (List.forall_mem_cons.mpr ⟨hb, hbs⟩)

theorem finds_findM? {f : α → Looking Bool} (hf : ∀ a ∈ as, Safe d (f a)) :
    Finds d (as.findM? f) fun found => ∀ a ∈ found, a ∈ as := by
  induction as with
  | nil => exact finds_none
  | cons a as ih =>
    obtain ⟨ha, has⟩ := List.forall_mem_cons.mp hf
    refine ha.bind fun holds => ?_
    cases holds with
    | true => exact finds_pure fun a' ha' => Option.mem_some.mp ha' ▸ List.mem_cons_self
    | false =>
      exact (ih has).imp fun found hfound a' ha' => List.mem_cons_of_mem _ (hfound a' ha')

theorem finds_filterM {f : α → Looking Bool} (hf : ∀ a ∈ as, Safe d (f a)) :
    Finds d (as.filterM f) fun kept => ∀ a ∈ kept, a ∈ as := by
  have hloop : ∀ (as kept : List α), (∀ a ∈ as, Safe d (f a)) → Safe d (List.filterAuxM f as kept) := by
    intro as
    induction as with
    | nil => exact fun kept _ => safe_pure kept
    | cons a as ih =>
      intro kept hf
      obtain ⟨ha, has⟩ := List.forall_mem_cons.mp hf
      exact ha.bind fun holds => ih _ has
  have hsafe : Safe d (as.filterM f) := (hloop as [] hf).bind fun kept => safe_pure _
  exact fun hd => ⟨fun kept hkept => mem_of_filterM_ok hkept, (hsafe hd).2⟩

theorem finds_filterMapM {f : α → Looking (Option β)}
    (hf : ∀ a ∈ as, Finds d (f a) fun found => ∀ b ∈ found, Q b) :
    Finds d (as.filterMapM f) fun bs => ∀ b ∈ bs, Q b := by
  have hloop : ∀ (as : List α) (kept : List β),
      (∀ a ∈ as, Finds d (f a) fun found => ∀ b ∈ found, Q b) → (∀ b ∈ kept, Q b) →
        Finds d (List.filterMapM.loop f as kept) fun bs => ∀ b ∈ bs, Q b := by
    intro as
    induction as with
    | nil => exact fun kept _ hkept => finds_pure fun b hb => hkept b (List.mem_reverse.mp hb)
    | cons a as ih =>
      intro kept hf hkept
      obtain ⟨ha, has⟩ := List.forall_mem_cons.mp hf
      refine ha.bind fun found hfound => ?_
      cases found with
      | none => exact ih kept has hkept
      | some b => exact ih _ has (List.forall_mem_cons.mpr ⟨hfound b rfl, hkept⟩)
  exact hloop as [] hf (List.forall_mem_nil Q)

theorem safe_optionMapM {f : α → Looking β} {o : Option α} (hf : ∀ a ∈ o, Safe d (f a)) :
    Safe d (o.mapM f) := by
  cases o with
  | none => exact safe_pure _
  | some a =>
    rw [Option.mapM_some, map_eq_pure_bind]
    exact (hf a rfl).bind fun b => safe_pure _

end Lists

/-! ## Handles -/

namespace Handle

variable {d : Document} {h : Handle}

theorem finds_node (h : Handle) (d : Document) :
    Finds d h.node fun n => n = h.place.node ∧ h.generation = d.generation := by
  intro _
  refine ⟨fun n hn => ⟨node_ok hn, generation_of_node hn⟩, fun e he => ?_⟩
  rcases h.node_or_outdated d with hn | ⟨e', he', hkind⟩
  · rw [hn] at he
    cases he
  · rw [he'] at he
    cases he
    rw [hkind]
    decide

theorem safe_node (h : Handle) : Safe d h.node := (h.finds_node d).safe

theorem safe_kind (h : Handle) : Safe d h.kind := h.safe_node.bind fun _ => safe_pure _

theorem safe_start (h : Handle) : Safe d h.start := h.safe_node.bind fun _ => safe_pure _

theorem safe_line (h : Handle) : Safe d h.line :=
  finds_read_bind (h.safe_node.bind fun _ => safe_pure _)

/-- The bytes of a node are a text. -/
theorem safe_text (hh : h.Held d) : Safe d h.text := by
  refine finds_read_bind ((h.finds_node d).bind fun n hn => ?_)
  obtain ⟨rfl, hsame⟩ := hn
  have hwithin := hh.standing hsame
  exact finds_of_intact fun hd => safe_decode (hd.piece (hd.cuts_start hwithin) (hd.cuts_stop hwithin))

theorem finds_on {p : Place} (hp : p.Within d.root) : Finds d (on p) (·.Held d) := by
  refine fun _ => ⟨fun h hon => ?_, nofun⟩
  rw [on_ok hon]
  exact Current.held ⟨rfl, hp⟩

theorem finds_onAll {ps : List Place} (hps : ∀ p ∈ ps, p.Within d.root) :
    Finds d (onAll ps) fun hs => ∀ h ∈ hs, h.Held d := finds_mapM fun p hp => finds_on (hps p hp)

theorem finds_fresh (hh : h.Held d) : Finds d h.fresh (·.Within d.root) :=
  (h.finds_node d).bind fun _ hn => finds_pure (hh.standing hn.2)

theorem finds_on_some {p : Place} (hp : p.Within d.root) :
    Finds d (do return some (← on p)) fun found => ∀ h ∈ found, h.Held d :=
  (finds_on hp).bind fun _ hh => finds_pure fun _ hmem => Option.mem_some.mp hmem ▸ hh

theorem finds_parent? (hh : h.Held d) : Finds d h.parent? fun found => ∀ h' ∈ found, h'.Held d := by
  refine (finds_fresh hh).bind fun place hplace => ?_
  cases hq : place.parent? with
  | none => exact finds_none
  | some q => exact finds_on_some (hplace.parent? hq)

theorem finds_field? (hh : h.Held d) (f : Field) :
    Finds d (h.field? f) fun found => ∀ h' ∈ found, h'.Held d := by
  refine (finds_fresh hh).bind fun place hplace => ?_
  cases hq : place.field? f with
  | none => exact finds_none
  | some q => exact finds_on_some (hplace.field? hq)

theorem finds_awaited? (hh : h.Held d) : Finds d h.awaited? fun found => ∀ h' ∈ found, h'.Held d := by
  refine (finds_fresh hh).bind fun place hplace => ?_
  cases hq : awaitedIn place.above place.node with
  | none => exact finds_none
  | some q => exact finds_on_some (Place.Within.awaitedIn place.node place.above hplace q hq)

theorem finds_namedChildren (hh : h.Held d) : Finds d h.namedChildren fun hs => ∀ h' ∈ hs, h'.Held d :=
  (finds_fresh hh).bind fun _ hplace => finds_onAll fun _ hq => hplace.namedChildren hq

theorem finds_ancestors (hh : h.Held d) : Finds d h.ancestors fun hs => ∀ h' ∈ hs, h'.Held d :=
  (finds_fresh hh).bind fun _ hplace => finds_onAll fun _ hq => hplace.ancestors hq

theorem finds_descendants (hh : h.Held d) : Finds d h.descendants fun hs => ∀ h' ∈ hs, h'.Held d :=
  (finds_fresh hh).bind fun _ hplace => finds_onAll fun _ hq => hplace.descendants hq

theorem safe_isStatement (hh : h.Held d) : Safe d h.isStatement :=
  (finds_fresh hh).safe.bind fun _ => safe_pure _

/-- What stands between replacements is cut off where nodes begin and end. -/
theorem finds_substituted {outer : Node} {cursor : Nat} {replacements : List (Node × String)}
    (houter : d.Cuts outer.stop) (hcursor : d.Cuts cursor)
    (hinner : ∀ r ∈ replacements, d.Cuts r.1.start ∧ d.Cuts r.1.stop) :
    Finds d (liftM (substituted d outer cursor replacements)) (·.IsValidUTF8) := by
  induction replacements generalizing cursor with
  | nil => exact finds_of_intact fun hd => finds_pure (hd.piece hcursor houter)
  | cons r rest ih =>
    obtain ⟨⟨hstart, hstop⟩, hrest⟩ := List.forall_mem_cons.mp hinner
    unfold substituted
    split
    · refine finds_of_intact fun hd => finds_except_bind (ih hstop hrest) fun tail htail => finds_pure ?_
      exact ((hd.piece hcursor hstart).append r.2.isValidUTF8).append htail
    · exact finds_throw (by simp [Failure.transformation])

theorem safe_textWith (hh : h.Held d) {replacements : List (Handle × String)}
    (hr : ∀ r ∈ replacements, r.1.Held d) : Safe d (h.textWith replacements) := by
  refine finds_of_intact fun hd => (h.finds_node d).bind fun outer houter => ?_
  have hinner : ∀ r ∈ replacements, Finds d (do return (← r.1.node, r.2)) fun r' =>
      d.Cuts r'.1.start ∧ d.Cuts r'.1.stop := by
    refine fun r hmem => (r.1.finds_node d).bind fun n hn => finds_pure ?_
    obtain ⟨rfl, hsame⟩ := hn
    have hwithin := (hr r hmem).standing hsame
    exact ⟨hd.cuts_start hwithin, hd.cuts_stop hwithin⟩
  refine (finds_mapM hinner).bind fun inner hcuts => finds_read_bind ?_
  obtain ⟨rfl, hsame⟩ := houter
  have hwithin := hh.standing hsame
  exact (finds_substituted (hd.cuts_stop hwithin) (hd.cuts_start hwithin) fun r hmem =>
    hcuts r (List.mem_mergeSort.mp hmem)).bind fun bytes => safe_decode

end Handle

/-! ## Patterns and sets of nodes -/

section Patterns

variable {d : Document} {h : Handle}

theorem finds_callArguments (hh : h.Held d) :
    Finds d (callArguments h) fun hs => ∀ h' ∈ hs, h'.Held d := by
  refine (Handle.finds_field? hh _).bind fun list hlist => ?_
  split
  · exact finds_pure (List.forall_mem_nil _)
  · refine (Handle.safe_kind _).bind fun kind => ?_
    split
    · exact finds_pure (List.forall_mem_nil _)
    · exact (Handle.finds_namedChildren (hlist _ rfl)).bind fun children hchildren =>
        finds_pure fun h' hmem => hchildren h' (List.mem_of_mem_filter hmem)

namespace Pattern

/-- Whatever the handle that the pattern is put to, its question does not fail over a text. -/
def Discerns (d : Document) (p : Pattern) : Prop := ∀ h : Handle, h.Held d → Safe d (p.holdsOf h)

variable {kinds : Option (List Kind)} {text : Option TextTest} {fields : List (Field × Pattern)}
  {leading : Option (List Pattern)} {count : Option Int} {also : Option (Handle → Looking Bool)}
  {name : TextTest} {p : Pattern}

theorem safe_kindHolds (kinds : Option (List Kind)) (h : Handle) : Safe d (kindHolds kinds h) := by
  cases kinds with
  | none => exact safe_pure _
  | some kinds => exact h.safe_kind.bind fun _ => safe_pure _

theorem safe_textHolds (hh : h.Held d) (text : Option TextTest) : Safe d (textHolds text h) := by
  cases text with
  | none => exact safe_pure _
  | some test => exact (Handle.safe_text hh).bind fun _ => safe_pure _

theorem safe_fieldsHold (hh : h.Held d) (hf : ∀ f ∈ fields, f.2.Discerns d) :
    Safe d (fieldsHold fields h) := by
  induction fields with
  | nil => exact safe_pure _
  | cons f rest ih =>
    obtain ⟨hfirst, hrest⟩ := List.forall_mem_cons.mp hf
    unfold fieldsHold
    refine (Handle.finds_field? hh _).bind fun child hchild => ?_
    split
    · exact safe_pure _
    · refine (hfirst _ (hchild _ rfl)).bind fun holds => ?_
      split
      · exact ih hrest
      · exact safe_pure _

theorem safe_argumentsHold {patterns : List Pattern} (hp : ∀ p ∈ patterns, p.Discerns d)
    {hs : List Handle} (hh : ∀ h ∈ hs, h.Held d) : Safe d (argumentsHold patterns hs) := by
  induction patterns generalizing hs with
  | nil => exact safe_pure _
  | cons p rest ih =>
    obtain ⟨hfirst, hrest⟩ := List.forall_mem_cons.mp hp
    cases hs with
    | nil => exact safe_pure _
    | cons h hs =>
      obtain ⟨hh, hhs⟩ := List.forall_mem_cons.mp hh
      refine (hfirst h hh).bind fun holds => ?_
      split
      · exact ih hrest hhs
      · exact safe_pure _

/-- A pattern asks for no more than its parts do. -/
theorem discerns_mk (hf : ∀ f ∈ fields, f.2.Discerns d)
    (hl : ∀ patterns ∈ leading, ∀ p ∈ patterns, p.Discerns d)
    (ha : ∀ test ∈ also, ∀ h : Handle, h.Held d → Safe d (test h)) :
    (mk kinds text fields leading count also).Discerns d := by
  intro h hh
  have halso : Safe d (alsoHolds also h) := by
    cases also with
    | none => exact safe_pure _
    | some test => exact ha test rfl h hh
  unfold holdsOf
  refine (safe_kindHolds kinds h).bind fun holds => ?_
  split
  · exact safe_pure _
  refine (safe_textHolds hh text).bind fun holds => ?_
  split
  · exact safe_pure _
  refine (safe_fieldsHold hh hf).bind fun holds => ?_
  split
  · exact safe_pure _
  split
  · refine (finds_callArguments hh).bind fun arguments harguments => ?_
    split
    · exact safe_pure _
    have hleading : Safe d (leadingHold leading arguments) := by
      cases leading with
      | none => exact safe_pure _
      | some patterns => exact safe_argumentsHold (hl patterns rfl) harguments
    refine hleading.bind fun holds => ?_
    split
    · exact safe_pure _
    · exact halso
  · exact halso

/-- A pattern of kinds and texts alone. -/
theorem discerns_plain : (mk kinds text [] none count none).Discerns d :=
  discerns_mk (List.forall_mem_nil _) nofun nofun

theorem discerns_identifier (name : Option TextTest) : (identifier name).Discerns d := discerns_plain

/-- Calls of a plain name, with as many arguments as may be. -/
theorem discerns_callTo (name : TextTest) (count : Option Int) :
    ((callTo name).withArguments none count none).Discerns d :=
  discerns_mk (List.forall_mem_singleton.mpr (discerns_identifier _)) nofun nofun

theorem discerns_methodCall {receiver : Option Pattern} (hr : ∀ r ∈ receiver, r.Discerns d)
    (hl : ∀ patterns ∈ leading, ∀ p ∈ patterns, p.Discerns d) (count : Option Int) :
    ((methodCall name receiver).withArguments leading count none).Discerns d := by
  cases receiver with
  | none =>
    refine discerns_mk (List.forall_mem_singleton.mpr ?_) hl nofun
    exact discerns_mk (List.forall_mem_singleton.mpr discerns_plain) nofun nofun
  | some r =>
    refine discerns_mk (List.forall_mem_singleton.mpr ?_) hl nofun
    exact discerns_mk (List.forall_mem_cons.mpr ⟨discerns_plain, List.forall_mem_singleton.mpr (hr r rfl)⟩)
      nofun nofun

/-- Calls of a method, whatever they are called on. -/
theorem discerns_methodOf (name : TextTest) (count : Option Int) :
    ((methodCall name).withArguments none count none).Discerns d :=
  discerns_methodCall (by simp) (by simp) count

end Pattern

open Pattern (Discerns)

variable {p : Pattern}

theorem finds_closest? (hh : h.Held d) (hp : p.Discerns d) :
    Finds d (h.closest? p) fun found => ∀ h' ∈ found, h'.Held d :=
  (Handle.finds_ancestors hh).bind fun _ habove =>
    (finds_findM? fun a ha => hp a (habove a ha)).imp fun _ hfound h' hmem => habove h' (hfound h' hmem)

theorem finds_candidates {roots : List Handle} (hroots : ∀ r ∈ roots, r.Held d) :
    Finds d (roots.mapM (·.descendants)) fun candidates => ∀ h ∈ candidates.flatten, h.Held d := by
  refine (finds_mapM fun r hr => Handle.finds_descendants (hroots r hr)).imp fun candidates hcandidates h hmem => ?_
  obtain ⟨found, hfound, hmem⟩ := List.mem_flatten.mp hmem
  exact hcandidates found hfound h hmem

theorem finds_members {roots : List Handle} (hroots : ∀ r ∈ roots, r.Held d) (hp : p.Discerns d) :
    Finds d (MatchSet.within roots p).members fun hs => ∀ h ∈ hs, h.Held d :=
  (finds_candidates hroots).bind fun _ hheld =>
    (finds_filterM fun h hmem => hp h (hheld h hmem)).bind fun _ hkept =>
      finds_pure fun h hmem => hheld h (hkept h (mem_of_mem_distinct hmem))

/-- Where a search of the whole tree begins. -/
theorem finds_ofTree (p : Pattern) : Finds d (MatchSet.ofTree p) fun set =>
    ∃ roots, (∀ r ∈ roots, r.Held d) ∧ set = .within roots p := by
  refine fun _ => ⟨fun set hset => ⟨[⟨d.generation, .root d.root⟩], ?_, (Except.ok.inj hset).symm⟩, nofun⟩
  exact List.forall_mem_singleton.mpr (Handle.Current.held ⟨rfl, .root⟩)

theorem finds_findAll (hp : p.Discerns d) : Finds d (findAll p) fun hs => ∀ h ∈ hs, h.Held d := by
  refine (finds_ofTree p).bind fun set hset => ?_
  obtain ⟨roots, hroots, rfl⟩ := hset
  exact finds_members hroots hp

theorem safe_first? {roots : List Handle} (hroots : ∀ r ∈ roots, r.Held d) (hp : p.Discerns d) :
    Safe d (MatchSet.within roots p).first? :=
  (finds_candidates hroots).bind fun _ hheld => (finds_findM? fun h hmem => hp h (hheld h hmem)).safe

end Patterns

/-! ## Calls and literals -/

namespace Handle

variable {d : Document} {call h : Handle}

theorem finds_firstArgument? (hc : call.Held d) :
    Finds d call.firstArgument? fun found => ∀ h ∈ found, h.Held d :=
  (finds_callArguments hc).bind fun _ harguments => finds_pure fun h hmem =>
    harguments h (List.mem_of_mem_head? hmem)

theorem safe_shownArgument (hc : call.Held d) (absent : String) :
    Safe d (call.shownArgument absent) := by
  refine (finds_firstArgument? hc).bind fun argument hargument => ?_
  split
  · exact safe_text (hargument _ rfl)
  · exact safe_pure _

theorem safe_argumentText (hc : call.Held d) : Safe d call.argumentText := by
  refine (finds_field? hc _).bind fun list hlist => ?_
  split
  · exact safe_pure _
  · exact (safe_text (hlist _ rfl)).bind fun _ => safe_pure _

theorem finds_calledMember? (hc : call.Held d) :
    Finds d call.calledMember? fun found => ∀ h ∈ found, h.Held d := by
  refine (finds_field? hc _).bind fun callee hcallee => ?_
  split
  · exact finds_none
  · refine (safe_kind _).bind fun kind => ?_
    split
    · exact finds_pure hcallee
    · exact finds_none

theorem finds_receiver? (hc : call.Held d) :
    Finds d call.receiver? fun found => ∀ h ∈ found, h.Held d := by
  refine (finds_calledMember? hc).bind fun callee hcallee => ?_
  split
  · exact finds_none
  · exact finds_field? (hcallee _ rfl) _

theorem safe_methodName? (hc : call.Held d) : Safe d call.methodName? := by
  refine (finds_calledMember? hc).bind fun callee hcallee => ?_
  split
  · exact safe_pure _
  · refine (finds_field? (hcallee _ rfl) _).bind fun property hproperty => ?_
    split
    · exact safe_pure _
    · exact (safe_text (hproperty _ rfl)).bind fun _ => safe_pure _

theorem finds_moduleLiteral? (hh : h.Held d) :
    Finds d h.moduleLiteral? fun found => ∀ h' ∈ found, h'.Held d := by
  refine (finds_field? hh _).bind fun literal hliteral => ?_
  split
  · exact finds_pure hliteral
  · refine h.safe_kind.bind fun kind => ?_
    split
    · exact finds_none
    · refine (finds_namedChildren hh).bind fun children hchildren => ?_
      exact (finds_findM? fun child _ => child.safe_kind.bind fun _ => safe_pure _).imp
        fun _ hfound h' hmem => hchildren h' (hfound h' hmem)

theorem safe_literalValue? (hh : h.Held d) : Safe d h.literalValue? := by
  refine h.safe_kind.bind fun kind => ?_
  split
  · exact safe_pure _
  · refine (safe_text hh).bind fun text => ?_
    split
    · exact safe_pure _
    · exact finds_throw (by simp [Failure.of])

theorem safe_valueOf? {o : Option Handle} (ho : ∀ h ∈ o, h.Held d) : Safe d (valueOf? o) := by
  cases o with
  | none => exact safe_pure _
  | some h => exact safe_literalValue? (ho h rfl)

end Handle

end TestMigration
