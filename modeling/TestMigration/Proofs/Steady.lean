import TestMigration.Proofs.Scans

/-! Readers that keep to cuts. From a cursor on cuts such a reader moves to one, and so are all offsets
of what it yields. A reader that is put together from parts keeps to cuts because its parts do, so the
claim is a class and each way to put readers together an instance of it: for a rule of the grammar it is
enough to unfold the rule. -/

namespace TestMigration.Script

/-! ## Values on cuts -/

/-- Values with offsets into a script, and what it is for all of these to be cuts. -/
class Offsets (α : Type) where
  onCuts : String → α → Prop

/-- Nodes that are kept for later begin and end at cuts, as the last token does. -/
structure Cursor.OnCuts (source : String) (c : Cursor) : Prop where
  pos : Cut source c.pos
  last : Cut source c.last
  comments : ∀ n ∈ c.comments, n.OnCuts source

theorem Cursor.OnCuts.reach {source : String} {c : Cursor} (hc : c.OnCuts source) (reach : Nat) :
    Cursor.OnCuts source { c with reach } := ⟨hc.pos, hc.last, hc.comments⟩

section

variable {α β : Type} [Offsets α] [Offsets β]

instance : Offsets Nat := ⟨Cut⟩

instance : Offsets Node := ⟨Node.OnCuts⟩

instance : Offsets Cursor := ⟨Cursor.OnCuts⟩

/-- Every input is that of the script. -/
instance : Offsets Input := ⟨fun source i => i.bytes = source.toUTF8⟩

instance : Offsets (List α) := ⟨fun source as => ∀ a ∈ as, Offsets.onCuts source a⟩

instance : Offsets (Option α) := ⟨fun source a => ∀ b ∈ a, Offsets.onCuts source b⟩

instance : Offsets (α × β) :=
  ⟨fun source p => Offsets.onCuts source p.1 ∧ Offsets.onCuts source p.2⟩

instance : Offsets Unit := ⟨fun _ _ => True⟩

instance : Offsets Bool := ⟨fun _ _ => True⟩

instance : Offsets String := ⟨fun _ _ => True⟩

instance : Offsets Kind := ⟨fun _ _ => True⟩

instance : Offsets Dialect := ⟨fun _ _ => True⟩

end

/-- All offsets of the value are cuts. -/
class OnCuts (source : String) {α : Type} [Offsets α] (a : α) : Prop where
  onCuts : Offsets.onCuts source a

/-- A value on cuts. What a reader goes on with is bound as one of these, so that the fact is there
wherever the value is. -/
structure Aligned (source : String) (α : Type) [Offsets α] where
  value : α
  onCuts : Offsets.onCuts source value

/-- From cuts the reader moves to cuts, and it yields a value on cuts. -/
class Steady (source : String) {α : Type} [Offsets α] (r : Reader α) : Prop where
  moves : ∀ {i : Input} {c c' : Cursor} {a : α}, i.bytes = source.toUTF8 → c.OnCuts source →
    r i c = .ok a c' → Offsets.onCuts source a ∧ c'.OnCuts source

section Values

variable {source : String} {α β : Type} [Offsets α] [Offsets β]

instance (a : Aligned source α) : OnCuts source a.value := ⟨a.onCuts⟩

instance (u : Unit) : OnCuts source u := ⟨trivial⟩

instance (b : Bool) : OnCuts source b := ⟨trivial⟩

instance (kind : Kind) : OnCuts source kind := ⟨trivial⟩

instance (text : String) : OnCuts source text := ⟨trivial⟩

instance : OnCuts source ([] : List α) := ⟨by intro a ha; cases ha⟩

instance {a : α} {as : List α} [ha : OnCuts source a] [has : OnCuts source as] :
    OnCuts source (a :: as) :=
  ⟨List.forall_mem_cons.mpr ⟨ha.onCuts, has.onCuts⟩⟩

instance {as bs : List α} [has : OnCuts source as] [hbs : OnCuts source bs] :
    OnCuts source (as ++ bs) :=
  ⟨List.forall_mem_append.mpr ⟨has.onCuts, hbs.onCuts⟩⟩

instance {as : List (List α)} [has : OnCuts source as] : OnCuts source as.flatten where
  onCuts := by
    intro a ha
    obtain ⟨as', has', ha⟩ := List.mem_flatten.mp ha
    exact has.onCuts as' has' a ha

instance : OnCuts source (none : Option α) := ⟨by intro a ha; cases ha⟩

instance (text : Option String) : OnCuts source text := ⟨fun _ _ => trivial⟩

instance {p : Prop} [Decidable p] {a b : α} [ha : OnCuts source a] [hb : OnCuts source b] :
    OnCuts source (if p then a else b) := by
  split
  · exact ha
  · exact hb

instance {a : α} [ha : OnCuts source a] : OnCuts source (some a) where
  onCuts := by
    intro b hb
    cases hb
    exact ha.onCuts

instance {a : α} {b : β} [ha : OnCuts source a] [hb : OnCuts source b] : OnCuts source (a, b) :=
  ⟨ha.onCuts, hb.onCuts⟩

instance {p : α × β} [hp : OnCuts source p] : OnCuts source p.1 := ⟨hp.onCuts.1⟩

instance {p : α × β} [hp : OnCuts source p] : OnCuts source p.2 := ⟨hp.onCuts.2⟩

instance {ps : List (α × β)} [hps : OnCuts source ps] : OnCuts source (ps.map (·.1)) where
  onCuts := by
    intro a ha
    obtain ⟨p, hp, rfl⟩ := List.mem_map.mp ha
    exact (hps.onCuts p hp).1

instance {role : Option Field} {kind : Kind} {start stop : Nat} {children : List Node}
    [hstart : OnCuts source start] [hstop : OnCuts source stop]
    [hchildren : OnCuts source children] : OnCuts source (Node.mk role kind start stop children) :=
  ⟨.mk hstart.onCuts hstop.onCuts hchildren.onCuts⟩

instance {n : Node} [hn : OnCuts source n] {role : Field} : OnCuts source (n.withRole role) where
  onCuts := by
    obtain ⟨hstart, hstop, hchildren⟩ := hn.onCuts
    exact .mk hstart hstop hchildren

instance {n : Node} [hn : OnCuts source n] : OnCuts source n.start where
  onCuts := by
    obtain ⟨hstart, hstop, hchildren⟩ := hn.onCuts
    exact hstart

instance {c : Cursor} [hc : OnCuts source c] : OnCuts source c.last := ⟨hc.onCuts.last⟩

end Values

/-! ## Readers -/

namespace Reader

section Combinators

variable {source : String} {α β : Type} [Offsets α] [Offsets β] {r s : Reader α}

instance steady_pure {a : α} [ha : OnCuts source a] : Steady source (pure a : Reader α) where
  moves _ hc h := by
    cases h
    exact ⟨ha.onCuts, hc⟩

instance steady_bind {f : α → Reader β} [hr : Steady source r]
    [hf : ∀ a : Aligned source α, Steady source (f a.value)] : Steady source (r >>= f) where
  moves {i c c' b} hi hc h := by
    change Reader.bind r f i c = _ at h
    unfold Reader.bind at h
    split at h
    · rename_i a c₁ hfirst
      obtain ⟨ha, hc₁⟩ := hr.moves hi hc hfirst
      exact (hf ⟨a, ha⟩).moves hi hc₁ h
    · cases h

theorem Steady.bind {f : α → Reader β} (hr : Steady source r)
    (hf : ∀ a : Aligned source α, Steady source (f a.value)) : Steady source (r >>= f) := steady_bind

instance steady_map {f : α → β} [Steady source r]
    [hf : ∀ a : Aligned source α, OnCuts source (f a.value)] : Steady source (f <$> r) :=
  steady_bind (f := fun a => pure (f a))

instance steady_fail : Steady source (fail : Reader α) where
  moves _ _ h := by cases h

instance steady_orElse [hr : Steady source r] [hs : Steady source s] : Steady source (r <|> s) where
  moves {i c c' a} hi hc h := by
    change Reader.orElse r (fun _ => s) i c = _ at h
    unfold Reader.orElse at h
    split at h
    · rename_i hfirst
      cases h
      exact hr.moves hi hc hfirst
    · exact hs.moves hi (hc.reach _) h

instance steady_ite {p : Prop} [Decidable p] [hr : Steady source r] [hs : Steady source s] :
    Steady source (if p then r else s) := by
  split
  · exact hr
  · exact hs

instance steady_optional [Steady source r] : Steady source (Reader.optional r) := by
  unfold Reader.optional
  infer_instance

instance steady_ahead {γ : Type} {r : Reader γ} : Steady source (ahead r) where
  moves {i c c' a} hi hc h := by
    unfold ahead at h
    split at h
    · cases h
      exact ⟨trivial, hc.reach _⟩
    · cases h

instance steady_notAhead {γ : Type} {r : Reader γ} : Steady source (notAhead r) where
  moves {i c c' a} hi hc h := by
    unfold notAhead at h
    split at h
    · cases h
    · cases h
      exact ⟨trivial, hc⟩

instance steady_guard {b : Bool} : Steady source (Reader.guard b) := by
  unfold Reader.guard
  infer_instance

/-- What follows a guard need only keep to cuts where the guard lets it. -/
theorem steady_guarded {b : Bool} {next : Unit → Reader α}
    (h : b = true → Steady source (next ())) :
    Steady source (Reader.guard b >>= next) := by
  cases b with
  | true => exact h rfl
  | false =>
    refine ⟨fun _ _ hrun => ?_⟩
    cases hrun

instance steady_firstOf_nil : Steady source (firstOf ([] : List (Reader α))) := by
  unfold firstOf
  infer_instance

instance steady_firstOf_cons {rest : List (Reader α)} [Steady source r]
    [hrest : Steady source (firstOf rest)] : Steady source (firstOf (r :: rest)) := by
  cases rest with
  | nil =>
    unfold firstOf
    infer_instance
  | cons s rest =>
    unfold firstOf
    infer_instance

theorem steady_repeatAtMost [hr : Steady source r] (n : Nat) : Steady source (repeatAtMost r n) := by
  induction n with
  | zero =>
    unfold repeatAtMost
    infer_instance
  | succ n ih =>
    refine ⟨fun {i c c' as} hi hc h => ?_⟩
    unfold repeatAtMost at h
    split at h
    · cases h
      exact ⟨List.forall_mem_nil _, hc.reach _⟩
    · rename_i a after hfirst
      obtain ⟨ha, hafter⟩ := hr.moves hi hc hfirst
      split at h
      · split at h
        · rename_i rest done hrest
          cases h
          obtain ⟨hall, hdone⟩ := ih.moves hi hafter hrest
          exact ⟨List.forall_mem_cons.mpr ⟨ha, hall⟩, hdone⟩
        · cases h
      · cases h
        exact ⟨List.forall_mem_singleton.mpr ha, hafter⟩

instance steady_many [Steady source r] : Steady source (many r) where
  moves hi hc h := (steady_repeatAtMost _).moves hi hc h

instance steady_sepBy1 {separator : Reader Unit} [Steady source r] [Steady source separator] :
    Steady source (sepBy1 r separator) := by
  unfold sepBy1
  infer_instance

instance steady_input : Steady source input where
  moves hi hc h := by
    cases h
    exact ⟨hi, hc⟩

instance steady_dialect : Steady source dialect where
  moves _ hc h := by
    cases h
    exact ⟨trivial, hc⟩

instance steady_cursor : Steady source cursor where
  moves _ hc h := by
    cases h
    exact ⟨hc, hc⟩

end Combinators

/-! ## Tokens -/

section Tokens

variable {source : String} {r : Reader Node}

instance steady_rewind : Steady source rewind where
  moves _ hc h := by
    cases h
    exact ⟨trivial, hc.last, hc.last, fun n hn => hc.comments n (List.dropWhile_subset _ hn)⟩

instance steady_skipTrivia : Steady source skipTrivia where
  moves hi hc h := by
    cases h
    obtain ⟨hp, hcomments⟩ := Input.onCuts_passTrivia hi hc.pos hc.comments
    exact ⟨hp, hp, hc.last, hcomments⟩

instance steady_take {stop : Nat} [hstop : OnCuts source stop] : Steady source (take stop) where
  moves _ hc h := by
    cases h
    exact ⟨trivial, hstop.onCuts, hstop.onCuts, hc.comments⟩

/-- From a cut the scan comes to a cut. -/
class Scans (source : String) (scan : Input → Nat → Option Nat) : Prop where
  scans : ∀ {i : Input} {p q : Nat}, i.bytes = source.toUTF8 → Cut source p →
    scan i p = some q → Cut source q

instance steady_token {scan : Input → Nat → Option Nat} [hscan : Scans source scan] :
    Steady source (token scan) := by
  unfold token
  refine Steady.bind inferInstance fun start => Steady.bind inferInstance fun i => ?_
  split
  · rename_i stop hstop
    have : OnCuts source stop := ⟨hscan.scans i.onCuts start.onCuts hstop⟩
    infer_instance
  · infer_instance

instance steady_leaf {kind : Kind} {scan : Input → Nat → Option Nat} [Scans source scan] :
    Steady source (leaf kind scan) := by
  unfold leaf
  infer_instance

instance steady_node {kind : Kind} {r : Reader (List Node)} [Steady source r] :
    Steady source (node kind r) := by
  unfold node
  infer_instance

instance steady_nodeFrom {first : Node} {kind : Kind} {children : List Node} [OnCuts source first]
    [OnCuts source children] : Steady source (nodeFrom first kind children) := by
  unfold nodeFrom
  infer_instance

instance steady_under {field : Field} [Steady source r] : Steady source (under field r) := by
  unfold under
  infer_instance

instance steady_one [Steady source r] : Steady source (one r) := by
  unfold one
  infer_instance

instance steady_maybe [Steady source r] : Steady source (maybe r) := by
  unfold maybe
  infer_instance

instance steady_punct {text : String} : Steady source (punct text) := by
  have : Scans source fun i p => if i.holdsAt p text then some (p + text.utf8ByteSize) else none := by
    refine ⟨fun hi hp h => ?_⟩
    obtain ⟨hholds, h⟩ := Option.ite_none_right_eq_some.mp h
    cases h
    exact Input.cut_holdsAt hi hp hholds
  unfold punct
  infer_instance

instance scans_operator {text : String} : Scans source fun i p =>
    if i.operator? p == some text then some (p + text.utf8ByteSize) else none where
  scans hi hp h := by
    obtain ⟨hmark, h⟩ := Option.ite_none_right_eq_some.mp h
    cases h
    exact Input.cut_holdsAt hi hp (Input.holdsAt_of_operator? (eq_of_beq hmark))

instance steady_operator {text : String} : Steady source (operator text) := by
  unfold operator
  infer_instance

instance steady_peekOperator : Steady source peekOperator := by
  unfold peekOperator
  infer_instance

instance steady_opens {text : String} : Steady source (opens text) := by
  unfold opens
  infer_instance

instance steady_peekWord : Steady source peekWord := by
  unfold peekWord
  infer_instance

instance scans_wordStop? : Scans source Input.wordStop? := ⟨Input.cut_wordStop?⟩

/-- A scan that only takes words. -/
theorem scans_words {scan : Input → Nat → Option Nat}
    (h : ∀ {i p q}, scan i p = some q → i.wordStop? p = some q) : Scans source scan :=
  ⟨fun hi hp hq => Input.cut_wordStop? hi hp (h hq)⟩

instance steady_keywordToken {text : String} : Steady source (keywordToken text) := by
  unfold keywordToken
  refine @steady_leaf _ _ _ (scans_words fun {i p q} h => ?_)
  split at h
  · rename_i stop hstop
    obtain ⟨-, h⟩ := Option.ite_none_right_eq_some.mp h
    rw [hstop, h]
  · cases h

instance steady_keyword {text : String} : Steady source (keyword text) := by
  unfold keyword
  refine Steady.bind (@steady_token _ _ (scans_words fun {i p q} h => ?_)) inferInstance
  split at h
  · rename_i stop hstop
    obtain ⟨-, h⟩ := Option.ite_none_right_eq_some.mp h
    rw [hstop, h]
  · cases h

instance steady_word {kind : Kind} : Steady source (word kind) := by
  unfold word
  infer_instance

instance steady_wordExcept {reserved : List String} {kind : Kind} :
    Steady source (wordExcept reserved kind) := by
  unfold wordExcept
  refine @steady_leaf _ _ _ (scans_words fun {i p q} h => ?_)
  split at h
  · rename_i stop hstop
    obtain ⟨-, h⟩ := Option.ite_none_left_eq_some.mp h
    rw [hstop, h]
  · cases h

instance steady_sameLine : Steady source sameLine := by
  unfold sameLine
  infer_instance

instance steady_atEnd : Steady source atEnd := by
  unfold atEnd
  infer_instance

instance steady_automaticSemicolon {afterExpression : Bool} :
    Steady source (automaticSemicolon afterExpression) := by
  unfold automaticSemicolon
  refine Steady.bind inferInstance fun _ => Steady.bind inferInstance fun i =>
    Steady.bind inferInstance fun c => ?_
  split
  · rename_i stop comments hend
    obtain ⟨hstop, hcomments⟩ := Input.onCuts_automaticEnd? i.onCuts c.onCuts.last c.onCuts.last
      c.onCuts.comments hend
    refine ⟨fun hi hc h => ?_⟩
    cases h
    exact ⟨trivial, hstop, hstop, hcomments⟩
  · infer_instance

instance steady_semicolon {afterExpression : Bool} : Steady source (semicolon afterExpression) := by
  unfold semicolon
  infer_instance

instance steady_blockEnd {afterExpression : Bool} : Steady source (blockEnd afterExpression) := by
  unfold blockEnd
  infer_instance

instance steady_number : Steady source number := by
  have : Scans source Input.numberStop? := ⟨Input.cut_numberStop?⟩
  unfold number
  infer_instance

instance steady_privateName : Steady source privateName := by
  have : Scans source fun i p => if i.is p '#' then i.wordStop? (p + 1) else none := by
    refine ⟨fun hi hp h => ?_⟩
    obtain ⟨hmark, h⟩ := Option.ite_none_right_eq_some.mp h
    exact Input.cut_wordStop? hi (Input.cut_is hi hp hmark (by decide)) h
  unfold privateName
  infer_instance

theorem narrow_quote {b : Bool} : Narrow (if b then '\'' else '"') := by
  cases b
  · decide
  · decide

instance steady_stringLiteral : Steady source stringLiteral := by
  unfold stringLiteral
  refine Steady.bind inferInstance fun start => Steady.bind inferInstance fun i =>
    steady_guarded fun hquote => ?_
  have hbody := Input.cut_is i.onCuts start.onCuts hquote narrow_quote
  split
  · rename_i parts stop hparts
    obtain ⟨hstop, hparts⟩ := Input.onCuts_quotedParts? i.onCuts narrow_quote hbody hbody
      (List.forall_mem_nil _) hparts
    have : OnCuts source stop := ⟨hstop⟩
    have : OnCuts source parts := ⟨hparts⟩
    infer_instance
  · infer_instance

instance steady_regexLiteral : Steady source regexLiteral := by
  unfold regexLiteral
  refine Steady.bind inferInstance fun start => Steady.bind inferInstance fun i =>
    steady_guarded fun hslash => ?_
  have hbody : Cut source (start.value + 1) :=
    Input.cut_is i.onCuts start.onCuts hslash (by decide)
  split
  · infer_instance
  · rename_i slash hstop
    obtain ⟨hslash, hflags⟩ := Input.cut_regexBodyStop? i.onCuts hbody hstop
    have : OnCuts source (start.value + 1) := ⟨hbody⟩
    have : OnCuts source slash := ⟨hslash⟩
    have : OnCuts source (slash + 1) := ⟨hflags⟩
    have : OnCuts source (i.value.skip (fun c => 'a' ≤ c && c ≤ 'z') (slash + 1)) :=
      ⟨Input.cut_skip i.onCuts _ hflags⟩
    dsimp only
    infer_instance

end Tokens

end Reader

end TestMigration.Script
