import TestMigration.Proofs.Heading
import TestMigration.Proofs.Quoting

/-! A batch at an offset that none of its edits spans. The text that it makes is in three parts: what the edits in
front of the offset make of the text up to it, the texts that go ahead of everything there, the latest first, and
what the other edits make of the rest. Each part is what a batch of only these requests would make. -/

namespace TestMigration

namespace Edit

/-- The text from an offset on with the edits made that are not deferred. -/
def madeFrom (source : ByteArray) (first : Nat) (es : List Edit) : ByteArray :=
  splice source first (settle first (sorted es)).1

variable {source : ByteArray} {cursor offset : Nat} {e a b : Edit} {es fs xs ys : List Edit}

/-! ## The order of a batch -/

/-- Edits of different turns have one order. -/
theorem turn_eq_of_before (hab : before a b = true) (hba : before b a = true) : a.turn = b.turn := by
  unfold before at hab hba
  have hrank : a.rank = b.rank := by grind
  unfold rank at hrank
  split at hrank <;> split at hrank <;> omega

theorem sorted_eq_of_perm (hperm : ys.Perm es) (hturns : (es.map turn).Nodup)
    (horder : ys.Pairwise fun a b => before a b = true) : sorted es = ys := by
  refine List.Perm.eq_of_pairwise ?_ (sorted_pairwise es) horder ((sorted_perm es).trans hperm.symm)
  intro a b ha hb hab hba
  exact List.inj_on_of_nodup_map hturns ((sorted_perm es).subset ha) (hperm.subset hb) (turn_eq_of_before hab hba)

theorem before_of_start_lt (h : a.start < b.start) : before a b = true := by
  unfold before
  rw [if_pos (bne_iff_ne.mpr h.ne)]
  exact decide_eq_true h

/-- The edit puts its text ahead of everything at the offset. -/
def tops (offset : Nat) (e : Edit) : Bool := e.start == offset && (e.stop == offset && e.ahead)

theorem tops_iff : e.tops offset = true ↔ e.start = offset ∧ e.stop = offset ∧ e.ahead = true := by
  unfold tops
  simp only [Bool.and_eq_true, beq_iff_eq]

/-- At its offset it comes before all others. -/
theorem before_of_tops (ha : a.tops offset = true) (hb : offset ≤ b.start) (hnot : b.tops offset = false) :
    before a b = true := by
  obtain ⟨hstart, hstop, hahead⟩ := tops_iff.mp ha
  unfold tops at hnot
  unfold before isInsertion rank
  grind

/-- Of two of them the later one comes first. -/
theorem before_of_turn_lt (ha : a.tops offset = true) (hb : b.tops offset = true) (hlt : b.turn < a.turn) :
    before a b = true := by
  obtain ⟨hstart, hstop, hahead⟩ := tops_iff.mp ha
  obtain ⟨hstart', hstop', hahead'⟩ := tops_iff.mp hb
  unfold before isInsertion rank
  grind

/-- The edits that begin in front of an offset. -/
def infront (offset : Nat) (es : List Edit) : List Edit := es.filter fun e => e.start < offset

/-- The edits that put their texts ahead of everything at the offset. -/
def stack (offset : Nat) (es : List Edit) : List Edit := es.filter fun e => e.tops offset

/-- The other edits from the offset on. -/
def behind (offset : Nat) (es : List Edit) : List Edit :=
  es.filter fun e => offset ≤ e.start && !e.tops offset

theorem mem_infront (h : e ∈ infront offset es) : e ∈ es ∧ e.start < offset :=
  ⟨List.mem_of_mem_filter h, of_decide_eq_true (List.mem_filter.mp h).2⟩

theorem tops_of_mem_stack (h : e ∈ (stack offset es).reverse) : e.tops offset = true :=
  (List.mem_filter.mp (List.mem_reverse.mp h)).2

theorem mem_behind (h : e ∈ behind offset es) : offset ≤ e.start ∧ e.tops offset = false := by
  simpa using (List.mem_filter.mp h).2

theorem perm_parts (offset : Nat) (es : List Edit) :
    (infront offset es ++ (stack offset es ++ behind offset es)).Perm es := by
  have hstack : stack offset es = (es.filter fun e => !decide (e.start < offset)).filter (tops offset) := by
    rw [List.filter_filter]
    refine List.filter_congr fun e _ => ?_
    cases htops : e.tops offset with
    | false => rfl
    | true => rw [decide_eq_false (by rw [(tops_iff.mp htops).1]; exact Nat.lt_irrefl _), Bool.not_false, Bool.and_true]
  have hbehind : behind offset es =
      (es.filter fun e => !decide (e.start < offset)).filter fun e => !e.tops offset := by
    rw [List.filter_filter]
    refine List.filter_congr fun e _ => ?_
    rw [Bool.and_comm, ← decide_not]
    exact congrArg (_ && ·) (decide_eq_decide.mpr Nat.not_lt.symm)
  have hrest : (stack offset es ++ behind offset es).Perm (es.filter fun e => !decide (e.start < offset)) := by
    rw [hstack, hbehind]
    exact List.filter_append_perm _ _
  exact (hrest.append_left _).trans (List.filter_append_perm _ _)

/-- In order the edits in front of an offset come first, then those that put texts ahead of everything there, the
latest first, and then the others. -/
theorem sorted_parts (offset : Nat) (hturns : es.Pairwise fun a b => a.turn < b.turn) : sorted es =
    sorted (infront offset es) ++ ((stack offset es).reverse ++ sorted (behind offset es)) := by
  refine sorted_eq_of_perm ?_ (List.pairwise_map.mpr (hturns.imp Nat.ne_of_lt)) ?_
  · exact ((sorted_perm _).append ((List.reverse_perm _).append (sorted_perm _))).trans (perm_parts offset es)
  refine List.pairwise_append.mpr ⟨sorted_pairwise _, List.pairwise_append.mpr ⟨?_, sorted_pairwise _, ?_⟩, ?_⟩
  · refine List.pairwise_reverse.mpr ((hturns.sublist List.filter_sublist).imp_of_mem fun {a b} ha hb hab => ?_)
    exact before_of_turn_lt (List.mem_filter.mp hb).2 (List.mem_filter.mp ha).2 hab
  · intro a ha b hb
    obtain ⟨hstart, hnot⟩ := mem_behind ((sorted_perm _).subset hb)
    exact before_of_tops (tops_of_mem_stack ha) hstart hnot
  · intro a ha b hb
    refine before_of_start_lt ((mem_infront ((sorted_perm _).subset ha)).2.trans_le ?_)
    rcases List.mem_append.mp hb with hb | hb
    · exact (tops_iff.mp (tops_of_mem_stack hb)).1.ge
    · exact (mem_behind ((sorted_perm _).subset hb)).1

/-! ## The text in parts -/

/-- Where reading goes on after the edits. -/
def reached (cursor : Nat) (es : List Edit) : Nat := (settle cursor es).1.foldl (fun _ e => e.stop) cursor

theorem settle_append (cursor : Nat) (xs ys : List Edit) : (settle cursor (xs ++ ys)).1 =
    (settle cursor xs).1 ++ (settle (reached cursor xs) ys).1 := by
  unfold reached
  induction xs generalizing cursor with
  | nil => rfl
  | cons e xs ih =>
    rw [List.cons_append, settle, settle]
    split
    · exact ih cursor
    · exact congrArg (e :: ·) (ih e.stop)

theorem reached_le (hcursor : cursor ≤ offset) (hes : ∀ e ∈ es, e.stop ≤ offset) :
    reached cursor es ≤ offset := by
  have hfold : ∀ (es : List Edit) (cursor : Nat), cursor ≤ offset → (∀ e ∈ es, e.stop ≤ offset) →
      es.foldl (fun _ e => e.stop) cursor ≤ offset := by
    intro es
    induction es with
    | nil => exact fun _ h _ => h
    | cons e es ih =>
      intro cursor _ hes
      obtain ⟨he, hes⟩ := List.forall_mem_cons.mp hes
      exact ih e.stop he hes
  exact hfold _ cursor hcursor fun e he => hes e ((settle_sublist cursor es).subset he)

/-- Of edits that end in front of an offset and others from it on, the former make the text up to it. -/
theorem splice_append (hsize : offset ≤ source.size) (hcursor : cursor ≤ offset)
    (hxs : ∀ e ∈ xs, e.start ≤ e.stop ∧ e.stop ≤ offset) (hys : ∀ e ∈ ys, offset ≤ e.start) :
    splice source cursor (xs ++ ys) = splice (source.extract 0 offset) cursor xs ++ splice source offset ys := by
  have hinside : ∀ first last, last ≤ offset →
      (source.extract 0 offset).extract first last = source.extract first last := by
    intro first last hlast
    rw [ByteArray.extract_extract, Nat.zero_add, Nat.zero_add, Nat.min_eq_left hlast]
  induction xs generalizing cursor with
  | nil =>
    have hup : splice (source.extract 0 offset) cursor [] = source.extract cursor offset := by
      rw [splice, ByteArray.size_extract, hinside _ _ (by omega), Nat.sub_zero, Nat.min_eq_left hsize]
    rw [List.nil_append, hup]
    exact splice_from hcursor hsize hys
  | cons e xs ih =>
    obtain ⟨⟨hwide, hstop⟩, hxs⟩ := List.forall_mem_cons.mp hxs
    rw [List.cons_append, splice, splice, ih hstop hxs, hinside _ _ (hwide.trans hstop)]
    simp only [ByteArray.append_assoc]

/-- The texts one after the other. -/
def texts (es : List Edit) : ByteArray := es.foldr (fun e rest => e.text ++ rest) .empty

theorem settle_tops (hes : ∀ e ∈ es, e.tops offset = true) (ys : List Edit) :
    (settle offset (es ++ ys)).1 = es ++ (settle offset ys).1 := by
  induction es with
  | nil => rfl
  | cons e es ih =>
    obtain ⟨he, hes⟩ := List.forall_mem_cons.mp hes
    obtain ⟨hstart, hstop, -⟩ := tops_iff.mp he
    rw [List.cons_append, settle, if_neg (by omega), hstop]
    exact congrArg (e :: ·) (ih hes)

theorem splice_tops (hes : ∀ e ∈ es, e.tops offset = true) :
    splice source offset (es ++ ys) = texts es ++ splice source offset ys := by
  induction es with
  | nil => exact ByteArray.empty_append.symm
  | cons e es ih =>
    obtain ⟨he, hes⟩ := List.forall_mem_cons.mp hes
    obtain ⟨hstart, hstop, -⟩ := tops_iff.mp he
    rw [List.cons_append, splice, hstart, hstop, ih hes, ByteArray.extract_eq_empty_iff.mpr (by omega),
      ByteArray.empty_append]
    exact ByteArray.append_assoc.symm

/-- What a batch makes of a text if none of its edits spans an offset: what the edits in front make of the text up
to it, the texts that are put ahead of everything there, the latest first, and what the others make of the
text from there on. -/
theorem madeFrom_parts (hsize : offset ≤ source.size) (hturns : es.Pairwise fun a b => a.turn < b.turn)
    (hwide : ∀ e ∈ es, e.start ≤ e.stop) (hspan : ∀ e ∈ es, e.start < offset → e.stop ≤ offset) :
    madeFrom source 0 es = madeFrom (source.extract 0 offset) 0 (infront offset es) ++
      (texts (stack offset es).reverse ++ madeFrom source offset (behind offset es)) := by
  have hfront : ∀ e ∈ sorted (infront offset es), e.start ≤ e.stop ∧ e.stop ≤ offset := fun e he => by
    obtain ⟨hmem, hlt⟩ := mem_infront ((sorted_perm _).subset he)
    exact ⟨hwide e hmem, hspan e hmem hlt⟩
  have hstack : ∀ e ∈ (stack offset es).reverse, e.tops offset = true := fun _ => tops_of_mem_stack
  have hlate : ∀ e ∈ (stack offset es).reverse ++ sorted (behind offset es), offset ≤ e.start := by
    intro e he
    rcases List.mem_append.mp he with he | he
    · exact (tops_iff.mp (hstack e he)).1.ge
    · exact (mem_behind ((sorted_perm _).subset he)).1
  have hreached : reached 0 (sorted (infront offset es)) ≤ offset :=
    reached_le (Nat.zero_le _) fun e he => (hfront e he).2
  have hsettled : (settle 0 (sorted es)).1 = (settle 0 (sorted (infront offset es))).1 ++
      ((stack offset es).reverse ++ (settle offset (sorted (behind offset es))).1) := by
    rw [sorted_parts offset hturns, settle_append,
      settle_behind (fun e he => hreached.trans (hlate e he)) hlate, settle_tops hstack]
  unfold madeFrom
  rw [hsettled, splice_append hsize (Nat.zero_le _) (fun e he => hfront e ((settle_sublist _ _).subset he)),
    splice_tops hstack]
  intro e he
  rcases List.mem_append.mp he with he | he
  · exact hlate e (List.mem_append_left _ he)
  · exact hlate e (List.mem_append_right _ ((settle_sublist _ _).subset he))

/-! ## Edits without their numbers -/

/-- The edit without its number. -/
def uncounted (e : Edit) : Edit := { e with turn := 0 }

variable {c d : Edit}

/-- Of two edits one of which was recorded first, it does not matter which numbers they have. -/
theorem before_congr (hac : a.uncounted = c.uncounted) (hbd : b.uncounted = d.uncounted) (hab : a.turn < b.turn)
    (hcd : c.turn < d.turn) : before a b = before c d := by
  obtain ⟨hstart, hstop, -, -, hahead⟩ := Edit.mk.inj hac
  obtain ⟨hstart', hstop', -, -, hahead'⟩ := Edit.mk.inj hbd
  have hrank : decide (a.rank ≤ b.rank) = decide (c.rank ≤ d.rank) := by
    refine decide_eq_decide.mpr ?_
    unfold rank
    rw [hahead, hahead']
    split <;> split <;> omega
  unfold before isInsertion
  rw [hstart, hstop, hstart', hstop', hrank]

theorem place_congr (hab : a.uncounted = b.uncounted) (hes : es.map uncounted = fs.map uncounted)
    (hafter : ∀ e ∈ es, a.turn < e.turn) (hafter' : ∀ e ∈ fs, b.turn < e.turn) :
    (place a es).map uncounted = (place b fs).map uncounted := by
  induction es generalizing fs with
  | nil =>
    rw [List.map_eq_nil_iff.mp hes.symm]
    exact congrArg (fun e => [e]) hab
  | cons e es ih =>
    cases fs with
    | nil => cases hes
    | cons f fs =>
      obtain ⟨hef, hes⟩ := List.cons.inj hes
      obtain ⟨he, hafter⟩ := List.forall_mem_cons.mp hafter
      obtain ⟨hf, hafter'⟩ := List.forall_mem_cons.mp hafter'
      rw [place, place, before_congr hab hef he hf]
      split
      · rw [List.map_cons, List.map_cons, List.map_cons, List.map_cons, hab, hef, hes]
      · rw [List.map_cons, List.map_cons, hef, ih hes hafter hafter']

theorem sorted_congr (hes : es.map uncounted = fs.map uncounted) (hturns : es.Pairwise fun a b => a.turn < b.turn)
    (hturns' : fs.Pairwise fun a b => a.turn < b.turn) :
    (sorted es).map uncounted = (sorted fs).map uncounted := by
  induction es generalizing fs with
  | nil =>
    rw [List.map_eq_nil_iff.mp hes.symm]
  | cons e es ih =>
    cases fs with
    | nil => cases hes
    | cons f fs =>
      obtain ⟨hef, hes⟩ := List.cons.inj hes
      obtain ⟨he, hturns⟩ := List.pairwise_cons.mp hturns
      obtain ⟨hf, hturns'⟩ := List.pairwise_cons.mp hturns'
      exact place_congr hef (ih hes hturns hturns') (fun a ha => he a ((sorted_perm _).subset ha))
        fun a ha => hf a ((sorted_perm _).subset ha)

theorem settle_uncounted (cursor : Nat) (es : List Edit) :
    (settle cursor (es.map uncounted)).1 = (settle cursor es).1.map uncounted := by
  induction es generalizing cursor with
  | nil => rfl
  | cons e es ih =>
    rw [List.map_cons, settle, settle]
    by_cases h : e.start < cursor
    · rw [if_pos h, if_pos (show e.uncounted.start < cursor from h)]
      exact ih cursor
    · rw [if_neg h, if_neg (show ¬ e.uncounted.start < cursor from h)]
      exact congrArg (e.uncounted :: ·) (ih e.stop)

theorem splice_uncounted (source : ByteArray) (cursor : Nat) (es : List Edit) :
    splice source cursor (es.map uncounted) = splice source cursor es := by
  induction es generalizing cursor with
  | nil => rfl
  | cons e es ih => exact congrArg (source.extract cursor e.start ++ e.text ++ ·) (ih e.stop)

/-- What is made of a text depends on the order of recording, not on the numbers. -/
theorem madeFrom_congr (hes : es.map uncounted = fs.map uncounted)
    (hturns : es.Pairwise fun a b => a.turn < b.turn) (hturns' : fs.Pairwise fun a b => a.turn < b.turn) :
    madeFrom source cursor es = madeFrom source cursor fs := by
  unfold madeFrom
  rw [← splice_uncounted, ← settle_uncounted, sorted_congr hes hturns hturns', settle_uncounted, splice_uncounted]

end Edit

/-! ## Lists without repeats -/

theorem filter_eraseDupsBy {α : Type} {r : α → α → Bool} {p : α → Bool} {l : List α}
    (h : ∀ a ∈ l, ∀ b ∈ l, r a b = true → p a = p b) :
    (l.eraseDupsBy r).filter p = (l.filter p).eraseDupsBy r := by
  induction hn : l.length using Nat.strong_induction_on generalizing l with
  | _ n ih =>
    cases l with
    | nil => rfl
    | cons a l =>
      have hshort : (l.filter fun b => r b a = false).length < n := by
        have hle := List.length_filter_le (fun b => decide (r b a = false)) l
        rw [List.length_cons] at hn
        omega
      have hrest := ih _ hshort (l := l.filter fun b => r b a = false) (fun x hx y hy =>
        h x (List.mem_cons_of_mem _ (List.mem_of_mem_filter hx)) y
          (List.mem_cons_of_mem _ (List.mem_of_mem_filter hy))) rfl
      rw [List.eraseDupsBy_cons, List.filter_cons, List.filter_cons, hrest, List.filter_filter]
      cases hp : p a with
      | true =>
        rw [if_pos rfl, if_pos rfl, List.eraseDupsBy_cons, List.filter_filter]
        congr 2
        exact List.filter_congr fun x _ => Bool.and_comm _ _
      | false =>
        rw [if_neg Bool.false_ne_true, if_neg Bool.false_ne_true]
        congr 1
        refine List.filter_congr fun x hx => ?_
        cases hpx : p x with
        | false => rfl
        | true =>
          have hnot : r x a = false := Bool.eq_false_iff.mpr fun hr => by
            have := h x (List.mem_cons_of_mem _ hx) a List.mem_cons_self hr
            rw [hp, hpx] at this
            cases this
          rw [hnot]
          rfl

theorem map_eraseDupsBy {α β : Type} {r : β → β → Bool} {r' : α → α → Bool} {f : α → β}
    (h : ∀ a b, r (f a) (f b) = r' a b) (l : List α) : (l.map f).eraseDupsBy r = (l.eraseDupsBy r').map f := by
  induction hn : l.length using Nat.strong_induction_on generalizing l with
  | _ n ih =>
    cases l with
    | nil => rfl
    | cons a l =>
      have hshort : (l.filter fun b => r' b a = false).length < n := by
        have hle := List.length_filter_le (fun b => decide (r' b a = false)) l
        rw [List.length_cons] at hn
        omega
      have hrest := ih _ hshort (l.filter fun b => r' b a = false) rfl
      rw [List.map_cons, List.eraseDupsBy_cons, List.eraseDupsBy_cons, List.map_cons, ← hrest, List.filter_map]
      congr 3
      exact List.filter_congr fun x _ => congrArg (fun b => decide (b = false)) (h x a)

theorem filter_filterMap {α β : Type} {f : α → Option β} {p : β → Bool} {q : α → Bool}
    (h : ∀ a b, f a = some b → p b = q a) (l : List α) : (l.filterMap f).filter p = (l.filter q).filterMap f := by
  induction l with
  | nil => rfl
  | cons a l ih =>
    cases hf : f a with
    | none =>
      rw [List.filterMap_cons_none hf, List.filter_cons, ih]
      split
      · rw [List.filterMap_cons_none hf]
      · rfl
    | some b =>
      rw [List.filterMap_cons_some hf, List.filter_cons, List.filter_cons, h a b hf, ih]
      split
      · rw [List.filterMap_cons_some hf]
      · rfl

/-! ## Requests -/

namespace Request

/-- The text goes ahead of everything at the offset. -/
def tops (offset : Nat) (r : Request) : Bool := r.start == offset && (r.stop == offset && r.ahead)

/-- The requests in front of an offset. -/
def front (offset : Nat) (rs : List Request) : List Request := rs.filter fun r => r.start < offset

/-- The requests from an offset on, but for those that go ahead of everything there. -/
def rear (offset : Nat) (rs : List Request) : List Request :=
  rs.filter fun r => decide ((offset : Int) ≤ r.start) && !r.tops offset

/-- The texts that are put ahead of everything at the offset, each once, the latest first. -/
def stacked (offset : Nat) (rs : List Request) : List String :=
  ((rs.filter (·.tops offset)).filterMap (·.text.toString?)).eraseDups.reverse

/-- Where texts can be stacked: every request is accepted, none spans the offset, and none that puts a text there
after the others has the text of one that goes ahead. -/
structure Stackable (offset length : Nat) (rs : List Request) : Prop where
  accepted : ∀ r ∈ rs, (r.edit? length).isSome = true
  unspanned : ∀ r ∈ rs, r.start < offset → r.stop ≤ offset
  unrepeated : ∀ r ∈ rs, r.tops offset = true → ∀ r' ∈ rs, r'.start = offset → r'.stop = offset →
    r'.tops offset = false → r.text ≠ r'.text

variable {offset length : Nat} {r : Request} {rs : List Request} {e : Edit}

theorem tops_edit (h : r.edit? length = some e) : e.tops offset = r.tops offset := by
  obtain ⟨⟨hstart, hstop, -⟩, s, -, rfl⟩ := edit?_eq_some h
  unfold Edit.tops tops
  have hfirst : (r.start.toNat == offset) = (r.start == (offset : Int)) := by
    rw [Bool.eq_iff_iff, beq_iff_eq, beq_iff_eq]
    omega
  have hlast : (r.stop.toNat == offset) = (r.stop == (offset : Int)) := by
    rw [Bool.eq_iff_iff, beq_iff_eq, beq_iff_eq]
    omega
  rw [hfirst, hlast]

theorem front_edit (h : r.edit? length = some e) :
    decide (e.start < offset) = decide (r.start < (offset : Int)) := by
  obtain ⟨⟨hstart, hstop, -⟩, s, -, rfl⟩ := edit?_eq_some h
  exact decide_eq_decide.mpr (by dsimp only; omega)

theorem rear_edit (h : r.edit? length = some e) : (decide (offset ≤ e.start) && !e.tops offset) =
    (decide ((offset : Int) ≤ r.start) && !r.tops offset) := by
  rw [tops_edit h]
  obtain ⟨⟨hstart, hstop, -⟩, s, -, rfl⟩ := edit?_eq_some h
  congr 1
  exact decide_eq_decide.mpr (by dsimp only; omega)

end Request

section Recorded

open Edit (uncounted sameSplice madeFrom)

variable {offset length : Nat} {rs : List Request} {source : ByteArray} {cursor : Nat}

theorem recorded_uncounted (length : Nat) (rs : List Request) :
    (recorded length rs).map uncounted = (rs.filterMap (Request.edit? length)).eraseDupsBy sameSplice := by
  have hzero : ∀ e ∈ (rs.filterMap (Request.edit? length)).eraseDupsBy sameSplice, e.uncounted = e := by
    intro e he
    obtain ⟨r, -, hr⟩ := List.mem_filterMap.mp (mem_of_mem_eraseDupsBy _ _ (Nat.le_refl _) he)
    obtain ⟨-, s, -, rfl⟩ := Request.edit?_eq_some hr
    rfl
  have hcounted : ∀ (es : List Edit) (n : Nat), ((es.zipIdx n).map fun p => { p.1 with turn := p.2 }).map
      uncounted = es.map uncounted := by
    intro es
    induction es with
    | nil => exact fun _ => rfl
    | cons e es ih => exact fun n => congrArg (e.uncounted :: ·) (ih (n + 1))
  exact (hcounted _ 0).trans (List.map_congr_left hzero |>.trans (List.map_id _))

/-- What is recorded of a part of the requests is the part of what is recorded. -/
theorem filter_recorded {p : Edit → Bool} {q : Request → Bool} (hp : ∀ e : Edit, p e.uncounted = p e)
    (hpq : ∀ r e, r.edit? length = some e → p e = q r)
    (hsame : ∀ a ∈ rs.filterMap (Request.edit? length), ∀ b ∈ rs.filterMap (Request.edit? length),
      sameSplice a b = true → p a = p b) :
    ((recorded length rs).filter p).map uncounted = (recorded length (rs.filter q)).map uncounted := by
  have hcomp : p = p ∘ uncounted := funext fun e => (hp e).symm
  rw [hcomp, ← List.filter_map, recorded_uncounted, filter_eraseDupsBy hsame, filter_filterMap hpq,
    recorded_uncounted]

theorem madeFrom_filter_recorded {p : Edit → Bool} {q : Request → Bool} (hp : ∀ e : Edit, p e.uncounted = p e)
    (hpq : ∀ r e, r.edit? length = some e → p e = q r)
    (hsame : ∀ a ∈ rs.filterMap (Request.edit? length), ∀ b ∈ rs.filterMap (Request.edit? length),
      sameSplice a b = true → p a = p b) :
    madeFrom source cursor ((recorded length rs).filter p) = madeFrom source cursor (recorded length (rs.filter q)) :=
  Edit.madeFrom_congr (filter_recorded hp hpq hsame) ((recorded_turns_lt length rs).sublist List.filter_sublist)
    (recorded_turns_lt _ _)

/-- The same splice goes ahead twice or not at all. -/
theorem Request.Stackable.same_tops (h : Stackable offset length rs) :
    ∀ a ∈ rs.filterMap (edit? length), ∀ b ∈ rs.filterMap (edit? length),
      sameSplice a b = true → a.tops offset = b.tops offset := by
  have hone : ∀ a ∈ rs.filterMap (edit? length), ∀ b ∈ rs.filterMap (edit? length),
      sameSplice a b = true → a.tops offset = true → b.tops offset = true := by
    intro a ha b hb hsame htops
    obtain ⟨r, hr, hra⟩ := List.mem_filterMap.mp ha
    obtain ⟨r', hr', hrb⟩ := List.mem_filterMap.mp hb
    by_contra hnot
    rw [Bool.not_eq_true, tops_edit hrb] at hnot
    unfold sameSplice at hsame
    simp only [Bool.and_eq_true, beq_iff_eq] at hsame
    obtain ⟨⟨hstart, hstop⟩, htext⟩ := hsame
    obtain ⟨hfirst, hlast, -⟩ := Edit.tops_iff.mp htops
    rw [tops_edit hra] at htops
    obtain ⟨⟨hstart', hstop', -⟩, s', hs', rfl⟩ := edit?_eq_some hrb
    obtain ⟨-, s, hs, rfl⟩ := edit?_eq_some hra
    dsimp only at hstart hstop htext hfirst hlast
    refine h.unrepeated r hr htops r' hr' (by omega) (by omega) hnot ?_
    rw [Text.eq_ofString hs, Text.eq_ofString hs', String.toByteArray_inj.mp (eq_of_bytes htext)]
  intro a ha b hb hsame
  refine Bool.eq_iff_iff.mpr ⟨hone a ha b hb hsame, hone b hb a ha ?_⟩
  rw [Edit.sameSplice_comm]
  exact hsame

theorem texts_uncounted (es : List Edit) : Edit.texts (es.map uncounted) = Edit.texts es := by
  induction es with
  | nil => rfl
  | cons e es ih => exact congrArg (e.text ++ ·) ih

/-- The edit that puts a text ahead of everything at an offset. -/
def Edit.onTop (offset : Nat) (text : String) : Edit := ⟨offset, offset, text.toUTF8, 0, true⟩

theorem Edit.sameSplice_onTop (s t : String) : sameSplice (onTop offset s) (onTop offset t) = (s == t) := by
  unfold sameSplice onTop
  rw [beq_self_eq_true, Bool.true_and, Bool.eq_iff_iff, beq_iff_eq]
  exact ⟨fun h => String.toByteArray_inj.mp (eq_of_bytes h), fun h => h ▸ beq_self_eq_true s.toUTF8.data⟩

theorem Edit.texts_onTop (l : List String) : texts (l.map (onTop offset)) = (String.join l).toUTF8 := by
  induction l with
  | nil => rfl
  | cons s l ih =>
    rw [List.map_cons, String.join_cons]
    change s.toUTF8 ++ texts _ = (s ++ String.join l).toByteArray
    rw [ih, String.toByteArray_append]
    rfl

theorem Request.edit?_of_tops {r : Request} (hsize : offset ≤ length) (h : r.tops offset = true) :
    r.edit? length = r.text.toString?.map (Edit.onTop offset) := by
  unfold tops at h
  simp only [Bool.and_eq_true, beq_iff_eq] at h
  obtain ⟨hstart, hstop, hahead⟩ := h
  unfold edit?
  rw [if_pos (by unfold InRange; omega), hstart, hstop, hahead]
  rfl

/-- The texts that go ahead of everything at an offset. -/
theorem texts_stack (hsize : offset ≤ length) (h : Request.Stackable offset length rs) :
    Edit.texts (Edit.stack offset (recorded length rs)).reverse =
      (String.join (Request.stacked offset rs)).toUTF8 := by
  have hmade : (rs.filter (·.tops offset)).filterMap (Request.edit? length) =
      ((rs.filter (·.tops offset)).filterMap (·.text.toString?)).map (Edit.onTop offset) := by
    rw [List.map_filterMap]
    exact List.filterMap_congr fun r hr => Request.edit?_of_tops hsize (List.mem_filter.mp hr).2
  have hparts : (Edit.stack offset (recorded length rs)).map uncounted = ((rs.filter (·.tops offset)).filterMap
      (·.text.toString?)).eraseDups.map (Edit.onTop offset) := by
    refine (filter_recorded (q := (·.tops offset)) (fun _ => rfl) (fun _ _ => Request.tops_edit) h.same_tops).trans ?_
    rw [recorded_uncounted, hmade]
    exact map_eraseDupsBy Edit.sameSplice_onTop _
  rw [← texts_uncounted, List.map_reverse, hparts, ← List.map_reverse, Edit.texts_onTop]
  rfl

/-- What the requests leave of a text and put into it, by its parts in front of an offset and behind it. -/
theorem madeFrom_recorded (hsize : offset ≤ source.size) (h : Request.Stackable offset source.size rs) :
    madeFrom source 0 (recorded source.size rs) =
      madeFrom (source.extract 0 offset) 0 (recorded source.size (Request.front offset rs)) ++
        ((String.join (Request.stacked offset rs)).toUTF8 ++
          madeFrom source offset (recorded source.size (Request.rear offset rs))) := by
  have hsplice : ∀ {a b : Edit}, sameSplice a b = true → a.start = b.start := by
    intro a b hsame
    unfold sameSplice at hsame
    simp only [Bool.and_eq_true, beq_iff_eq] at hsame
    exact hsame.1.1
  have hspan : ∀ e ∈ recorded source.size rs, e.start < offset → e.stop ≤ offset := by
    intro e he hlt
    have hmem : e.uncounted ∈ (rs.filterMap (Request.edit? source.size)).eraseDupsBy sameSplice := by
      rw [← recorded_uncounted]
      exact List.mem_map_of_mem he
    obtain ⟨r, hr, hedit⟩ := List.mem_filterMap.mp (mem_of_mem_eraseDupsBy _ _ (Nat.le_refl _) hmem)
    obtain ⟨⟨hstart, hstop, -⟩, s, -, hparts⟩ := Request.edit?_eq_some hedit
    obtain ⟨hfirst, hlast, -⟩ := Edit.mk.inj hparts
    have hin := h.unspanned r hr
    omega
  rw [Edit.madeFrom_parts hsize (recorded_turns_lt _ _) (fun e he => (recorded_inside he).1) hspan,
    texts_stack hsize h]
  unfold Edit.infront Edit.behind
  rw [madeFrom_filter_recorded (fun _ => rfl) (fun _ _ => Request.front_edit) fun a _ b _ hsame => by
      rw [hsplice hsame],
    madeFrom_filter_recorded (fun _ => rfl) (fun _ _ => Request.rear_edit) fun a ha b hb hsame => by
      rw [hsplice hsame, h.same_tops a ha b hb hsame]]
  rfl

/-- The requests but for those that go ahead of everything at the offset. -/
def Request.others (offset : Nat) (rs : List Request) : List Request := rs.filter fun r => !r.tops offset

theorem Request.Stackable.plain {part : List Request} (h : Stackable offset length rs) (hpart : part ⊆ rs)
    (hplain : ∀ r ∈ part, r.tops offset = false) : Stackable offset length part where
  accepted := fun r hr => h.accepted r (hpart hr)
  unspanned := fun r hr => h.unspanned r (hpart hr)
  unrepeated := fun r hr htops => by
    rw [hplain r hr] at htops
    cases htops

theorem Request.stacked_plain (hplain : ∀ r ∈ rs, r.tops offset = false) : stacked offset rs = [] := by
  unfold stacked
  rw [List.filter_eq_nil_iff.mpr fun r hr => by rw [hplain r hr]; exact Bool.false_ne_true]
  rfl

theorem Request.tops_of_lt {r : Request} (h : r.start < offset) : r.tops offset = false := by
  refine Bool.eq_false_iff.mpr fun htops => ?_
  unfold tops at htops
  simp only [Bool.and_eq_true, beq_iff_eq] at htops
  omega

theorem madeFrom_plain {part : List Request} (hsize : offset ≤ source.size)
    (h : Request.Stackable offset source.size rs) (hpart : part ⊆ rs) (hplain : ∀ r ∈ part, r.tops offset = false) :
    madeFrom source 0 (recorded source.size part) =
      madeFrom (source.extract 0 offset) 0 (recorded source.size (Request.front offset part)) ++
        madeFrom source offset (recorded source.size (Request.rear offset part)) := by
  rw [madeFrom_recorded hsize (h.plain hpart hplain), Request.stacked_plain hplain]
  exact congrArg _ ByteArray.empty_append

/-! ## Parts of parts -/

namespace Request

theorem front_subset : front offset rs ⊆ rs := List.filter_subset_self _

theorem rear_subset : rear offset rs ⊆ rs := List.filter_subset_self _

theorem others_subset : others offset rs ⊆ rs := List.filter_subset_self _

theorem tops_front : ∀ r ∈ front offset rs, r.tops offset = false := fun _ hr =>
  tops_of_lt (of_decide_eq_true (List.mem_filter.mp hr).2)

theorem tops_rear : ∀ r ∈ rear offset rs, r.tops offset = false := fun _ hr => by
  simpa using (Bool.and_eq_true_iff.mp (List.mem_filter.mp hr).2).2

theorem tops_others : ∀ r ∈ others offset rs, r.tops offset = false := fun _ hr => by
  simpa using (List.mem_filter.mp hr).2

theorem front_front : front offset (front offset rs) = front offset rs :=
  List.filter_eq_self.mpr fun _ hr => (List.mem_filter.mp hr).2

theorem rear_front : rear offset (front offset rs) = [] := by
  refine List.filter_eq_nil_iff.mpr fun r hr => ?_
  have hlt := of_decide_eq_true (List.mem_filter.mp hr).2
  rw [decide_eq_false (by omega), Bool.false_and]
  exact Bool.false_ne_true

theorem front_rear : front offset (rear offset rs) = [] := by
  refine List.filter_eq_nil_iff.mpr fun r hr => ?_
  have hle := of_decide_eq_true (Bool.and_eq_true_iff.mp (List.mem_filter.mp hr).2).1
  rw [decide_eq_false (by omega)]
  exact Bool.false_ne_true

theorem rear_rear : rear offset (rear offset rs) = rear offset rs :=
  List.filter_eq_self.mpr fun _ hr => (List.mem_filter.mp hr).2

theorem front_others : front offset (others offset rs) = front offset rs := by
  unfold front others
  rw [List.filter_filter]
  refine List.filter_congr fun r _ => ?_
  cases hlt : decide (r.start < (offset : Int)) with
  | true => rw [tops_of_lt (of_decide_eq_true hlt)]; rfl
  | false => rfl

theorem rear_others : rear offset (others offset rs) = rear offset rs := by
  unfold rear others
  rw [List.filter_filter]
  refine List.filter_congr fun r _ => ?_
  rw [Bool.and_assoc, Bool.and_self]

/-- Before and behind an offset stands what the requests in front of it and those from it on leave there; between
the two stand the texts that go ahead of everything, the latest first. -/
theorem Stackable.exists_parts (hsize : offset ≤ source.size) (h : Stackable offset source.size rs) :
    ∃ before behind : ByteArray,
      madeFrom source 0 (recorded source.size (front offset rs)) = before ++ source.extract offset source.size ∧
      madeFrom source 0 (recorded source.size (rear offset rs)) = source.extract 0 offset ++ behind ∧
      madeFrom source 0 (recorded source.size (others offset rs)) = before ++ behind ∧
      madeFrom source 0 (recorded source.size rs) =
        before ++ (String.join (stacked offset rs)).toUTF8 ++ behind := by
  refine ⟨madeFrom (source.extract 0 offset) 0 (recorded source.size (front offset rs)),
    madeFrom source offset (recorded source.size (rear offset rs)), ?_, ?_, ?_, ?_⟩
  · rw [madeFrom_plain hsize h front_subset tops_front, front_front, rear_front]
    rfl
  · rw [madeFrom_plain hsize h rear_subset tops_rear, front_rear, rear_rear]
    exact congrArg (· ++ _) ByteArray.extract_zero_size
  · rw [madeFrom_plain hsize h others_subset tops_others, front_others, rear_others]
  · rw [madeFrom_recorded hsize h, ByteArray.append_assoc]

end Request

end Recorded

end TestMigration
