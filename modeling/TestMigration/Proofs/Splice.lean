import TestMigration.Proofs.Commit
import Mathlib.Data.List.Basic
import Mathlib.Data.List.Sort

/-! What a commit does to the bytes. Requests go into a batch, each once; the commit applies
some of the edits recorded and defers the others. The new text is described byte by byte, not
through `Edit.splice`: before the byte at an offset stand the texts of the applied edits that
begin there, and the byte itself stays unless an applied edit covers it. -/

namespace TestMigration

/-! ## Requests -/

/-- What `Batch.add` is asked to record. -/
structure Request where
  start : Int
  stop : Int
  text : Text
  ahead : Bool

namespace Request

/-- The range lies within a text of `length` bytes. -/
def InRange (length : Nat) (r : Request) : Prop := 0 ≤ r.start ∧ r.start ≤ r.stop ∧ r.stop ≤ length

instance (length : Nat) (r : Request) : Decidable (r.InRange length) :=
  inferInstanceAs (Decidable (_ ∧ _ ∧ _))

/-- The edit a request stands for, not counted yet; none if it is refused. -/
def edit? (length : Nat) (r : Request) : Option Edit :=
  if r.InRange length then
    r.text.toString?.map fun s => ⟨r.start.toNat, r.stop.toNat, s.toUTF8, 0, r.ahead⟩
  else none

theorem edit?_eq_some {length : Nat} {r : Request} {e : Edit} (h : r.edit? length = some e) :
    r.InRange length ∧ ∃ s, r.text.toString? = some s ∧
      e = ⟨r.start.toNat, r.stop.toNat, s.toUTF8, 0, r.ahead⟩ := by
  unfold edit? at h
  split at h
  · rename_i hrange
    obtain ⟨s, hs, rfl⟩ := Option.map_eq_some_iff.mp h
    exact ⟨hrange, s, hs, rfl⟩
  · cases h

end Request

namespace Edit

/-- The same text over the same range. -/
def sameSplice (a b : Edit) : Bool := a.start == b.start && a.stop == b.stop && a.text == b.text

/-- Number the edits in their order. -/
def counted (es : List Edit) : List Edit := es.zipIdx.map fun (e, turn) => { e with turn := turn }

/-- Does the edit replace the byte at an offset? -/
def covers (e : Edit) (offset : Nat) : Bool := e.start ≤ offset && offset < e.stop

/-- The bytes at an offset once the edits are made: the texts of those that begin there, then
the byte unless one of them covers it. -/
def bytesAt (source : ByteArray) (es : List Edit) (offset : Nat) : List UInt8 :=
  (es.filter (·.start == offset)).flatMap (·.text.data.toList) ++
    if es.any (·.covers offset) then [] else source.data.toList[offset]?.toList

/-- Every offset of a text in its order, the end of the text among them. -/
def replaced (source : ByteArray) (es : List Edit) : List UInt8 :=
  (List.range (source.size + 1)).flatMap (bytesAt source es)

/-- The order in which edits at one offset are applied: insertions before replacements, among
insertions those that go ahead first, the latest of them first, then the others by turn. -/
def InOrder (a b : Edit) : Prop :=
  a.start = b.start → b.isInsertion →
    a.isInsertion ∧ (a.ahead → b.ahead → b.turn < a.turn) ∧
      (¬ a.ahead → ¬ b.ahead ∧ a.turn < b.turn)

end Edit

namespace Batch

/-- Ask for edits one after the other. A request that is refused leaves the batch alone. -/
def request (b : Batch) (generation length : Nat) (r : Request) : Batch :=
  match b.add generation length r.start r.stop r.text r.ahead with
  | .ok b => b
  | .error _ => b

def requestAll (b : Batch) (generation length : Nat) (rs : List Request) : Batch :=
  rs.foldl (·.request generation length) b

end Batch

/-- What is recorded of some requests: the edits they stand for, repeats of a splice dropped. -/
def recorded (length : Nat) (rs : List Request) : List Edit :=
  Edit.counted ((rs.filterMap (Request.edit? length)).eraseDupsBy Edit.sameSplice)

/-- What a commit owes to the requests behind it, the text before it, the edits that it applies
in their order, those that it defers and the text after it. -/
structure Conserves (source : ByteArray) (rs : List Request) (applied deferred : List Edit)
    (text : ByteArray) : Prop where
  /-- Nothing recorded is lost, and nothing else is there. -/
  all : (applied ++ deferred).Perm (recorded source.size rs)
  inside : ∀ e ∈ applied, e.start ≤ e.stop ∧ e.stop ≤ source.size
  /-- Applied ranges ascend and none overlaps another. -/
  apart : applied.Pairwise fun a b => a.stop ≤ b.start
  ordered : applied.Pairwise Edit.InOrder
  /-- Only what begins inside an applied range is deferred. -/
  overlap : ∀ e ∈ deferred, ∃ a ∈ applied, a.start ≤ e.start ∧ e.start < a.stop
  bytes : text.data.toList = Edit.replaced source applied

/-! ## What is recorded -/

namespace Edit

@[simp] theorem length_counted (es : List Edit) : (counted es).length = es.length := by
  simp [counted]

theorem counted_append (es : List Edit) (e : Edit) :
    counted (es ++ [e]) = counted es ++ [{ e with turn := es.length }] := by
  simp [counted, List.zipIdx_append]

theorem any_counted (es : List Edit) (e : Edit) :
    (counted es).any (sameSplice · e) = es.any (sameSplice · e) := by
  have h : ∀ n, ((es.zipIdx n).map fun (a, turn) => { a with turn := turn }).any (sameSplice · e) =
      es.any (sameSplice · e) := by
    induction es with
    | nil => intro n; rfl
    | cons a rest ih => intro n; simp only [List.zipIdx_cons, List.map_cons, List.any_cons, ih]; rfl
  exact h 0

theorem sameSplice_comm (a b : Edit) : sameSplice a b = sameSplice b a := by
  have hb : (a.text == b.text) = (b.text == a.text) := Bool.beq_comm (a := a.text.data)
  simp only [sameSplice, hb, Bool.beq_comm]

theorem turns_counted (es : List Edit) : (counted es).map turn = List.range es.length := by
  simp only [counted, List.map_map, Function.comp_def]
  exact List.zipIdx_map_snd 0 es |>.trans (by simp [List.range_eq_range'])

end Edit

namespace Batch

theorem request_eq (b : Batch) (length : Nat) (r : Request) (h : b.committed = false) :
    b.request b.generation length r = match r.edit? length with
      | none => b
      | some e => if b.edits.any (Edit.sameSplice · e) = true then b
        else { b with edits := b.edits ++ [{ e with turn := b.size }] } := by
  unfold request add Request.edit?
  by_cases hr : r.InRange length
  · obtain ⟨h0, h1, h2⟩ := hr
    have hb : (decide (r.start < 0) || decide (r.stop < r.start) || decide (r.stop > length)) =
        false := by
      simp only [Bool.or_eq_false_iff, decide_eq_false_iff_not]
      omega
    simp only [h, hb, if_pos (show r.InRange length from ⟨h0, h1, h2⟩), bne_self_eq_false,
      Bool.false_eq_true, if_false]
    cases r.text.toString? with
    | none => rfl
    | some s =>
      simp only [Option.map_some]
      by_cases again : (b.edits.any fun e =>
          e.start == r.start.toNat && e.stop == r.stop.toNat && e.text == s.toUTF8) = true
      · rw [if_pos again]; exact (if_pos again).symm
      · rw [if_neg again]; exact (if_neg again).symm
  · have hb : (decide (r.start < 0) || decide (r.stop < r.start) || decide (r.stop > length)) =
        true := by
      simp only [Request.InRange] at hr
      simp only [Bool.or_eq_true, decide_eq_true_eq]
      omega
    simp only [h, hb, if_neg hr, bne_self_eq_false]
    rfl

/-- A batch that was asked for `rs` after it had recorded `known` holds those, then what the
requests add to them. -/
theorem requestAll_eq (length : Nat) (rs : List Request) {b : Batch} {known : List Edit}
    (hc : b.committed = false) (hb : b.edits = Edit.counted known) :
    b.requestAll b.generation length rs = { b with
      edits := Edit.counted (known ++ ((rs.filterMap (Request.edit? length)).filter
        fun e => !known.any (Edit.sameSplice · e)).eraseDupsBy Edit.sameSplice) } := by
  induction rs generalizing b known with
  | nil => simp [requestAll, ← hb]
  | cons r rest ih =>
    have hstep := request_eq b length r hc
    simp only [requestAll, List.foldl_cons] at ih ⊢
    cases he : r.edit? length with
    | none =>
      rw [he] at hstep
      rw [hstep, List.filterMap_cons_none he]
      exact ih hc hb
    | some e =>
      simp only [he, hb, Edit.any_counted] at hstep
      rw [List.filterMap_cons_some he]
      by_cases hk : known.any (Edit.sameSplice · e) = true
      · rw [if_pos hk] at hstep
        rw [hstep, List.filter_cons_of_neg (by simp [hk])]
        exact ih hc hb
      · rw [if_neg hk, size, hb, Edit.length_counted, ← Edit.counted_append] at hstep
        have hrest := @ih { b with edits := Edit.counted (known ++ [e]) } (known ++ [e]) hc rfl
        rw [hstep, hrest, List.filter_cons_of_pos (by simp [hk]), List.eraseDupsBy_cons,
          List.filter_filter, List.append_assoc, List.singleton_append]
        congr 5
        refine List.filter_congr fun x _ => ?_
        simp only [List.any_append, List.any_cons, List.any_nil, Bool.or_false, Bool.not_or,
          Edit.sameSplice_comm e x]
        cases Edit.sameSplice x e <;> simp

theorem requestAll_open (generation length : Nat) (rs : List Request) :
    (open' generation).requestAll generation length rs =
      { open' generation with edits := recorded length rs } := by
  have h := @requestAll_eq length rs (open' generation) [] rfl rfl
  rw [List.filter_eq_self.mpr (by simp)] at h
  exact h

end Batch

theorem mem_of_mem_eraseDupsBy {α : Type} {r : α → α → Bool} {a : α} (n : Nat) :
    ∀ l : List α, l.length ≤ n → a ∈ l.eraseDupsBy r → a ∈ l := by
  induction n with
  | zero =>
    intro l hl h
    rw [List.length_eq_zero_iff.mp (Nat.le_zero.mp hl)] at h
    simp at h
  | succ n ih =>
    intro l hl h
    cases l with
    | nil => simp at h
    | cons b rest =>
      rw [List.eraseDupsBy_cons] at h
      rcases List.mem_cons.mp h with rfl | h
      · simp
      · have hlen := List.length_filter_le (fun x => decide (r x b = false)) rest
        have hm := ih _ (Nat.le_trans hlen (by simpa using hl)) h
        exact List.mem_cons_of_mem b (List.mem_filter.mp hm).1

theorem recorded_inside {length : Nat} {rs : List Request} {e : Edit}
    (h : e ∈ recorded length rs) : e.start ≤ e.stop ∧ e.stop ≤ length := by
  simp only [recorded, Edit.counted, List.mem_map] at h
  obtain ⟨⟨a, turn⟩, hm, rfl⟩ := h
  have ha := mem_of_mem_eraseDupsBy _ _ (Nat.le_refl _) (List.fst_mem_of_mem_zipIdx hm)
  obtain ⟨r, -, hr⟩ := List.mem_filterMap.mp ha
  obtain ⟨⟨-, h1, h2⟩, s, -, rfl⟩ := Request.edit?_eq_some hr
  exact ⟨Int.toNat_le_toNat h1, Int.toNat_le.mpr h2⟩

theorem recorded_turns_lt (length : Nat) (rs : List Request) :
    (recorded length rs).Pairwise fun a b => a.turn < b.turn := by
  have h : ((recorded length rs).map Edit.turn).Pairwise (· < ·) := by
    rw [recorded, Edit.turns_counted]
    exact List.pairwise_lt_range
  exact List.pairwise_map.mp h

theorem recorded_turns (length : Nat) (rs : List Request) :
    (recorded length rs).Pairwise fun a b => a.turn ≠ b.turn :=
  (recorded_turns_lt length rs).imp Nat.ne_of_lt

/-! ## What applies -/

namespace Edit

theorem before_total (a b : Edit) : (before a b || before b a) = true := by
  unfold before
  grind

theorem before_trans (a b c : Edit) (hab : before a b = true) (hbc : before b c = true) :
    before a c = true := by
  unfold before at *
  grind

@[simp] theorem sorted_nil : sorted [] = [] := rfl

theorem place_eq (e : Edit) (es : List Edit) :
    place e es = es.orderedInsert (fun a b => before a b = true) e := by
  induction es with
  | nil => rfl
  | cons a rest ih =>
    unfold place
    rw [List.orderedInsert_cons, ih]

theorem sorted_eq (es : List Edit) :
    sorted es = es.insertionSort fun a b => before a b = true := by
  induction es with
  | nil => rfl
  | cons e rest ih =>
    unfold sorted
    rw [List.insertionSort_cons, place_eq, ih]

theorem sorted_perm (es : List Edit) : (sorted es).Perm es := by
  rw [sorted_eq]
  exact List.perm_insertionSort _ es

theorem sorted_pairwise (es : List Edit) : (sorted es).Pairwise fun a b => before a b = true := by
  have htotal : Std.Total fun a b => before a b = true :=
    ⟨fun a b => Bool.or_eq_true_iff.mp (before_total a b)⟩
  have htrans : IsTrans Edit fun a b => before a b = true := ⟨before_trans⟩
  rw [sorted_eq]
  exact List.pairwise_insertionSort _ es

theorem settle_perm (cursor : Nat) (es : List Edit) :
    ((settle cursor es).1 ++ (settle cursor es).2).Perm es := by
  induction es generalizing cursor with
  | nil => exact .nil
  | cons e rest ih =>
    unfold settle
    split
    · exact List.perm_middle.trans ((ih cursor).cons e)
    · exact (ih e.stop).cons e

theorem settle_sublist (cursor : Nat) (es : List Edit) : (settle cursor es).1.Sublist es := by
  induction es generalizing cursor with
  | nil => exact .slnil
  | cons e rest ih =>
    unfold settle
    split
    · exact (ih cursor).cons e
    · exact (ih e.stop).cons_cons e

/-- Edits that apply begin at the cursor or after it, and each ends before the next begins. -/
theorem settle_apart {cursor : Nat} {es : List Edit} (h : ∀ e ∈ es, e.start ≤ e.stop) :
    (∀ e ∈ (settle cursor es).1, cursor ≤ e.start) ∧
      (settle cursor es).1.Pairwise fun a b => a.stop ≤ b.start := by
  induction es generalizing cursor with
  | nil => simp [settle]
  | cons e rest ih =>
    have he := h e (by simp)
    have hrest : ∀ e ∈ rest, e.start ≤ e.stop := fun x hx => h x (by simp [hx])
    unfold settle
    split
    · exact ih hrest
    · rename_i hc
      obtain ⟨hs, hp⟩ := @ih e.stop hrest
      refine ⟨?_, List.pairwise_cons.mpr ⟨hs, hp⟩⟩
      intro x hx
      rcases List.mem_cons.mp hx with rfl | hx
      · omega
      · have := hs x hx
        omega

/-- A deferred edit begins before the cursor, or inside an edit that applies and comes before
it in their order. -/
theorem settle_deferred {R : Edit → Edit → Prop} {cursor : Nat} {es : List Edit}
    (h : es.Pairwise R) :
    ∀ e ∈ (settle cursor es).2, e.start < cursor ∨
      ∃ a ∈ (settle cursor es).1, R a e ∧ e.start < a.stop := by
  induction es generalizing cursor with
  | nil => simp [settle]
  | cons e rest ih =>
    obtain ⟨he, hrest⟩ := List.pairwise_cons.mp h
    intro x hx
    unfold settle at hx ⊢
    split at hx
    · rename_i hc
      rw [if_pos hc]
      rcases List.mem_cons.mp hx with rfl | hx
      · exact .inl hc
      · exact ih hrest x hx
    · rename_i hc
      rw [if_neg hc]
      have hmem : x ∈ rest := (settle_perm e.stop rest).subset (by simp [hx])
      rcases ih hrest x hx with hlt | ⟨a, ha, hin⟩
      · exact .inr ⟨e, by simp, he x hmem, hlt⟩
      · exact .inr ⟨a, by simp [ha], hin⟩

end Edit

theorem inOrder_of_before {a b : Edit} (h : Edit.before a b = true) (hne : a.turn ≠ b.turn) :
    a.InOrder b := by
  unfold Edit.before Edit.rank at h
  intro hs hb
  simp only [hs] at h
  grind [Edit.isInsertion]

theorem start_le_of_before {a b : Edit} (h : Edit.before a b = true) : a.start ≤ b.start := by
  unfold Edit.before at h
  grind

/-! ## The bytes -/

namespace Edit

theorem bytesAt_before (source : ByteArray) {es : List Edit} {i : Nat}
    (h : ∀ e ∈ es, i < e.start) :
    bytesAt source es i = source.data.toList[i]?.toList := by
  have hs : es.filter (·.start == i) = [] := by
    refine List.filter_eq_nil_iff.mpr fun e he => ?_
    have := h e he
    simp; omega
  have hc : es.any (·.covers i) = false := by
    refine List.any_eq_false.mpr fun e he => ?_
    have := h e he
    simp [covers]; omega
  simp [bytesAt, hs, hc]

/-- An edit that does not cover an offset adds its text there, if it begins there. -/
theorem bytesAt_cons (source : ByteArray) (e : Edit) (rest : List Edit) {i : Nat}
    (h : e.covers i = false) :
    bytesAt source (e :: rest) i =
      (if e.start = i then e.text.data.toList else []) ++ bytesAt source rest i := by
  unfold bytesAt
  rw [List.any_cons, h, Bool.false_or]
  by_cases hs : e.start = i
  · simp [hs]
  · simp [hs]

/-- An edit that covers an offset is all there is, if the others begin after it. -/
theorem bytesAt_covered (source : ByteArray) {e : Edit} {rest : List Edit} {i : Nat}
    (h : e.covers i = true) (hr : ∀ x ∈ rest, e.stop ≤ x.start) :
    bytesAt source (e :: rest) i = if e.start = i then e.text.data.toList else [] := by
  simp only [covers, Bool.and_eq_true, decide_eq_true_eq] at h
  have hs : rest.filter (·.start == i) = [] := by
    refine List.filter_eq_nil_iff.mpr fun x hx => ?_
    have := hr x hx
    simp; omega
  have hc : (e :: rest).any (·.covers i) = true := by simp [covers, h]
  unfold bytesAt
  rw [hc, List.filter_cons, hs]
  by_cases hi : e.start = i <;> simp [hi]

theorem flatMap_range'_getElem? (l : List UInt8) (start n : Nat) :
    (List.range' start n).flatMap (fun i => l[i]?.toList) = (l.drop start).take n := by
  induction n generalizing start with
  | zero => simp
  | succ n ih =>
    rw [List.range'_succ, List.flatMap_cons, ih]
    cases h : l[start]? with
    | none =>
      have := List.getElem?_eq_none_iff.mp h
      rw [List.drop_eq_nil_of_le this, List.drop_eq_nil_of_le (Nat.le_succ_of_le this)]
      simp
    | some b =>
      obtain ⟨hlt, hb⟩ := List.getElem?_eq_some_iff.mp h
      rw [List.drop_eq_getElem_cons hlt, hb]
      rfl

theorem toList_extract (source : ByteArray) (start stop : Nat) :
    (source.extract start stop).data.toList = (source.data.toList.drop start).take (stop - start) := by
  simp [ByteArray.data_extract, Array.toList_extract]

/-- An edit and those after it: its own text, then what they make of the text after its range. -/
theorem flatMap_bytesAt_cons (source : ByteArray) {e : Edit} {rest : List Edit}
    (he : e.start ≤ e.stop) (hsize : e.stop ≤ source.size) (hr : ∀ x ∈ rest, e.stop ≤ x.start) :
    (List.range' e.start (source.size + 1 - e.start)).flatMap (bytesAt source (e :: rest)) =
      e.text.data.toList ++
        (List.range' e.stop (source.size + 1 - e.stop)).flatMap (bytesAt source rest) := by
  have after : ∀ i, e.stop ≤ i → e.start < i →
      bytesAt source (e :: rest) i = bytesAt source rest i := by
    intro i hi hlt
    rw [bytesAt_cons source e rest (by simp [covers]; omega), if_neg (by omega), List.nil_append]
  rcases Nat.eq_or_lt_of_le he with heq | hlt
  · -- an insertion: its text stands before whatever the others put at the same offset
    rw [← heq, show source.size + 1 - e.start = (source.size - e.start) + 1 by omega,
      List.range'_succ, List.flatMap_cons, List.flatMap_cons,
      bytesAt_cons source e rest (by simp [covers]; omega), if_pos rfl, List.append_assoc]
    congr 2
    refine List.flatMap_congr fun i hi => ?_
    have := List.mem_range'_1.mp hi
    exact after i (by omega) (by omega)
  · -- a replacement: nothing of its range is left but its text
    have inside : ∀ i, e.start ≤ i → i < e.stop →
        bytesAt source (e :: rest) i = if e.start = i then e.text.data.toList else [] := by
      intro i hi hin
      exact bytesAt_covered source (by simp [covers]; omega) hr
    rw [show source.size + 1 - e.start =
        ((e.stop - e.start - 1) + (source.size + 1 - e.stop)) + 1 by omega,
      List.range'_succ, List.flatMap_cons, inside e.start (by omega) hlt, if_pos rfl,
      ← List.range'_append_1, List.flatMap_append,
      show e.start + 1 + (e.stop - e.start - 1) = e.stop by omega]
    have gone : (List.range' (e.start + 1) (e.stop - e.start - 1)).flatMap
        (bytesAt source (e :: rest)) = [] := by
      refine List.flatMap_eq_nil_iff.mpr fun i hi => ?_
      have := List.mem_range'_1.mp hi
      rw [inside i (by omega) (by omega), if_neg (by omega)]
    rw [gone, List.nil_append]
    congr 1
    refine List.flatMap_congr fun i hi => ?_
    have := List.mem_range'_1.mp hi
    exact after i (by omega) (by omega)

theorem toList_splice (source : ByteArray) {cursor : Nat} {es : List Edit}
    (hc : cursor ≤ source.size) (hs : ∀ e ∈ es, cursor ≤ e.start)
    (hr : ∀ e ∈ es, e.start ≤ e.stop ∧ e.stop ≤ source.size)
    (hp : es.Pairwise fun a b => a.stop ≤ b.start) :
    (splice source cursor es).data.toList =
      (List.range' cursor (source.size + 1 - cursor)).flatMap (bytesAt source es) := by
  induction es generalizing cursor with
  | nil =>
    have hb : bytesAt source [] = fun i => source.data.toList[i]?.toList := by
      funext i
      exact bytesAt_before source (by simp)
    have hl : source.data.toList.length = source.size := rfl
    rw [hb, flatMap_range'_getElem?, splice, toList_extract, List.take_of_length_le,
      List.take_of_length_le] <;> simp [hl]
    omega
  | cons e rest ih =>
    obtain ⟨he, hsize⟩ := hr e (by simp)
    obtain ⟨hafter, hrest⟩ := List.pairwise_cons.mp hp
    have hcur := hs e (by simp)
    have hb : ∀ i ∈ List.range' cursor (e.start - cursor),
        bytesAt source (e :: rest) i = source.data.toList[i]?.toList := by
      intro i hi
      have hi := List.mem_range'_1.mp hi
      refine bytesAt_before source fun x hx => ?_
      rcases List.mem_cons.mp hx with rfl | hx
      · omega
      · have := hafter x hx
        omega
    calc (splice source cursor (e :: rest)).data.toList
        = (source.data.toList.drop cursor).take (e.start - cursor) ++
            (e.text.data.toList ++ (splice source e.stop rest).data.toList) := by
          simp [splice]
      _ = (List.range' cursor (e.start - cursor)).flatMap (bytesAt source (e :: rest)) ++
            (List.range' e.start (source.size + 1 - e.start)).flatMap
              (bytesAt source (e :: rest)) := by
          rw [List.flatMap_congr hb, flatMap_range'_getElem?,
            ih hsize hafter (fun x hx => hr x (by simp [hx])) hrest,
            flatMap_bytesAt_cons source he hsize hafter]
      _ = (List.range' cursor (source.size + 1 - cursor)).flatMap
            (bytesAt source (e :: rest)) := by
          rw [← List.flatMap_append,
            show e.start = cursor + (e.start - cursor) by omega, Nat.add_sub_cancel_left,
            List.range'_append_1]
          congr 2
          omega

end Edit

/-! ## The whole of a commit -/

theorem settled_conserves (source : ByteArray) (rs : List Request) {b : Batch}
    (hb : b.edits = recorded source.size rs) :
    Conserves source rs b.settled.1 b.settled.2 (b.outcome source) := by
  let es := Edit.sorted b.edits
  have hperm : es.Perm (recorded source.size rs) := by
    rw [← hb]
    exact Edit.sorted_perm _
  have hsort : es.Pairwise fun a b => Edit.before a b = true :=
    Edit.sorted_pairwise _
  have hin : ∀ e ∈ es, e.start ≤ e.stop ∧ e.stop ≤ source.size :=
    fun e he => recorded_inside (hperm.mem_iff.mp he)
  have hturn : es.Pairwise fun a b => a.turn ≠ b.turn :=
    (hperm.pairwise_iff fun h => h.symm).mpr (recorded_turns _ _)
  have hstart : es.Pairwise fun a b => a.start ≤ b.start := hsort.imp start_le_of_before
  have hsub : b.settled.1.Sublist es := Edit.settle_sublist 0 es
  obtain ⟨hfrom, hapart⟩ := @Edit.settle_apart 0 es fun e he => (hin e he).1
  have hinside : ∀ e ∈ b.settled.1, e.start ≤ e.stop ∧ e.stop ≤ source.size :=
    fun e he => hin e (hsub.subset he)
  refine ⟨(Edit.settle_perm 0 es).trans hperm, hinside, hapart, ?_, ?_, ?_⟩
  · exact (hsort.and hturn).sublist hsub |>.imp fun h => inOrder_of_before h.1 h.2
  · intro e he
    rcases Edit.settle_deferred hstart e he with h | h
    · omega
    · exact h
  · rw [Edit.replaced, List.range_eq_range']
    exact Edit.toList_splice source (Nat.zero_le _) hfrom hinside hapart

theorem commit_conserves (d : Document) (rs : List Request)
    (h : (d.commit ((Batch.open' d.generation).requestAll d.generation d.source.size rs)).1 =
      .ok ()) :
    let b := (Batch.open' d.generation).requestAll d.generation d.source.size rs
    let spent := (d.commit b).2.1
    Conserves d.source rs b.settled.1 spent.deferred (d.commit b).2.2.source ∧
      spent.applied = b.settled.1.length := by
  intro b spent
  have hreq : b = { Batch.open' d.generation with edits := recorded d.source.size rs } :=
    Batch.requestAll_open _ _ _
  have hall : Conserves d.source rs b.settled.1 b.settled.2 (b.outcome d.source) :=
    settled_conserves d.source rs (by rw [hreq])
  rcases Document.commit_cases d b with ⟨hc, -⟩ | ⟨-, he, heq⟩ | ⟨-, -, root, -, heq⟩ |
    ⟨-, -, _, _, -, heq⟩
  · rw [hreq] at hc
    cases hc
  · have hnone : b.settled = ([], []) := by
      simp [Batch.settled, he, Edit.settle]
    have hout : b.outcome d.source = d.source := by
      simp [Batch.outcome, hnone, Edit.splice, ByteArray.extract_zero_size]
    have hspent : spent = { b with committed := true } := by simp only [spent, heq]
    rw [hspent, heq, hnone]
    rw [hnone, hout] at hall
    refine ⟨?_, ?_⟩
    · rw [hreq]; exact hall
    · rw [hreq]; rfl
  · have hspent : spent = b.spent := by simp only [spent, heq]
    rw [hspent, heq]
    exact ⟨hall, rfl⟩
  · rw [heq] at h
    cases h

/-- Insertions around a replacement, one edit inside it, one repeated and one at its very end. -/
def overlapping : List Request :=
  [⟨1, 4, "X", false⟩, ⟨1, 1, "p", true⟩, ⟨1, 1, "i", false⟩, ⟨1, 1, "q", true⟩,
    ⟨2, 3, "Y", false⟩, ⟨1, 1, "i", true⟩, ⟨4, 4, "z", false⟩]

/-- A document that any text is fine for. -/
def anyText (source : String) : Document :=
  ⟨none, fun _ => .ok (.mk none .program 0 0 []), source.toUTF8, .mk none .program 0 0 [], 0, none⟩

theorem commit_conserves_overlapping :
    let d := anyText "abcdef"
    let b := (Batch.open' d.generation).requestAll d.generation d.source.size overlapping
    (d.commit b).1 = .ok () ∧ (d.commit b).2.2.source = "aqpiXzef".toUTF8 ∧
      Conserves d.source overlapping b.settled.1 (d.commit b).2.1.deferred
        (d.commit b).2.2.source ∧ (d.commit b).2.1.applied = b.settled.1.length :=
  ⟨rfl, by decide +kernel, commit_conserves (anyText "abcdef") overlapping rfl⟩

end TestMigration
