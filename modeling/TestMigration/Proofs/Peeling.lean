import TestMigration.Proofs.Pruning
import TestMigration.Proofs.Replacing

/-! Chains of calls, peeled from the outside. In the tree of a chain every call is what the next one is
made on, and all of them begin where the chain begins. So of the calls without effect a round replaces
the outermost one and leaves the others to the next round: there are as many rounds as such calls, up to
the limit. -/

namespace TestMigration

open Script (Node Kind Field Place Location)

/-! Two nodes are compared part by part. -/

namespace Script.Node

mutual

def same : Node → Node → Bool
  | mk role kind start stop children, mk role' kind' start' stop' children' =>
    role == role' && (kind == kind' && (start == start' && (stop == stop' && sameAll children children')))

def sameAll : List Node → List Node → Bool
  | [], [] => true
  | n :: ns, m :: ms => same n m && sameAll ns ms
  | _, _ => false

end

mutual

theorem same_iff : ∀ n m : Node, same n m = true ↔ n = m
  | mk _ _ _ _ children, mk _ _ _ _ children' => by
    rw [same, Bool.and_eq_true_iff, Bool.and_eq_true_iff, Bool.and_eq_true_iff, Bool.and_eq_true_iff,
      beq_iff_eq, beq_iff_eq, beq_iff_eq, beq_iff_eq, sameAll_iff children children', mk.injEq]

theorem sameAll_iff : ∀ ns ms : List Node, sameAll ns ms = true ↔ ns = ms
  | [], [] => by simp [sameAll]
  | [], _ :: _ => by simp [sameAll]
  | _ :: _, [] => by simp [sameAll]
  | n :: ns, m :: ms => by
    rw [sameAll, Bool.and_eq_true_iff, same_iff n m, sameAll_iff ns ms, List.cons.injEq]

end

instance : DecidableEq Node := fun n m => decidable_of_iff _ (same_iff n m)

end Script.Node

/-! ## Texts and walks -/

namespace Document

variable {d : Document} {n : Node}

theorem wording_of_between (front back : String) {text : String}
    (hsource : d.source = (front ++ text ++ back).toUTF8)
    (hstart : n.start = front.utf8ByteSize) (hstop : n.stop = (front ++ text).utf8ByteSize) :
    d.wording n = text := by
  have hpiece : d.source.extract n.start n.stop = text.toUTF8 := by
    change _ = text.toByteArray
    rw [hsource, String.toUTF8, String.append_assoc, String.toByteArray_append, hstart, hstop,
      String.utf8ByteSize_append, ← String.size_toByteArray, ← String.size_toByteArray,
      ← Nat.add_zero front.toByteArray.size, Nat.add_assoc, ByteArray.extract_append_size_add,
      Nat.zero_add, String.toByteArray_append]
    exact ByteArray.extract_append_eq_left rfl
  have htext : d.textOf n = .ok text := Conversion.decode_ok.mpr hpiece
  unfold wording
  rw [htext]
  rfl

/-- Texts of nodes come from the source alone. -/
theorem wording_congr {d' : Document} (h : d'.source = d.source) : d'.wording = d.wording := by
  funext n
  unfold wording textOf slice
  rw [h]

theorem Legible.congr {d' : Document} (hd : d.Legible) (hsource : d'.source = d.source)
    (hroot : d'.root = d.root) : d'.Legible := by
  intro p hp
  rw [hroot] at hp
  have htext := hd p hp
  unfold textOf slice at htext ⊢
  rw [hsource, wording_congr hsource, htext]

end Document

namespace Script.Place

mutual

/-- Which nodes a walk meets is no matter of what is above them. -/
theorem map_node_walk (above above' : List Node) : ∀ n : Node,
    (walk above n).map (·.node) = (walk above' n).map (·.node)
  | .mk role kind start stop children => by
    rw [Place.walk, Place.walk, List.map_cons, List.map_cons, map_node_walkAll]

theorem map_node_walkAll (above above' : List Node) : ∀ ns : List Node,
    (walkAll above ns).map (·.node) = (walkAll above' ns).map (·.node)
  | [] => rfl
  | n :: rest => by
    rw [Place.walkAll, Place.walkAll, List.map_append, List.map_append, map_node_walkAll above above' rest]
    split
    · rw [map_node_walk above above' n]
    · rfl

end

end Script.Place

namespace Chain

/-! ## Chains -/

/-- A call of a chain: what is called and what stands between the parentheses. The nodes there depend on
the offset of the opening one. -/
inductive Segment where
  | first
  | hostNodes
  | other (method inside : String) (parts : Nat → List Node) (effective : method ∉ idleMethods)

namespace Segment

def isIdle : Segment → Bool
  | first | hostNodes => true
  | other .. => false

def method : Segment → String
  | first => "first"
  | hostNodes => "hostNodes"
  | other method .. => method

def inside : Segment → String
  | first | hostNodes => ""
  | other _ inside .. => inside

def parts : Segment → Nat → List Node
  | first | hostNodes => fun _ => []
  | other _ _ parts _ => parts

def text (s : Segment) : String := "." ++ s.method ++ "(" ++ s.inside ++ ")"

end Segment

/-- How a chain is written. The last of its calls is the first in the list. -/
def spell (name : String) : List Segment → String
  | [] => name
  | s :: inner => spell name inner ++ s.text

/-- Where the name of the last call begins, and where its arguments do. -/
def named (name : String) (inner : List Segment) : Nat := (spell name inner ++ ".").utf8ByteSize

def opened (name : String) (s : Segment) (inner : List Segment) : Nat :=
  (spell name inner ++ "." ++ s.method).utf8ByteSize

def propertyOf (name : String) (s : Segment) (inner : List Segment) : Node :=
  .mk (some .property) .propertyIdentifier (named name inner) (opened name s inner) []

def memberOf (name : String) (s : Segment) (inner : List Segment) (object : Node) : Node :=
  .mk (some .callee) .memberExpression 0 (opened name s inner) [object, propertyOf name s inner]

def argumentsOf (name : String) (s : Segment) (inner : List Segment) : Node :=
  .mk (some .arguments) .arguments (opened name s inner) (spell name (s :: inner)).utf8ByteSize
    (s.parts (opened name s inner))

/-- The tree of a chain at the head of a text: each call is made on a member of the one before it. -/
def nested (name : String) (role : Option Field) : List Segment → Node
  | [] => .mk role .identifier 0 name.utf8ByteSize []
  | s :: inner => .mk role .callExpression 0 (spell name (s :: inner)).utf8ByteSize
      [memberOf name s inner (nested name (some .object) inner), argumentsOf name s inner]

/-- The number of calls without effect. -/
def idle (segs : List Segment) : Nat := segs.countP Segment.isIdle

/-- The chain without the last `n` of its calls without effect. -/
def peel (n : Nat) (segs : List Segment) : List Segment := (List.eraseP Segment.isIdle)^[n] segs

/-- Within the arguments no method without effect is called. -/
def Silent (d : Document) (name : String) : List Segment → Prop
  | [] => True
  | s :: inner => (∀ p ∈ Place.walkAll [] (s.parts (opened name s inner)),
      d.callsBare (.oneOf idleMethods) p = false) ∧ Silent d name inner

/-- The script is a statement that consists of the chain, and its tree is that of the chain. -/
structure Holds (d : Document) (name ending : String) (segs : List Segment) : Prop where
  source : d.source = (spell name segs ++ ending).toUTF8
  root : ∃ start stop first last, d.root = .mk none .program start stop
    [.mk none .expressionStatement first last [nested name none segs]]
  legible : d.Legible
  silent : Silent d name segs

/-- What is written as the chain is read as its tree. -/
def Parses (path : Option String) (read : ByteArray → Except Location Node) (name ending : String)
    (segs : List Segment) : Prop :=
  ∃ d, Document.ofBytes path read (spell name segs ++ ending).toUTF8 = .ok d ∧ Holds d name ending segs

variable {d : Document} {name ending rest : String} {segs outer inner : List Segment} {s : Segment}
  {role : Option Field} {above : List Node}

/-! ## What there is to drop -/

/-- The replacement of each call without effect by what it is made on, the last call first. -/
def drops (name : String) : List Segment → List Replacement
  | [] => []
  | s :: inner =>
    (if s.isIdle then [((0, (spell name (s :: inner)).utf8ByteSize), spell name inner)] else []) ++
      drops name inner

theorem method_of_isIdle (h : s.isIdle = true) : s.method ∈ ["first", "hostNodes"] := by
  cases s with
  | first => decide
  | hostNodes => decide
  | other => cases h

theorem isIdle_of_method (h : s.method ∈ idleMethods) : s.isIdle = true := by
  cases s with
  | first => rfl
  | hostNodes => rfl
  | other method inside parts effective => exact absurd h effective

theorem parts_of_isIdle (h : s.isIdle = true) (offset : Nat) : s.parts offset = [] := by
  cases s with
  | first => rfl
  | hostNodes => rfl
  | other => cases h

theorem spell_append (name : String) (outer : List Segment) :
    ∃ after, ∀ inner, spell name (outer ++ inner) = spell name inner ++ after := by
  induction outer with
  | nil => exact ⟨"", fun inner => String.append_empty.symm⟩
  | cons s outer ih =>
    obtain ⟨after, hafter⟩ := ih
    refine ⟨after ++ s.text, fun inner => ?_⟩
    rw [List.cons_append, spell, hafter, String.append_assoc]

theorem spell_cons_size (name : String) (s : Segment) (inner : List Segment) :
    (spell name inner).utf8ByteSize < (spell name (s :: inner)).utf8ByteSize := by
  rw [spell, String.utf8ByteSize_append]
  have hdot : s.text.utf8ByteSize = ".".utf8ByteSize + s.method.utf8ByteSize + "(".utf8ByteSize +
      s.inside.utf8ByteSize + ")".utf8ByteSize := by
    unfold Segment.text
    rw [String.utf8ByteSize_append, String.utf8ByteSize_append, String.utf8ByteSize_append,
      String.utf8ByteSize_append]
  have hone : ".".utf8ByteSize = 1 := rfl
  omega

theorem length_drops (name : String) (segs : List Segment) : (drops name segs).length = idle segs := by
  induction segs with
  | nil => rfl
  | cons s inner ih =>
    rw [drops, List.length_append, ih, idle, idle, List.countP_cons, Nat.add_comm]
    cases s.isIdle <;> rfl

theorem drops_within : ∀ r ∈ drops name segs,
    r.1.1 = 0 ∧ 0 < r.1.2 ∧ r.1.2 ≤ (spell name segs).utf8ByteSize := by
  induction segs with
  | nil =>
    intro r hr
    cases hr
  | cons s inner ih =>
    intro r hr
    have hlt := spell_cons_size name s inner
    rcases List.mem_append.mp hr with hr | hr
    · split at hr
      · rw [List.mem_singleton.mp hr]
        exact ⟨rfl, Nat.zero_lt_of_lt hlt, Nat.le_refl _⟩
      · cases hr
    · obtain ⟨hstart, hpos, hle⟩ := ih r hr
      exact ⟨hstart, hpos, Nat.le_trans hle hlt.le⟩

/-- The calls lie within one another. -/
theorem drops_shrink : (drops name segs).Pairwise fun a b => b.1.2 < a.1.2 := by
  induction segs with
  | nil => exact .nil
  | cons s inner ih =>
    rw [drops]
    split
    · refine List.pairwise_cons.mpr ⟨fun r hr => ?_, ih⟩
      exact Nat.lt_of_le_of_lt (drops_within r hr).2.2 (spell_cons_size name s inner)
    · exact ih

theorem drops_append (h : ∀ s ∈ outer, ¬ s.isIdle = true) :
    drops name (outer ++ inner) = drops name inner := by
  induction outer with
  | nil => rfl
  | cons s outer ih =>
    obtain ⟨hs, houter⟩ := List.forall_mem_cons.mp h
    rw [List.cons_append, drops, if_neg hs, List.nil_append, ih houter]

theorem exists_last (h : 0 < idle segs) : ∃ s outer inner, segs = outer ++ s :: inner ∧
    (∀ s ∈ outer, ¬ s.isIdle = true) ∧ s.isIdle = true ∧ peel 1 segs = outer ++ inner := by
  obtain ⟨s, hs, hidle⟩ := List.countP_pos_iff.mp h
  obtain ⟨s, outer, inner, houter, hidle, hsegs, hpeel⟩ := List.exists_of_eraseP hs hidle
  exact ⟨s, outer, inner, hsegs, houter, hidle, hpeel⟩

/-- The last call without effect is the first to be replaced, and this leaves the chain without it. -/
theorem drops_eq_cons (name : String) (h : 0 < idle segs) :
    ∃ r after, drops name segs = r :: drops name (peel 1 segs) ∧ r.2 ++ after = spell name (peel 1 segs) ∧
    ∃ call, call ++ after = spell name segs ∧ r.1 = (0, call.utf8ByteSize) := by
  obtain ⟨s, outer, inner, rfl, houter, hidle, hpeel⟩ := exists_last h
  obtain ⟨after, hafter⟩ := spell_append name outer
  refine ⟨((0, (spell name (s :: inner)).utf8ByteSize), spell name inner), after, ?_, ?_,
    spell name (s :: inner), (hafter _).symm, rfl⟩
  · rw [hpeel, drops_append houter, drops_append houter, drops, if_pos hidle]
    rfl
  · rw [hpeel, hafter]

/-! ## Peeling -/

theorem peel_succ (n : Nat) : peel (n + 1) segs = peel n (peel 1 segs) := rfl

theorem idle_peel_one (h : 0 < idle segs) : idle (peel 1 segs) + 1 = idle segs := by
  obtain ⟨s, outer, inner, rfl, -, hidle, hpeel⟩ := exists_last h
  rw [hpeel, idle, idle, List.countP_append, List.countP_append, List.countP_cons_of_pos hidle,
    Nat.add_assoc]

theorem kept_peel_one : (peel 1 segs).filter (fun s => !s.isIdle) = segs.filter fun s => !s.isIdle := by
  rcases List.exists_or_eq_self_of_eraseP Segment.isIdle segs with
    hsame | ⟨s, outer, inner, -, hidle, rfl, hpeel⟩
  · rw [peel, Function.iterate_one, hsame]
  · rw [peel, Function.iterate_one, hpeel, List.filter_append, List.filter_append,
      List.filter_cons_of_neg (by rw [hidle]; decide)]

theorem kept_peel (n : Nat) :
    (peel n segs).filter (fun s => !s.isIdle) = segs.filter fun s => !s.isIdle := by
  induction n generalizing segs with
  | zero => rfl
  | succ n ih => rw [peel_succ, ih, kept_peel_one]

theorem idle_peel {n : Nat} (h : n ≤ idle segs) : idle (peel n segs) + n = idle segs := by
  induction n generalizing segs with
  | zero => rfl
  | succ n ih =>
    have hone : idle (peel 1 segs) + 1 = idle segs := idle_peel_one (by omega)
    have hrest : idle (peel n (peel 1 segs)) + n = idle (peel 1 segs) := ih (by omega)
    rw [peel_succ]
    omega

/-- Without all of its calls without effect, a chain has the others in their order. -/
theorem peel_idle : peel (idle segs) segs = segs.filter fun s => !s.isIdle := by
  have hnone : idle (peel (idle segs) segs) = 0 := by
    have hall := idle_peel (Nat.le_refl (idle segs))
    omega
  rw [← kept_peel (idle segs), List.filter_eq_self.mpr]
  intro s hs
  rw [Bool.not_eq_true', ← Bool.not_eq_true]
  exact List.countP_eq_zero.mp hnone s hs

/-! ## What a round finds -/

theorem callsBare_of_kind {test : TextTest} {p : Place} (h : p.node.kind ≠ .callExpression) :
    d.callsBare test p = false := by
  unfold Document.callsBare Document.callsMethod
  rw [beq_eq_false_iff_ne.mpr h]
  rfl

theorem callsBare_congr {methods : List String} {p q : Place} (h : p.node = q.node) :
    d.callsBare (.oneOf methods) p = d.callsBare (.oneOf methods) q := by
  rw [← Document.callsBare_formOf, ← Document.callsBare_formOf, h]

theorem role_nested : (nested name role segs).role = role := by
  cases segs <;> rfl

theorem range_nested (name : String) (role : Option Field) (segs : List Segment) :
    (nested name role segs).range = (0, (spell name segs).utf8ByteSize) := by
  cases segs <;> rfl

theorem wording_property (hsource : d.source = (spell name (s :: inner) ++ rest).toUTF8) :
    d.wording (propertyOf name s inner) = s.method := by
  refine Document.wording_of_between (spell name inner ++ ".") ("(" ++ s.inside ++ ")" ++ rest) ?_ rfl rfl
  rw [hsource, spell, Segment.text]
  simp only [String.append_assoc]

theorem wording_nested (hsource : d.source = (spell name segs ++ rest).toUTF8) :
    d.wording (nested name role segs) = spell name segs := by
  obtain ⟨hstart, hstop⟩ := Prod.mk.inj (range_nested name role segs)
  refine Document.wording_of_between "" rest ?_ hstart ?_
  · rw [hsource, String.empty_append]
  · rw [hstop, String.empty_append]

theorem callsMethod_nested (test : TextTest) : d.callsMethod test ⟨nested name role (s :: inner), above⟩ =
    test.holds (d.wording (propertyOf name s inner)) := by
  have hproperty : (memberOf name s inner (nested name (some .object) inner)).field? .property =
      some (propertyOf name s inner) := by
    unfold memberOf Node.field?
    change List.find? _ [nested name (some .object) inner, propertyOf name s inner] = _
    rw [List.find?_cons_of_neg (by rw [role_nested]; decide)]
    rfl
  change (Option.any _ (Option.map _
    ((memberOf name s inner (nested name (some .object) inner)).field? .property))) = _
  rw [hproperty]
  rfl

/-- The calls of a chain that a search takes are those that lack effect and whose names it is for. -/
theorem callsBare_nested (hsource : d.source = (spell name (s :: inner) ++ rest).toUTF8) {test : TextTest}
    (hsub : ∀ method, test.holds method = true → method ∈ idleMethods) :
    d.callsBare test ⟨nested name role (s :: inner), above⟩ = (s.isIdle && test.holds s.method) := by
  unfold Document.callsBare
  rw [callsMethod_nested, wording_property hsource]
  cases hholds : test.holds s.method with
  | false => rw [Bool.and_false, Bool.false_and]
  | true =>
    have hidle := isIdle_of_method (hsub _ hholds)
    have harguments : (argumentsOf name s inner).children = [] := parts_of_isIdle hidle _
    rw [hidle]
    change (List.filter _ (List.map _ (List.filter _ (argumentsOf name s inner).children))).isEmpty = true
    rw [harguments]
    rfl

theorem subject?_nested : (⟨nested name role (s :: inner), above⟩ : Place).subject? =
    some ⟨nested name (some .object) inner, memberOf name s inner (nested name (some .object) inner) ::
      nested name role (s :: inner) :: above⟩ := by
  change Option.map _ (List.find? _ [nested name (some .object) inner, propertyOf name s inner]) = _
  rw [List.find?_cons_of_pos (by rw [role_nested]; rfl)]
  rfl

theorem isNamed_nested : (nested name role segs).kind.isNamed = true := by
  cases segs <;> rfl

/-- The nodes around what a call is made on. -/
def around (name : String) (role : Option Field) (s : Segment) (inner : List Segment) (above : List Node) :
    List Node :=
  memberOf name s inner (nested name (some .object) inner) :: nested name role (s :: inner) :: above

theorem walk_nested : Place.walk above (nested name role (s :: inner)) =
    [⟨nested name role (s :: inner), above⟩,
      ⟨memberOf name s inner (nested name (some .object) inner), nested name role (s :: inner) :: above⟩] ++
    Place.walk (around name role s inner above) (nested name (some .object) inner) ++
    [⟨propertyOf name s inner, around name role s inner above⟩,
      ⟨argumentsOf name s inner, nested name role (s :: inner) :: above⟩] ++
    Place.walkAll (argumentsOf name s inner :: nested name role (s :: inner) :: above)
      (s.parts (opened name s inner)) := by
  have hmember : ∀ above, Place.walk above (memberOf name s inner (nested name (some .object) inner)) =
      ⟨memberOf name s inner (nested name (some .object) inner), above⟩ ::
        (Place.walk (memberOf name s inner (nested name (some .object) inner) :: above)
          (nested name (some .object) inner) ++
        [⟨propertyOf name s inner, memberOf name s inner (nested name (some .object) inner) :: above⟩]) := by
    intro above
    rw [memberOf, Place.walk, Place.walkAll, if_pos isNamed_nested]
    rfl
  have harguments : ∀ above, Place.walk above (argumentsOf name s inner) =
      ⟨argumentsOf name s inner, above⟩ ::
        Place.walkAll (argumentsOf name s inner :: above) (s.parts (opened name s inner)) := by
    intro above
    rw [argumentsOf, Place.walk]
  have hcall : Place.walk above (nested name role (s :: inner)) =
      ⟨nested name role (s :: inner), above⟩ ::
        (Place.walk (nested name role (s :: inner) :: above)
            (memberOf name s inner (nested name (some .object) inner)) ++
          (Place.walk (nested name role (s :: inner) :: above) (argumentsOf name s inner) ++ [])) := by
    rw [nested, Place.walk]
    rfl
  rw [hcall, hmember, harguments]
  simp only [around, List.append_assoc, List.cons_append, List.nil_append, List.append_nil]

/-- A search goes on from a call to what the call is made on, for it takes nothing else. -/
theorem filter_walk_nested (hsource : d.source = (spell name (s :: inner) ++ rest).toUTF8)
    (hsilent : Silent d name (s :: inner)) {test : TextTest}
    (hsub : ∀ method, test.holds method = true → method ∈ idleMethods) :
    (Place.walk above (nested name role (s :: inner))).filter (d.callsBare test) =
      (if s.isIdle && test.holds s.method then [⟨nested name role (s :: inner), above⟩] else []) ++
        (Place.walk (around name role s inner above) (nested name (some .object) inner)).filter
            (d.callsBare test) := by
  have hparts : ∀ above, (Place.walkAll above (s.parts (opened name s inner))).filter
      (d.callsBare test) = [] := by
    intro above
    rw [List.filter_eq_nil_iff]
    intro p hp hcalls
    have hnode : p.node ∈ (Place.walkAll [] (s.parts (opened name s inner))).map (·.node) := by
      rw [Place.map_node_walkAll [] above]
      exact List.mem_map_of_mem hp
    obtain ⟨q, hq, hsame⟩ := List.mem_map.mp hnode
    have hidle : d.callsBare (.oneOf idleMethods) p = true := by
      refine Document.callsBare_mono (fun method hmethod => ?_) hcalls
      rw [TextTest.holds_oneOf]
      exact List.contains_iff_mem.mpr (hsub method hmethod)
    rw [← callsBare_congr hsame, hsilent.1 q hq] at hidle
    cases hidle
  have hmember : ∀ above, d.callsBare test
      ⟨memberOf name s inner (nested name (some .object) inner), above⟩ = false := fun _ =>
    callsBare_of_kind (by decide : Kind.memberExpression ≠ .callExpression)
  have hproperty : ∀ above, d.callsBare test ⟨propertyOf name s inner, above⟩ = false := fun _ =>
    callsBare_of_kind (by decide : Kind.propertyIdentifier ≠ .callExpression)
  have harguments : ∀ above, d.callsBare test ⟨argumentsOf name s inner, above⟩ = false := fun _ =>
    callsBare_of_kind (by decide : Kind.arguments ≠ .callExpression)
  rw [walk_nested, List.filter_append, List.filter_append, List.filter_append, hparts, List.append_nil]
  simp only [List.filter_cons, List.filter_nil, hmember, hproperty, harguments,
    callsBare_nested hsource hsub, Bool.false_eq_true, if_false, List.append_nil]

/-- The methods that give way to their receivers in the first half of a round. -/
theorem holds_chained (method : String) :
    (TextTest.oneOf ["first", "hostNodes"]).holds method = true ↔ method ∈ ["first", "hostNodes"] := by
  rw [TextTest.holds_oneOf, List.contains_iff_mem]

theorem chained_idle {method : String} (h : (TextTest.oneOf ["first", "hostNodes"]).holds method = true) :
    method ∈ idleMethods :=
  (by decide : ["first", "hostNodes"] ⊆ idleMethods) ((holds_chained method).mp h)

/-- What is put in the place of a call. -/
def receiverOf (d : Document) (p : Place) : Option String := p.subject?.map fun q => d.wording q.node

theorem replacement_nested (hsource : d.source = (spell name (s :: inner) ++ rest).toUTF8) :
    (⟨nested name role (s :: inner), above⟩ : Place).replacement? (receiverOf d) =
      some ((0, (spell name (s :: inner)).utf8ByteSize), spell name inner) := by
  have hinner : d.source = (spell name inner ++ (s.text ++ rest)).toUTF8 := by
    rw [hsource, spell, String.append_assoc]
  unfold Place.replacement? receiverOf
  rw [subject?_nested, Option.map_some, Option.map_some, wording_nested hinner, range_nested]

theorem walk_name : Place.walk above (nested name role []) = [⟨nested name role [], above⟩] := by
  rw [nested, Place.walk, Place.walkAll]

theorem filter_walk_name {test : TextTest} :
    (Place.walk above (nested name role [])).filter (d.callsBare test) = [] := by
  have hname : d.callsBare test ⟨nested name role [], above⟩ = false :=
    callsBare_of_kind (by decide : Kind.identifier ≠ .callExpression)
  rw [walk_name, List.filter_cons, hname]
  rfl

/-- The calls that a search for `first` and `hostNodes` finds, with what is put in their places. -/
theorem chained_nested (hsource : d.source = (spell name segs ++ rest).toUTF8)
    (hsilent : Silent d name segs) :
    ((Place.walk above (nested name role segs)).filter
      (d.callsBare (.oneOf ["first", "hostNodes"]))).map (·.replacement? (receiverOf d)) =
        (drops name segs).map some := by
  induction segs generalizing role above rest with
  | nil =>
    rw [filter_walk_name]
    rfl
  | cons s inner ih =>
    have hinner : d.source = (spell name inner ++ (s.text ++ rest)).toUTF8 := by
      rw [hsource, spell, String.append_assoc]
    have hholds : s.isIdle = true → (TextTest.oneOf ["first", "hostNodes"]).holds s.method = true :=
      fun hidle => (holds_chained _).mpr (method_of_isIdle hidle)
    rw [filter_walk_nested hsource hsilent fun _ => chained_idle, List.map_append, ih hinner hsilent.2,
      drops, List.map_append]
    congr 1
    cases hidle : s.isIdle with
    | false => rfl
    | true =>
      rw [hholds hidle, Bool.and_true, if_pos rfl, if_pos rfl, List.map_singleton, List.map_singleton,
        replacement_nested hsource]

/-- No `update` is called in a chain. -/
theorem updates_nested (hsource : d.source = (spell name segs ++ rest).toUTF8)
    (hsilent : Silent d name segs) :
    (Place.walk above (nested name role segs)).filter (d.callsBare (.exactly "update")) = [] := by
  have hsub : ∀ method, (TextTest.exactly "update").holds method = true → method = "update" :=
    fun _ hholds => beq_iff_eq.mp hholds
  induction segs generalizing role above rest with
  | nil =>
    exact filter_walk_name
  | cons s inner ih =>
    have hinner : d.source = (spell name inner ++ (s.text ++ rest)).toUTF8 := by
      rw [hsource, spell, String.append_assoc]
    have hother : ¬ (s.isIdle && (TextTest.exactly "update").holds s.method) = true := by
      intro hboth
      obtain ⟨hidle, hholds⟩ := Bool.and_eq_true_iff.mp hboth
      have hmethod := method_of_isIdle hidle
      rw [hsub _ hholds] at hmethod
      exact absurd hmethod (by decide)
    rw [filter_walk_nested hsource hsilent fun method hholds => by rw [hsub method hholds]; decide,
      if_neg hother, List.nil_append, ih hinner hsilent.2]

namespace Holds

/-- A search of the script is one of the chain. -/
theorem filter_places (hd : Holds d name ending segs) (test : TextTest) : ∃ above,
    d.places.filter (d.callsBare test) =
      (Place.walk above (nested name none segs)).filter (d.callsBare test) := by
  obtain ⟨start, stop, first, last, hroot⟩ := hd.root
  have hprogram : d.callsBare test ⟨d.root, []⟩ = false := by
    rw [hroot]
    exact callsBare_of_kind (by decide : Kind.program ≠ .callExpression)
  have hstatement : d.callsBare test
      ⟨.mk none .expressionStatement first last [nested name none segs], [d.root]⟩ = false :=
    callsBare_of_kind (by decide : Kind.expressionStatement ≠ .callExpression)
  have hwalk : d.places = ⟨d.root, []⟩ ::
      ⟨.mk none .expressionStatement first last [nested name none segs], [d.root]⟩ ::
        Place.walk [.mk none .expressionStatement first last [nested name none segs], d.root]
          (nested name none segs) := by
    change Place.walk [] d.root = _
    rw [hroot, Place.walk, Place.walkAll, Place.walkAll, if_pos (by rfl), Place.walk, Place.walkAll,
      Place.walkAll, if_pos isNamed_nested, List.append_nil, List.append_nil]
  rw [hwalk, List.filter_cons, hprogram, List.filter_cons, hstatement]
  exact ⟨_, rfl⟩

theorem size_le (hd : Holds d name ending segs) : (spell name segs).utf8ByteSize ≤ d.source.size := by
  rw [hd.source, String.toUTF8, String.size_toByteArray, String.utf8ByteSize_append]
  exact Nat.le_add_right _ _

/-- The calls that the first half of a round replaces. -/
theorem chained (hd : Holds d name ending segs) :
    d.chained.filterMap (·.replacement? (receiverOf d)) = drops name segs ∧ d.Separate d.chained := by
  obtain ⟨above, hplaces⟩ := hd.filter_places (.oneOf ["first", "hostNodes"])
  have hreplaced : (d.places.filter (d.callsBare (.oneOf ["first", "hostNodes"]))).map
      (·.replacement? (receiverOf d)) = (drops name segs).map some := by
    rw [hplaces]
    exact chained_nested hd.source hd.silent
  obtain ⟨hdrops, hranges⟩ := replacements_eq hreplaced
  have hnodup : ((d.places.filter (d.callsBare (.oneOf ["first", "hostNodes"]))).map
      (·.node.range)).Nodup := by
    rw [hranges]
    refine List.pairwise_map.mpr (drops_shrink.imp ?_)
    intro a b hlt hsame
    rw [hsame] at hlt
    exact Nat.lt_irrefl _ hlt
  have hfound : d.chained = d.places.filter (d.callsBare (.oneOf ["first", "hostNodes"])) :=
    Document.found_eq_filter ((List.pairwise_map.mp hnodup).imp .inl)
  rw [hfound]
  refine ⟨hdrops, hnodup, ?_⟩
  intro p hp
  have hrange : p.node.range ∈ (drops name segs).map Prod.fst := by
    rw [← hranges]
    exact List.mem_map_of_mem hp
  obtain ⟨r, hr, hsame⟩ := List.mem_map.mp hrange
  obtain ⟨hstart, -, hstop⟩ := drops_within r hr
  obtain ⟨hnodeStart, hnodeStop⟩ : p.node.start = r.1.1 ∧ p.node.stop = r.1.2 := by
    rw [hsame]
    exact ⟨rfl, rfl⟩
  have hsize := hd.size_le
  omega

theorem updates (hd : Holds d name ending segs) : d.updates = [] := by
  obtain ⟨above, hplaces⟩ := hd.filter_places (.exactly "update")
  unfold Document.updates
  rw [Document.found_eq_filter] <;> rw [hplaces, updates_nested hd.source hd.silent]
  exact .nil

/-- What a round records is the calls without effect, the last one first. -/
theorem records_round (hd : Holds d name ending segs) :
    Records round d (.open' d.generation) () (.holding d.generation (drops name segs)) := by
  have hbuild : Builds d receiverText (receiverOf d) d.chained := by
    intro p hp
    rw [receiverText_handle hd.legible (Document.within_found hp) (Document.mem_found hp).2]
    unfold receiverOf
    rw [Option.map_map, Function.comp_def]
  have hfound : findAll (calls (.oneOf ["first", "hostNodes"])) d = .ok (d.chained.map d.handle) :=
    findAll_calls hd.legible _
  obtain ⟨n, hchained⟩ := records_replaceAll_holding (quiet_calls _) plain_receiverText hfound hbuild
    hd.chained.2
  rw [hd.chained.1] at hchained
  refine hchained.andThen (records_look_bind (plain_findAll (quiet_calls _))
    (findAll_calls hd.legible _) ?_)
  change Records (do
    for call in d.updates.map d.handle do
      removeUpdate call : Editing Unit) d _ _ _
  rw [hd.updates]
  exact records_pure ()

end Holds

/-! ## What a round applies -/

/-- Of the calls without effect, the last one gives way and the others are deferred. -/
theorem settled_drops {r : Replacement} {rs : List Replacement} {generation : Nat}
    (h : drops name segs = r :: rs) :
    (Batch.holding generation (drops name segs)).settled =
      ([Edit.ofReplacement 0 r], Edit.numbered 1 rs) := by
  have hstarts : ∀ r ∈ drops name segs, r.1.1 = 0 ∧ 0 < r.1.2 := fun r hr =>
    ⟨(drops_within r hr).1, (drops_within r hr).2.1⟩
  have hwide : ∀ r ∈ drops name segs, r.1.1 < r.1.2 := fun r hr => (hstarts r hr).1 ▸ (hstarts r hr).2
  have hleads : (drops name segs).Pairwise fun a b => Stretch.Leads a.1 b.1 := drops_shrink.imp_of_mem
    fun ha hb hlt => .inr ⟨(hstarts _ ha).1.trans (hstarts _ hb).1.symm, hlt⟩
  change Edit.settle 0 (Edit.sorted (Edit.numbered 0 (drops name segs))) = _
  rw [Edit.sorted_numbered hwide hleads, h]
  rw [h] at hstarts
  obtain ⟨⟨-, hpos⟩, hrest⟩ := List.forall_mem_cons.mp hstarts
  have hwithin : ∀ e ∈ Edit.numbered 1 rs, e.start < (Edit.ofReplacement 0 r).stop := by
    intro e he
    obtain ⟨r', hr', hputs⟩ := Edit.mem_numbered he
    rw [hputs.1, (hrest r' hr').1]
    exact hpos
  rw [Edit.numbered, Edit.settle, if_neg (Nat.not_lt_zero _), Nat.zero_add,
    ← List.append_nil (Edit.numbered 1 rs), Edit.settle_within hwithin]
  rfl

/-- The text that a round leaves is that of the chain without its last call without effect. -/
theorem outcome_drops (hsource : d.source = (spell name segs ++ ending).toUTF8) (h : 0 < idle segs)
    {generation : Nat} : (Batch.holding generation (drops name segs)).outcome d.source =
      (spell name (peel 1 segs) ++ ending).toUTF8 := by
  obtain ⟨r, after, hdrops, hpeeled, call, hcall, hrange⟩ := drops_eq_cons name h
  have hstart : r.1.1 = 0 := by rw [hrange]
  have hstop : r.1.2 = call.toByteArray.size := by rw [hrange, String.size_toByteArray]
  unfold Batch.outcome
  rw [settled_drops hdrops]
  change d.source.extract 0 r.1.1 ++ r.2.toUTF8 ++ d.source.extract r.1.2 d.source.size = _
  rw [hstart, ByteArray.extract_same, hsource, ← hcall, ← hpeeled, hstop]
  simp only [String.toUTF8, String.append_assoc, String.toByteArray_append, ByteArray.empty_append]
  rw [ByteArray.extract_append_eq_right rfl (by rw [ByteArray.size_append])]

/-- A round of the pass on a chain that has calls without effect. -/
theorem batched_round (closed : d.batch = none) (hd : Holds d name ending segs) (h : 0 < idle segs)
    {root : Node} (hread : d.read (spell name (peel 1 segs) ++ ending).toUTF8 = .ok root) :
    ∃ b, Document.batched round d =
        .ok ((), b) (d.reread (spell name (peel 1 segs) ++ ending).toUTF8 root) ∧
      b.applied = 1 ∧ (b.deferred = [] ↔ idle segs = 1) := by
  obtain ⟨r, after, hdrops, -⟩ := drops_eq_cons name h
  have hcount := length_drops name segs
  rw [hdrops, List.length_cons] at hcount
  have hsome : (Batch.holding d.generation (drops name segs)).edits ≠ [] := by
    rw [hdrops]
    exact List.cons_ne_nil _ _
  have hrun := Document.batched_of_something made_round closed hd.records_round hsome
    (by rw [outcome_drops hd.source h]; exact hread)
  rw [outcome_drops hd.source h] at hrun
  refine ⟨_, hrun, ?_, ?_⟩
  · unfold Batch.spent
    rw [settled_drops hdrops]
    rfl
  · unfold Batch.spent
    rw [settled_drops hdrops]
    change Edit.numbered 1 _ = [] ↔ _
    rw [← List.length_eq_zero_iff, Edit.length_numbered]
    omega

/-! ## All rounds -/

theorem Silent.congr {d' : Document} (h : d'.source = d.source) (hd : Silent d name segs) :
    Silent d' name segs := by
  have hcalls : ∀ p, d'.callsBare (.oneOf idleMethods) p = d.callsBare (.oneOf idleMethods) p := by
    intro p
    unfold Document.callsBare Document.callsMethod
    rw [Document.wording_congr h]
  induction segs with
  | nil => trivial
  | cons s inner ih => exact ⟨fun p hp => (hcalls p).trans (hd.1 p hp), ih hd.2⟩

theorem Holds.congr {d' : Document} (hd : Holds d name ending segs) (hsource : d'.source = d.source)
    (hroot : d'.root = d.root) : Holds d' name ending segs where
  source := hsource.trans hd.source
  root := hroot ▸ hd.root
  legible := hd.legible.congr hsource hroot
  silent := hd.silent.congr hsource

/-- Each round takes one call, so all of them go if there are rounds enough, and otherwise as many as
there are rounds. The induction is on the rounds. -/
theorem roundsFrom_chain {path : Option String} {read : ByteArray → Except Location Node} (limit : Int)
    (rounds total : Nat) (hparses : ∀ n, Parses path read name ending (peel n segs))
    (closed : d.batch = none) (hread : d.read = read) (hd : Holds d name ending segs) :
    (idle segs ≤ rounds → 0 < rounds → ∃ d', Document.roundsFrom round limit rounds total d =
        .ok (total + idle segs) d' ∧
          d'.source = (spell name (peel (idle segs) segs) ++ ending).toUTF8) ∧
      (rounds < idle segs → ∃ d', Document.roundsFrom round limit rounds total d =
        .error (.transformation s!"Rewrite did not settle after {limit} rounds") d' ∧
          d'.source = (spell name (peel rounds segs) ++ ending).toUTF8) := by
  induction rounds generalizing d segs total with
  | zero => exact ⟨fun _ h => absurd h (Nat.lt_irrefl 0), fun _ => ⟨d, rfl, hd.source⟩⟩
  | succ rounds ih =>
    rcases Nat.eq_zero_or_pos (idle segs) with hnone | hsome
    · -- the one round that there is finds nothing
      have hempty : drops name segs = [] := List.length_eq_zero_iff.mp ((length_drops name segs).trans hnone)
      have hrun := Document.batched_of_nothing made_round closed hd.records_round (by rw [hempty]; rfl)
      refine ⟨fun _ _ => ⟨d, ?_, ?_⟩, fun hlt => absurd hlt (by omega)⟩
      · rw [Document.roundsFrom_last hrun rfl, hnone]
        rfl
      · rw [hnone]
        exact hd.source
    obtain ⟨d₁, hfirst, hd₁⟩ := hparses 1
    have hroot : d.read (spell name (peel 1 segs) ++ ending).toUTF8 = .ok d₁.root := by
      unfold Document.ofBytes at hfirst
      split at hfirst
      · cases hfirst
      · rename_i root hok
        cases hfirst
        rw [hread]
        exact hok
    obtain ⟨b, hrun, happlied, hlast⟩ := batched_round closed hd hsome hroot
    have hafter : Holds (d.reread (spell name (peel 1 segs) ++ ending).toUTF8 d₁.root) name ending
        (peel 1 segs) := hd₁.congr hd₁.source.symm rfl
    have hone := idle_peel_one hsome
    by_cases hdeferred : b.deferred = []
    · have hidle := hlast.mp hdeferred
      refine ⟨fun _ _ => ⟨d.reread (spell name (peel 1 segs) ++ ending).toUTF8 d₁.root, ?_, ?_⟩,
        fun hlt => absurd hlt (by omega)⟩
      · rw [Document.roundsFrom_last hrun hdeferred, happlied, hidle]
      · rw [hidle]
        exact hafter.source
    · have hmany : idle segs ≠ 1 := fun hidle => hdeferred (hlast.mpr hidle)
      have hlater : ∀ n, Parses path read name ending (peel n (peel 1 segs)) := fun n => hparses (n + 1)
      have hclosed : (d.reread (spell name (peel 1 segs) ++ ending).toUTF8 d₁.root).batch = none := closed
      obtain ⟨hall, hmost⟩ := ih (total + b.applied) hlater hclosed hread hafter
      rw [Document.roundsFrom_more hrun hdeferred]
      constructor
      · intro hle hpos
        obtain ⟨d', hrest, hsource⟩ := hall (by omega) (by omega)
        refine ⟨d', ?_, ?_⟩
        · rw [hrest, happlied, ← hone, Nat.add_assoc, Nat.add_comm 1]
        · rw [hsource, ← peel_succ, hone]
      · intro hlt
        obtain ⟨d', hrest, hsource⟩ := hmost (by omega)
        exact ⟨d', hrest, hsource⟩

/-- On a chain that is a statement the pass drops the calls without effect and keeps the others in their
order, as long as there are no more of them than rounds. If there are more, it fails when it has taken
away as many as there are rounds, the last ones. -/
theorem removeIdle_chain {path file : Option String} {read : ByteArray → Except Location Node}
    (hparses : ∀ n, Parses path read name ending (peel n segs))
    (hd : Document.ofBytes path read (spell name segs ++ ending).toUTF8 = .ok d) :
    (idle segs ≤ 50 → ∃ s, removeIdle ⟨d, file, []⟩ = .ok (idle segs) s ∧
      s.document.source = (spell name (segs.filter fun s => !s.isIdle) ++ ending).toUTF8) ∧
    (50 < idle segs → ∃ s, removeIdle ⟨d, file, []⟩ =
        .error (.transformation "Rewrite did not settle after 50 rounds") s ∧
      s.document.source = (spell name (peel 50 segs) ++ ending).toUTF8 ∧
      idle (peel 50 segs) + 50 = idle segs ∧
      (peel 50 segs).filter (fun s => !s.isIdle) = segs.filter fun s => !s.isIdle) := by
  obtain ⟨d', hd', hholds⟩ := hparses 0
  cases hd.symm.trans hd'
  have hread : d.read = read := by
    unfold Document.ofBytes at hd
    split at hd
    · cases hd
    · cases hd
      rfl
  obtain ⟨hall, hmost⟩ := roundsFrom_chain Document.roundLimit 50 0 hparses
    (Document.sound_of_ofBytes hd).2 hread hholds
  rw [removeIdle_eq]
  constructor
  · intro hle
    obtain ⟨d', hrun, hsource⟩ := hall hle (by decide)
    refine ⟨⟨d', file, []⟩, ?_, by rw [← peel_idle]; exact hsource⟩
    rw [Nat.zero_add] at hrun
    unfold Pass.lift Document.untilStable
    rw [show Document.roundLimit.toNat = 50 from rfl]
    dsimp only
    rw [hrun]
  · intro hlt
    obtain ⟨d', hrun, hsource⟩ := hmost hlt
    refine ⟨⟨d', file, []⟩, ?_, hsource, idle_peel hlt.le, kept_peel 50⟩
    unfold Pass.lift Document.untilStable
    rw [show Document.roundLimit.toNat = 50 from rfl]
    dsimp only
    rw [hrun]
    rfl

/-- A script that is read as the tree of a chain. -/
theorem parses_of_root (stop : Nat) (hsilent : ∀ d, Silent d name segs)
    (h : (Document.ofString none (spell name segs ++ ending)).toOption.map (·.root) =
      some (.mk none .program 0 stop [.mk none .expressionStatement 0 stop [nested name none segs]])) :
    Parses none (Script.parse .tsx) name ending segs := by
  obtain ⟨d, hd, hroot⟩ := exists_of_toOption_map h
  exact ⟨d, hd, (Conversion.ofString_ok hd).2, ⟨_, _, _, _, hroot⟩, Document.legible_ofString hd, hsilent d⟩

/-- The call `at(0)`. -/
def position : Segment :=
  .other "at" "0" (fun offset => [.mk none .number (offset + 1) (offset + 2) []]) (by decide)

theorem silent_position (d : Document) (offset : Nat) :
    ∀ p ∈ Place.walkAll [] (position.parts offset), d.callsBare (.oneOf idleMethods) p = false := by
  intro p hp
  cases List.mem_singleton.mp hp
  exact callsBare_of_kind (by decide : Kind.number ≠ .callExpression)

theorem removeIdle_chain_position :
    ∃ d s, Document.ofBytes none (Script.parse .tsx) "w.hostNodes().at(0).first();".toUTF8 = .ok d ∧
      (∀ n, Parses none (Script.parse .tsx) "w" ";" (peel n [.first, position, .hostNodes])) ∧
      removeIdle ⟨d, none, []⟩ = .ok 2 s ∧ s.document.source = "w.at(0);".toUTF8 := by
  have hparses : ∀ n, Parses none (Script.parse .tsx) "w" ";" (peel n [.first, position, .hostNodes]) := by
    have hlater : ∀ n, peel n [position] = [position] := by
      intro n
      induction n with
      | zero => rfl
      | succ n ih => exact ih
    intro n
    rcases n with _ | _ | n
    · refine parses_of_root 28 (fun d => ⟨nofun, silent_position d _, nofun, trivial⟩) ?_
      decide +kernel
    · refine parses_of_root 20 (fun d => ⟨silent_position d _, nofun, trivial⟩) ?_
      decide +kernel
    · rw [show peel (n + 2) [.first, position, .hostNodes] = peel n [position] from rfl, hlater]
      refine parses_of_root 8 (fun d => ⟨silent_position d _, trivial⟩) ?_
      decide +kernel
  obtain ⟨d, hd, -⟩ := hparses 0
  obtain ⟨s, hrun, hsource⟩ := (removeIdle_chain hparses hd).1 (by decide)
  exact ⟨d, s, hd, hparses, hrun, hsource⟩

end Chain

end TestMigration
