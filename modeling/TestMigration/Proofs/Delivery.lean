import Mathlib.Data.List.Count
import TestMigration.Proofs.Leaves
import TestMigration.Run.Bus

/-! Who is called when handlers are at work on the bus themselves. A handler may register handlers and
take them back, publish notices of its own, to which it may be called again before it is through, and
fail at any point. Whatever happens in between, a notice goes to the handlers that were registered when
it was published. -/

namespace TestMigration

/-! ## Registrations -/

namespace Bus

/-- What is asked of a bus. -/
inductive Request (κ : Type) where
  | subscribe (kind : EventKind) (handler : κ)
  | unsubscribe (kind : EventKind) (handler : κ)
  | clear (kind : Option EventKind)

variable {κ : Type} [DecidableEq κ]

def answer (b : Bus κ) : Request κ → Bus κ
  | .subscribe kind handler => b.subscribe kind handler
  | .unsubscribe kind handler => b.unsubscribe kind handler
  | .clear kind => b.clear kind

/-- The handlers of a kind, one for each of its registrations and in their order. -/
structure Lists (b : Bus κ) (kind : EventKind) (handlers : List κ) : Prop where
  ordered : (handlers.map (kind, ·)).Sublist b.registered
  each : ∀ handler, handlers.count handler = b.registered.count (kind, handler)

/-- The earliest registration of a handler for a kind is gone, if there was one, and nothing else. -/
inductive Removes (kind : EventKind) (handler : κ) (b : Bus κ) : Bus κ → Prop where
  | earliest (before after : List (EventKind × κ))
      (registered : b.registered = before ++ (kind, handler) :: after)
      (first : (kind, handler) ∉ before) : Removes kind handler b ⟨before ++ after⟩
  | absent (unregistered : (kind, handler) ∉ b.registered) : Removes kind handler b b

theorem lists_handlers (b : Bus κ) (kind : EventKind) : b.Lists kind (b.handlers kind) := by
  have hlisted : (b.handlers kind).map (kind, ·) = b.registered.filter (·.1 == kind) := by
    unfold handlers
    rw [List.map_map]
    refine (List.map_congr_left fun r hr => ?_).trans (List.map_id _)
    have hkind : r.1 = kind := by simpa using (List.mem_filter.mp hr).2
    rw [← hkind]
    rfl
  refine ⟨hlisted ▸ List.filter_sublist, fun handler => ?_⟩
  have hpair : Function.Injective fun h : κ => (kind, h) := fun h h' he => (Prod.mk.inj he).2
  rw [← List.count_map_of_injective _ _ hpair, hlisted, List.count_filter (by simp)]

theorem removes_unsubscribe (b : Bus κ) (kind : EventKind) (handler : κ) :
    b.Removes kind handler (b.unsubscribe kind handler) := by
  unfold unsubscribe
  by_cases hmem : (kind, handler) ∈ b.registered
  · obtain ⟨before, after, hfirst, hregistered, herase⟩ := List.exists_erase_eq hmem
    rw [herase]
    exact .earliest before after hregistered hfirst
  · rw [List.erase_of_not_mem hmem]
    exact .absent hmem

end Bus

/-! ## Handlers -/

/-- What a handler does once it is called, one thing after the other. It may look at all that has
happened on the desk so far and go on as it finds it. -/
inductive Conduct (κ : Type) where
  | done
  | fail (e : Failure)
  | ask (request : Bus.Request κ) (next : Conduct κ)
  | publish (n : Notice) (next : Conduct κ)
  | look (next : Desk κ → Conduct κ)

/-- Something that happened: a request changed the registrations, a notice was published to the handlers
that were told, or a handler was called. -/
inductive Mark (κ : Type) where
  | answered (before : Bus κ) (request : Bus.Request κ) (after : Bus κ)
  | published (before : Bus κ) (n : Notice) (told : List κ)
  | called (handler : κ) (n : Notice)

def Mark.call? {κ : Type} : Mark κ → Option (κ × EventKind)
  | called handler n => some (handler, n.kind)
  | _ => none

namespace Desk

variable {κ : Type} [DecidableEq κ]

/-- The call of a handler is noted down. -/
def noting (d : Desk κ) (handler : κ) (n : Notice) : Desk κ :=
  { d with calls := d.calls ++ [(handler, n.kind)] }

/-- A handler that was called has come to an end. -/
def ending (d : Desk κ) (n : Notice) : Except Failure Unit → Desk κ
  | .ok () => d
  | .error e => d.record .error s!"Event handler error for {n.kind.name}: {e.shown}"

end Desk

namespace Conduct

variable {κ : Type} [DecidableEq κ]

/-- `tell` is how a notice is published. -/
def run (tell : Notice → Desk κ → Desk κ) : Conduct κ → EStateM Failure (Desk κ) Unit
  | done => pure ()
  | fail e => throw e
  | ask request next => do
    modify fun d => { d with bus := d.bus.answer request }
    next.run tell
  | publish n next => do
    modify (tell n)
    next.run tell
  | look next => do
    let d ← get
    (next d).run tell

end Conduct

/-- Handlers with these habits, as calls within calls go so deep and no deeper: a call that is
`depth` calls down fails at once. -/
def reactTo {κ : Type} [DecidableEq κ] (habits : κ → Notice → Conduct κ) (tooDeep : Failure) :
    Nat → κ → Notice → EStateM Failure (Desk κ) Unit
  | 0, _, _ => throw tooDeep
  | depth + 1, handler, n => (habits handler n).run (Desk.publish (reactTo habits tooDeep depth))

/-! ## What happens -/

section Course

variable {κ : Type} [DecidableEq κ] (habits : κ → Notice → Conduct κ) (tooDeep : Failure)

mutual

/-- What happens on a desk while something is done, how that ends and the desk it leaves. Whom a
notice is told is left open. -/
inductive Unfolds : Conduct κ → Desk κ → List (Mark κ) → Except Failure Unit → Desk κ → Prop where
  | done (d : Desk κ) : Unfolds .done d [] (.ok ()) d
  | fail (e : Failure) (d : Desk κ) : Unfolds (.fail e) d [] (.error e) d
  | ask {request : Bus.Request κ} {next : Conduct κ} {d d' : Desk κ} {marks : List (Mark κ)}
      {x : Except Failure Unit}
      (goesOn : Unfolds next { d with bus := d.bus.answer request } marks x d') :
      Unfolds (.ask request next) d (.answered d.bus request (d.bus.answer request) :: marks) x d'
  | publish {n : Notice} {told : List κ} {next : Conduct κ} {d d₁ d' : Desk κ}
      {marks more : List (Mark κ)} {x : Except Failure Unit} (delivery : Delivers n told d marks d₁)
      (goesOn : Unfolds next d₁ more x d') :
      Unfolds (.publish n next) d (.published d.bus n told :: marks ++ more) x d'
  | look {next : Desk κ → Conduct κ} {d d' : Desk κ} {marks : List (Mark κ)} {x : Except Failure Unit}
      (goesOn : Unfolds (next d) d marks x d') : Unfolds (.look next) d marks x d'

/-- What happens while handlers are called one after the other, each when the one before it has come
to an end. -/
inductive Delivers : Notice → List κ → Desk κ → List (Mark κ) → Desk κ → Prop where
  | nil (n : Notice) (d : Desk κ) : Delivers n [] d [] d
  | call {n : Notice} {handler : κ} {rest : List κ} {d d₁ d' : Desk κ} {marks more : List (Mark κ)}
      {x : Except Failure Unit} (conduct : Unfolds (habits handler n) (d.noting handler n) marks x d₁)
      (others : Delivers n rest (d₁.ending n x) more d') :
      Delivers n (handler :: rest) d (.called handler n :: marks ++ more) d'
  | tooDeep {n : Notice} {handler : κ} {rest : List κ} {d d' : Desk κ} {more : List (Mark κ)}
      (others : Delivers n rest ((d.noting handler n).ending n (.error tooDeep)) more d') :
      Delivers n (handler :: rest) d (.called handler n :: more) d'

end

end Course

/-- What holds of a thing that happens on its own: a notice is told exactly the handlers registered for
its kind, and a request takes from the registrations and adds to them just what it is for. -/
def Mark.Exact {κ : Type} [DecidableEq κ] : Mark κ → Prop
  | .answered before (.subscribe kind handler) after =>
    after.registered = before.registered ++ [(kind, handler)]
  | .answered before (.unsubscribe kind handler) after => before.Removes kind handler after
  | .answered before (.clear kind) after =>
    after.registered = before.registered.filter fun r => kind.any (r.1 != ·)
  | .published before n told => before.Lists n.kind told
  | .called _ _ => True

variable {κ : Type} [DecidableEq κ] {habits : κ → Notice → Conduct κ} {tooDeep : Failure}
  {d d₁ d' : Desk κ} {marks more : List (Mark κ)}

/-- Each thing that happened was as it should be, and the desk has noted down just the calls among
them. -/
structure Accurate (d : Desk κ) (marks : List (Mark κ)) (d' : Desk κ) : Prop where
  exact : ∀ m ∈ marks, m.Exact
  calls : d'.calls = d.calls ++ marks.filterMap Mark.call?

namespace Accurate

theorem nil (d : Desk κ) : Accurate d [] d := ⟨List.forall_mem_nil _, (List.append_nil _).symm⟩

theorem append (h : Accurate d marks d₁) (h' : Accurate d₁ more d') : Accurate d (marks ++ more) d' := by
  refine ⟨?_, ?_⟩
  · intro m hm
    exact (List.mem_append.mp hm).elim (h.exact m) (h'.exact m)
  · rw [h'.calls, h.calls, List.filterMap_append, List.append_assoc]

/-- A thing that is no call. -/
theorem cons {m : Mark κ} (hm : m.Exact) (hcall : m.call? = none) (h : Accurate d₁ marks d')
    (hd : d₁.calls = d.calls) : Accurate d (m :: marks) d' := by
  refine ⟨List.forall_mem_cons.mpr ⟨hm, h.exact⟩, ?_⟩
  rw [h.calls, hd, List.filterMap_cons_none hcall]

theorem call {handler : κ} {n : Notice} (h : Accurate (d.noting handler n) marks d') :
    Accurate d (.called handler n :: marks) d' := by
  refine ⟨List.forall_mem_cons.mpr ⟨trivial, h.exact⟩, ?_⟩
  rw [h.calls, Desk.noting, List.append_assoc]
  rfl

theorem ending (h : Accurate d marks d') (n : Notice) (x : Except Failure Unit) :
    Accurate d marks (d'.ending n x) := by
  cases x with
  | ok _ => exact h
  | error e => exact ⟨h.exact, h.calls⟩

end Accurate

theorem Bus.exact_answer (b : Bus κ) (request : Bus.Request κ) :
    (Mark.answered b request (b.answer request)).Exact := by
  cases request with
  | subscribe kind handler => rfl
  | unsubscribe kind handler => exact b.removes_unsubscribe kind handler
  | clear kind =>
    cases kind with
    | some kind => rfl
    | none => simp [Mark.Exact, Bus.answer, Bus.clear]

/-! ## Runs -/

/-- Notices that are told go to the handlers that are registered when they are told. -/
def Exactly (habits : κ → Notice → Conduct κ) (tooDeep : Failure) (tell : Notice → Desk κ → Desk κ) :
    Prop :=
  ∀ n d, ∃ marks, Delivers habits tooDeep n (d.bus.handlers n.kind) d marks (tell n d) ∧
    Accurate d marks (tell n d)

/-- Whatever a handler does, if the notices it publishes are told exactly. -/
theorem Conduct.unfolds {tell : Notice → Desk κ → Desk κ} (exactly : Exactly habits tooDeep tell)
    (c : Conduct κ) (d : Desk κ) :
    ∃ marks x d', Leaves (c.run tell) d x d' ∧ Unfolds habits tooDeep c d marks x d' ∧
      Accurate d marks d' := by
  induction c generalizing d with
  | done => exact ⟨[], .ok (), d, rfl, .done d, .nil d⟩
  | fail e => exact ⟨[], .error e, d, rfl, .fail e d, .nil d⟩
  | ask request next ih =>
    obtain ⟨marks, x, d', hleaves, hunfolds, haccurate⟩ := ih { d with bus := d.bus.answer request }
    exact ⟨_, x, d', hleaves, .ask hunfolds, haccurate.cons (d.bus.exact_answer request) rfl rfl⟩
  | publish n next ih =>
    obtain ⟨marks, hdelivers, hmarks⟩ := exactly n d
    obtain ⟨more, x, d', hleaves, hunfolds, hmore⟩ := ih (tell n d)
    have hlists : (Mark.published d.bus n (d.bus.handlers n.kind)).Exact := d.bus.lists_handlers n.kind
    exact ⟨_, x, d', hleaves, .publish hdelivers hunfolds,
      (hmarks.append hmore).cons hlists rfl rfl⟩
  | look next ih =>
    obtain ⟨marks, x, d', hleaves, hunfolds, haccurate⟩ := ih d d
    exact ⟨marks, x, d', hleaves, .look hunfolds, haccurate⟩

/-- A handler is called: it acts, or it is too many calls down. -/
inductive Reacts (habits : κ → Notice → Conduct κ) (tooDeep : Failure) (handler : κ) (n : Notice)
    (d : Desk κ) : List (Mark κ) → Except Failure Unit → Desk κ → Prop where
  | acts {marks : List (Mark κ)} {x : Except Failure Unit} {d' : Desk κ}
      (conduct : Unfolds habits tooDeep (habits handler n) d marks x d') :
      Reacts habits tooDeep handler n d marks x d'
  | tooDeep : Reacts habits tooDeep handler n d [] (.error tooDeep) d

theorem Reacts.delivers {n : Notice} {handler : κ} {rest : List κ} {x : Except Failure Unit}
    (h : Reacts habits tooDeep handler n (d.noting handler n) marks x d₁)
    (others : Delivers habits tooDeep n rest (d₁.ending n x) more d') :
    Delivers habits tooDeep n (handler :: rest) d (.called handler n :: marks ++ more) d' := by
  cases h with
  | acts conduct => exact .call conduct others
  | tooDeep => exact .tooDeep others

omit [DecidableEq κ] in
theorem Desk.call_of_leaves {react : κ → Notice → EStateM Failure (Desk κ) Unit} {n : Notice} {handler : κ}
    {x : Except Failure Unit} (h : Leaves (react handler n) (d.noting handler n) x d') :
    d.call react n handler = d'.ending n x := by
  have hrun : react handler n { d with calls := d.calls ++ [(handler, n.kind)] } = _ := h
  unfold Desk.call
  dsimp only
  rw [hrun]
  cases x <;> rfl

/-- Handlers that are called one after the other. -/
theorem Desk.calls_deliver {react : κ → Notice → EStateM Failure (Desk κ) Unit}
    (hreact : ∀ handler n d, ∃ marks x d', Leaves (react handler n) d x d' ∧
      Reacts habits tooDeep handler n d marks x d' ∧ Accurate d marks d')
    (n : Notice) (told : List κ) (d : Desk κ) :
    ∃ marks, Delivers habits tooDeep n told d marks (told.foldl (call react n) d) ∧
      Accurate d marks (told.foldl (call react n) d) := by
  induction told generalizing d with
  | nil => exact ⟨[], .nil n d, .nil d⟩
  | cons handler rest ih =>
    obtain ⟨marks, x, d₁, hleaves, hreacts, haccurate⟩ := hreact handler n (d.noting handler n)
    obtain ⟨more, hdelivers, hmore⟩ := ih (d₁.ending n x)
    rw [List.foldl_cons, call_of_leaves hleaves]
    exact ⟨_, hreacts.delivers hdelivers, (haccurate.ending n x).call.append hmore⟩

/-- However deep calls within calls may go. -/
theorem exactly_publish (habits : κ → Notice → Conduct κ) (tooDeep : Failure) (depth : Nat) :
    Exactly habits tooDeep (Desk.publish (reactTo habits tooDeep depth)) := by
  induction depth with
  | zero =>
    intro n d
    exact Desk.calls_deliver (fun handler n d => ⟨[], .error tooDeep, d, rfl, .tooDeep, .nil d⟩) n _ d
  | succ depth ih =>
    intro n d
    refine Desk.calls_deliver (fun handler n d => ?_) n _ d
    obtain ⟨marks, x, d', hleaves, hunfolds, haccurate⟩ := (habits handler n).unfolds ih d
    exact ⟨marks, x, d', hleaves, .acts hunfolds, haccurate⟩

/-- Delivery is exact. Whatever is done with a bus and whatever its handlers do when they are called,
with calls within calls: each notice that is published is told to the handlers registered for its kind
at that moment, once for each registration and in their order; to take a registration back takes
the earliest and nothing else; and the calls on the desk are just those that were made this way. -/
theorem delivery_exact (habits : κ → Notice → Conduct κ) (tooDeep : Failure) (depth : Nat)
    (c : Conduct κ) (d : Desk κ) :
    ∃ marks x d', Leaves (c.run (Desk.publish (reactTo habits tooDeep depth))) d x d' ∧
      Unfolds habits tooDeep c d marks x d' ∧ (∀ m ∈ marks, m.Exact) ∧
      d'.calls = d.calls ++ marks.filterMap Mark.call? := by
  obtain ⟨marks, x, d', hleaves, hunfolds, haccurate⟩ :=
    c.unfolds (exactly_publish habits tooDeep depth) d
  exact ⟨marks, x, d', hleaves, hunfolds, haccurate.exact, haccurate.calls⟩

/-- The first time `0` is called it takes `1` back, publishes the notice again and fails; later on it
registers `2`. -/
def disturbs (handler : Nat) (n : Notice) : Conduct Nat :=
  .look fun d =>
    if handler ≠ 0 then .done
    else if d.calls.length ≤ 1 then
      .ask (.unsubscribe n.kind 1) (.publish n (.fail (.of .runtime "disturbed")))
    else .ask (.subscribe n.kind 2) .done

example :
    let n : Notice := ⟨0, ⟨default, .stepStarted "parse" "ParseSourceStep"⟩, 0, by decide⟩
    let d := Desk.publish (reactTo disturbs (.of .runtime "too deep") 2) n
      ⟨⟨[(.stepStarted, 0), (.stepStarted, 1), (.stepStarted, 0)]⟩, [], []⟩
    d.calls.map (·.1) = [0, 0, 0, 1, 0] ∧ d.bus.handlers .stepStarted = [0, 0, 2, 2, 2] := by
  decide

end TestMigration
