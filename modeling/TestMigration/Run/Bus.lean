import TestMigration.Run.Event

/-! Who is told of which events. Handlers are registered for a kind of event; a handler that is
registered twice is told twice. Each notice goes to the handlers that are registered at the
moment it is published, in the order of registration, whatever they do to the registrations and
whether they fail or not. -/

namespace TestMigration

inductive LogLevel where
  | debug
  | info
  | warning
  | error
  deriving DecidableEq, Repr, Inhabited

def LogLevel.name : LogLevel → String
  | debug => "DEBUG"
  | info => "INFO"
  | warning => "WARNING"
  | error => "ERROR"

structure LogRecord where
  level : LogLevel
  text : String
  deriving DecidableEq, Repr, Inhabited

/-- Registrations, the earliest first. -/
structure Bus (κ : Type) where
  registered : List (EventKind × κ) := []

namespace Bus

variable {κ : Type} [DecidableEq κ]

def subscribe (b : Bus κ) (kind : EventKind) (handler : κ) : Bus κ :=
  ⟨b.registered ++ [(kind, handler)]⟩

/-- Take back the earliest registration of a handler for a kind, if there is one. -/
def unsubscribe (b : Bus κ) (kind : EventKind) (handler : κ) : Bus κ :=
  ⟨b.registered.erase (kind, handler)⟩

omit [DecidableEq κ] in
def handlers (b : Bus κ) (kind : EventKind) : List κ :=
  (b.registered.filter (·.1 == kind)).map (·.2)

omit [DecidableEq κ] in
def count (b : Bus κ) (kind : EventKind) : Nat := (b.handlers kind).length

omit [DecidableEq κ] in
/-- Forget the registrations for one kind, or all of them. -/
def clear (b : Bus κ) : Option EventKind → Bus κ
  | some kind => ⟨b.registered.filter (·.1 != kind)⟩
  | none => ⟨[]⟩

def subscribeAll (b : Bus κ) (kinds : List EventKind) (handler : κ) : Bus κ :=
  kinds.foldl (·.subscribe · handler) b

def unsubscribeAll (b : Bus κ) (kinds : List EventKind) (handler : κ) : Bus κ :=
  kinds.foldl (·.unsubscribe · handler) b

end Bus

/-- The registrations, the calls that were made and the log. -/
structure Desk (κ : Type) where
  bus : Bus κ := {}
  calls : List (κ × EventKind) := []
  log : List LogRecord := []

namespace Desk

variable {κ : Type}

def record (level : LogLevel) (text : String) (d : Desk κ) : Desk κ :=
  { d with log := d.log ++ [⟨level, text⟩] }

/-- Call one handler. Its failure is logged and stops nothing. -/
def call (react : κ → Notice → EStateM Failure (Desk κ) Unit) (n : Notice) (d : Desk κ)
    (handler : κ) : Desk κ :=
  let d := { d with calls := d.calls ++ [(handler, n.kind)] }
  match react handler n d with
  | .ok () d => d
  | .error e d => d.record .error s!"Event handler error for {n.kind.name}: {e.shown}"

/-- Tell every handler that is registered now; `react` is what a handler does. -/
def publish (react : κ → Notice → EStateM Failure (Desk κ) Unit) (n : Notice) (d : Desk κ) :
    Desk κ :=
  (d.bus.handlers n.kind).foldl (call react n) d

end Desk

end TestMigration
