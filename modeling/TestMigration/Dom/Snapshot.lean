import TestMigration.Dom.Query
import TestMigration.Value
import TestMigration.Failure

/-! Snapshots of a rendered page. For an element that a selector picks out, a snapshot names
a query that finds it: by its test id, by its role or by its text. -/

namespace TestMigration

structure Snapshot where
  nodes : List DomNode

namespace Snapshot

def ofMarkup (html : String) : Snapshot := ⟨DomNode.ofMarkup html⟩

def elements (s : Snapshot) : List Spot := (Spot.page s.nodes).descendants

/-- Number of elements. -/
def size (s : Snapshot) : Nat := s.elements.length

/-- The elements that a selector matches, in document order. A text that is no selector
matches nothing. -/
def select (s : Snapshot) (selector : String) : Except Failure (List Spot) :=
  if Blank.trim selector == "" then .ok []
  else match Query.parse selector with
    | .ok condition => .ok (s.elements.filter condition.holds)
    | .error .malformed => .ok []
    | .error .unsupported => .error (.of .unsupported "the selector asks for more than elements")

/-- Roles that tags have without saying so. -/
def implicitRole? : String → Option String
  | "article" => some "article"
  | "button" => some "button"
  | "dialog" => some "dialog"
  | "form" => some "form"
  | "h1" | "h2" | "h3" | "h4" | "h5" | "h6" => some "heading"
  | "hr" => some "separator"
  | "img" => some "img"
  | "li" => some "listitem"
  | "nav" => some "navigation"
  | "option" => some "option"
  | "progress" => some "progressbar"
  | "select" => some "combobox"
  | "textarea" => some "textbox"
  | "tr" => some "row"
  | _ => none

/-- Roles of input elements by their type. -/
def inputRole? : String → Option String
  | "checkbox" => some "checkbox"
  | "radio" => some "radio"
  | "range" => some "slider"
  | "number" => some "spinbutton"
  | "search" => some "searchbox"
  | "button" | "submit" | "reset" => some "button"
  | "text" | "email" | "tel" | "url" => some "textbox"
  | _ => none

/-- What is put into a query for a value. -/
def shown : AttributeValue → String
  | .single s => s
  | .several items => (Value.ofStrings items).shown

/-- Empty values count as absent. -/
def isGiven : AttributeValue → Bool
  | .single s => s != ""
  | .several items => !items.isEmpty

/-- The role that an element states, else the one its tag has. -/
def roleOf? (e : Spot) : Option String :=
  let stated := (e.attribute? "role").filter isGiven
  match stated with
  | some role => some (shown role)
  | none =>
    match e.name with
    | "a" => if (e.attribute? "href").isSome then some "link" else none
    | "input" => inputRole? (((e.attribute? "type").map shown).getD "text")
    | name => implicitRole? name

/-- The query for an element, if it has a test id, a role or a text. -/
def queryFor? (attr : String) (e : Spot) : Option String :=
  match (e.attribute? attr).filter isGiven with
  | some testId => some s!"screen.getByTestId('{shown testId}')"
  | none =>
    match roleOf? e with
    | some role => some s!"screen.getByRole('{role}')"
    | none => if e.text == "" then none else some s!"screen.getByText('{e.text}')"

/-- A query for the first element that a selector matches. -/
def suggest? (s : Snapshot) (selector attr : String) : Except Failure (Option String) := do
  return (← s.select selector).head?.bind (queryFor? attr)

end Snapshot

end TestMigration
