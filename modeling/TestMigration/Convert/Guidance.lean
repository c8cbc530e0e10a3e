import TestMigration.Convert.Selector
import TestMigration.Dom.Snapshot

/-! Guidance for calls that cannot be converted: what to write in their place, as a comment
of one line. -/

namespace TestMigration

/-- Advice is a fixed text, or speaks of the call's argument at one place. -/
inductive Advice where
  | fixed (s : String)
  | around (before after : String)

namespace Advice

def text (argument : String) : Advice → String
  | fixed s => s
  | around before after => before ++ argument ++ after

end Advice

namespace Guidance

/-- Every comment begins with it. -/
def marker : String := "// Conversion suggestion:"

/-- Advice on the methods of a wrapper. -/
def ofMethod : String → Advice
  | "setState" =>
    .around "You need to simulate a user interaction or use a hook to change the state to " "."
  | "setProps" =>
    .around ("Call rerender(<Component \x7b...newProps\x7d />) from the render result with the " ++
      "new props ") "."
  | "setContext" =>
    .around "Wrap the component in its context provider with the value " " and render it again."
  | "prop" =>
    .around "Consider querying the element and checking its property "
      " using screen.getBy... or screen.queryBy...."
  | "props" =>
    .fixed "Assert on what the props produce in the DOM instead of reading them from the wrapper."
  | "state" =>
    .around ("You need to query the DOM and assert the state changes by checking the element's " ++
      "attributes or text content for ") "."
  | "ref" =>
    .around "Query the element the ref points at with screen.getBy... instead of reading ref " "."
  | "context" =>
    .around "Assert on the rendered output of the context value " " rather than reading it."
  | "contains" =>
    .around "Use screen.getByText or screen.queryByText to check if the element contains " "."
  | "containsMatchingElement" =>
    .around ("Use screen.queryBy... to find elements and then compare their structure with the " ++
      "expected output ") "."
  | "containsAllMatchingElements" =>
    .around "Use screen.getAllBy... and assert every expected element " " is present."
  | "containsAnyMatchingElements" =>
    .around "Use screen.queryAllBy... and assert at least one of " " is present."
  | "findWhere" =>
    .around ("Use screen.getBy... or screen.queryBy... with a custom matcher function to find " ++
      "elements conditionally matching ") "."
  | "filterWhere" =>
    .around "Use screen.getAllBy... and filter the returned elements with " "."
  | "matchesElement" =>
    .around ("Use screen.getBy... or screen.queryBy... to find elements and then compare them " ++
      "with the expected output ") "."
  | "equals" =>
    .around "Compare the rendered DOM with toEqual or a snapshot instead of comparing wrappers to "
      "."
  | "instance" =>
    .fixed "Avoid testing implementation details. Focus on the component's output and behavior."
  | "name" =>
    .around "Use screen.getByRole to find elements by their role " "."
  | "debug" =>
    .fixed "Use screen.debug() to print the DOM structure."
  | "getElement" =>
    .around ("Use screen.getBy... or screen.queryBy... to access the element directly. Consider " ++
      "checking for ") "."
  | "getElements" =>
    .around ("Use screen.getAllBy... or screen.queryAllBy... to access multiple elements directly " ++
      "matching ") "."
  | "getDOMNode" =>
    .fixed "Use screen.getBy... or screen.queryBy... to get the DOM node."
  | "hasClass" =>
    .around "Use expect(element).toHaveClass(" ") to check if an element has a specific class."
  | "html" =>
    .fixed "Use the container from the render result and read container.innerHTML."
  | "text" =>
    .fixed "Use screen.getByText to get the text content of the element."
  | "render" =>
    .fixed "The render result has no render method; query the DOM with screen instead."
  | "rerender" =>
    .around "Use rerender from the render result with the updated element " "."
  | "unmount" =>
    .fixed "Use unmount from the render result."
  | "mount" =>
    .fixed "Render the component again with render(...) instead of mounting the wrapper."
  | "wrapper" =>
    .fixed ("Focus on querying and interacting with the rendered output rather than the wrapper " ++
      "itself.")
  | "children" =>
    .fixed "Query the child elements directly with screen.getAllBy... or within(element)."
  | "parent" =>
    .fixed "Use element.parentElement on the queried DOM node."
  | "closest" =>
    .around "Use element.closest(" ") on the queried DOM node."
  | "at" =>
    .around "Use screen.getAllBy...()[" "] to pick one of several matching elements."
  | "last" =>
    .fixed "Use the last element returned by screen.getAllBy...."
  | "length" =>
    .fixed "Use screen.getAllBy... or screen.queryAllBy... and check the length of the result."
  | "map" =>
    .around "Use screen.getAllBy... and map over the returned elements with " "."
  | "forEach" =>
    .around "Use screen.getAllBy... and iterate over the returned elements with " "."
  | "simulate" =>
    .around "Use userEvent to reproduce the " " interaction on the queried element."
  | "invoke" =>
    .around "Trigger the handler " " through a user interaction with userEvent."
  | "exists" =>
    .fixed "Use expect(screen.queryBy...).toBeInTheDocument() or .not.toBeInTheDocument()."
  | "is" =>
    .around "Query the element by role or test id and assert on it instead of matching " "."
  | _ =>
    .fixed ("Consider rewriting this part of the test to focus on user interactions and DOM " ++
      "assertions.")

/-- Advice on a selector of which nothing is known. -/
def anySelector : String :=
  "Use component rendered DOM to get the appropriate selector and method: " ++
    "screen.getByRole('selector') or screen.getByTestId('<data-id=...>')"

/-- Roles that are looked for in a selector's text, in this order. -/
def roles : List String :=
  ["article", "button", "checkbox", "combobox", "dialog", "form", "heading", "img", "link",
   "listitem", "menuitem", "menuitemcheckbox", "menuitemradio", "navigation", "option",
   "progressbar", "radio", "row", "rowheader", "search", "separator", "slider", "spinbutton",
   "switch", "tabpanel", "textbox"]

/-- Advice on a method call with the text of its first argument. -/
def methodText (method : String) (argument : Option String) : String :=
  (ofMethod method).text (argument.getD "")

/-- The comment on a call of a wrapper's method. -/
def onMethod (wrapper method : String) (argument : Option String) : Text :=
  let shown := argument.getD ""
  Blank.fold (Text.ofString
    (s!"{marker} {wrapper}.{method}({shown}) --> " ++ methodText method argument))

/-- What to write for a selector without a test id: what the page's snapshot suggests, or a query by
the first role whose name occurs in the selector. -/
def bySuggestion (selector : Text) : Option String → Text
  | some query => query
  | none =>
    match roles.find? fun (role : String) => selector.contains (Text.ofString role) with
    | some role => s!"screen.getByRole('{role}')"
    | none => anySelector

/-- What to write for a selector: a query by its test id, if it has one. -/
def ofSelector (selector : Text) (attr : String) (snapshot : Option Snapshot) :
    Except Failure Text :=
  match Selector.testIdOf? attr selector with
  | some testId => return Text.ofString "screen.getByTestId('" ++ testId ++ Text.ofString "')"
  | none =>
    match snapshot with
    | some page => return bySuggestion selector (← page.suggest? (Text.shown selector) attr)
    | none => return bySuggestion selector none

/-- The comment on a `find` call; `selector` is its argument's value, if it is a literal. -/
def onSelector (argument : String) (selector : Option Text) (attr : String)
    (snapshot : Option Snapshot) : Except Failure Text := do
  let advice ← match selector with
    | some selector => ofSelector selector attr snapshot
    | none => pure (Text.ofString anySelector)
  return Blank.fold (Text.ofString s!"{marker} .find({argument}) --> " ++ advice)

/-- The comment on a simulated event. -/
def onEvent (argument : String) : Text :=
  Blank.fold (Text.ofString
    s!"{marker} .simulate({argument}) --> userEvent.<method>(<DOM_element>)")

end Guidance

end TestMigration
