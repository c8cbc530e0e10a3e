import TestMigration.Dom.Rule

/-! The notation of selectors. A selector is a list of alternatives, each a chain of element
conditions joined by combinators; pseudo-classes may hold further lists. -/

namespace TestMigration.Query

/-- A selector that does not read as one, or one that asks for more than elements. -/
inductive Fault where
  | malformed
  | unsupported
  deriving DecidableEq, Repr

private def str (cs : List Char) : String := String.ofList cs

private def isSpace (c : Char) : Bool :=
  c == ' ' || c == '\t' || c == '\r' || c == '\n' || c == '\x0c'

/-- What follows a comment's end. -/
private def afterComment? : List Char → Option (List Char)
  | '*' :: '/' :: rest => some rest
  | _ :: rest => afterComment? rest
  | [] => none

/-- What follows one blank or comment. -/
private def gap? : List Char → Option (List Char)
  | '\r' :: '\n' :: rest => some rest
  | '/' :: '*' :: rest => afterComment? rest
  | c :: rest => if isSpace c then some rest else none
  | [] => none

private def skipGaps : Nat → List Char → List Char
  | 0, cs => cs
  | fuel + 1, cs =>
    match gap? cs with
    | some rest => skipGaps fuel rest
    | none => cs

def skip (cs : List Char) : List Char := skipGaps cs.length cs

/-- The character that an escape stands for, after its backslash. -/
private def escape? : List Char → Option (List Char × List Char)
  | [] => some ([Reference.replacement], [])
  | c :: rest =>
    let digits := ((c :: rest).takeWhile Reference.isHexDigit).take 6
    if digits.isEmpty then
      if c == '\r' || c == '\n' || c == '\x0c' then none else some ([c], rest)
    else
      let n := Reference.hexNumber digits
      let value := if n != 0 && n.isValidChar then Char.ofNat n else Reference.replacement
      let after := (c :: rest).drop digits.length
      let after := match after with
        | '\r' :: '\n' :: more => more
        | s :: more => if isSpace s then more else after
        | [] => []
      some ([value], after)

private def isNameStart (c : Char) : Bool :=
  c.isAlpha || c == '_' || c.toNat ≥ 0xA0

private def isNameChar (c : Char) : Bool := isNameStart c || c.isDigit || c == '-'

private def nameFrom : Nat → List Char → List Char × List Char
  | 0, cs => ([], cs)
  | _, [] => ([], [])
  | fuel + 1, '\\' :: cs =>
    match escape? cs with
    | some (value, rest) =>
      let (more, rest) := nameFrom fuel rest
      (value ++ more, rest)
    | none => ([], '\\' :: cs)
  | fuel + 1, c :: cs =>
    if isNameChar c then
      let (more, rest) := nameFrom fuel cs
      (c :: more, rest)
    else ([], c :: cs)

private def startsName : List Char → Bool
  | '-' :: '-' :: _ => true
  | '-' :: c :: _ => isNameStart c || c == '\\'
  | c :: _ => isNameStart c || c == '\\'
  | [] => false

/-- A name with its escapes replaced, and what follows. -/
def name? (cs : List Char) : Option (String × List Char) :=
  if !startsName cs then none
  else
    let (name, rest) := nameFrom (cs.length + 1) cs
    if name.isEmpty then none else some (str name, rest)

/-- The rest of a quoted text and what follows its closing quote. -/
private def quotedFrom (quote : Char) : Nat → List Char → Option (List Char × List Char)
  | 0, _ => none
  | _, [] => none
  | fuel + 1, '\\' :: '\r' :: '\n' :: cs => quotedFrom quote fuel cs
  | fuel + 1, '\\' :: c :: cs =>
    if c == '\n' || c == '\r' || c == '\x0c' then quotedFrom quote fuel cs
    else match escape? (c :: cs) with
      | some (value, rest) => (quotedFrom quote fuel rest).map fun (more, rest) => (value ++ more, rest)
      | none => none
  | fuel + 1, c :: cs =>
    if c == quote then some ([], cs)
    else if c == '\\' || c == '\n' || c == '\r' || c == '\x0c' then none
    else (quotedFrom quote fuel cs).map fun (more, rest) => (c :: more, rest)

/-- A quoted text or a name. -/
def value? : List Char → Option (String × List Char)
  | c :: cs =>
    if c == '"' || c == '\'' then
      (quotedFrom c (cs.length + 1) cs).map fun (value, rest) => (str value, rest)
    else name? (c :: cs)
  | [] => none

private def valuesFrom : Nat → List Char → Option (List String × List Char)
  | 0, _ => none
  | fuel + 1, cs =>
    match value? cs with
    | none => none
    | some (value, rest) =>
      match skip rest with
      | ',' :: rest => (valuesFrom fuel (skip rest)).map fun (more, rest) => (value :: more, rest)
      | ')' :: rest => some ([value], rest)
      | _ => none

/-- Is the name in a name space that no element is in? -/
private def isForeign : Option String → Bool
  | none | some "*" => false
  | some _ => true

/-- `prefix|name`, where the part before the bar is optional and may be empty or a star. -/
private def qualified? (star : Bool) (cs : List Char) : Option (Option String × String × List Char) :=
  let local? (cs : List Char) : Option (String × List Char) :=
    match cs with
    | '*' :: rest => if star then some ("*", rest) else none
    | _ => name? cs
  let space : Option (String × List Char) := match cs with
    | '|' :: rest => some ("", rest)
    | '*' :: '|' :: rest => some ("*", rest)
    | _ => match name? cs with
      | some (space, '|' :: rest) => some (space, rest)
      | _ => none
  match space.bind fun (space, rest) => (local? rest).map fun (name, rest) => (some space, name, rest) with
  | some found => some found
  | none => (local? cs).map fun (name, rest) => (none, name, rest)

private def comparison? : List Char → Option (Option Comparison × List Char)
  | '=' :: rest => some (some .equals, rest)
  | '^' :: '=' :: rest => some (some .begins, rest)
  | '$' :: '=' :: rest => some (some .ends, rest)
  | '*' :: '=' :: rest => some (some .holds, rest)
  | '~' :: '=' :: rest => some (some .lists, rest)
  | '|' :: '=' :: rest => some (some .language, rest)
  | '!' :: '=' :: rest => some (none, rest)
  | _ => none

/-- A condition on an attribute, after its opening bracket. -/
private def attribute? (cs : List Char) : Option (Condition × List Char) := do
  let (_, name, rest) ← qualified? false (skip cs)
  match comparison? (skip rest) with
  | none =>
    match skip rest with
    | ']' :: rest => some (.attr name, rest)
    | _ => none
  | some (how, rest) =>
    let (value, rest) ← value? (skip rest)
    let (flag, rest) := match skip rest with
      | c :: rest => if "isIS".contains c then (some c, skip rest) else (none, c :: rest)
      | [] => (none, [])
    let anyCase := match flag with
      | some c => c == 'i' || c == 'I'
      | none => name.toLower == "type"
    match rest with
    | ']' :: rest =>
      match how with
      | some how => some (.compare name how value anyCase, rest)
      | none => some (.none [.compare name .equals value anyCase], rest)
    | _ => none

private def digits (cs : List Char) : List Char × List Char :=
  let ds := cs.takeWhile Char.isDigit
  (ds, cs.drop ds.length)

private def number (ds : List Char) : Int :=
  ds.foldl (fun n c => 10 * n + (c.toNat - '0'.toNat)) (0 : Nat)

private def sign : List Char → Int × List Char
  | '-' :: rest => (-1, rest)
  | '+' :: rest => (1, rest)
  | rest => (1, rest)

/-- `even`, `odd`, a number or `an+b`. -/
private def position? (fromEnd : Bool) (cs : List Char) : Option (Position × List Char) :=
  let word := (str (cs.takeWhile isNameChar)).toLower
  if word == "even" then some (⟨2, true, 0, fromEnd⟩, cs.drop 4)
  else if word == "odd" then some (⟨2, true, 1, fromEnd⟩, cs.drop 3)
  else
    let (s, rest) := sign cs
    let (ds, rest) := digits rest
    match rest with
    | c :: more =>
      if c == 'n' || c == 'N' then
        let step := s * if ds.isEmpty then 1 else number ds
        let plain := some (⟨step, true, 0, fromEnd⟩, more)
        match skip more with
        | '+' :: after | '-' :: after =>
          let (ds, after) := digits (skip after)
          if ds.isEmpty then plain
          else some (⟨step, true, (sign (skip more)).1 * number ds, fromEnd⟩, after)
        | _ => plain
      else if ds.isEmpty then none else some (⟨s * number ds, false, 0, fromEnd⟩, rest)
    | [] => if ds.isEmpty then none else some (⟨s * number ds, false, 0, fromEnd⟩, [])

/-- The combinator at the head of a text, a comma among them. A blank joins an element to
one within it. -/
private def combinator? : Nat → List Char → Option (Char × List Char)
  | 0, _ => none
  | _, [] => none
  | fuel + 1, c :: rest =>
    let isMark (c : Char) := c == ',' || c == '+' || c == '>' || c == '~'
    if isMark c then some (c, skip rest)
    else match gap? (c :: rest) with
      | none => none
      | some after =>
        if isSpace c && !(after.head?.any isMark) then some (' ', skip after)
        else combinator? fuel after

private def typed (kinds : List String) : Condition :=
  .any (kinds.map fun kind => .compare "type" .equals kind true)

private def tags (names : List String) : Condition := .any (names.map .tag)

private def controls : Condition :=
  .any [.all [.tag "input", .none [typed ["hidden"]]],
    tags ["button", "select", "textarea", "fieldset"]]

private def disabled : Condition :=
  .any [.all [.any [controls, tags ["optgroup", "option"]], .attr "disabled"],
    .all [.tag "option", .related .childOf (.all [.tag "optgroup", .attr "disabled"])],
    .all [controls, .related .childOf (.all [.tag "fieldset", .attr "disabled"])],
    .all [controls, .related .within (.all
      [.none [.all [.tag "legend", .nthOfKind .first]],
        .related .childOf (.all [.tag "fieldset", .attr "disabled"])])]]

private def checked : Condition :=
  .any [.all [.tag "input", typed ["checkbox", "radio"], .attr "checked"],
    .all [.tag "option", .attr "selected"]]

private def isOrEmpty (name : String) : Condition :=
  .any [.none [.attr name], .compare name .equals "" false]

private def submitsByDefault : Condition :=
  .all [.related .within (.tag "form"), tags ["button", "input"], typed ["submit"], .firstSubmit]

/-- Neither on nor off. -/
private def undecided : Condition :=
  let radio : List Condition := [.tag "input", typed ["radio"], .none [.attr "checked"]]
  .any [.all [.tag "input", typed ["checkbox"], .attr "indeterminate"],
    .all (isOrEmpty "name" :: radio), .all [.tag "progress", .none [.attr "value"]],
    .all (radio ++ [.none [isOrEmpty "name"], .unchosen])]

private def showsPlaceholder : Condition :=
  let hint : List Condition := [.attr "placeholder", .none [.compare "placeholder" .equals "" false]]
  let kinds := typed ["", "text", "search", "url", "tel", "email", "password", "number"]
  .any [.all ([.tag "input", .any [.none [.attr "type"], kinds], isOrEmpty "value"] ++ hint),
    .all ([.tag "textarea", .unwritten] ++ hint)]

private def writable : Condition :=
  let kinds := typed ["", "date", "datetime-local", "email", "month", "number", "password",
    "search", "tel", "text", "time", "url", "week"]
  .any [.all [.any [.tag "textarea", .all [.tag "input", .any [.none [.attr "type"], kinds]]],
      .none [.attr "readonly", disabled]],
    .compare "contenteditable" .equals "" false, .compare "contenteditable" .equals "true" true]

/-- Pseudo-classes without arguments. Those of a page in use match nothing. -/
private def plainClass? : String → Option Condition
  | "first-child" => some (.nth .first (.all []))
  | "last-child" => some (.nth .last (.all []))
  | "only-child" => some (.all [.nth .first (.all []), .nth .last (.all [])])
  | "first-of-type" => some (.nthOfKind .first)
  | "last-of-type" => some (.nthOfKind .last)
  | "only-of-type" => some (.all [.nthOfKind .first, .nthOfKind .last])
  | "empty" => some .empty
  | "root" => some .root
  | "scope" => some .scope
  | "link" | "any-link" => some (.all [tags ["a", "area"], .attr "href"])
  | "checked" => some checked
  | "default" => some (.any [checked, submitsByDefault])
  | "indeterminate" => some undecided
  | "placeholder-shown" => some showsPlaceholder
  | "read-write" => some writable
  | "read-only" => some (.none [writable])
  | "defined" => some .builtIn
  | "disabled" => some disabled
  | "enabled" => some (.all [.any [controls, tags ["optgroup", "option"]], .none [disabled]])
  | "required" => some (.all [tags ["input", "select", "textarea"], .attr "required"])
  | "optional" => some (.all [tags ["input", "select", "textarea"], .none [.attr "required"]])
  | "active" | "autofill" | "current" | "focus" | "focus-visible" | "focus-within" | "future"
  | "host" | "hover" | "local-link" | "past" | "paused" | "playing" | "target"
  | "target-within" | "user-invalid" | "visited" => some .never
  | "in-range" | "out-of-range" => some .never
  | _ => none

/-- The lists that pseudo-classes hold: a `relative` one starts with a combinator, a
`forgiving` one may have gaps. -/
private structure Mode where
  nested : Bool
  relative : Bool := false
  forgiving : Bool := false

/-- What has been read of a list: the conditions of the current element, whether there is
any, how it is joined to the one before, the links of the chain so far, and the finished
alternatives. -/
private structure Draft where
  conditions : List Condition := []
  begun : Bool := false
  link : Relation := .around
  joined : Option (Relation × Condition) := none
  chain : List (Relation × Condition) := []
  done : List Condition := []

namespace Draft

private def add (d : Draft) (c : Condition) : Draft :=
  { d with conditions := d.conditions ++ [c], begun := true }

/-- The current element with the elements it is joined to. -/
private def current (d : Draft) : Condition :=
  .all (d.conditions ++ match d.joined with
    | some (relation, c) => [.related relation c]
    | none => [])

/-- A chain of relations from its first link on. -/
private def chained : List (Relation × Condition) → Condition
  | [] => .all []
  | (relation, c) :: rest => .related relation (.all [c, chained rest])

private def backward : Char → Relation
  | '>' => .childOf
  | '+' => .rightAfter
  | '~' => .after
  | _ => .within

private def forward : Char → Relation
  | '>' => .parentOf
  | '+' => .rightBefore
  | '~' => .before
  | _ => .around

private def combine (d : Draft) (mode : Mode) (c : Char) : Except Fault Draft :=
  if mode.relative then
    let chain := d.chain ++ [(d.link, d.current)]
    if c == ',' then .ok { done := d.done ++ [chained chain] }
    else if d.begun then .ok { done := d.done, chain := chain, link := forward c }
    else if d.link != .around then .error .malformed
    else .ok { done := d.done, chain := d.chain, link := forward c }
  else if !d.begun then
    if mode.forgiving && c == ',' then .ok { done := d.done ++ [.never] } else .error .malformed
  else if c == ',' then .ok { done := d.done ++ [d.current] }
  else .ok { done := d.done, joined := some (backward c, d.current) }

/-- All alternatives at the end of the list. -/
private def finish (d : Draft) (mode : Mode) : Except Fault (List Condition) :=
  if d.begun then
    if mode.relative then .ok (d.done ++ [chained (d.chain ++ [(d.link, d.current)])])
    else .ok (d.done ++ [d.current])
  else if mode.forgiving && (d.done.isEmpty || d.joined.isNone) then .ok (d.done ++ [.never])
  else .error .malformed

end Draft

private def closes (cs : List Char) : Option (List Char) :=
  match skip cs with
  | ')' :: rest => some rest
  | _ => none

mutual

/-- Read a list up to its end. -/
private def list (mode : Mode) : Nat → Draft → List Char → Except Fault (List Condition × List Char)
  | 0, _, _ => .error .malformed
  | fuel + 1, d, cs =>
    if (skip cs).isEmpty then
      if mode.nested then .error .malformed
      else do return (← d.finish mode, [])
    else match closes cs with
      | some rest =>
        if !d.begun && !mode.forgiving then .error .malformed
        else if mode.nested then do return (← d.finish mode, rest)
        else .error .malformed
      | none =>
        match cs with
        | ':' :: ':' :: rest => .error (if (name? rest).isSome then .unsupported else .malformed)
        | ':' :: rest =>
          match name? rest with
          | none => .error .malformed
          | some (name, rest) => do
            let (c, rest) ← pseudoClass fuel name.toLower rest
            list mode fuel (d.add c) rest
        | '&' :: rest => list mode fuel (d.add .scope) rest
        | '@' :: c :: rest =>
          .error (if (c == 'p' || c == 'P') && (name? rest).isSome then .unsupported else .malformed)
        | '#' :: rest =>
          match name? rest with
          | some (name, rest) => list mode fuel (d.add (.id name)) rest
          | none => .error .malformed
        | '.' :: rest =>
          match name? rest with
          | some (name, rest) => list mode fuel (d.add (.cls name)) rest
          | none => .error .malformed
        | cs =>
          match qualified? true cs with
          | some (space, name, rest) =>
            if d.begun then .error .malformed
            else list mode fuel (d.add (if isForeign space then .never else .tag name)) rest
          | none =>
            match cs with
            | '[' :: rest =>
              match attribute? rest with
              | some (c, rest) => list mode fuel (d.add c) rest
              | none => .error .malformed
            | cs =>
              match combinator? (cs.length + 1) cs with
              | some (c, rest) => do list mode fuel (← d.combine mode c) rest
              | none => .error .malformed

/-- Read a pseudo-class after its name. -/
private def pseudoClass : Nat → String → List Char → Except Fault (Condition × List Char)
  | 0, _, _ => .error .malformed
  | fuel + 1, name, '(' :: cs =>
    let cs := skip cs
    match name with
    | "not" => do
      let (rules, rest) ← list ⟨true, false, false⟩ fuel {} cs
      return (.none rules, rest)
    | "is" | "where" => do
      let (rules, rest) ← list ⟨true, false, true⟩ fuel {} cs
      return (.any rules, rest)
    | "matches" => do
      let (rules, rest) ← list ⟨true, false, false⟩ fuel {} cs
      return (.any rules, rest)
    | "has" => do
      let (rules, rest) ← list ⟨true, true, false⟩ fuel {} cs
      return (.any rules, rest)
    | "current" | "host" | "host-context" => do
      let (_, rest) ← list ⟨true, false, false⟩ fuel {} cs
      return (.never, rest)
    | "contains" | "-soup-contains" | "-soup-contains-own" =>
      match valuesFrom (cs.length + 1) cs with
      | some (texts, rest) => .ok (.mentions texts (name == "-soup-contains-own"), rest)
      | none => .error .malformed
    | "lang" =>
      match valuesFrom (cs.length + 1) cs with
      | some (_, rest) => .ok (.never, rest)
      | none => .error .malformed
    | "nth-child" | "nth-last-child" =>
      match position? (name == "nth-last-child") cs with
      | none => .error .malformed
      | some (p, rest) =>
        match closes rest with
        | some rest => .ok (.nth p (.all []), rest)
        | none =>
          match skip rest with
          | o :: f :: after =>
            if (o == 'o' || o == 'O') && (f == 'f' || f == 'F') && (skip rest).length < rest.length &&
                (skip after).length < after.length then do
              let (rules, rest) ← list ⟨true, false, false⟩ fuel {} (skip after)
              return (.nth p (.any rules), rest)
            else .error .malformed
          | _ => .error .malformed
    | "nth-of-type" | "nth-last-of-type" =>
      match position? (name == "nth-last-of-type") cs with
      | none => .error .malformed
      | some (p, rest) =>
        match closes rest with
        | some rest => .ok (.nthOfKind p, rest)
        | none => .error .malformed
    | _ => .error .malformed
  | _, name, cs =>
    match plainClass? name with
    | some c => .ok (c, cs)
    | none => .error .malformed

end

/-- Read a whole selector. -/
def parse (selector : String) : Except Fault Condition := do
  let cs := skip (selector.toList.map fun c => if c == '\x00' then Reference.replacement else c)
  let (rules, _) ← list ⟨false, false, false⟩ (2 * cs.length + 4) {} cs
  return .any rules

end TestMigration.Query
