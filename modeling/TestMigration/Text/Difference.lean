import TestMigration.Text.Blank

/-! The difference between two texts, line by line. The longest run of lines that both have in
common is kept, then the longest on each side of it, and so on. What changes is shown in hunks
with a few unchanged lines around it. -/

namespace TestMigration.Difference

/-- `size` equal lines from `left` in the one text and from `right` in the other. -/
structure Run where
  left : Nat
  right : Nat
  size : Nat
  deriving DecidableEq, Repr, Inhabited

/-- From this many lines on, lines that occur often are no starting points of runs. -/
def manyLines : Nat := 200

/-- For each line of the one text the lines of the other at which it occurs. -/
def occurrences (a b : Array String) : Array (List Nat) :=
  let numbered := b.toList.zipIdx
  a.map fun line =>
    let found := (numbered.filter (·.1 == line)).map (·.2)
    if b.size ≥ manyLines && found.length > b.size / 100 + 1 then [] else found

/-- Runs that end at line `i` and a line of the other text between `low` and `high`, from those that
end one line before; with the best run so far. -/
private def extendRuns (found : List Nat) (low high i : Nat) (before : List (Nat × Nat))
    (best : Run) : List (Nat × Nat) × Run :=
  let (ends, best) := (found.filter fun j => low ≤ j && j < high).foldl (fun (ends, best) j =>
    let length := (if j == 0 then 0 else ((before.find? (·.1 == j - 1)).map (·.2)).getD 0) + 1
    ((j, length) :: ends,
      if length > best.size then ⟨i + 1 - length, j + 1 - length, length⟩ else best))
    (([] : List (Nat × Nat)), best)
  (ends.reverse, best)

private def growLeft (a b : Array String) (alo blo : Nat) : Nat → Run → Run
  | 0, r => r
  | fuel + 1, r =>
    if alo < r.left && blo < r.right && a[r.left - 1]? == b[r.right - 1]? then
      growLeft a b alo blo fuel ⟨r.left - 1, r.right - 1, r.size + 1⟩
    else r

private def growRight (a b : Array String) (ahi bhi : Nat) : Nat → Run → Run
  | 0, r => r
  | fuel + 1, r =>
    if r.left + r.size < ahi && r.right + r.size < bhi &&
        a[r.left + r.size]? == b[r.right + r.size]? then
      growRight a b ahi bhi fuel { r with size := r.size + 1 }
    else r

/-- The longest run within bounds; of several the earliest in the one text and then in the
other. -/
def longest (a b : Array String) (at_ : Array (List Nat)) (alo ahi blo bhi : Nat) : Run :=
  let (_, best) := (List.range' alo (ahi - alo)).foldl (fun (before, best) i =>
    extendRuns (at_[i]?.getD []) blo bhi i before best) (([] : List (Nat × Nat)), Run.mk alo blo 0)
  growRight a b ahi bhi a.size (growLeft a b alo blo a.size best)

/-- Every run within bounds, in order. -/
private def runsWithin (a b : Array String) (at_ : Array (List Nat)) :
    Nat → Nat → Nat → Nat → Nat → List Run
  | 0, _, _, _, _ => []
  | fuel + 1, alo, ahi, blo, bhi =>
    let r := longest a b at_ alo ahi blo bhi
    if r.size == 0 then []
    else
      let before :=
        if alo < r.left && blo < r.right then runsWithin a b at_ fuel alo r.left blo r.right else []
      let after :=
        if r.left + r.size < ahi && r.right + r.size < bhi then
          runsWithin a b at_ fuel (r.left + r.size) ahi (r.right + r.size) bhi
        else []
      before ++ r :: after

/-- Runs that follow each other without a gap become one. -/
def joinRuns : List Run → List Run
  | [] => []
  | r :: rest =>
    match joinRuns rest with
    | [] => [r]
    | s :: more =>
      if r.left + r.size == s.left && r.right + r.size == s.right then
        ⟨r.left, r.right, r.size + s.size⟩ :: more
      else r :: s :: more

def runs (a b : Array String) : List Run :=
  joinRuns (runsWithin a b (occurrences a b) (a.size + 1) 0 a.size 0 b.size)

/-- Lines `left` to `leftEnd` of the one text stand against lines `right` to `rightEnd` of the
other. -/
structure Part where
  same : Bool
  left : Nat
  leftEnd : Nat
  right : Nat
  rightEnd : Nat
  deriving DecidableEq, Repr, Inhabited

/-- Both texts cut into parts that are the same and parts that differ, from given lines on. -/
private def partsFrom (aEnd bEnd : Nat) : Nat → Nat → List Run → List Part
  | i, j, [] => if i < aEnd || j < bEnd then [⟨false, i, aEnd, j, bEnd⟩] else []
  | i, j, r :: rest =>
    let gap := if i < r.left || j < r.right then [⟨false, i, r.left, j, r.right⟩] else []
    gap ++ ⟨true, r.left, r.left + r.size, r.right, r.right + r.size⟩ ::
      partsFrom aEnd bEnd (r.left + r.size) (r.right + r.size) rest

def parts (a b : Array String) : List Part := partsFrom a.size b.size 0 0 (runs a b)

/-! ## Hunks -/

/-- Unchanged lines that are shown around a change. -/
def around : Nat := 3

private def keepLast (p : Part) : Part :=
  if p.same then
    { p with left := max p.left (p.leftEnd - around), right := max p.right (p.rightEnd - around) }
  else p

private def keepFirst (p : Part) : Part :=
  if p.same then
    { p with
      leftEnd := min p.leftEnd (p.left + around), rightEnd := min p.rightEnd (p.right + around) }
  else p

private def mapLast {α : Type} (f : α → α) (xs : List α) : List α :=
  match xs.getLast? with
  | none => []
  | some x => xs.dropLast ++ [f x]

/-- Parts in groups; a long part that is the same ends one group and begins the next. -/
private def groupsFrom : List Part → List Part → List (List Part)
  | group, [] => [group]
  | group, p :: rest =>
    if p.same && p.leftEnd - p.left > 2 * around then
      (group ++ [keepFirst p]) :: groupsFrom [keepLast p] rest
    else groupsFrom (group ++ [p]) rest

/-- Groups of parts, each with a change in it. -/
def hunks (ps : List Part) : List (List Part) :=
  let ps := match ps with
    | [] => []
    | p :: rest => keepLast p :: rest
  (groupsFrom [] (mapLast keepFirst ps)).filter fun group => group.any fun p => !p.same

/-- First line and number of lines. -/
def rangeText (start stop : Nat) : String :=
  let length := stop - start
  if length == 1 then toString (start + 1)
  else if length == 0 then s!"{start},0"
  else s!"{start + 1},{length}"

private def signed (sign : String) (lines : Array String) (start stop : Nat) : List String :=
  ((lines.extract start stop).toList).map (sign ++ ·)

private def hunkLines (a b : Array String) (group : List Part) : List String :=
  match group.head?, group.getLast? with
  | some first, some last =>
    s!"@@ -{rangeText first.left last.leftEnd} +{rangeText first.right last.rightEnd} @@\n" ::
      group.flatMap fun p =>
        if p.same then signed " " a p.left p.leftEnd
        else signed "-" a p.left p.leftEnd ++ signed "+" b p.right p.rightEnd
  | _, _ => []

/-- The difference of two texts under given names, none if there is no difference. -/
def shown (oldName newName old new : String) : String :=
  let a := (Blank.linesWithEnds old).toArray
  let b := (Blank.linesWithEnds new).toArray
  match hunks (parts a b) with
  | [] => ""
  | groups =>
    String.join (s!"--- {oldName}\n" :: s!"+++ {newName}\n" :: groups.flatMap (hunkLines a b))

end TestMigration.Difference
