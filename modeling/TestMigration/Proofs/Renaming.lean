import TestMigration.Proofs.Rendering
import TestMigration.Proofs.Repetition

/-! What becomes of a helper that is called like the imported function. The pass follows the one name
that it finds around the first call of the old library: this name and every call of it are renamed.
Other declarations of the name, and other assignments to it, are left as they are. -/

namespace TestMigration

/-! ## What edits leave alone -/

namespace Edit

/-- Where the byte at `start` comes to stand in `splice source cursor es`, if no edit touches it. -/
def offsetFrom (cursor start : Nat) : List Edit → Nat
  | [] => start - cursor
  | e :: rest =>
    if e.stop ≤ start then e.start - cursor + e.text.size + offsetFrom e.stop start rest
    else start - cursor

/-- A part of a part of a text. -/
theorem extract_part (source : ByteArray) {first last start stop : Nat} (hfirst : first ≤ start)
    (hlast : stop ≤ last) :
    ((source.extract first last).data.toList.drop (start - first)).take (stop - start) =
      (source.data.toList.drop start).take (stop - start) := by
  rw [toList_extract, List.drop_take, List.drop_drop, List.take_take,
    show first + (start - first) = start by omega,
    show min (stop - start) (last - first - (start - first)) = stop - start by omega]

/-- The new text begins with what is copied before its first edit, and the edit's own text. -/
theorem toList_splice_cons (source : ByteArray) (cursor : Nat) (e : Edit) (rest : List Edit) :
    (splice source cursor (e :: rest)).data.toList =
      (source.extract cursor e.start ++ e.text).data.toList ++ (splice source e.stop rest).data.toList := by
  simp [splice]

theorem toList_splice_copied (source : ByteArray) (cursor : Nat) (e : Edit) (rest : List Edit) :
    (splice source cursor (e :: rest)).data.toList =
      (source.extract cursor e.start).data.toList ++ (e.text ++ splice source e.stop rest).data.toList := by
  simp [splice, ByteArray.append_assoc]

theorem length_copied {source : ByteArray} {first last : Nat} (hsize : last ≤ source.size) :
    (source.extract first last).data.toList.length = last - first := by
  have hlength : source.data.toList.length = source.size := rfl
  rw [toList_extract, List.length_take, List.length_drop]
  omega

theorem length_made {source : ByteArray} {last : Nat} (first : Nat) (text : ByteArray)
    (hsize : last ≤ source.size) :
    (source.extract first last ++ text).data.toList.length = last - first + text.size := by
  rw [ByteArray.data_append, Array.toList_append, List.length_append, length_copied hsize]
  rfl

/-- A part of the text that no edit touches is in the new text too. -/
theorem splice_stays {source : ByteArray} {cursor start stop : Nat} {es : List Edit}
    (hcursor : cursor ≤ start) (hle : start ≤ stop) (hsize : stop ≤ source.size)
    (hinside : ∀ e ∈ es, e.start ≤ e.stop) (hapart : es.Pairwise fun a b => a.stop ≤ b.start)
    (hclear : ∀ e ∈ es, e.stop ≤ start ∨ stop ≤ e.start) :
    ((splice source cursor es).data.toList.drop (offsetFrom cursor start es)).take (stop - start) =
      (source.data.toList.drop start).take (stop - start) := by
  have hlength : source.data.toList.length = source.size := rfl
  induction es generalizing cursor with
  | nil => exact extract_part source hcursor hsize
  | cons e rest ih =>
    obtain ⟨-, hrest⟩ := List.pairwise_cons.mp hapart
    have hself := hinside e List.mem_cons_self
    unfold offsetFrom
    split
    -- the edit lies before the part: its text moves the part to another offset
    · rename_i hbefore
      have hoffset := ih hbefore (fun x hx => hinside x (List.mem_cons_of_mem e hx)) hrest
        fun x hx => hclear x (List.mem_cons_of_mem e hx)
      rw [toList_splice_cons, ← length_made cursor e.text (by omega : e.start ≤ source.size),
        ← List.drop_drop, List.drop_left, hoffset]
    -- the edit lies behind the part, so the part is copied before it
    · rename_i hnot
      have hbehind : stop ≤ e.start := (hclear e List.mem_cons_self).resolve_left hnot
      have hkept : stop - cursor ≤ (source.extract cursor e.start).data.toList.length := by
        simp only [toList_extract, List.length_take, List.length_drop]
        omega
      rw [toList_splice_copied, List.drop_append_of_le_length (by omega), List.take_append_of_le_length]
      · exact extract_part source hcursor hbehind
      · rw [List.length_drop]
        omega

/-- A name stands in a text at an offset. -/
def Stands (source : ByteArray) (name : String) (offset : Nat) : Prop :=
  (source.data.toList.drop offset).take name.toUTF8.size = name.toUTF8.data.toList

/-- A name that no edit touches stands in the new text too. -/
theorem stands_of_clear {source : ByteArray} {start stop : Nat} {es : List Edit} {name : String}
    (hname : source.extract start stop = name.toUTF8)
    (hinside : ∀ e ∈ es, e.start ≤ e.stop) (hapart : es.Pairwise fun a b => a.stop ≤ b.start)
    (hclear : ∀ e ∈ es, e.stop ≤ start ∨ stop ≤ e.start) :
    Stands (splice source 0 es) name (offsetFrom 0 start es) := by
  have hbytes : (source.data.toList.drop start).take (stop - start) = name.toUTF8.data.toList := by
    rw [← toList_extract, hname]
  have hlength : source.data.toList.length = source.size := rfl
  have hsizes : min (stop - start) (source.size - start) = name.toUTF8.size := by
    have hcount := congrArg List.length hbytes
    rw [List.length_take, List.length_drop] at hcount
    exact hcount
  -- an extract may be cut off at the end of the text, but not where a name fills the range
  by_cases hnone : name.toUTF8.size = 0
  · have hempty : name.toUTF8.data.toList = [] := List.length_eq_zero_iff.mp hnone
    rw [Stands, hnone, hempty, List.take_zero]
  · have hfits : start + name.toUTF8.size ≤ source.size := by omega
    have hapart' : ∀ e ∈ es, e.stop ≤ start ∨ start + name.toUTF8.size ≤ e.start := by
      intro e he
      have := hclear e he
      omega
    have hstays := splice_stays (Nat.zero_le start) (Nat.le_add_right start _) hfits hinside hapart
      hapart'
    rw [Nat.add_sub_cancel_left] at hstays
    rw [Stands, hstays, ← hbytes, List.take_eq_take_iff, List.length_drop, ← hsizes]
    omega

end Edit

/-- What a computation records in a block lies inside the text. -/
theorem Records.inside {α : Type} {m : Editing α} {d : Document} {b b' : Batch} {a : α}
    (h : Records m d b a b') (hm : Made m)
    (hin : ∀ e ∈ b.edits, e.start ≤ e.stop ∧ e.stop ≤ d.source.size) :
    ∀ e ∈ b'.edits, e.start ≤ e.stop ∧ e.stop ≤ d.source.size := by
  obtain ⟨p, rfl, -⟩ := hm
  obtain ⟨b'', hafter, hin'⟩ := p.inside_of_open (d := { d with batch := some b }) rfl hin
  rw [Program.after_of_ok h] at hafter
  obtain rfl : b' = b'' := Option.some.inj (congrArg Document.batch hafter)
  exact hin'

namespace RenderCall

variable {d : Document} {b b' : Batch} {binding : Handle} {uses calls : List Handle}

/-- The places that are given a new name when the name found is that of the imported function: the
place where it was found, the callees of that name and those of the old library. -/
inductive Renamed (d : Document) (binding : Handle) (uses calls : List Handle) :
    Handle → String → Prop where
  | binding : Renamed d binding uses calls binding helperName
  | use {use callee : Handle} (listed : use ∈ uses) (field : use.field? .callee d = .ok (some callee)) :
      Renamed d binding uses calls callee helperName
  | call {call callee : Handle} (listed : call ∈ calls)
      (field : call.field? .callee d = .ok (some callee)) :
      Renamed d binding uses calls callee renderName

/-- Every edit gives one of the places its new name. -/
def OnlyRenames (d : Document) (binding : Handle) (uses calls : List Handle) (edits : List Edit) :
    Prop :=
  ∀ e ∈ edits, ∃ place name, Renamed d binding uses calls place name ∧
    e.Puts place.place.node.start place.place.node.stop name

/-- The edits give new names to these places and to no others, and to all of them but such as begin
inside another one. -/
structure MakesRoom (d : Document) (binding : Handle) (uses calls : List Handle)
    (edits : List Edit) : Prop where
  only : OnlyRenames d binding uses calls edits
  each : ∀ {place name}, Renamed d binding uses calls place name →
    (∃ e ∈ edits, e.Puts place.place.node.start place.place.node.stop name) ∨
      ∃ e ∈ edits, e.start ≤ place.place.node.start ∧ place.place.node.start < e.stop

/-- What is recorded for the places, whether or not it is applied. -/
theorem records_renamed {u : Unit} (fresh : b.edits = [])
    (h : Records (renameCalls (some binding) (some renderName) calls) d b u b') :
    ∃ uses, findAll (.callTo (.exactly renderName)) d = .ok uses ∧
      OnlyRenames d binding uses calls b'.edits ∧
      ∀ {place name}, Renamed d binding uses calls place name →
        ∃ e ∈ b'.edits, e.Puts place.place.node.start place.place.node.stop name := by
  obtain ⟨u₁, b₁, hhelper, hcalls⟩ := h.bind (made_renameHelper _ _)
  unfold renameHelper at hhelper
  dsimp only at hhelper
  rw [if_pos (by simp)] at hhelper
  obtain ⟨u₂, b₂, hbinding, hhelper⟩ := hhelper.bind (binding.made_replaceWith _)
  obtain ⟨uses, huses, hhelper⟩ := hhelper.look_bind (plain_findAll (Pattern.quiet_callTo _))
  obtain ⟨hfound, honly⟩ := records_replaceText hbinding
  have hmadeUses := made_stepwise.forM (made_renameCallee helperName) uses
  have hmadeCalls := made_stepwise.forM (made_renameCallee renderName) calls
  have hstart : OnlyRenames d binding uses calls b₂.edits := by
    intro e he
    rcases honly e he with hold | hnew
    · rw [fresh] at hold
      cases hold
    · exact ⟨binding, helperName, .binding, hnew⟩
  have hmiddle : OnlyRenames d binding uses calls b₁.edits := by
    refine hhelper.forM_keeps (made_renameCallee helperName)
      (I := fun b => OnlyRenames d binding uses calls b.edits) ?_ hstart
    intro use huse b₃ u b₄ hb₃ hrun e he
    rcases (records_renameCallee hrun).2 e he with hold | ⟨callee, hfield, hputs⟩
    · exact hb₃ e hold
    · exact ⟨callee, helperName, .use huse hfield, hputs⟩
  refine ⟨uses, huses, ?_, ?_⟩
  · refine hcalls.forM_keeps (made_renameCallee renderName)
      (I := fun b => OnlyRenames d binding uses calls b.edits) ?_ hmiddle
    intro call hcall b₃ u b₄ hb₃ hrun e he
    rcases (records_renameCallee hrun).2 e he with hold | ⟨callee, hfield, hputs⟩
    · exact hb₃ e hold
    · exact ⟨callee, renderName, .call hcall hfield, hputs⟩
  · intro place name hrenamed
    cases hrenamed with
    | binding =>
      obtain ⟨e, he, hputs⟩ := hfound
      exact ⟨e, (hcalls.continues hmadeCalls).mem ((hhelper.continues hmadeUses).mem he), hputs⟩
    | use huse hfield =>
      obtain ⟨b₃, b₄, hrun, hcontinues⟩ := hhelper.forM_mem (made_renameCallee helperName) _ huse
      obtain ⟨⟨e, he, callee, hcallee, hputs⟩, -⟩ := records_renameCallee hrun
      rw [hfield] at hcallee
      cases hcallee
      exact ⟨e, (hcalls.continues hmadeCalls).mem (hcontinues.mem he), hputs⟩
    | call hcall hfield =>
      obtain ⟨b₃, b₄, hrun, hcontinues⟩ := hcalls.forM_mem (made_renameCallee renderName) _ hcall
      obtain ⟨⟨e, he, callee, hcallee, hputs⟩, -⟩ := records_renameCallee hrun
      rw [hfield] at hcallee
      cases hcallee
      exact ⟨e, hcontinues.mem he, hputs⟩

/-- The parts of nodes of one kind that are spelled so. -/
def spelled (d : Document) (name : String) (kind : Script.Kind) (field : Script.Field) : List Handle :=
  match findAll (.ofKind kind) d with
  | .error _ => []
  | .ok found => found.filterMap fun node =>
    match node.field? field d with
    | .ok (some place) =>
      match place.text d with
      | .ok text => if text = name then some place else none
      | .error _ => none
    | _ => none

/-- Where a name is taken: by variables, by functions that are declared and by assignments to it. -/
def takers (d : Document) (name : String) : List Handle :=
  spelled d name .variableDeclarator .name ++ spelled d name .functionDeclaration .name ++
    spelled d name .assignmentExpression .left

theorem text_of_mem_spelled {place : Handle} {name : String} {kind : Script.Kind}
    {field : Script.Field} (h : place ∈ spelled d name kind field) : place.text d = .ok name := by
  unfold spelled at h
  split at h
  · cases h
  · obtain ⟨node, -, hsome⟩ := List.mem_filterMap.mp h
    split at hsome
    · split at hsome
      · rename_i htext
        split at hsome
        · rename_i hsame
          cases hsome
          rw [htext, hsame]
        · cases hsome
      · cases hsome
    · cases hsome

theorem text_of_mem_takers {place : Handle} {name : String} (h : place ∈ takers d name) :
    place.text d = .ok name := by
  rcases List.mem_append.mp h with h | h
  · rcases List.mem_append.mp h with h | h
    · exact text_of_mem_spelled h
    · exact text_of_mem_spelled h
  · exact text_of_mem_spelled h

theorem text_ok {place : Handle} {name : String} (h : place.text d = .ok name) :
    d.source.extract place.place.node.start place.place.node.stop = name.toUTF8 := by
  obtain ⟨d', hd, hnode⟩ := looks_bind h
  cases hd
  obtain ⟨n, hn, hslice⟩ := looks_bind hnode
  rw [Handle.node_ok hn, liftM_apply, Document.textOf, Document.slice] at hslice
  exact Conversion.decode_ok.mp hslice

/-- A block that makes room applies its edits apart from each other, each in the text it was made for. -/
theorem renameCalls_makes_room (closed : d.batch = none) {u : Unit} {spent : Batch} {d' : Document}
    (h : Document.batched (renameCalls (some binding) (some renderName) calls) d = .ok (u, spent) d') :
    ∃ uses applied, findAll (.callTo (.exactly renderName)) d = .ok uses ∧
      d'.source = Edit.splice d.source 0 applied ∧ MakesRoom d binding uses calls applied ∧
      (∀ e ∈ applied, e.start ≤ e.stop) ∧ applied.Pairwise fun a b => a.stop ≤ b.start := by
  have hmade := made_renameCalls (some binding) (some renderName) calls
  obtain ⟨b, hrecords, hsource, -, -, -⟩ := batched_records hmade closed h
  obtain ⟨uses, huses, honly, heach⟩ := records_renamed rfl hrecords
  have hinside : ∀ e ∈ b.edits, e.start ≤ e.stop := fun e he => (hrecords.inside hmade nofun e he).1
  refine ⟨uses, b.settled.1, huses, hsource, ⟨?_, ?_⟩, ?_, ?_⟩
  · exact fun e he => honly e (Batch.mem_of_applied he)
  · intro place name hrenamed
    obtain ⟨e, he, hputs⟩ := heach hrenamed
    exact (Batch.applied_or_inside he hputs.1).imp_left fun happlied => ⟨e, happlied, hputs⟩
  · exact fun e he => hinside e (Batch.mem_of_applied he)
  · exact (Edit.settle_apart fun e he => hinside e ((Edit.sorted_perm _).subset he)).2

/-- The render pass renames what the code around the first call of the old library binds if, and only
if, that is called like the imported function: then this name, its calls and the calls of the old
library are given their new names. Every other declaration of the name and every other assignment to
it, apart from these places, still stands in the text that is left. -/
theorem helper_renamed {function : String} {s s' : Session} (closed : s.document.batch = none)
    (h : normalise s = .ok (some function) s') :
    ∃ primitive ∈ primitives, ∃ first rest binding name,
      findAll (.callTo (.exactly primitive)) s.document = .ok (first :: rest) ∧
      boundName? first s.document = .ok (some binding) ∧ binding.text s.document = .ok name ∧
      (name ≠ renderName ∧ function = name ∨
        name = renderName ∧ function = helperName ∧ ∃ uses applied,
          findAll (.callTo (.exactly renderName)) s.document = .ok uses ∧
          s'.document.source = Edit.splice s.document.source 0 applied ∧
          MakesRoom s.document binding uses (first :: rest) applied ∧
          ∀ taker ∈ takers s.document renderName,
            (∀ place name, Renamed s.document binding uses (first :: rest) place name →
              place.place.node.stop ≤ taker.place.node.start ∨
                taker.place.node.stop ≤ place.place.node.start) →
            Edit.Stands s'.document.source renderName
              (Edit.offsetFrom 0 taker.place.node.start applied)) := by
  obtain ⟨primitive, hprimitive, first, rest, binding, name, u, spent, hcalls, hbinding, hname,
    hfunction, hbatched⟩ := normalise_batched h
  refine ⟨primitive, hprimitive, first, rest, binding, name, hcalls, hbinding, hname, ?_⟩
  by_cases hclash : name = renderName
  · subst hclash
    rw [if_pos rfl] at hfunction
    obtain ⟨uses, applied, huses, hsource, hroom, hinside, hapart⟩ :=
      renameCalls_makes_room closed hbatched
    refine .inr ⟨rfl, hfunction, uses, applied, huses, hsource, hroom, ?_⟩
    intro taker htakes hclear
    rw [hsource]
    refine Edit.stands_of_clear (text_ok (text_of_mem_takers htakes)) hinside hapart ?_
    intro e he
    obtain ⟨place, name, hrenamed, hstart, hstop, -⟩ := hroom.only e he
    rw [hstart, hstop]
    exact hclear place name hrenamed
  · rw [if_neg hclash] at hfunction
    exact .inl ⟨hclash, hfunction⟩

/-- What the pass comes to on a script: its name, the text it leaves and how often the name of the
imported function is taken there. -/
def outcomeOf (source : String) : Option (Option String × ByteArray × Nat) :=
  match Document.ofString none source with
  | .error _ => none
  | .ok d =>
    match normalise ⟨d, none, []⟩ with
    | .error _ _ => none
    | .ok name s => some (name, s.document.source, (takers s.document renderName).length)

theorem exists_of_outcomeOf {source : String} {name : Option String} {text : ByteArray} {n : Nat}
    (h : outcomeOf source = some (name, text, n)) :
    ∃ d s, Document.ofString none source = .ok d ∧ normalise ⟨d, none, []⟩ = .ok name s ∧
      s.document.source = text ∧ (takers s.document renderName).length = n := by
  unfold outcomeOf at h
  split at h
  · cases h
  · rename_i d hd
    split at h
    · cases h
    · rename_i s hs
      cases h
      exact ⟨d, s, hd, hs, rfl, rfl⟩

theorem helper_renamed_where_assigned :
    ∃ d s, Document.ofString none "render=mount(1)" = .ok d ∧ d.batch = none ∧
      normalise ⟨d, none, []⟩ = .ok (some helperName) s ∧
      s.document.source = "renderFunc=render(1)".toUTF8 ∧
      ∃ first binding name, boundName? first d = .ok (some binding) ∧ binding.text d = .ok name ∧
        (name = renderName ∨ name = helperName) := by
  have houtcome : outcomeOf "render=mount(1)" =
      some (some helperName, "renderFunc=render(1)".toUTF8, 0) := by decide +kernel
  obtain ⟨d, s, hd, hrun, hsource, -⟩ := exists_of_outcomeOf houtcome
  have hclosed : d.batch = none := (Document.sound_of_ofBytes hd).2
  obtain ⟨primitive, -, first, rest, binding, name, -, hbinding, hname, hfunction⟩ :=
    helper_renamed hclosed hrun
  refine ⟨d, s, hd, hclosed, hrun, hsource, first, binding, name, hbinding, hname, ?_⟩
  rcases hfunction with ⟨-, hsame⟩ | ⟨hsame, -⟩
  · exact .inr hsame.symm
  · exact .inl hsame

/-- A declaration stands apart from the assignment that is found, and keeps its name. -/
theorem declaration_kept :
    ∃ d s, Document.ofString none "let render;\nrender = mount(1);\n" = .ok d ∧
      normalise ⟨d, none, []⟩ = .ok (some helperName) s ∧
      s.document.source = "let render;\nrenderFunc = render(1);\n".toUTF8 ∧
      ∃ taker, taker ∈ takers s.document renderName := by
  have houtcome : outcomeOf "let render;\nrender = mount(1);\n" =
      some (some helperName, "let render;\nrenderFunc = render(1);\n".toUTF8, 1) := by
    decide +kernel
  obtain ⟨d, s, hd, hrun, hsource, hone⟩ := exists_of_outcomeOf houtcome
  exact ⟨d, s, hd, hrun, hsource, List.exists_mem_of_length_pos (by omega)⟩

end RenderCall

end TestMigration
