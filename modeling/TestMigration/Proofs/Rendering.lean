import TestMigration.Proofs.Passes
import TestMigration.Proofs.Recording

/-! The render pass. It takes its name from the code around the first call of the old library, and
in the text it puts the new name in the place of every callee. -/

namespace TestMigration

namespace RenderCall

variable {d d' : Document} {b b' : Batch}

/-- The edit puts a name in the place of a call's callee. -/
def Renames (d : Document) (name : String) (call : Handle) (e : Edit) : Prop :=
  ∃ callee, call.field? .callee d = .ok (some callee) ∧
    e.Puts callee.place.node.start callee.place.node.stop name

/-- The edits applied give each of the calls its new callee, unless it lies inside another edit; the
others only make room for the new name, and there are such only if it is taken. -/
structure Renders (d : Document) (name : String) (calls : List Handle) (applied : List Edit) :
    Prop where
  only : ∀ e ∈ applied, (∃ call ∈ calls, Renames d renderName call e) ∨
    name = renderName ∧ e.text = helperName.toUTF8
  each : ∀ call ∈ calls, ∃ callee, call.field? .callee d = .ok (some callee) ∧
    ((∃ e ∈ applied, e.Puts callee.place.node.start callee.place.node.stop renderName) ∨
      ∃ e ∈ applied, e.start ≤ callee.place.node.start ∧ callee.place.node.start < e.stop)

theorem records_renameCallee {name : String} {call : Handle} {u : Unit}
    (h : Records (renameCallee name call) d b u b') :
    (∃ e ∈ b'.edits, Renames d name call e) ∧
      ∀ e ∈ b'.edits, e ∈ b.edits ∨ Renames d name call e := by
  obtain ⟨found, hfound, h⟩ := h.look_bind (call.plain_field? _)
  cases found with
  | none => cases h
  | some callee =>
    obtain ⟨⟨e, he, hputs⟩, honly⟩ := records_replaceText h
    refine ⟨⟨e, he, callee, hfound, hputs⟩, ?_⟩
    intro e he
    rcases honly e he with hold | hnew
    · exact .inl hold
    · exact .inr ⟨callee, hfound, hnew⟩

/-- Room is made only for a name that is taken. -/
theorem records_renameHelper {binding : Handle} {name : String} {u : Unit}
    (h : Records (renameHelper (some binding) (some name)) d b u b') :
    ∀ e ∈ b'.edits, e ∈ b.edits ∨ name = renderName ∧ e.text = helperName.toUTF8 := by
  unfold renameHelper at h
  dsimp only at h
  split at h
  · rename_i hclash
    have hname : name = renderName := by simpa using hclash
    obtain ⟨u₁, b₁, hreplace, h⟩ := h.bind (binding.made_replaceWith _)
    obtain ⟨-, honly⟩ := records_replaceText hreplace
    obtain ⟨uses, -, h⟩ := h.look_bind (plain_findAll (Pattern.quiet_callTo _))
    refine h.forM_keeps (made_renameCallee helperName) (I := fun b₂ => ∀ e ∈ b₂.edits,
      e ∈ b.edits ∨ name = renderName ∧ e.text = helperName.toUTF8) ?_ ?_
    · intro call _ b₂ u b₃ hb₂ hrun e he
      rcases (records_renameCallee hrun).2 e he with hold | ⟨callee, -, -, -, htext⟩
      · exact hb₂ e hold
      · exact .inr ⟨hname, htext⟩
    · intro e he
      rcases honly e he with hold | ⟨-, -, htext⟩
      · exact .inl hold
      · exact .inr ⟨hname, htext⟩
  · obtain ⟨-, rfl⟩ := h.pure
    exact fun e he => .inl he

theorem renameCalls_renders (closed : d.batch = none) {binding : Handle} {name : String}
    {calls : List Handle} {u : Unit} {spent : Batch}
    (h : Document.batched (renameCalls (some binding) (some name) calls) d = .ok (u, spent) d') :
    ∃ applied, d'.source = Edit.splice d.source 0 applied ∧ Renders d name calls applied := by
  obtain ⟨b, hrecords, hsource, -, -, -⟩ := batched_records (made_renameCalls _ _ _) closed h
  obtain ⟨u₁, b₁, hhelper, hcalls⟩ := hrecords.bind (made_renameHelper _ _)
  refine ⟨b.settled.1, hsource, ?_, ?_⟩
  · have hall : ∀ e ∈ b.edits, (∃ call ∈ calls, Renames d renderName call e) ∨
        name = renderName ∧ e.text = helperName.toUTF8 := by
      refine hcalls.forM_keeps (made_renameCallee renderName) (I := fun b₂ => ∀ e ∈ b₂.edits,
        (∃ call ∈ calls, Renames d renderName call e) ∨
          name = renderName ∧ e.text = helperName.toUTF8) ?_ ?_
      · intro call hcall b₂ u b₃ hb₂ hrun e he
        rcases (records_renameCallee hrun).2 e he with hold | hnew
        · exact hb₂ e hold
        · exact .inl ⟨call, hcall, hnew⟩
      · intro e he
        rcases records_renameHelper hhelper e he with hold | hroom
        · cases hold
        · exact .inr hroom
    intro e he
    exact hall e (Batch.mem_of_applied he)
  · intro call hcall
    obtain ⟨b₂, b₃, hrun, hcontinues⟩ := hcalls.forM_mem (made_renameCallee renderName) call hcall
    obtain ⟨⟨e, he, callee, hcallee, hputs⟩, -⟩ := records_renameCallee hrun
    refine ⟨callee, hcallee, ?_⟩
    rcases Batch.applied_or_inside (hcontinues.mem he) hputs.1 with happlied | hinside
    · exact .inl ⟨e, happlied, hputs⟩
    · exact .inr hinside

/-- The pass has made `d'` of `d` and yields `function`: the name that the code around the first
call of the old library's one function binds, or another if that one is taken. -/
def Converts (d d' : Document) (function : String) : Prop :=
  ∃ primitive ∈ primitives, ∃ first rest binding name applied,
    findAll (.callTo (.exactly primitive)) d = .ok (first :: rest) ∧
      boundName? first d = .ok (some binding) ∧ binding.text d = .ok name ∧
      (function = if name = renderName then helperName else name) ∧
      d'.source = Edit.splice d.source 0 applied ∧ Renders d name (first :: rest) applied

/-- The parts of a pass over the calls of one function: the looks at the first of them, a block in
which all are renamed, and a report. -/
theorem convertCalls_ok {primitive : String} {function : Option String} {first : Handle}
    {rest : List Handle} {s s' : Session}
    (h : Leaves (convertCalls primitive first rest) s (.ok function) s') :
    ∃ line binding name u spent d, first.line s.document = .ok line ∧
      boundName? first s.document = .ok binding ∧
      (binding.mapM (·.text) : Looking _) s.document = .ok name ∧
      Document.batched (renameCalls binding name (first :: rest)) s.document = .ok (u, spent) d ∧
      Leaves (reportUnbound primitive line name) { s with document := d } (.ok ()) s' ∧
      function = if name == some renderName then some helperName else name := by
  obtain ⟨line, t₁, hline, h₁⟩ := h.bind_ok
  obtain ⟨hline, ht₁⟩ := Pass.look_ok hline
  rw [ht₁] at h₁
  obtain ⟨binding, t₂, hbinding, h₂⟩ := h₁.bind_ok
  obtain ⟨hbinding, ht₂⟩ := Pass.look_ok hbinding
  rw [ht₂] at h₂
  obtain ⟨name, t₃, hname, h₃⟩ := h₂.bind_ok
  obtain ⟨hname, ht₃⟩ := Pass.look_ok hname
  rw [ht₃] at h₃
  obtain ⟨⟨u, spent⟩, t₄, hbatched, h₄⟩ := h₃.bind_ok
  obtain ⟨d, hbatched, ht₄⟩ := Pass.lift_ok hbatched
  rw [ht₄] at h₄
  obtain ⟨⟨⟩, t₅, hreport, h₅⟩ := h₄.bind_ok
  obtain ⟨hfunction, hs'⟩ := h₅.pure
  rw [← hs'] at hreport
  exact ⟨line, binding, name, u, spent, d, hline, hbinding, hname, hbatched, hreport,
    Except.ok.inj hfunction⟩

/-- What a pass over the calls of one function comes to: a block in which they are renamed, after the
name that the code around the first of them binds. -/
theorem convertCalls_batched {primitive function : String} {first : Handle} {rest : List Handle}
    {s s' : Session} (h : convertCalls primitive first rest s = .ok (some function) s') :
    ∃ binding name u spent, boundName? first s.document = .ok (some binding) ∧
      binding.text s.document = .ok name ∧
      (function = if name = renderName then helperName else name) ∧
      Document.batched (renameCalls (some binding) (some name) (first :: rest)) s.document =
        .ok (u, spent) s'.document := by
  obtain ⟨line, binding, name, u, spent, d, -, hbinding, hname, hbatched, hreport, hfunction⟩ :=
    convertCalls_ok h
  cases binding with
  | none =>
    cases hname
    cases hfunction
  | some binding =>
    change (binding.text >>= fun n => Pure.pure (some n)) s.document = .ok name at hname
    obtain ⟨n, hn, hname⟩ := looks_bind hname
    cases hname
    obtain ⟨-, rfl⟩ := Leaves.pure hreport
    refine ⟨binding, n, u, spent, hbinding, hn, ?_, hbatched⟩
    by_cases hclash : n = renderName
    · subst hclash
      rw [if_pos rfl]
      exact Option.some.inj hfunction
    · rw [if_neg hclash]
      have hdiffers : (some n == some renderName) = false := by simpa using hclash
      rw [hdiffers] at hfunction
      exact Option.some.inj hfunction

/-- The calls that are listed for a name are those of the tree. -/
theorem calls_listed {names : List String} {s s' : Session} {calls : List (String × List Handle)}
    (h : Leaves (names.mapM fun name => do
      return (name, ← (findAll (.callTo (.exactly name)) : Looking _)) :
        Pass (List (String × List Handle))) s (.ok calls) s') :
    s' = s ∧ ∀ found ∈ calls, found.1 ∈ names ∧
      findAll (.callTo (.exactly found.1)) s.document = .ok found.2 := by
  induction names generalizing calls s' with
  | nil =>
    obtain ⟨hcalls, hs⟩ := Leaves.pure h
    cases hcalls
    exact ⟨hs, by simp⟩
  | cons name names ih =>
    rw [List.mapM_cons] at h
    obtain ⟨found, t₁, hfound, h₁⟩ := h.bind_ok
    obtain ⟨its, t₂, hits, hpure⟩ := hfound.bind_ok
    obtain ⟨hits, ht₂⟩ := Pass.look_ok hits
    obtain ⟨hpair, ht₁⟩ := hpure.pure
    cases hpair
    rw [ht₁, ht₂] at h₁
    obtain ⟨rest, t₃, hrest, h₂⟩ := h₁.bind_ok
    obtain ⟨ht₃, hmem⟩ := ih hrest
    obtain ⟨hcalls, hs⟩ := h₂.pure
    cases hcalls
    refine ⟨hs.trans ht₃, ?_⟩
    intro other hother
    rcases List.mem_cons.mp hother with rfl | hother
    · exact ⟨List.mem_cons_self, hits⟩
    · exact ⟨List.mem_cons_of_mem _ (hmem other hother).1, (hmem other hother).2⟩

/-- The pass finds nothing and reports it, or it converts the calls of one function. -/
theorem normalise_ok {function : Option String} {s s' : Session}
    (h : normalise s = .ok function s') :
    (function = none ∧
      Leaves (Pass.report .missingRenderCall "No mount or shallow call found") s (.ok ()) s') ∨
    ∃ primitive ∈ primitives, ∃ first rest,
      findAll (.callTo (.exactly primitive)) s.document = .ok (first :: rest) ∧
      Leaves (convertCalls primitive first rest) s (.ok function) s' := by
  obtain ⟨calls, t, hcalls, h₁⟩ := Leaves.bind_ok h
  obtain ⟨ht, hlisted⟩ := calls_listed hcalls
  rw [ht] at h₁
  unfold convertFound at h₁
  split at h₁
  · obtain ⟨⟨⟩, t₁, hreport, h₂⟩ := h₁.bind_ok
    obtain ⟨hnone, hs'⟩ := h₂.pure
    rw [← hs'] at hreport
    exact .inl ⟨Except.ok.inj hnone, hreport⟩
  · rename_i primitive first rest hone
    have hmem : (primitive, first :: rest) ∈ calls := by
      have hkept := List.mem_singleton_self (primitive, first :: rest)
      rw [← hone] at hkept
      exact List.mem_of_mem_filter hkept
    obtain ⟨hprimitive, hcalls⟩ := hlisted _ hmem
    exact .inr ⟨primitive, hprimitive, first, rest, hcalls, h₁⟩
  · obtain ⟨t', t₁, -, h₂⟩ := h₁.bind_ok
    obtain ⟨hthrow, -⟩ := h₂.throw
    cases hthrow

/-- A pass that yields a name has renamed the calls of one function. -/
theorem normalise_batched {function : String} {s s' : Session}
    (h : normalise s = .ok (some function) s') :
    ∃ primitive ∈ primitives, ∃ first rest binding name u spent,
      findAll (.callTo (.exactly primitive)) s.document = .ok (first :: rest) ∧
      boundName? first s.document = .ok (some binding) ∧ binding.text s.document = .ok name ∧
      (function = if name = renderName then helperName else name) ∧
      Document.batched (renameCalls (some binding) (some name) (first :: rest)) s.document =
        .ok (u, spent) s'.document := by
  rcases normalise_ok h with ⟨hnone, -⟩ | ⟨primitive, hprimitive, first, rest, hcalls, hconverts⟩
  · cases hnone
  · obtain ⟨binding, name, u, spent, hbound⟩ := convertCalls_batched hconverts
    exact ⟨primitive, hprimitive, first, rest, binding, name, u, spent, hcalls, hbound⟩

theorem normalise_converts {function : String} {s s' : Session} (closed : s.document.batch = none)
    (h : normalise s = .ok (some function) s') : Converts s.document s'.document function := by
  obtain ⟨primitive, hprimitive, first, rest, binding, name, u, spent, hcalls, hbinding, hname,
    hfunction, hbatched⟩ := normalise_batched h
  obtain ⟨applied, hsource, hrenders⟩ := renameCalls_renders closed hbatched
  exact ⟨primitive, hprimitive, first, rest, binding, name, applied, hcalls, hbinding, hname,
    hfunction, hsource, hrenders⟩

end RenderCall

end TestMigration
