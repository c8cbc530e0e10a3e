import TestMigration.Proofs.Confined

/-! Paths in which no zero character stands. An operation on such a path fails with a failure of the
file system or not at all, for the zero character is the one thing that is refused before the disk
is asked. Whatever is made of such paths is such a path again. -/

namespace TestMigration

/-- No zero character stands in the text. -/
def Clean (s : String) : Prop := '\x00' ∉ s.toList

instance (s : String) : Decidable (Clean s) := inferInstanceAs (Decidable ('\x00' ∉ s.toList))

/-- A failure of the file system. -/
def System (k : FailureKind) : Prop := k.isSystem = true

theorem clean_append {s t : String} (hs : Clean s) (ht : Clean t) : Clean (s ++ t) := by
  unfold Clean
  rw [String.toList_append, List.mem_append]
  exact fun h => h.elim hs ht

/-- A character of a joined text comes from one of its parts, or from what joins them. -/
theorem mem_intercalate {α : Type} {sep : List α} {parts : List (List α)} {c : α}
    (h : c ∈ sep.intercalate parts) : c ∈ sep ∨ ∃ part ∈ parts, c ∈ part := by
  induction parts with
  | nil => simp [List.intercalate] at h
  | cons first rest ih =>
    cases rest with
    | nil =>
      refine .inr ⟨first, List.mem_cons_self, ?_⟩
      simpa [List.intercalate] using h
    | cons second rest =>
      rw [List.intercalate_cons_cons, List.mem_append, List.mem_append] at h
      rcases h with (hfirst | hsep) | hrest
      · exact .inr ⟨first, List.mem_cons_self, hfirst⟩
      · exact .inl hsep
      · rcases ih hrest with hsep | ⟨part, hpart, hc⟩
        · exact .inl hsep
        · exact .inr ⟨part, List.mem_cons_of_mem _ hpart, hc⟩

theorem mem_intercalate_of_mem {α : Type} {sep : List α} {parts : List (List α)} {part : List α}
    {c : α} (hpart : part ∈ parts) (hc : c ∈ part) : c ∈ sep.intercalate parts := by
  induction parts with
  | nil => cases hpart
  | cons first rest ih =>
    cases rest with
    | nil =>
      rw [List.mem_singleton.mp hpart] at hc
      simpa [List.intercalate] using hc
    | cons second rest =>
      rw [List.intercalate_cons_cons, List.mem_append, List.mem_append]
      rcases List.mem_cons.mp hpart with rfl | hrest
      · exact .inl (.inl hc)
      · exact .inr (ih hrest)

theorem clean_slashParts {s part : String} (hs : Clean s) (hpart : part ∈ slashParts s) :
    Clean part := by
  obtain ⟨cs, hcs, rfl⟩ := List.mem_map.mp hpart
  intro hzero
  rw [String.toList_ofList] at hzero
  have hmem : '\x00' ∈ ['/'].intercalate (s.toList.splitOn '/') := mem_intercalate_of_mem hcs hzero
  rw [List.intercalate_splitOn] at hmem
  exact hs hmem

namespace PathName

/-- No zero character stands in a part. -/
def Clean (p : PathName) : Prop := ∀ part ∈ p.parts, TestMigration.Clean part

theorem clean_ofString {s : String} (hs : TestMigration.Clean s) : (ofString s).Clean :=
  fun _ hpart => clean_slashParts hs (List.mem_of_mem_filter hpart)

theorem toString_eq (p : PathName) : toString p =
    if (String.ofList (List.replicate p.slashes '/') ++ "/".intercalate p.parts) == "" then "."
    else String.ofList (List.replicate p.slashes '/') ++ "/".intercalate p.parts := rfl

theorem Clean.toString {p : PathName} (hp : p.Clean) : TestMigration.Clean (toString p) := by
  have htext : TestMigration.Clean (String.ofList (List.replicate p.slashes '/') ++
      "/".intercalate p.parts) := by
    refine clean_append ?_ ?_
    · intro hzero
      rw [String.toList_ofList] at hzero
      exact absurd (List.eq_of_mem_replicate hzero) (by decide)
    · intro hzero
      rw [String.toList_intercalate] at hzero
      rcases mem_intercalate hzero with hslash | ⟨cs, hcs, hzero⟩
      · exact absurd hslash (by decide)
      · obtain ⟨part, hpart, rfl⟩ := List.mem_map.mp hcs
        exact hp part hpart hzero
  rw [toString_eq]
  split
  · decide
  · exact htext

theorem clean_of_toString {p : PathName} (hp : TestMigration.Clean (ToString.toString p)) :
    p.Clean := by
  intro part hpart hzero
  have htext : '\x00' ∈ (String.ofList (List.replicate p.slashes '/') ++
      "/".intercalate p.parts).toList := by
    rw [String.toList_append, List.mem_append, String.toList_intercalate]
    exact .inr (mem_intercalate_of_mem (List.mem_map.mpr ⟨part, hpart, rfl⟩) hzero)
  rw [toString_eq] at hp
  split at hp
  · rename_i hempty
    rw [beq_iff_eq.mp hempty] at htext
    cases htext
  · exact hp htext

theorem Clean.parent {p : PathName} (hp : p.Clean) : p.parent.Clean :=
  fun part hpart => hp part (List.dropLast_subset _ hpart)

theorem Clean.name {p : PathName} (hp : p.Clean) : TestMigration.Clean p.name := by
  change TestMigration.Clean (p.parts.getLastD "")
  cases hlast : p.parts.getLast? with
  | none => simp [List.getLastD_eq_getLast?, hlast, TestMigration.Clean]
  | some part =>
    rw [List.getLastD_eq_getLast?, hlast]
    exact hp part (List.mem_of_getLast? hlast)

theorem Clean.join {p q : PathName} (hp : p.Clean) (hq : q.Clean) : (p.join q).Clean :=
  fun part hpart => (mem_parts_join hpart).elim (hp part) (hq part)

theorem Clean.backup {p : PathName} {directory : Option String} (hp : p.Clean)
    (hd : ∀ d, directory = some d → TestMigration.Clean d) : (p.backup directory).Clean := by
  refine Clean.join ?_ (clean_ofString (clean_append hp.name (by decide)))
  cases directory with
  | none => exact hp.parent
  | some d =>
    dsimp only
    split
    · exact hp.parent
    · exact clean_ofString (hd d rfl)

end PathName

/-! ## Operations -/

namespace Disk

theorem follow_ne_zero (d : Disk) (names : List String) (p : Route) :
    d.follow p names ≠ .error .zero := by
  induction names generalizing p with
  | nil => simp [follow]
  | cons name rest ih =>
    unfold follow
    cases d.get? p with
    | none => simp
    | some item =>
      cases item with
      | file bytes => simp
      | directory =>
        dsimp only
        split
        · exact ih _
        · split
          · exact ih _
          · split
            · simp
            · exact ih _

theorem find_of_not_clean {path : String} (h : ¬ Clean path) (d : Disk) :
    d.find path = .error .zero := by
  unfold find
  rw [if_neg, if_pos]
  · simpa [Clean] using h
  · intro hempty
    rw [beq_iff_eq.mp hempty] at h
    exact h (by decide)

theorem find_ne_zero {path : String} (h : Clean path) (d : Disk) : d.find path ≠ .error .zero := by
  unfold find
  split
  · simp
  · split
    · rename_i hzero
      exact absurd (by simpa using hzero) h
    · split
      · simp
      · exact follow_ne_zero d _ _

end Disk

namespace Filing

theorem confined_failWith {α : Type} (path operation : String) {f : Fault} (h : f ≠ .zero) :
    Confined System (failWith path operation f : Filing α) := by
  refine confined_throw ?_
  cases f with
  | zero => exact absurd rfl h
  | missing | notDirectory | isDirectory | taken | tooLong => rfl

theorem confined_find {path : String} (h : Clean path) (operation : String) :
    Confined System (find path operation) := by
  refine confined_get.bind fun d => ?_
  cases hp : d.find path with
  | ok p => exact confined_pure p
  | error f =>
    refine confined_failWith path operation ?_
    rintro rfl
    exact Disk.find_ne_zero h d hp

theorem confined_size {path : String} (h : Clean path) : Confined System (size path) := by
  refine (confined_find h _).bind fun p => confined_get.bind fun d => ?_
  split
  · exact confined_failWith _ _ (by decide)
  · exact confined_pure _
  · exact confined_pure _

theorem confined_readBytes {path : String} (h : Clean path) : Confined System (readBytes path) := by
  refine (confined_find h _).bind fun p => confined_get.bind fun d => ?_
  split
  · exact confined_failWith _ _ (by decide)
  · exact confined_failWith _ _ (by decide)
  · exact confined_pure _

/-- The bytes of a file need not be a text. -/
theorem confined_readText {path : String} (h : Clean path) :
    Confined (fun k => System k ∨ k = .undecodable) (readText path) := by
  refine ((confined_readBytes h).mono fun _ => .inl).bind fun bytes => confined_ofExcept ?_
  intro e he
  unfold textOfBytes at he
  split at he
  · cases he
  · cases he
    exact .inr rfl

theorem confined_writeBytes {path : String} (h : Clean path) (bytes : ByteArray) :
    Confined System (writeBytes path bytes) := by
  refine (confined_find h _).bind fun p => confined_get.bind fun d => ?_
  split
  · exact confined_failWith _ _ (by decide)
  · exact confined_modify _
  · split
    · exact confined_failWith _ _ (by decide)
    · exact confined_modify _

theorem confined_copy {source target : String} (hs : Clean source) (ht : Clean target) :
    Confined System (copy source target) :=
  (confined_readBytes hs).bind fun _ => confined_writeBytes ht _

theorem confined_makeDirectory {path : String} (h : Clean path) :
    Confined System (makeDirectory path) := by
  refine (confined_find h _).bind fun p => confined_get.bind fun d => ?_
  split
  · exact confined_failWith _ _ (by decide)
  · exact confined_modify _

theorem confined_ensureOne {p : PathName} (h : p.Clean) : Confined System (ensureOne p) := by
  refine (confined_makeDirectory h.toString).tryCatch fun e he => confined_get.bind fun d => ?_
  split
  · exact confined_pure _
  · exact confined_throw he

theorem confined_ensureFrom (slashes : Nat) (parts : List String) (h : ∀ part ∈ parts, Clean part) :
    Confined System (ensureFrom slashes parts) := by
  have hwhole : ∀ parts : List String, (∀ part ∈ parts, Clean part) →
      PathName.Clean ⟨slashes, parts.reverse⟩ :=
    fun parts h part hpart => h part (List.mem_reverse.mp hpart)
  induction parts with
  | nil => exact confined_ensureOne (hwhole [] h)
  | cons last above ih =>
    have habove := ih fun part hpart => h part (List.mem_cons_of_mem _ hpart)
    refine (confined_ensureOne (hwhole _ h)).tryCatch fun e he => ?_
    split
    · exact (confined_throw he).bind fun _ => habove.bind fun _ => confined_ensureOne (hwhole _ h)
    · exact habove.bind fun _ => confined_ensureOne (hwhole _ h)

theorem confined_ensureDirectory {p : PathName} (h : p.Clean) :
    Confined System (ensureDirectory p) :=
  confined_ensureFrom _ _ fun part hpart => h part (List.mem_reverse.mp hpart)

end Filing

namespace Phase

theorem confined_keepCopy {source : String} {directory : Option String} (hs : Clean source)
    (hd : ∀ d, directory = some d → Clean d) : Confined System (keepCopy source directory) := by
  have hcopy := (PathName.clean_ofString hs).backup hd
  refine (Filing.confined_ensureDirectory hcopy.parent).bind fun _ => confined_get.bind fun d => ?_
  split
  · exact Filing.confined_copy hs hcopy.toString
  · exact confined_pure _

/-- A source whose path is clean is secured, or the job is over with an outcome. -/
theorem confined_secureSource {name : String} {c : Context} (hs : Clean c.sourceFile)
    (hd : ∀ d, c.settings.text? .backupRoot = some d → Clean d) (input : Option Datum) :
    Confined Never (secureSource name c input) := by
  refine confined_get.bind fun r => ?_
  split
  · refine ((confined_keepCopy hs hd).onState.bind fun _ => confined_pure _).tryCatch fun e he => ?_
    rw [if_pos (show e.kind.isSystem = true from he)]
    exact confined_pure _
  · exact confined_pure _

end Phase

end TestMigration
