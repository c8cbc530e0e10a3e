import TestMigration.Proofs.Growth

/-! Directories made on the way to a place. When a directory is asked for together with those above it,
either something is in the way, and then nothing is made, or every place on the way where nothing
stood has become a directory, and nothing else has changed. -/

namespace TestMigration

namespace Disk

variable {d d' : Disk} {p q : Route} {path : String}

/-- What keeps a directory from being made at a path, if anything does. -/
def blocked? (d : Disk) (path : String) : Option Fault :=
  match d.see path with
  | .error .missing => none
  | .error f => some f
  | .ok (.file _) => some .taken
  | .ok .directory => none

/-- A path that leads nowhere and is not blocked has something missing. -/
theorem missing_of_free {f : Fault} (hfree : d.blocked? path = none) (h : d.find path = .error f) :
    f = .missing := by
  rw [blocked?, see_of_error h] at hfree
  cases f <;> first | rfl | cases hfree

/-- Where nothing stood on the way to a place, directories have been made. -/
structure Paved (place : Route) (d d' : Disk) : Prop where
  cwd : d'.cwd = d.cwd
  made : ∀ {p}, p <+: place → d.get? p = none → d'.get? p = some .directory
  kept : ∀ {p}, ¬ (p <+: place ∧ d.get? p = none) → d'.get? p = d.get? p

theorem Paved.refl (inside : d.Inside) (h : d.get? q ≠ none) : Paved q d d where
  cwd := rfl
  made hbegins hnone := by
    obtain ⟨rest, rfl⟩ := hbegins
    exact absurd (inside.below hnone rest) h
  kept _ := rfl

theorem Paved.put (inside : d.Inside) (hparent : d.get? q.dropLast = some .directory)
    (hnone : d.get? q = none) : Paved q d (d.put q .directory) := by
  have hroot : q ≠ [] := by
    rintro rfl
    cases hnone
  refine ⟨rfl, fun {p} hbegins hp => ?_, fun {p} hno => ?_⟩
  · by_cases hsame : p = q
    · rw [hsame, get?_put_self hroot]
    · -- every other place on the way is one on the way to the parent
      rw [← List.dropLast_append_getLast hroot] at hbegins
      rcases List.prefix_concat_iff.mp hbegins with he | ⟨rest, hrest⟩
      · exact absurd (he.trans (List.dropLast_append_getLast hroot)) hsame
      · rw [← hrest, inside.below hp rest] at hparent
        cases hparent
  · have hne : p ≠ q := by
      rintro rfl
      exact hno ⟨List.prefix_rfl, hnone⟩
    exact get?_put_of_ne hroot hne d .directory

theorem Paved.directory {place : Route} (h : Paved place d d') (hp : d.get? p = some .directory) :
    d'.get? p = some .directory := by
  rw [h.kept (fun hno => by simp [hp] at hno), hp]

/-- One name further, where a way was made before. -/
theorem Paved.concat (h : Paved q d d') (last : String) (inside : d.Inside) (inside' : d'.Inside)
    (hdirectory : d'.get? q = some .directory) (hnone : d.get? q = none) :
    d'.get? (q ++ [last]) = none ∧
      Paved (q ++ [last]) d' (d'.put (q ++ [last]) .directory) ∧
      Paved (q ++ [last]) d (d'.put (q ++ [last]) .directory) := by
  have hbelow := inside.below hnone [last]
  have hroot : q ++ [last] ≠ [] := by simp
  have hfree : d'.get? (q ++ [last]) = none := by
    rw [h.kept, hbelow]
    rintro ⟨hbegins, -⟩
    have hlength := hbegins.length_le
    rw [List.length_append, List.length_singleton] at hlength
    omega
  have hlast : Paved (q ++ [last]) d' (d'.put (q ++ [last]) .directory) :=
    .put inside' (by rw [List.dropLast_concat, hdirectory]) hfree
  refine ⟨hfree, hlast, hlast.cwd.trans h.cwd, fun {p} hbegins hp => ?_, fun {p} hno => ?_⟩
  · rcases List.prefix_concat_iff.mp hbegins with rfl | hbegins
    · exact get?_put_self hroot d' _
    · exact hlast.directory (h.made hbegins hp)
  · have hne : p ≠ q ++ [last] := by
      rintro rfl
      exact hno ⟨List.prefix_rfl, hbelow⟩
    rw [get?_put_of_ne hroot hne, h.kept]
    exact fun hyes => hno ⟨hyes.1.trans (List.prefix_append _ _), hyes.2⟩

/-- Names that can be followed lead to a place in a directory. -/
theorem follow_parent (inside : d.Inside) {names : List String} (h : d.follow p names = .ok q)
    (hp : d.get? p.dropLast = some .directory) : d.get? q.dropLast = some .directory := by
  induction names generalizing p with
  | nil =>
    cases h
    exact hp
  | cons name rest ih =>
    obtain ⟨hdir, ⟨-, hrest⟩ | ⟨-, -, hrest⟩⟩ := follow_cons_iff.mp h
    · exact ih hrest hp
    · refine ih hrest ?_
      unfold Route.step
      split
      · exact inside _ (by simp [hp])
      · rwa [List.dropLast_concat]

theorem follow_append {names rest : List String} : d.follow p (names ++ rest) =
    match d.follow p names with
    | .ok q => d.follow q rest
    | .error f => .error f := by
  induction names generalizing p with
  | nil => rw [List.nil_append, follow]
  | cons name names ih =>
    rw [List.cons_append]
    cases hp : d.get? p with
    | none => rw [follow_none hp, follow_none hp]
    | some item =>
      cases item with
      | file bytes => rw [follow_file hp, follow_file hp]
      | directory =>
        by_cases hkept : name ≠ "" ∧ name ≠ "."
        · by_cases hlong : name ≠ ".." ∧ name.utf8ByteSize > 255
          · rw [follow_long hp hkept hlong, follow_long hp hkept hlong]
          · rw [follow_step hp hkept hlong, follow_step hp hkept hlong, ih]
        · have hskip : name = "" ∨ name = "." := by
            rcases Decidable.not_and_iff_or_not.mp hkept with h | h
            · exact .inl (Decidable.not_not.mp h)
            · exact .inr (Decidable.not_not.mp h)
          rw [follow_skip hp hskip, follow_skip hp hskip, ih]

/-- Where the last of some names cannot be followed for something missing, that name is plain, and
nothing stands where the others lead. -/
theorem plain_of_missing (inside : d.Inside) {names : List String} {last : String}
    (hkept : Kept (names ++ [last])) (hplain : d.plainFrom p (names ++ [last]) = true)
    (h : d.follow p (names ++ [last]) = .error .missing) :
    PlainName last ∧ d.get? (p.walk names) = none := by
  induction names generalizing p with
  | nil =>
    rw [List.nil_append] at h hkept
    rcases plainFrom_cons hplain with ⟨hnone, hall⟩ | ⟨bytes, hfile⟩ | ⟨hdir, hlong⟩ | ⟨hdir, hshort, -⟩
    · exact ⟨hall last List.mem_cons_self, hnone⟩
    · rw [follow_file hfile] at h
      cases h
    · rw [follow_long hdir hkept.of_cons.1 hlong] at h
      cases h
    · rw [follow_step hdir hkept.of_cons.1 hshort, follow] at h
      cases h
  | cons name rest ih =>
    rw [List.cons_append] at h hkept
    rcases plainFrom_cons hplain with ⟨hnone, hall⟩ | ⟨bytes, hfile⟩ | ⟨hdir, hlong⟩ | ⟨hdir, hshort, hon⟩
    · refine ⟨hall last (by simp), ?_⟩
      rw [Route.walk_plain fun n hn => hall n (List.mem_append_left _ hn)]
      exact inside.below hnone _
    · rw [follow_file hfile] at h
      cases h
    · rw [follow_long hdir hkept.of_cons.1 hlong] at h
      cases h
    · rw [follow_step hdir hkept.of_cons.1 hshort] at h
      exact ih hkept.of_cons.2 hon h

theorem plainFrom_of_append {names rest : List String} (h : d.plainFrom p (names ++ rest) = true) :
    d.plainFrom p names = true := by
  induction names generalizing p with
  | nil => rfl
  | cons name names ih =>
    rw [List.cons_append] at h
    rcases plainFrom_cons h with ⟨hnone, hall⟩ | ⟨bytes, hfile⟩ | ⟨hdir, hlong⟩ | ⟨hdir, hshort, hon⟩
    · exact plainFrom_of_plain d (fun n hn => hall n (List.mem_append_left rest hn)) p
    · rw [plainFrom, hfile]
    · rw [plainFrom, hdir]
      exact if_pos hlong
    · rw [plainFrom, hdir]
      dsimp only
      rw [if_neg hshort]
      exact ih hon

section Names

variable {name : PathName}

theorem missing_of_none (stands : d.get? d.cwd = some .directory) (hname : name.Proper)
    (hfree : d.blocked? (toString name) = none) (hnone : d.get? (d.placeFor name) = none) :
    d.see (toString name) = .error .missing := by
  cases hfind : d.find (toString name) with
  | error f => rw [see_of_error hfind, missing_of_free hfree hfind]
  | ok q => exact see_of_none hfind (find_placeFor stands hname hfind ▸ hnone)

theorem parent_of_find (inside : d.Inside) (stands : d.get? d.cwd = some .directory)
    (hname : name.Proper) (h : d.find (toString name) = .ok q) :
    d.get? q.dropLast = some .directory := by
  obtain ⟨-, hclean, hshort, -⟩ := find_ok_iff.mp h
  rw [find_toString hname stands hclean hshort] at h
  refine follow_parent inside h (inside _ ?_)
  simp [base_stands stands]

/-- Where the directory of a path is missing, the path names a place in it. -/
theorem placeFor_of_missing (inside : d.Inside) (stands : d.get? d.cwd = some .directory)
    (hname : name.Proper) (hplain : d.plainly name = true)
    (h : d.see (toString name.parent) = .error .missing) :
    ∃ last, d.placeFor name = d.placeFor name.parent ++ [last] := by
  have hparent := hname.parent
  have hfollow : d.follow (d.base name) name.parts.dropLast = .error .missing ∨
      ∃ q, d.follow (d.base name) name.parts.dropLast = .ok q ∧ d.get? q = none := by
    rcases find_cases name.parent with ⟨hclean, hshort⟩ | ⟨f, hf, hall⟩
    · have hfind := find_toString hparent stands hclean hshort
      change _ = d.follow (d.base name) name.parts.dropLast at hfind
      rw [← hfind]
      cases hq : d.find (toString name.parent) with
      | error f => exact .inl (by rw [see_of_error hq] at h; rw [Except.error.inj h])
      | ok q =>
        cases hitem : d.get? q with
        | none => exact .inr ⟨q, rfl, hitem⟩
        | some item =>
          rw [see_of_some hq hitem] at h
          cases h
    · rw [see_of_error (hall d)] at h
      exact absurd (Except.error.inj h) hf
  by_cases hparts : name.parts = []
  · rw [hparts] at hfollow
    rcases hfollow with hfollow | ⟨q, hfollow, hnone⟩
    · cases hfollow
    · cases hfollow
      rw [base_stands stands] at hnone
      cases hnone
  · have hwhole := List.dropLast_append_getLast hparts
    have hkept := kept_of_proper hname
    unfold plainly at hplain
    rw [← hwhole] at hplain hkept
    have hmissing : d.follow (d.base name) (name.parts.dropLast ++ [name.parts.getLast hparts]) =
        .error .missing := by
      rw [follow_append]
      rcases hfollow with hfollow | ⟨q, hfollow, hnone⟩
      · rw [hfollow]
      · rw [hfollow]
        exact follow_none hnone
    obtain ⟨hlast, -⟩ := plain_of_missing inside hkept hplain hmissing
    refine ⟨name.parts.getLast hparts, ?_⟩
    change (d.base name).walk name.parts = (d.base name).walk name.parts.dropLast ++ _
    conv_lhs => rw [← hwhole]
    rw [Route.walk_append, Route.walk_cons, Route.walk_nil, Route.step_plain hlast]

/-- What is in the way of a directory stays in the way, and nothing else gets there. -/
theorem Grows.blocked {places : List Route} (h : Grows places d d') (inside : d.Inside)
    (stands : d.get? d.cwd = some .directory) (hname : name.Proper) (hplain : d.plainly name = true)
    (hapart : d.see (toString name) = .error .missing → ∀ t ∈ places, ¬ t <+: d.placeFor name) :
    d'.blocked? (toString name) = d.blocked? (toString name) := by
  have hnew : d.get? (d.placeFor name) = none → d.see (toString name) = .error .missing →
      ∀ bytes, d'.get? (d.placeFor name) ≠ some (.file bytes) := by
    intro hnone hmissing bytes hfile
    rcases h.change (d.placeFor name) with he | ⟨-, hdir, -⟩ | ⟨hmem, -⟩
    · rw [he, hnone] at hfile
      cases hfile
    · rw [hdir] at hfile
      cases hfile
    · exact hapart hmissing _ hmem List.prefix_rfl
  unfold blocked?
  rcases h.find inside stands hname hplain (fun hmissing => hapart (see_of_error hmissing)) with
    he | ⟨hmissing, hok, hnone⟩
  · cases hfind : d.find (toString name) with
    | error f => rw [see_of_error hfind, see_of_error (he.trans hfind)]
    | ok q =>
      obtain rfl := find_placeFor stands hname hfind
      cases hitem : d.get? (d.placeFor name) with
      | none =>
        have hsee := see_of_none hfind hitem
        rw [hsee]
        cases hitem' : d'.get? (d.placeFor name) with
        | none => rw [see_of_none (he.trans hfind) hitem']
        | some item =>
          rw [see_of_some (he.trans hfind) hitem']
          cases item with
          | directory => rfl
          | file bytes => exact absurd hitem' (hnew hitem hsee bytes)
      | some item =>
        rw [see_of_some hfind hitem]
        cases item with
        | directory => rw [see_of_some (he.trans hfind) (h.directory hitem)]
        | file bytes =>
          obtain ⟨bytes', hfile⟩ := h.file hitem
          rw [see_of_some (he.trans hfind) hfile]
  · have hsee := see_of_error hmissing
    rw [hsee]
    cases hitem' : d'.get? (d.placeFor name) with
    | none => rw [see_of_none hok hitem']
    | some item =>
      rw [see_of_some hok hitem']
      cases item with
      | directory => rfl
      | file bytes => exact absurd hitem' (hnew hnone hsee bytes)

end Names

end Disk

namespace Fault

theorem kind_failure_eq_noSuchFile {f : Fault} {path operation : String} :
    (f.failure path operation).kind = .noSuchFile ↔ f = .missing := by
  cases f <;> simp [failure, Failure.of]

end Fault

namespace Filing

variable {d : Disk} {p : PathName} {q : Route}

theorem find_leaves_error {path : String} {f : Fault} (h : d.find path = .error f)
    (operation : String) : Leaves (find path operation) d (.error (f.failure path operation)) d := by
  unfold find Leaves
  rw [(Leaves.of_get d).of_bind_ok, h]
  rfl

theorem makeDirectory_of_error {path : String} {f : Fault} (h : d.find path = .error f) :
    Leaves (makeDirectory path) d (.error (f.failure path "mkdir")) d :=
  (find_leaves_error h "mkdir").of_bind_error

theorem makeDirectory_of_taken {path : String} {item : Item} (h : d.find path = .ok q)
    (hitem : d.get? q = some item) :
    Leaves (makeDirectory path) d (.error (Fault.taken.failure path "mkdir")) d := by
  unfold makeDirectory Leaves
  rw [(find_of_ok h "mkdir").of_bind_ok, (Leaves.of_get d).of_bind_ok, hitem]
  rfl

theorem makeDirectory_of_free {path : String} (h : d.find path = .ok q) (hnone : d.get? q = none) :
    Leaves (makeDirectory path) d (.ok ()) (d.put q .directory) := by
  unfold makeDirectory Leaves
  rw [(find_of_ok h "mkdir").of_bind_ok, (Leaves.of_get d).of_bind_ok, hnone]
  rfl

/-- A directory that cannot be made and does not stand there already. -/
theorem ensureOne_of_error {e : Failure}
    (h : Leaves (makeDirectory (toString p)) d (.error e) d) (hno : d.isDirectory (toString p) = false) :
    Leaves (ensureOne p) d (.error e) d := by
  refine h.tryCatch_error ?_
  unfold Leaves
  rw [(Leaves.of_get d).of_bind_ok, hno, Bool.and_false, if_neg Bool.false_ne_true]
  rfl

theorem ensureOne_of_missing (h : d.find (toString p) = .error .missing) :
    Leaves (ensureOne p) d (.error (Fault.missing.failure (toString p) "mkdir")) d := by
  refine ensureOne_of_error (makeDirectory_of_error h) ?_
  unfold Disk.isDirectory Disk.item?
  rw [h]
  rfl

theorem ensureOne_of_blocked {f : Fault} (h : d.blocked? (toString p) = some f) :
    Leaves (ensureOne p) d (.error (f.failure (toString p) "mkdir")) d := by
  unfold Disk.blocked? Disk.see at h
  cases hfind : d.find (toString p) with
  | error f' =>
    rw [hfind] at h
    obtain rfl : f' = f := by
      cases f' <;> simp_all
    refine ensureOne_of_error (makeDirectory_of_error hfind) ?_
    unfold Disk.isDirectory Disk.item?
    rw [hfind]
    rfl
  | ok q =>
    rw [hfind] at h
    dsimp only at h
    cases hitem : d.get? q with
    | none =>
      rw [hitem] at h
      cases h
    | some item =>
      rw [hitem] at h
      cases item with
      | directory => cases h
      | file bytes =>
        cases h
        refine ensureOne_of_error (makeDirectory_of_taken hfind hitem) ?_
        unfold Disk.isDirectory Disk.item?
        rw [hfind]
        simp [Except.toOption, hitem]

theorem ensureOne_of_free (h : d.find (toString p) = .ok q) (hnone : d.get? q = none) :
    Leaves (ensureOne p) d (.ok ()) (d.put q .directory) :=
  (makeDirectory_of_free h hnone).tryCatch_ok _

theorem ensureOne_of_directory (h : d.find (toString p) = .ok q)
    (hdir : d.get? q = some .directory) : Leaves (ensureOne p) d (.ok ()) d := by
  refine (makeDirectory_of_taken h hdir).tryCatch_error ?_
  have hthere : d.isDirectory (toString p) = true := by
    unfold Disk.isDirectory Disk.item?
    rw [h]
    simp [Except.toOption, hdir]
  unfold Leaves
  rw [(Leaves.of_get d).of_bind_ok, hthere]
  rfl

theorem weight_append (front rest : List String) :
    PathName.weight (front ++ rest) = PathName.weight front + PathName.weight rest := by
  induction front with
  | nil => exact (Nat.zero_add _).symm
  | cons first front ih =>
    change _ + 1 + PathName.weight (front ++ rest) = _ + 1 + PathName.weight front + _
    omega

/-- A path without its last part is written well if the whole is. -/
theorem well_written_above {slashes : Nat} {above : List String} {last : String}
    (hproper : (⟨slashes, above ++ [last]⟩ : PathName).Proper)
    (hclean : Clean (toString (⟨slashes, above ++ [last]⟩ : PathName)))
    (hshort : (toString (⟨slashes, above ++ [last]⟩ : PathName)).utf8ByteSize ≤ 4095) :
    Clean (toString (⟨slashes, above⟩ : PathName)) ∧
      (toString (⟨slashes, above⟩ : PathName)).utf8ByteSize ≤ 4095 := by
  have hparts := PathName.clean_of_toString hclean
  refine ⟨PathName.Clean.toString fun part hpart => hparts part (List.mem_append_left _ hpart), ?_⟩
  rw [PathName.toString_of_parts hproper (by simp), String.utf8ByteSize_append,
    PathName.size_slashes] at hshort
  dsimp only at hshort
  rw [PathName.toString_eq]
  split
  · decide
  · rw [String.utf8ByteSize_append, PathName.size_slashes]
    dsimp only
    have hwhole := PathName.size_intercalate (show above ++ [last] ≠ [] by simp)
    by_cases habove : above = []
    · rw [habove, show ("/".intercalate []).utf8ByteSize = 0 from rfl]
      omega
    · have hfront := PathName.size_intercalate habove
      rw [weight_append] at hwhole
      omega

/-- What a directory that was asked for leaves: the way to it, and nothing else that is new. -/
structure Paves (m : Filing Unit) (d : Disk) (p : PathName) (d' : Disk) : Prop where
  leaves : Leaves m d (.ok ()) d'
  paved : d.Paved (d.placeFor p) d'
  inside : d'.Inside
  leads : d'.follow (d.base p) p.parts = .ok (d.placeFor p)
  directory : d'.get? (d.placeFor p) = some .directory

section Ensure

variable {slashes : Nat} {above : List String}

theorem ensureFrom_of_blocked {f : Fault}
    (h : d.blocked? (toString (⟨slashes, above.reverse⟩ : PathName)) = some f) :
    Leaves (ensureFrom slashes above) d
      (.error (f.failure (toString (⟨slashes, above.reverse⟩ : PathName)) "mkdir")) d := by
  have hone := ensureOne_of_blocked h
  cases above with
  | nil => exact hone
  | cons last above =>
    have hkind : (f.failure (toString (⟨slashes, (last :: above).reverse⟩ : PathName)) "mkdir").kind ≠
        .noSuchFile := by
      rw [ne_eq, Fault.kind_failure_eq_noSuchFile]
      rintro rfl
      unfold Disk.blocked? at h
      split at h <;> cases h
      rename_i hno _
      exact hno rfl
    refine hone.tryCatch_error ?_
    rw [if_pos (by simpa using hkind)]
    rfl

/-- A path that leads somewhere is there already, or is made by one step. -/
theorem ensureOne_paves (inside : d.Inside) (stands : d.get? d.cwd = some .directory)
    (hproper : p.Proper) (hfree : d.blocked? (toString p) = none) (h : d.find (toString p) = .ok q) :
    ∃ d', Paves (ensureOne p) d p d' := by
  have hplace := Disk.find_placeFor stands hproper h
  subst hplace
  obtain ⟨-, hclean, hshort, -⟩ := Disk.find_ok_iff.mp h
  have hfollow := h
  rw [Disk.find_toString hproper stands hclean hshort] at hfollow
  cases hitem : d.get? (d.placeFor p) with
  | some item =>
    have hdir : item = .directory := by
      cases item with
      | directory => rfl
      | file bytes =>
        unfold Disk.blocked? Disk.see at hfree
        rw [h] at hfree
        dsimp only at hfree
        rw [hitem] at hfree
        cases hfree
    rw [hdir] at hitem
    exact ⟨d, ensureOne_of_directory h hitem, .refl inside (by simp [hitem]), inside, hfollow, hitem⟩
  | none =>
    have hroot : d.placeFor p ≠ [] := by
      intro he
      rw [he] at hitem
      cases hitem
    have hparent := Disk.parent_of_find inside stands hproper h
    refine ⟨d.put (d.placeFor p) .directory, ensureOne_of_free h hitem, .put inside hparent hitem,
      inside.put hparent (by simp [hitem]), ?_, Disk.get?_put_self hroot d _⟩
    exact Disk.follow_mono (fun _ => (Disk.Paved.put inside hparent hitem).directory) hfollow

/-- A path that is missing above its last part: once those above are made, one step makes it. -/
theorem Paves.step {last : String} {m : Filing Unit} {d₁ : Disk}
    (h : Paves m d ⟨slashes, above⟩ d₁) (inside : d.Inside)
    (stands : d.get? d.cwd = some .directory)
    (hproper : (⟨slashes, above ++ [last]⟩ : PathName).Proper)
    (hclean : Clean (toString (⟨slashes, above ++ [last]⟩ : PathName)))
    (hshort : (toString (⟨slashes, above ++ [last]⟩ : PathName)).utf8ByteSize ≤ 4095)
    (hlast : PlainName last) (hnone : d.get? (d.placeFor ⟨slashes, above⟩) = none) :
    ∃ d₂, Paves (do m; ensureOne ⟨slashes, above ++ [last]⟩) d ⟨slashes, above ++ [last]⟩ d₂ := by
  have hplace : d.placeFor ⟨slashes, above ++ [last]⟩ = d.placeFor ⟨slashes, above⟩ ++ [last] := by
    change Route.walk _ (above ++ [last]) = _
    rw [Route.walk_append, Route.walk_cons, Route.walk_nil, Route.step_plain hlast]
    rfl
  obtain ⟨hfree, hlater, hpaved⟩ :=
    h.paved.concat last inside h.inside h.directory hnone
  have hparent : d₁.get? (d.placeFor ⟨slashes, above⟩ ++ [last]).dropLast = some .directory := by
    rw [List.dropLast_concat, h.directory]
  have stands₁ : d₁.get? d₁.cwd = some .directory := by
    rw [h.paved.cwd]
    exact h.paved.directory stands
  have hbase : d₁.base ⟨slashes, above ++ [last]⟩ = d.base ⟨slashes, above⟩ :=
    Disk.base_eq h.paved.cwd ⟨slashes, above⟩
  have hfollow : d₁.follow (d.base ⟨slashes, above⟩) (above ++ [last]) =
      .ok (d.placeFor ⟨slashes, above⟩ ++ [last]) := by
    have hname := hproper last (List.mem_append_right _ List.mem_cons_self)
    rw [Disk.follow_append, h.leads]
    dsimp only
    rw [Disk.follow_step h.directory ⟨hname.1, hname.2.1⟩ fun hlong =>
      absurd hlast.2 (Nat.not_le.mpr hlong.2), Disk.follow, Route.step_plain hlast]
  have hfind : d₁.find (toString (⟨slashes, above ++ [last]⟩ : PathName)) =
      .ok (d.placeFor ⟨slashes, above⟩ ++ [last]) := by
    rw [Disk.find_toString hproper stands₁ hclean hshort, hbase, hfollow]
  refine ⟨d₁.put (d.placeFor ⟨slashes, above⟩ ++ [last]) .directory, ?_, ?_, ?_, ?_, ?_⟩
  · unfold Leaves
    rw [h.leaves.of_bind_ok]
    exact ensureOne_of_free hfind hfree
  · rw [hplace]
    exact hpaved
  · exact h.inside.put hparent (by simp [hfree])
  · rw [hplace]
    exact Disk.follow_mono (fun _ => hlater.directory) hfollow
  · rw [hplace]
    exact Disk.get?_put_self (by simp) d₁ _

/-- Where a name is missing, nothing is in the way of what is above it. -/
theorem free_above {last : String} (stands : d.get? d.cwd = some .directory)
    (hproper : (⟨slashes, above⟩ : PathName).Proper)
    (hclean : Clean (toString (⟨slashes, above⟩ : PathName)))
    (hshort : (toString (⟨slashes, above⟩ : PathName)).utf8ByteSize ≤ 4095)
    (hmissing : d.follow (d.base ⟨slashes, above⟩) (above ++ [last]) = .error .missing)
    (hnone : d.get? (d.placeFor ⟨slashes, above⟩) = none) :
    d.blocked? (toString (⟨slashes, above⟩ : PathName)) = none := by
  have hfind := Disk.find_toString hproper stands hclean hshort
  rw [Disk.follow_append] at hmissing
  unfold Disk.blocked?
  cases hq : d.follow (d.base ⟨slashes, above⟩) above with
  | error f =>
    rw [hq] at hmissing
    cases hmissing
    rw [Disk.see_of_error (hfind.trans hq)]
  | ok q =>
    have hplace := Disk.follow_kept (Disk.kept_of_proper hproper) hq
    rw [Disk.see_of_none (hfind.trans hq) (hplace ▸ hnone)]

theorem ensureFrom_paves (inside : d.Inside) (stands : d.get? d.cwd = some .directory)
    (hproper : (⟨slashes, above.reverse⟩ : PathName).Proper)
    (hplain : d.plainly ⟨slashes, above.reverse⟩ = true)
    (hfree : d.blocked? (toString (⟨slashes, above.reverse⟩ : PathName)) = none) :
    ∃ d', Paves (ensureFrom slashes above) d ⟨slashes, above.reverse⟩ d' := by
  induction above with
  | nil =>
    rw [List.reverse_nil] at hfree hproper ⊢
    cases hfind : d.find (toString (⟨slashes, []⟩ : PathName)) with
    | ok q => exact ensureOne_paves inside stands hproper hfree hfind
    | error f =>
      -- the root, or the working directory, and both are there
      rcases Disk.find_cases ⟨slashes, []⟩ with ⟨hclean, hshort⟩ | ⟨f', hf', hall⟩
      · rw [Disk.find_toString hproper stands hclean hshort] at hfind
        cases hfind
      · exact absurd (Disk.missing_of_free hfree (hall d)) hf'
  | cons last above ih =>
    rw [List.reverse_cons] at hfree hproper hplain ⊢
    cases hfind : d.find (toString (⟨slashes, above.reverse ++ [last]⟩ : PathName)) with
    | ok q =>
      obtain ⟨d', h⟩ := ensureOne_paves inside stands hproper hfree hfind
      have hleaves := h.leaves
      rw [← List.reverse_cons] at hleaves
      exact ⟨d', hleaves.tryCatch_ok _, h.paved, h.inside, h.leads, h.directory⟩
    | error f =>
      obtain rfl := Disk.missing_of_free hfree hfind
      rcases Disk.find_cases ⟨slashes, above.reverse ++ [last]⟩ with ⟨hclean, hshort⟩ | ⟨f, hf, hall⟩
      swap
      · rw [hall] at hfind
        cases hfind
        exact absurd rfl hf
      obtain ⟨hcleanAbove, hshortAbove⟩ := well_written_above hproper hclean hshort
      have hproperAbove : (⟨slashes, above.reverse⟩ : PathName).Proper :=
        fun part hpart => hproper part (List.mem_append_left _ hpart)
      have hfollow := hfind
      rw [Disk.find_toString hproper stands hclean hshort] at hfollow
      obtain ⟨hlast, hnone⟩ :=
        Disk.plain_of_missing inside (Disk.kept_of_proper hproper) hplain hfollow
      have hfreeAbove := free_above stands hproperAbove hcleanAbove hshortAbove hfollow hnone
      obtain ⟨d₁, h⟩ := ih hproperAbove (Disk.plainFrom_of_append hplain) hfreeAbove
      obtain ⟨d₂, h₂⟩ := h.step inside stands hproper hclean hshort hlast hnone
      have hone := ensureOne_of_missing hfind
      rw [← List.reverse_cons] at hone
      refine ⟨d₂, hone.tryCatch_error ?_, h₂.paved, h₂.inside, h₂.leads, h₂.directory⟩
      rw [if_neg (by rw [Fault.kind_failure_eq_noSuchFile.mpr rfl]; decide)]
      have hleaves := h₂.leaves
      rw [← List.reverse_cons] at hleaves
      exact hleaves

end Ensure

/-- Something is in the way of a directory, and nothing is made; or the way to it is. -/
theorem ensureDirectory_cases (inside : d.Inside) (stands : d.get? d.cwd = some .directory)
    (hproper : p.Proper) (hplain : d.plainly p = true) :
    (∃ f, d.blocked? (toString p) = some f ∧
      Leaves (ensureDirectory p) d (.error (f.failure (toString p) "mkdir")) d) ∨
    (d.blocked? (toString p) = none ∧ ∃ d', Paves (ensureDirectory p) d p d') := by
  have hreverse : p = ⟨p.slashes, p.parts.reverse.reverse⟩ := by rw [List.reverse_reverse]
  rw [hreverse] at hproper hplain
  cases hblocked : d.blocked? (toString p) with
  | some f =>
    rw [hreverse] at hblocked
    have h := ensureFrom_of_blocked hblocked
    rw [← hreverse] at h
    exact .inl ⟨f, rfl, h⟩
  | none =>
    rw [hreverse] at hblocked
    obtain ⟨d', h⟩ := ensureFrom_paves inside stands hproper hplain hblocked
    rw [← hreverse] at h
    exact .inr ⟨rfl, d', h⟩

end Filing

end TestMigration
