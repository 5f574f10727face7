import Folio.Proofs.Reach

/-! Making a directory with those above it, on a disk without symbolic links. That fails for a file on
the way, and else makes what is missing. -/

namespace Folio

namespace Disk

variable {d : Disk} {start place q : Place} {names : List String} {name : String} {p base : Path}

theorem unslashed_of_unended (h : p.text.toList.getLast? ≠ some '/') : unslashed p = p := by
  apply Path.eq_of_toList
  rw [unslashed, String.toList_ofList]
  generalize p.text.toList = cs at h
  rcases List.eq_nil_or_concat cs with rfl | ⟨cs, c, rfl⟩
  · rfl
  · have hc : c ≠ '/' := by simpa using h
    simp [hc]

theorem unslashed_child (dir : Path) (h : Path.IsPiece name) :
    unslashed (dir.child name) = dir.child name := by
  refine unslashed_of_unended fun hend => ?_
  have hunended := Path.unended_child dir h
  simp [hend] at hunended

/-- A directory is made at a name where nothing stands. -/
theorem makeDir_child (dir : Path) (h : Path.IsPiece name)
    (hl : d.locate false (dir.child name) = .ok q) :
    d.makeDir (dir.child name) =
      if (d.get? q).isSome then .error .alreadyExists else .ok (d.put q .dir) := by
  unfold makeDir vacancy
  rw [unslashed_child dir h, ite_self, hl]
  dsimp only [bind, Except.bind]
  generalize (d.get? q).isSome = taken
  cases taken <;> rfl

theorem makeDir_child_of_error (dir : Path) (h : Path.IsPiece name) {error : OsError}
    (hl : d.locate false (dir.child name) = .error error) :
    d.makeDir (dir.child name) = .error error := by
  unfold makeDir vacancy
  rw [unslashed_child dir h, ite_self, hl]
  rfl

/-- A disk that came to be by making the directories on the way from a place through names. -/
structure Made (start : Place) (names : List String) (d d' : Disk) : Prop where
  dir : ∀ above, above <+: names → d'.get? (start ++ above) = some .dir
  other : ∀ place, (∀ above, above <+: names → place ≠ start ++ above) → d'.get? place = d.get? place

theorem Made.refl (hd : d.Plain) (hdir : d.get? (start ++ names) = some .dir) :
    Made start names d d where
  dir := by
    rintro above ⟨below, rfl⟩
    cases below with
    | nil => simpa using hdir
    | cons name below =>
      have hsome : d.get? (start ++ above ++ name :: below) ≠ none := by
        rw [List.append_assoc, hdir]
        simp
      exact hd.dir_above hsome
  other _ _ := rfl

theorem Made.mono {d' : Disk} (h : Made start names d d') (place : Place)
    (hdir : d.get? place = some .dir) : d'.get? place = some .dir := by
  by_cases hway : ∃ above, above <+: names ∧ place = start ++ above
  · obtain ⟨above, habove, rfl⟩ := hway
    exact h.dir above habove
  · rw [h.other place fun above habove heq => hway ⟨above, habove, heq⟩, hdir]

theorem Made.put {d' : Disk} (h : Made start names d d') :
    Made start (names ++ [name]) d (d'.put (start ++ (names ++ [name])) .dir) where
  dir above habove := by
    rw [get?_put (by simp)]
    split
    · rfl
    · next hne =>
      rcases List.prefix_concat_iff.mp habove with rfl | habove
      · simp at hne
      · exact h.dir above habove
  other place hplace := by
    rw [get?_put (by simp), if_neg, h.other place]
    · exact fun above habove => hplace above (habove.trans (List.prefix_append _ _))
    · simpa using hplace (names ++ [name]) List.prefix_rfl

/-- Above a name is the path that the name was looked up in, if that ends in a name itself. -/
theorem ancestorsFrom_child (fuel : Nat) (dir : Path) (h : Path.IsPiece name) :
    ∃ q, Path.ancestorsFrom (fuel + 1) (dir.child name) =
        dir.child name :: Path.ancestorsFrom fuel q ∧
      ∀ (base : Path) (last : String), Path.IsPiece last → dir = base.child last → q = dir := by
  have hparent : (dir.child name).parent? =
      some (Path.ofParts ⟨dir.parts.start, Path.trimEnd dir.piecesAbove⟩) := by
    unfold Path.parent?
    rw [Path.parts_child dir h]
    dsimp only
    rw [Path.trimEnd_concat _ h]
    cases hpieces : dir.piecesAbove ++ [name.toList] with
    | nil => simp at hpieces
    | cons piece pieces =>
      rw [← hpieces]
      simp
  refine ⟨_, by rw [Path.ancestorsFrom, hparent], fun base last hlast hdir => ?_⟩
  have habove : dir.piecesAbove = base.piecesAbove ++ [last.toList] := by
    rw [hdir, Path.piecesAbove_child base hlast]
  have hparts : dir.parts = ⟨dir.parts.start, dir.piecesAbove⟩ := by
    rw [habove, hdir, Path.parts_child base hlast]
  rw [habove, Path.trimEnd_concat _ hlast, ← habove, ← hparts, Path.ofParts_parts]

theorem makeFirst_of_ok {d' : Disk} {above : List Path} (h : d.makeDir p = .ok d') :
    d.makeFirst (p :: above) = (.ok (), d') := by
  unfold makeFirst
  rw [h]

theorem makeFirst_of_error {error : OsError} {above : List Path} (h : d.makeDir p = .error error)
    (hne : error ≠ .notFound) :
    d.makeFirst (p :: above) = if d.isDir p then (.ok (), d) else (.error error, d) := by
  unfold makeFirst
  rw [h]
  split
  · next heq => cases heq
  · next heq => exact absurd (Except.error.inj heq) hne
  · next heq => rw [Except.error.inj heq]

theorem Plain.of_makeFirst {d' : Disk} {ps : List Path} {result : Except OsError Unit} (hd : d.Plain)
    (h : d.makeFirst ps = (result, d')) : d'.Plain ∧ d'.workDir = d.workDir := by
  have hleaves : Leaves "" d (d.makeFirst ps).2 := .makeFirst hd ps
  rw [h] at hleaves
  exact ⟨hleaves.plain, hleaves.workDir⟩

/-- Nothing is made if the path leads nowhere, unless something is missing on the way. -/
theorem makeDirs_of_error (dir : Path) (h : Path.IsPiece name) {error : OsError}
    (hl : ∀ followLast, d.locate followLast (dir.child name) = .error error)
    (hne : error ≠ .notFound) : d.makeDirs (dir.child name) = (.error error, d) := by
  obtain ⟨q, hq, -⟩ := ancestorsFrom_child (dir.child name).text.length dir h
  have hmake := makeDir_child_of_error dir h (hl false)
  rw [makeDirs, Path.ancestors, hq, makeFirst_of_error hmake hne, isDir_of_locate_error (hl true)]
  simp

theorem steps_slashes {text : String} {cs slashes : List Char}
    (ht : text.toList = cs ++ '/' :: slashes) (hall : ∀ c ∈ slashes, c = '/') :
    steps text = ((Path.split cs).filter fun piece => !piece.isEmpty).map String.ofList ++ ["."] := by
  have hsplit : (Path.split slashes).filter (fun piece => !piece.isEmpty) = [] := by
    clear ht
    induction slashes with
    | nil => rfl
    | cons c slashes ih =>
      simpa [Path.split, hall c (by simp)] using ih fun c hc => hall c (by simp [hc])
  have hlast : text.toList.getLast? = some '/' := by
    rw [ht]
    rcases List.eq_nil_or_concat slashes with rfl | ⟨more, c, rfl⟩
    · simp
    · have hc : c = '/' := hall c (by simp)
      rw [List.concat_eq_append, ← List.cons_append, ← List.append_assoc, List.getLast?_concat, hc]
  rw [steps, if_pos hlast, ht, Path.split_append_slash]
  simp [hsplit]

/-- Slashes at the end of a path lead nowhere else. -/
theorem Plain.locate_unslashed (hd : d.Plain) (hp : d.lead p = .ok q) (hr : refusal? p = none)
    (followLast : Bool) :
    d.locate followLast (if (unslashed p).text.isEmpty then p else unslashed p) = .ok q := by
  split
  · rw [hd.locate_of_taken hr, hp]
  · next hempty =>
    have hne : (unslashed p).text.toList ≠ [] := by simpa using hempty
    obtain ⟨slashes, hall, hwhole, hlast⟩ := toList_unslashed p
    have htext : p.text = (unslashed p).text ++ String.ofList slashes := by
      apply String.toList_inj.mp
      rw [String.toList_append, String.toList_ofList, hwhole]
    have htaken : refusal? (unslashed p) = none :=
      (refusal?_of_append htext hr).resolve_right fun h => hne (by simp [h])
    rw [hd.locate_of_taken htaken]
    cases slashes with
    | nil =>
      have hsame : unslashed p = p := Path.eq_of_toList (by simpa using hwhole.symm)
      rw [hsame, hp]
    | cons c slashes =>
      obtain ⟨rfl, hrest⟩ := List.forall_mem_cons.mp hall
      have hstart : startOf d.workDir p.text = startOf d.workDir (unslashed p).text := by
        obtain ⟨first, others, hu⟩ := List.exists_cons_of_ne_nil hne
        simp [startOf, hwhole, hu]
      rw [lead, steps_slashes hwhole hrest, hstart] at hp
      rw [lead, steps, if_neg hlast, List.append_nil]
      exact (reach_of_dot hp).1

theorem Plain.none_of_free (hd : d.Plain) (hdir : d.get? place ≠ some .dir)
    (hfile : ∀ bytes, d.get? place ≠ some (.file bytes)) : d.get? place = none := by
  cases hg : d.get? place with
  | none => rfl
  | some entry =>
    cases entry with
    | link target => exact absurd hg (hd.noLink _ _)
    | file bytes => exact absurd hg (hfile bytes)
    | dir => exact absurd hg hdir

section MakeDirs

variable {base : Path} (hd : d.Plain) (hbase : d.lead base = .ok q) (hdir : d.get? q = some .dir)

include hd hbase hdir

theorem Plain.makeDir_present (htaken : refusal? base = none) :
    d.makeDir base = .error .alreadyExists := by
  unfold Disk.makeDir Disk.vacancy
  rw [hd.locate_unslashed hbase htaken]
  simp [bind, Except.bind, hdir, throw, throwThe, MonadExceptOf.throw]

/-- Nothing is made at a directory that is there. -/
theorem Plain.makeFirst_present (htaken : refusal? base = none ∨ base.text = "") (fuel : Nat) :
    d.makeFirst (Path.ancestorsFrom (fuel + 1) base) = (.ok (), d) := by
  rw [Path.ancestorsFrom]
  split
  · rfl
  · next above habove =>
    have htaken : refusal? base = none := by
      refine htaken.resolve_right fun hempty => ?_
      have hnone : base.parent? = none := by
        rw [show base = ⟨""⟩ from Path.eq_of_toList (by simp [hempty])]
        rfl
      simp [hnone] at habove
    have hmake := hd.makeDir_present hbase hdir htaken
    have hisDir : d.isDir base = true :=
      isDir_iff.mpr ⟨q, (hd.locate_of_taken htaken true).trans hbase, hdir⟩
    rw [makeFirst_of_error hmake (by simp), hisDir]
    simp

variable (hnames : ∀ n ∈ names ++ [name], Fits n)
  (htaken : refusal? (base.descend (names ++ [name])) = none)

include hnames htaken

/-- Nothing is made below a file. -/
theorem Plain.makeDirs_below_file {above : List String} {bytes : List UInt8} (habove : above <+: names)
    (hfile : d.get? (q ++ above) = some (.file bytes)) :
    d.makeDirs (base.descend (names ++ [name])) = (.error .notDirectory, d) := by
  have hlead : d.lead (base.descend (names ++ [name])) = .error .notDirectory := by
    rw [lead_descend hbase hdir fun n hn => (hnames n hn).isPiece]
    exact hd.reach_below_file (fun n hn => hnames n (by simp [hn])) habove hfile
  rw [Path.descend_concat] at hlead htaken ⊢
  exact makeDirs_of_error _ (hnames name (by simp)).isPiece
    (fun followLast => (hd.locate_of_taken htaken followLast).trans hlead) (by simp)

/-- No directory is made instead of a file. -/
theorem Plain.makeDirs_at_file {bytes : List UInt8}
    (hfile : d.get? (q ++ (names ++ [name])) = some (.file bytes)) :
    d.makeDirs (base.descend (names ++ [name])) = (.error .alreadyExists, d) := by
  have hlead : d.lead (base.descend (names ++ [name])) = .ok (q ++ (names ++ [name])) := by
    rw [lead_descend hbase hdir fun n hn => (hnames n hn).isPiece,
      hd.reach_present hnames (by simp [hfile])]
  have hname : Path.IsPiece name := (hnames name (by simp)).isPiece
  rw [Path.descend_concat] at hlead htaken ⊢
  have hlocate : ∀ followLast, d.locate followLast ((base.descend names).child name) = _ :=
    fun followLast => (hd.locate_of_taken htaken followLast).trans hlead
  have hmake := makeDir_child (base.descend names) hname (hlocate false)
  simp only [hfile, Option.isSome_some, if_true] at hmake
  have hisDir : d.isDir ((base.descend names).child name) = false := by
    rw [Bool.eq_false_iff]
    intro h
    obtain ⟨r, hr, hrdir⟩ := isDir_iff.mp h
    obtain rfl := Except.ok.inj ((hlocate true).symm.trans hr)
    simp [hfile] at hrdir
  obtain ⟨r, hr, -⟩ := ancestorsFrom_child ((base.descend names).child name).text.length
    (base.descend names) hname
  rw [makeDirs, Path.ancestors, hr, makeFirst_of_error hmake (by simp), hisDir]
  simp

/-- A path to a name in a directory that is there leads to the name. -/
theorem Plain.locate_inside (hparent : d.get? (q ++ names) = some .dir) (followLast : Bool) :
    d.locate followLast (base.descend (names ++ [name])) = .ok (q ++ (names ++ [name])) := by
  rw [hd.locate_of_taken htaken, lead_descend hbase hdir fun n hn => (hnames n hn).isPiece]
  exact hd.reach_inside (fun n hn => hnames n (by simp [hn])) (hnames name (by simp)) hparent

/-- A name in a directory that is there is made if it is missing. -/
theorem Plain.makeFirst_inside (hparent : d.get? (q ++ names) = some .dir)
    (hfree : ∀ bytes, d.get? (q ++ (names ++ [name])) ≠ some (.file bytes)) (above : List Path) :
    ∃ d', d.makeFirst (base.descend (names ++ [name]) :: above) = (.ok (), d') ∧
      Made q (names ++ [name]) d d' := by
  have hlocate := hd.locate_inside hbase hdir hnames htaken hparent
  have hname : Path.IsPiece name := (hnames name (by simp)).isPiece
  rw [Path.descend_concat] at hlocate ⊢
  have hmake := makeDir_child (base.descend names) hname (hlocate false)
  cases hg : d.get? (q ++ (names ++ [name])) with
  | none =>
    simp only [hg, Option.isSome_none, Bool.false_eq_true, if_false] at hmake
    exact ⟨_, makeFirst_of_ok hmake, (Made.refl hd hparent).put⟩
  | some entry =>
    cases entry with
    | link target => exact absurd hg (hd.noLink _ _)
    | file bytes => exact absurd hg (hfree bytes)
    | dir =>
      simp only [hg, Option.isSome_some, if_true] at hmake
      refine ⟨d, ?_, .refl hd hg⟩
      rw [makeFirst_of_error hmake (by simp), isDir_iff.mpr ⟨_, hlocate true, hg⟩]
      simp

/-- A name is not made as long as the directory above is missing. -/
theorem Plain.makeDir_below_missing (hnone : d.get? (q ++ names) = none)
    (hfree : ∀ above bytes, above <+: names → d.get? (q ++ above) ≠ some (.file bytes)) :
    d.makeDir (base.descend (names ++ [name])) = .error .notFound := by
  have hdirs : ∀ n ∈ names, Fits n := fun n hn => hnames n (by simp [hn])
  have hlead : d.lead (base.descend (names ++ [name])) = .error .notFound := by
    rw [lead_descend hbase hdir fun n hn => (hnames n hn).isPiece,
      hd.reach_below_missing hdirs hdir hnone hfree]
  rw [Path.descend_concat] at hlead htaken ⊢
  exact makeDir_child_of_error _ (hnames name (by simp)).isPiece
    ((hd.locate_of_taken htaken false).trans hlead)

/-- After the directory above was made, so is the name. -/
theorem Plain.makeDir_made {d' : Disk} (hd' : d'.Plain) (hwork : d'.workDir = d.workDir)
    (hmade : Made q names d d') (hnone : d.get? (q ++ names) = none) :
    d'.makeDir (base.descend (names ++ [name])) = .ok (d'.put (q ++ (names ++ [name])) .dir) := by
  have hlocate := hd'.locate_inside (lead_mono hmade.mono hwork hbase) (hmade.mono q hdir) hnames htaken
    (hmade.dir names List.prefix_rfl)
  have hname : Path.IsPiece name := (hnames name (by simp)).isPiece
  have hmissing : d'.get? (q ++ (names ++ [name])) = none := by
    rw [hmade.other]
    · cases hg : d.get? (q ++ (names ++ [name])) with
      | none => rfl
      | some entry =>
        have hparent : d.get? (q ++ names) = some .dir := hd.inDir _ name (by simp [hg])
        simp [hnone] at hparent
    · intro above habove heq
      have hlen := habove.length_le
      simp [← List.append_cancel_left heq] at hlen
  rw [Path.descend_concat] at hlocate ⊢
  rw [makeDir_child (base.descend names) hname (hlocate false)]
  simp [hmissing]

omit hnames htaken in
/-- All that is missing on the way is made, as long as there is no file on it. -/
theorem Plain.makeFirst_free (hbaseTaken : refusal? base = none ∨ base.text = "") {fuel : Nat}
    (hfuel : names.length < fuel) (hnames : ∀ n ∈ names, Fits n)
    (htaken : names ≠ [] → refusal? (base.descend names) = none)
    (hfree : ∀ above bytes, above <+: names → d.get? (q ++ above) ≠ some (.file bytes)) :
    ∃ d', d.makeFirst (Path.ancestorsFrom fuel (base.descend names)) = (.ok (), d') ∧
      Made q names d d' := by
  -- From the last name to the first, as the missing directories are looked for.
  induction hlen : names.length generalizing names fuel with
  | zero =>
    obtain rfl := List.length_eq_zero_iff.mp hlen
    obtain ⟨fuel, rfl⟩ := Nat.exists_eq_succ_of_ne_zero (Nat.ne_of_gt hfuel)
    exact ⟨d, hd.makeFirst_present hbase hdir hbaseTaken fuel, .refl hd (by simpa using hdir)⟩
  | succ size ih =>
    have hne : names ≠ [] := List.ne_nil_of_length_eq_add_one hlen
    obtain ⟨fuel, rfl⟩ := Nat.exists_eq_succ_of_ne_zero (Nat.ne_of_gt (Nat.zero_lt_of_lt hfuel))
    obtain ⟨dirs, name, rfl⟩ := (List.eq_nil_or_concat names).resolve_left hne
    simp only [List.concat_eq_append, List.length_append, List.length_singleton] at *
    have hptaken := htaken hne
    have hname : Path.IsPiece name := (hnames name (by simp)).isPiece
    obtain ⟨r, hr, hrdir⟩ := ancestorsFrom_child fuel (base.descend dirs) hname
    rw [← Path.descend_concat] at hr
    rw [hr]
    by_cases hparent : d.get? (q ++ dirs) = some .dir
    · exact hd.makeFirst_inside hbase hdir hnames hptaken hparent (hfree _ · List.prefix_rfl) _
    have hdirs : ∀ n ∈ dirs, Fits n := fun n hn => hnames n (by simp [hn])
    have hfreeDirs : ∀ above bytes, above <+: dirs → d.get? (q ++ above) ≠ some (.file bytes) :=
      fun above bytes h => hfree above bytes (h.trans (List.prefix_append _ _))
    have hnone : d.get? (q ++ dirs) = none :=
      hd.none_of_free hparent (hfreeDirs _ · List.prefix_rfl)
    have hdirsNe : dirs ≠ [] := by
      rintro rfl
      simp [hdir] at hnone
    obtain ⟨above, last, hlast, hchild⟩ :=
      Path.exists_child_descend base hdirsNe fun n hn => (hdirs n hn).isPiece
    obtain rfl := hrdir above last hlast hchild
    have hdirsTaken : refusal? (base.descend dirs) = none := by
      rw [Path.descend_concat, hchild] at hptaken
      exact hchild ▸ refusal?_above above hlast hname hptaken
    obtain ⟨d', hd', hmade⟩ :=
      ih (show dirs.length < fuel by omega) hdirs (fun _ => hdirsTaken) hfreeDirs (by omega)
    obtain ⟨hplain, hwork⟩ := hd.of_makeFirst hd'
    have hmissing := hd.makeDir_below_missing hbase hdir hnames hptaken hnone hfreeDirs
    have hmake := hd.makeDir_made hbase hdir hnames hptaken hplain hwork hmade hnone
    refine ⟨_, ?_, hmade.put⟩
    unfold makeFirst
    rw [hmissing]
    dsimp only
    rw [hd']
    dsimp only
    rw [hmake]

omit hd hbase hdir hnames htaken in
theorem length_descend (base : Path) (hnames : ∀ n ∈ names, Path.IsPiece n) :
    base.text.toList.length + names.length ≤ (base.descend names).text.toList.length := by
  induction names generalizing base with
  | nil => simp
  | cons name names ih =>
    have hname : Path.IsPiece name := hnames name (by simp)
    have hchild : base.text.toList.length < (base.child name).text.toList.length := by
      rw [Path.child_toList base hname]
      have hpos := List.length_pos_iff.mpr hname.nonempty
      split <;> simp only [List.length_append, List.length_cons] <;> omega
    have hrest := ih (base.child name) fun n hn => hnames n (by simp [hn])
    rw [Path.descend_cons, List.length_cons]
    omega

omit hnames htaken in
theorem Plain.makeDirs_free (hbaseTaken : refusal? base = none ∨ base.text = "")
    (hnames : ∀ n ∈ names, Fits n)
    (htaken : names ≠ [] → refusal? (base.descend names) = none)
    (hfree : ∀ above bytes, above <+: names → d.get? (q ++ above) ≠ some (.file bytes)) :
    ∃ d', d.makeDirs (base.descend names) = (.ok (), d') ∧ Made q names d d' := by
  refine hd.makeFirst_free hbase hdir hbaseTaken ?_ hnames htaken hfree
  have hlen := length_descend base fun n hn => (hnames n hn).isPiece
  rw [← String.length_toList]
  omega

end MakeDirs

/-- A path that no call takes fails the same on all disks. -/
theorem makeDirs_refused {error : OsError} (base : Path) (hne : names ≠ [])
    (hnames : ∀ n ∈ names, Fits n) (hr : refusal? (base.descend names) = some error) (hd : d.Plain) :
    d.makeDirs (base.descend names) = (.error error, d) := by
  obtain ⟨dirs, name, rfl⟩ := (List.eq_nil_or_concat names).resolve_left hne
  rw [List.concat_eq_append] at hnames hr ⊢
  have hname : Path.IsPiece name := (hnames name (by simp)).isPiece
  rw [Path.descend_concat] at hr ⊢
  exact makeDirs_of_error _ hname (hd.locate_of_refusal hr) fun he => refusal?_child_ne _ hname (he ▸ hr)

/-- Making directories fails the same on all disks with a file at the same place on the way. -/
theorem makeDirs_blocked (base : Path) (hnames : ∀ n ∈ names, Fits n) {above : List String}
    (habove : above <+: names) :
    ∃ error, ∀ (d : Disk) (q : Place) (bytes : List UInt8), d.Plain → d.lead base = .ok q →
      d.get? q = some .dir → d.get? (q ++ above) = some (.file bytes) →
      d.makeDirs (base.descend names) = (.error error, d) := by
  rcases List.eq_nil_or_concat names with rfl | ⟨dirs, name, rfl⟩
  · refine ⟨.notFound, fun d q bytes _ _ hdir hfile => ?_⟩
    simp [List.prefix_nil.mp habove, hdir] at hfile
  rw [List.concat_eq_append] at habove hnames ⊢
  cases hr : refusal? (base.descend (dirs ++ [name])) with
  | some error =>
    exact ⟨error, fun d q bytes hd _ _ _ => makeDirs_refused base (by simp) hnames hr hd⟩
  | none =>
    rcases List.prefix_concat_iff.mp habove with rfl | habove
    · exact ⟨.alreadyExists, fun d q bytes hd hbase hdir hfile =>
        hd.makeDirs_at_file hbase hdir hnames hr hfile⟩
    · exact ⟨.notDirectory, fun d q bytes hd hbase hdir hfile =>
        hd.makeDirs_below_file hbase hdir hnames hr habove hfile⟩

/-- A directory that was made is there. -/
theorem Plain.isDir_of_makeDir {d' : Disk} (hd : d.Plain) (dir : Path) (h : Path.IsPiece name)
    (hm : d.makeDir (dir.child name) = .ok d') : d'.isDir (dir.child name) = true := by
  have hd' : d'.Plain := hd.makeDir hm
  cases hl : d.locate false (dir.child name) with
  | error error => simp [makeDir_child_of_error dir h hl] at hm
  | ok q =>
    rw [makeDir_child dir h hl] at hm
    split at hm
    · cases hm
    · next hsome =>
      obtain rfl := Except.ok.inj hm
      have hnone : d.get? q = none := by simpa using hsome
      have hne : q ≠ [] := ne_nil_of_get?_ne_dir (show d.get? q ≠ some .dir by simp [hnone])
      obtain ⟨hr, hlead⟩ := hd.locate_iff.mp hl
      refine isDir_iff.mpr ⟨q, hd'.locate_iff.mpr ⟨hr, ?_⟩, by simp [get?_put hne]⟩
      refine lead_mono (d := d) (fun place hdir => ?_) rfl hlead
      rw [get?_put hne, hdir, ite_self]

theorem Plain.isDir_of_makeDirs {d' : Disk} (hd : d.Plain) (dir : Path) (h : Path.IsPiece name)
    (hm : d.makeDirs (dir.child name) = (.ok (), d')) : d'.isDir (dir.child name) = true := by
  obtain ⟨q, hq, -⟩ := ancestorsFrom_child (dir.child name).text.length dir h
  rw [makeDirs, Path.ancestors, hq] at hm
  unfold makeFirst at hm
  split at hm
  · next made =>
    obtain rfl := (Prod.mk.inj hm).2
    exact hd.isDir_of_makeDir dir h made
  · split at hm
    · cases hm
    · next middle hfirst =>
      have hmiddle : middle.Plain := (hd.of_makeFirst hfirst).1
      split at hm
      · next made =>
        obtain rfl := (Prod.mk.inj hm).2
        exact hmiddle.isDir_of_makeDir dir h made
      · split at hm
        · next hdir =>
          obtain rfl := (Prod.mk.inj hm).2
          exact hdir
        · cases hm
  · split at hm
    · next hdir =>
      obtain rfl := (Prod.mk.inj hm).2
      exact hdir
    · cases hm

/-- A path that directories were made for leads to the last of them. -/
theorem Plain.lead_of_makeDirs {d' : Disk} (hd : d.Plain) (hbase : d.lead base = .ok q)
    (hdir : d.get? q = some .dir) (hnames : ∀ n ∈ names, Fits n)
    (hm : d.makeDirs (base.descend names) = (.ok (), d')) :
    d'.lead (base.descend names) = .ok (q ++ names) ∧ d'.get? (q ++ names) = some .dir := by
  have hframe : Changes (fun _ => False) (fun _ => True) d d' := by
    rw [show d' = (d.makeDirs (base.descend names)).2 by rw [hm]]
    exact .makeFirst hd _ fun _ _ => trivial
  have hplace : (base.descend names).place d'.workDir = q ++ names := by
    rw [Path.place_descend base fun n hn => (hnames n hn).toIsName, hframe.workDir, hd.lead_place hbase]
  rcases List.eq_nil_or_concat names with rfl | ⟨dirs, name, rfl⟩
  · simpa using ⟨lead_mono (fun _ => hframe.dir) hframe.workDir hbase, hframe.dir hdir⟩
  · rw [List.concat_eq_append] at *
    have hname : Path.IsPiece name := (hnames name (by simp)).isPiece
    rw [Path.descend_concat] at hm hplace ⊢
    obtain ⟨r, hl, hr⟩ := isDir_iff.mp (hd.isDir_of_makeDirs _ hname hm)
    have hrplace : r = q ++ (dirs ++ [name]) := (hframe.plain.locate_place hl).trans hplace
    obtain ⟨-, hlead⟩ := hframe.plain.locate_iff.mp hl
    exact hrplace ▸ ⟨hlead, hr⟩

end Disk

theorem Site.run_makeDirs_eq_ok {d d' : Disk} {p : Path} :
    (Site.makeDirs p : ExceptT Error (StateM Disk) Unit).run d = (.ok (), d') ↔
      d.makeDirs p = (.ok (), d') := by
  rw [Site.makeDirs, FileSystem.orElse_run, FileSystem.makeDirs_eq]
  generalize d.makeDirs p = made
  obtain ⟨error | _, d''⟩ := made
  · exact ⟨fun h => (by cases h), fun h => (by cases h)⟩
  · exact ⟨fun h => (by cases h; rfl), fun h => (by cases h; rfl)⟩

theorem Site.makeDirs_eq_ok {d : Disk} {p : Path}
    (h : ((Site.makeDirs p : ExceptT Error (StateM Disk) Unit).run d).1 = .ok ()) :
    d.makeDirs p = (.ok (), ((Site.makeDirs p : ExceptT Error (StateM Disk) Unit).run d).2) :=
  run_makeDirs_eq_ok.mp (Prod.ext h rfl)

end Folio
