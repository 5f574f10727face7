import Folio.Proofs.Lockstep

/-! Disks that only grow: directories stay, files stay files, and whatever is made or written comes on
top. On a disk that has grown, directories are made again with the same outcome, and nothing is left to
make. -/

namespace Folio

namespace Disk

variable {d e : Disk} {files files' : Place → Prop} {place q : Place} {p base : Path}
  {names : List String} {name : String} {bytes : List UInt8}

theorem isPresent_iff : d.isPresent p = true ↔ ∃ q, d.locate true p = .ok q ∧ d.get? q ≠ none := by
  unfold isPresent
  cases hentry : d.entryAt true p with
  | ok found =>
    obtain ⟨hl, hg⟩ := entryAt_eq_ok.mp (show d.entryAt true p = .ok (found.1, found.2) from hentry)
    simp [Except.toOption, hl, hg]
  | error error =>
    simp only [Except.toOption, Option.isSome_none, Bool.false_eq_true, false_iff, not_exists, not_and,
      not_not]
    intro q hl
    by_contra hg
    obtain ⟨entry, hg⟩ := Option.ne_none_iff_exists'.mp hg
    simp [entryAt_eq_ok.mpr ⟨hl, hg⟩] at hentry

/-- A disk that came to be from another one by making directories, and by writing files at the places
`files`. -/
structure Grows (files : Place → Prop) (d e : Disk) : Prop extends
    Changes files (fun _ => True) d e where
  file : ∀ place bytes, d.get? place = some (.file bytes) →
    ∃ bytes', e.get? place = some (.file bytes')

namespace Grows

theorem refl (hd : d.Plain) : Grows files d d := ⟨.refl hd, fun _ bytes hfile => ⟨bytes, hfile⟩⟩

theorem trans {d' : Disk} (h : Grows files d d') (h' : Grows files d' e) : Grows files d e where
  toChanges := h.toChanges.trans h'.toChanges
  file place bytes hfile := by
    obtain ⟨bytes', hfile'⟩ := h.file place bytes hfile
    exact h'.file place bytes' hfile'

theorem mono (h : Grows files d e) (hfiles : ∀ place, files place → files' place) :
    Grows files' d e :=
  ⟨h.toChanges.mono hfiles fun _ h => h, h.file⟩

/-- A disk on which nothing but directories were made has grown. -/
theorem of_changes (h : Changes (fun _ => False) (fun _ => True) d e) : Grows files d e :=
  ⟨h.mono (fun _ h => h.elim) fun _ h => h,
    fun _ bytes hfile => ⟨bytes, h.present (fun h => h) hfile⟩⟩

theorem makeDirs (hd : d.Plain) (p : Path) : Grows files d (d.makeDirs p).2 :=
  .of_changes (.makeFirst hd _ fun _ _ => trivial)

theorem put (hd : d.Plain) (hpar : d.HasParent place) (hne : d.get? place ≠ some .dir)
    (hplace : files place) : Grows files d (d.put place (.file bytes)) where
  toChanges := .put hd hpar (by simp) hne (.inl hplace)
  file r old hold := by
    rw [get?_put (ne_nil_of_get?_ne_dir hne)]
    split
    · exact ⟨bytes, rfl⟩
    · exact ⟨old, hold⟩

/-- Something stands where something stood. -/
theorem ne_none (h : Grows files d e) (hd : d.Plain) (hplace : d.get? place ≠ none) :
    e.get? place ≠ none := by
  obtain ⟨entry, hentry⟩ := Option.ne_none_iff_exists'.mp hplace
  cases entry with
  | link target => exact absurd hentry (hd.noLink _ _)
  | dir => simp [h.dir hentry]
  | file bytes =>
    obtain ⟨bytes', hfile⟩ := h.file place bytes hentry
    simp [hfile]

theorem locate (h : Grows files d e) (hd : d.Plain) {followLast : Bool}
    (hl : d.locate followLast p = .ok q) : e.locate followLast p = .ok q := by
  obtain ⟨hr, hlead⟩ := hd.locate_iff.mp hl
  exact h.plain.locate_iff.mpr ⟨hr, h.lead hlead⟩

/-- What leads to a directory still does. -/
theorem isDir (h : Grows files d e) (hd : d.Plain) (hp : d.isDir p = true) : e.isDir p = true := by
  obtain ⟨q, hl, hq⟩ := isDir_iff.mp hp
  exact isDir_iff.mpr ⟨q, h.locate hd hl, h.dir hq⟩

theorem isPresent (h : Grows files d e) (hd : d.Plain) (hp : d.isPresent p = true) :
    e.isPresent p = true := by
  obtain ⟨q, hl, hq⟩ := isPresent_iff.mp hp
  exact isPresent_iff.mpr ⟨q, h.locate hd hl, h.ne_none hd hq⟩

end Grows

/-- Nothing is made where a path leads to a directory. -/
theorem Plain.makeDirs_of_isDir (hd : d.Plain) (h : d.isDir p = true) :
    d.makeDirs p = (.ok (), d) := by
  obtain ⟨q, hl, hq⟩ := isDir_iff.mp h
  obtain ⟨hr, hlead⟩ := hd.locate_iff.mp hl
  exact hd.makeFirst_present hlead hq (.inl hr) _

/-- Directories that were made are there. -/
theorem Grows.makeDirs_again {d' : Disk} (h : Grows files d' e) (hd : d.Plain) (dir : Path)
    (hname : Path.IsPiece name) (hmake : d.makeDirs (dir.child name) = (.ok (), d')) :
    e.makeDirs (dir.child name) = (.ok (), e) := by
  have hd' := (hd.of_makeFirst hmake).1
  exact h.plain.makeDirs_of_isDir (h.isDir hd' (hd.isDir_of_makeDirs dir hname hmake))

/-- The steps from the root of all output to the directory of a document: names that fit, and at most
one step up after them. -/
inductive Way : List String → Prop
  | down {names : List String} (hnames : ∀ n ∈ names, Fits n) : Way names
  | up {names : List String} (hnames : ∀ n ∈ names, Fits n) : Way (names ++ [".."])

theorem Way.isPiece (h : Way names) : ∀ n ∈ names, Path.IsPiece n := by
  cases h with
  | down hnames => exact fun n hn => (hnames n hn).isPiece
  | up hnames =>
    intro n hn
    rcases List.mem_append.mp hn with hn | hn
    · exact (hnames n hn).isPiece
    · exact List.mem_singleton.mp hn ▸ Path.isPiece_up

/-- Above a step up from a directory are the directory and those above it. -/
theorem ancestors_up (base : Path) (hne : names ≠ []) (hnames : ∀ n ∈ names, Fits n)
    (hr : refusal? (base.descend (names ++ [".."])) = none) :
    ∃ fuel, (base.descend (names ++ [".."])).ancestors =
        base.descend (names ++ [".."]) :: Path.ancestorsFrom fuel (base.descend names) ∧
      names.length < fuel ∧ refusal? (base.descend names) = none := by
  obtain ⟨dir, last, hlast, hchild⟩ :=
    Path.exists_child_descend base hne fun n hn => (hnames n hn).isPiece
  have hlen := length_descend base (Way.up hnames).isPiece
  rw [String.length_toList, String.length_toList, List.length_append, List.length_singleton] at hlen
  refine ⟨(base.descend (names ++ [".."])).text.length, ?_, by omega, ?_⟩
  · rw [Path.ancestors, Path.descend_concat]
    obtain ⟨above, hancestors, habove⟩ := ancestorsFrom_child
      ((base.descend names).child "..").text.length (base.descend names) Path.isPiece_up
    rw [hancestors, habove _ last hlast hchild]
  · rw [Path.descend_concat, hchild] at hr
    rw [hchild]
    exact refusal?_above dir hlast Path.isPiece_up hr

section Base

variable (hd : d.Plain) (hbase : d.lead base = .ok q) (hdir : d.get? q = some .dir)
  (htaken : refusal? base = none ∨ base.text = "") (hnames : ∀ n ∈ names, Fits n)

include hd hbase hdir hnames

/-- From a directory that is there, a step up leads to the one above. -/
theorem Plain.lead_up (hlast : d.get? (q ++ names) = some .dir) :
    d.lead (base.descend (names ++ [".."])) = .ok (q ++ names).dropLast ∧
      d.get? (q ++ names).dropLast = some .dir := by
  have hlead : d.lead (base.descend (names ++ [".."])) = d.reach q (names ++ [".."]) :=
    lead_descend hbase hdir (Way.up hnames).isPiece
  refine ⟨?_, ?_⟩
  · rw [hlead, reach_append (hd.reach_present hnames (by simp [hlast])) (by simp [hlast])]
    simp [reach, hlast]
  · rcases List.eq_nil_or_concat (q ++ names) with hnil | ⟨above, name, hplace⟩
    · simpa [hnil] using hlast
    · rw [List.concat_eq_append] at hplace
      rw [hplace, List.dropLast_concat]
      exact hd.inDir above name (by simp [← hplace, hlast])

include htaken

/-- The directories on the way to a step up are made, as long as there is no file among them. -/
theorem Plain.makeDirs_up (hr : refusal? (base.descend (names ++ [".."])) = none)
    (hfree : ∀ above bytes, above <+: names → d.get? (q ++ above) ≠ some (.file bytes)) :
    ∃ d', d.makeDirs (base.descend (names ++ [".."])) = (.ok (), d') := by
  by_cases hlast : d.get? (q ++ names) = some .dir
  · obtain ⟨hlead, hup⟩ := hd.lead_up hbase hdir hnames hlast
    exact ⟨d, hd.makeFirst_present hlead hup (.inl hr) _⟩
  have hnone : d.get? (q ++ names) = none := hd.none_of_free hlast (hfree _ · List.prefix_rfl)
  have hlead : d.lead (base.descend (names ++ [".."])) = .error .notFound := by
    rw [lead_descend hbase hdir (Way.up hnames).isPiece, hd.reach_below_missing hnames hdir hnone hfree]
  have hne : names ≠ [] := by
    rintro rfl
    simp [hdir] at hnone
  obtain ⟨fuel, hancestors, hfuel, hgiven⟩ := ancestors_up base hne hnames hr
  obtain ⟨d', hfirst, hmade⟩ :=
    hd.makeFirst_free hbase hdir htaken hfuel hnames (fun _ => hgiven) hfree
  -- The directories are made first, and the step up then leads to one that is there.
  obtain ⟨hd', hwork⟩ := hd.of_makeFirst hfirst
  obtain ⟨hlead', hup⟩ := hd'.lead_up (lead_mono hmade.mono hwork hbase) (hmade.mono q hdir) hnames
    (hmade.dir _ List.prefix_rfl)
  have hisDir : d'.isDir (base.descend (names ++ [".."])) = true :=
    isDir_iff.mpr ⟨_, (hd'.locate_of_taken hr true).trans hlead', hup⟩
  have hexists := hd'.makeDir_present hlead' hup hr
  have hmissing : d.makeDir (base.descend (names ++ [".."])) = .error .notFound := by
    have hlocate := (hd.locate_of_taken hr false).trans hlead
    rw [Path.descend_concat] at hlocate ⊢
    exact makeDir_child_of_error _ Path.isPiece_up hlocate
  refine ⟨d', ?_⟩
  rw [makeDirs, hancestors]
  unfold makeFirst
  simp only [hmissing, hfirst, hexists, hisDir, if_true]

omit hnames in
/-- Directories are made, or that fails for good: then nothing is made, with the same error on all disks
that grow from this one. -/
theorem Plain.makeDirs_or_fails (hway : Way names) :
    (∃ d', d.makeDirs (base.descend names) = (.ok (), d')) ∨
      ∃ error, ∀ files e, Grows files d e → e.makeDirs (base.descend names) = (.error error, e) := by
  cases hway with
  | down hnames =>
    by_cases hfree : ∀ above bytes, above <+: names → d.get? (q ++ above) ≠ some (.file bytes)
    · by_cases hgiven : names ≠ [] → refusal? (base.descend names) = none
      · obtain ⟨d', hmake, -⟩ := hd.makeDirs_free hbase hdir htaken hnames hgiven hfree
        exact .inl ⟨d', hmake⟩
      · obtain ⟨hne, hrefused⟩ : names ≠ [] ∧ refusal? (base.descend names) ≠ none := by
          simpa using hgiven
        obtain ⟨error, hr⟩ := Option.ne_none_iff_exists'.mp hrefused
        exact .inr ⟨error, fun _ e h => makeDirs_refused base hne hnames hr h.plain⟩
    · obtain ⟨above, bytes, habove, hfile⟩ : ∃ above bytes, above <+: names ∧
          d.get? (q ++ above) = some (.file bytes) := by
        simpa using hfree
      obtain ⟨error, hblocked⟩ := makeDirs_blocked base hnames habove
      refine .inr ⟨error, fun _ e h => ?_⟩
      obtain ⟨bytes', hfile'⟩ := h.file _ _ hfile
      exact hblocked e q bytes' h.plain (h.lead hbase) (h.dir hdir) hfile'
  | @up names hnames =>
    cases hr : refusal? (base.descend (names ++ [".."])) with
    | some error =>
      refine .inr ⟨error, fun _ e h => ?_⟩
      rw [Path.descend_concat] at hr ⊢
      exact makeDirs_of_error _ Path.isPiece_up (h.plain.locate_of_refusal hr)
        fun he => refusal?_child_ne _ Path.isPiece_up (he ▸ hr)
    | none =>
      by_cases hfree : ∀ above bytes, above <+: names → d.get? (q ++ above) ≠ some (.file bytes)
      · exact .inl (hd.makeDirs_up hbase hdir htaken hnames hr hfree)
      · obtain ⟨above, bytes, habove, hfile⟩ : ∃ above bytes, above <+: names ∧
            d.get? (q ++ above) = some (.file bytes) := by
          simpa using hfree
        refine .inr ⟨.notDirectory, fun _ e h => ?_⟩
        obtain ⟨bytes', hfile'⟩ := h.file _ _ hfile
        have hlead : e.lead (base.descend (names ++ [".."])) = .error .notDirectory := by
          rw [lead_descend (h.lead hbase) (h.dir hdir) (Way.up hnames).isPiece]
          exact h.plain.reach_below_file hnames habove hfile'
        have hlocate := fun followLast => (h.plain.locate_of_taken hr followLast).trans hlead
        rw [Path.descend_concat] at hlocate ⊢
        exact makeDirs_of_error _ Path.isPiece_up hlocate (by simp)

end Base

/-- A path that directories were made for leads to one. -/
theorem Plain.lead_of_way {d' : Disk} (hd : d.Plain) (hbase : d.lead base = .ok q)
    (hdir : d.get? q = some .dir) (htaken : refusal? base = none ∨ base.text = "") (hway : Way names)
    (hmake : d.makeDirs (base.descend names) = (.ok (), d')) :
    ∃ r, d'.lead (base.descend names) = .ok r ∧ d'.get? r = some .dir ∧
      (refusal? (base.descend names) = none ∨ (base.descend names).text = "") := by
  have hgrows : Grows (fun _ => False) d d' := by
    rw [show d' = (d.makeDirs (base.descend names)).2 by rw [hmake]]
    exact .makeDirs hd _
  rcases List.eq_nil_or_concat names with rfl | ⟨init, last, rfl⟩
  · exact ⟨q, hgrows.lead hbase, hgrows.dir hdir, htaken⟩
  · rw [List.concat_eq_append] at *
    rw [Path.descend_concat] at hmake ⊢
    have hlast : Path.IsPiece last := hway.isPiece last (by simp)
    obtain ⟨r, hl, hr⟩ := isDir_iff.mp (hd.isDir_of_makeDirs _ hlast hmake)
    obtain ⟨hgiven, hlead⟩ := hgrows.plain.locate_iff.mp hl
    exact ⟨r, hlead, hr, .inl hgiven⟩

end Disk

end Folio
