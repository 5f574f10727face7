import Folio.Proofs.DiskWrites

/-! Disks without symbolic links. There a path leads where its names say, a file that is written comes
to stand under its own name, and so files of other names stay as they are. -/

namespace Folio

namespace Path

theorem split_ne_nil (cs : List Char) : split cs ≠ [] := by
  cases cs with
  | nil => simp [split]
  | cons c cs =>
    rw [split]
    split
    · simp
    · split <;> simp

theorem split_append_slash (cs ds : List Char) : split (cs ++ '/' :: ds) = split cs ++ split ds := by
  induction cs with
  | nil => simp [split]
  | cons c cs ih =>
    by_cases hc : c = '/'
    · simp [split, hc, ih]
    · obtain ⟨piece, pieces, hs⟩ := List.exists_cons_of_ne_nil (split_ne_nil cs)
      simp [split, hc, ih, hs]

theorem split_of_no_slash {cs : List Char} (h : '/' ∉ cs) : split cs = [cs] := by
  induction cs with
  | nil => rfl
  | cons c cs ih =>
    obtain ⟨hc, hcs⟩ := List.ne_and_not_mem_of_not_mem_cons h
    simp [split, Ne.symm hc, ih hcs]

theorem exists_mem_split {cs : List Char} {c : Char} (h : c ∈ cs) (hc : c ≠ '/') :
    ∃ piece ∈ split cs, c ∈ piece := by
  induction cs with
  | nil => cases h
  | cons d ds ih =>
    by_cases hd : d = '/'
    · have hds : c ∈ ds := by simpa [hd, hc] using h
      obtain ⟨piece, hp, hcp⟩ := ih hds
      exact ⟨piece, by simp [split, hd, hp], hcp⟩
    · obtain ⟨first, pieces, hs⟩ := List.exists_cons_of_ne_nil (split_ne_nil ds)
      rcases List.mem_cons.mp h with rfl | hds
      · exact ⟨c :: first, by simp [split, hd, hs], by simp⟩
      · obtain ⟨piece, hp, hcp⟩ := ih hds
        rw [hs] at hp
        rcases List.mem_cons.mp hp with rfl | hp
        · exact ⟨d :: piece, by simp [split, hd, hs], by simp [hcp]⟩
        · exact ⟨piece, by simp [split, hd, hs, hp], hcp⟩

/-- A text that is the name of an entry and nothing else. -/
structure IsName (name : String) : Prop where
  nonempty : name.toList ≠ []
  noSlash : '/' ∉ name.toList
  notHere : name ≠ "."
  notUp : name ≠ ".."

instance (name : String) : Decidable (IsName name) :=
  decidable_of_iff
    (name.toList ≠ [] ∧ '/' ∉ name.toList ∧ name ≠ "." ∧ name ≠ "..")
    ⟨fun ⟨h1, h2, h3, h4⟩ => ⟨h1, h2, h3, h4⟩, fun ⟨h1, h2, h3, h4⟩ => ⟨h1, h2, h3, h4⟩⟩

end Path

namespace Disk

theorem steps_name {name : String} (hne : name.toList ≠ []) (hslash : '/' ∉ name.toList) :
    steps name = [name] := by
  have hlast : name.toList.getLast? ≠ some '/' := fun hl => hslash (List.mem_of_getLast? hl)
  simp [steps, Path.split_of_no_slash hslash, hne, hlast]

theorem steps_slash {text name : String} {cs : List Char} (hne : name.toList ≠ [])
    (hslash : '/' ∉ name.toList) (ht : text.toList = cs ++ '/' :: name.toList) :
    steps text = ((Path.split cs).filter fun piece => !piece.isEmpty).map String.ofList ++ [name] := by
  have hlast : text.toList.getLast? ≠ some '/' := by
    intro hl
    obtain ⟨before, c, hn⟩ := (List.eq_nil_or_concat name.toList).resolve_left hne
    have hend : text.toList = (cs ++ '/' :: before) ++ [c] := by simp [ht, hn]
    rw [hend, List.getLast?_concat] at hl
    exact hslash (by simp [hn, Option.some.inj hl])
  rw [steps, if_neg hlast, ht, Path.split_append_slash, Path.split_of_no_slash hslash]
  simp [hne]

/-- The steps to a name in a directory are those to the directory, and the name. -/
theorem steps_child (dir : Path) {name : String} (h : Path.IsName name) :
    ∃ before, steps (dir.child name).text = before ++ [name] ∧ ∀ s ∈ before, s ∈ steps dir.text := by
  have habs : Path.isAbsolute ⟨name⟩ = false := by
    have hhead : name.toList.head? ≠ some '/' := fun hh => h.noSlash (List.mem_of_head? hh)
    simpa [Path.isAbsolute] using hhead
  rcases List.eq_nil_or_concat dir.text.toList with hdir | ⟨cs, c, hdir⟩
  · refine ⟨[], ?_, by simp⟩
    have htext : dir.text = "" := by simpa using hdir
    simp [Path.child, Path.join, habs, htext, steps_name h.nonempty h.noSlash]
  · by_cases hc : c = '/'
    · have ht : (dir.child name).text.toList = cs ++ '/' :: name.toList := by
        simp [Path.child, Path.join, habs, hdir, hc]
      refine ⟨_, steps_slash h.nonempty h.noSlash ht, fun s hs => ?_⟩
      rw [steps, hdir, hc, List.concat_eq_append, Path.split_append_slash]
      simp only [List.filter_append, List.map_append, List.mem_append]
      exact .inl (.inl hs)
    · have ht : (dir.child name).text.toList = dir.text.toList ++ '/' :: name.toList := by
        simp [Path.child, Path.join, habs, hdir, hc]
      refine ⟨_, steps_slash h.nonempty h.noSlash ht, fun s hs => ?_⟩
      rw [steps, List.map_append]
      exact List.mem_append_left _ hs

theorem steps_ne_nil {text : String} (h : text.toList ≠ []) : steps text ≠ [] := by
  obtain ⟨cs, c, ht⟩ := (List.eq_nil_or_concat text.toList).resolve_left h
  by_cases hc : c = '/'
  · simp [steps, ht, hc]
  · obtain ⟨piece, hp, hcp⟩ := Path.exists_mem_split (show c ∈ text.toList by simp [ht]) hc
    have hne : piece ≠ [] := List.ne_nil_of_mem hcp
    have hmem : piece ∈ (Path.split text.toList).filter fun piece => !piece.isEmpty := by
      simp [hp, hne]
    rw [steps, List.map_append]
    exact List.append_ne_nil_of_left_ne_nil (by simpa using List.ne_nil_of_mem hmem) _

/-- No symbolic links, and every entry in a directory. -/
structure Plain (d : Disk) : Prop where
  noLink : ∀ place target, d.get? place ≠ some (.link target)
  inDir : ∀ place name, d.get? (place ++ [name]) ≠ none → d.get? place = some .dir

variable {d d' : Disk} {place start q : Place} {path : List String} {links : Nat}
  {followLast : Bool} {p : Path} {bytes : List UInt8}

theorem mem_entries_of_get? {entry : Entry} (hg : d.get? place = some entry) (hne : place ≠ []) :
    (place, entry) ∈ d.entries.entries := by
  have hl : d.entries.entries.lookup place = some entry := by
    simpa [get?, hne, SortedMap.get?] using hg
  obtain ⟨before, after, hes, -⟩ := List.lookup_eq_some_iff.mp hl
  simp [hes]

/-- It is enough to look at the entries one by one. -/
theorem plain_of_forall (hlink : ∀ e ∈ d.entries.entries, ∀ target, e.2 ≠ .link target)
    (hdir : ∀ e ∈ d.entries.entries, d.get? e.1.dropLast = some .dir) : d.Plain where
  noLink place target hg := by
    have hne : place ≠ [] := by
      rintro rfl
      simp [get?] at hg
    exact hlink _ (mem_entries_of_get? hg hne) target rfl
  inDir place name hg := by
    obtain ⟨entry, hentry⟩ := Option.ne_none_iff_exists'.mp hg
    simpa using hdir _ (mem_entries_of_get? hentry (by simp))

/-- The directory that an entry at a place would be in is there. -/
def HasParent (d : Disk) (place : Place) : Prop :=
  ∀ above name, place = above ++ [name] → d.get? above = some .dir

theorem Plain.hasParent (h : d.Plain) (hp : d.get? place ≠ none) : d.HasParent place := by
  rintro above name rfl
  exact h.inDir above name hp

/-- All that is above an entry are directories. -/
theorem Plain.dir_above (h : d.Plain) {name : String} {below : Place}
    (hp : d.get? (place ++ name :: below) ≠ none) : d.get? place = some .dir := by
  induction below generalizing place name with
  | nil => exact h.inDir place name hp
  | cons next below ih =>
    have hdir : d.get? (place ++ [name]) = some .dir := @ih (place ++ [name]) next (by simpa using hp)
    exact h.inDir place name (by simp [hdir])

/-- Where steps lead by their names alone. -/
def walk (start : Place) : List String → Place
  | [] => start
  | step :: rest =>
    if step = "." then walk start rest
    else if step = ".." then walk start.dropLast rest
    else walk (start ++ [step]) rest

theorem walk_append_name {name : String} (h : Path.IsName name) :
    walk start (path ++ [name]) = walk start path ++ [name] := by
  induction path generalizing start with
  | nil => simp [walk, h.notHere, h.notUp]
  | cons step rest ih => grind [walk]

theorem start_isPrefix_walk (h : ".." ∉ path) : start <+: walk start path := by
  induction path generalizing start with
  | nil => exact List.prefix_rfl
  | cons step rest ih =>
    obtain ⟨hstep, hrest⟩ := List.ne_and_not_mem_of_not_mem_cons h
    rw [walk]
    split
    · exact ih hrest
    · rw [if_neg (Ne.symm hstep)]
      exact (List.prefix_append start [step]).trans (ih hrest)

theorem Plain.followWith_walk (h : d.Plain)
    {jump : Place → List String → Except OsError Place}
    (hf : d.followWith followLast jump start path = .ok q) : q = walk start path := by
  fun_induction Disk.followWith d followLast jump start path with
  | case1 => exact (Except.ok.inj hf).symm
  | case2 | case5 | case7 => cases hf
  | case3 start rest hstart ih => simpa [walk] using ih hf
  | case4 start rest hstart hstep ih => simpa [walk] using ih hf
  | case6 start step rest hstart h1 h2 h3 next hnext hrest =>
    have hnil : rest = [] := by simpa using hrest
    simpa [walk, h1, h2, hnil] using (Except.ok.inj hf).symm
  | case8 | case9 => exact absurd ‹_› (h.noLink _ _)
  | case10 start step rest hstart h1 h2 h3 next entry hentry hnext ih =>
    simpa [walk, h1, h2] using ih hf

/-- A path that leads somewhere leads into a directory. -/
theorem Plain.followWith_hasParent (h : d.Plain)
    {jump : Place → List String → Except OsError Place}
    (hs : path = [] → d.HasParent start)
    (hf : d.followWith followLast jump start path = .ok q) : d.HasParent q := by
  fun_induction Disk.followWith d followLast jump start path with
  | case1 => exact Except.ok.inj hf ▸ hs rfl
  | case2 | case5 | case7 => cases hf
  | case3 start rest hstart ih =>
    exact ih (fun _ => h.hasParent (by simp_all)) hf
  | case4 start rest hstart hstep ih =>
    refine ih (fun _ => ?_) hf
    rcases List.eq_nil_or_concat start with rfl | ⟨above, name, rfl⟩
    · rintro above name hnil
      simp at hnil
    · have habove : d.get? above = some .dir := h.inDir above name (by simp_all)
      simpa using h.hasParent (by simp [habove])
  | case6 start step rest hstart h1 h2 h3 next hnext hrest =>
    rintro above name hq
    have happ : start ++ [step] = above ++ [name] := (Except.ok.inj hf).trans hq
    obtain ⟨rfl, -⟩ := List.append_inj' happ rfl
    simpa using hstart
  | case8 | case9 => exact absurd ‹_› (h.noLink _ _)
  | case10 start step rest hstart h1 h2 h3 next entry hentry hnext ih =>
    exact ih (fun _ => h.hasParent (by simp_all)) hf

theorem Plain.follow_walk (h : d.Plain) (hf : d.follow links followLast start path = .ok q) :
    q = walk start path := by
  cases links <;> exact h.followWith_walk hf

theorem Plain.follow_hasParent (h : d.Plain) (hpath : path ≠ [])
    (hf : d.follow links followLast start path = .ok q) : d.HasParent q := by
  cases links <;> exact h.followWith_hasParent (fun hn => absurd hn hpath) hf

/-- A path without double dots that leads to a file leads to it on every plain disk that has the
file. -/
theorem Plain.followWith_file (h : d.Plain) (h' : d'.Plain) (hup : ".." ∉ path)
    {jump jump' : Place → List String → Except OsError Place}
    (hf : d'.followWith followLast jump' start path = .ok q)
    (hq' : d'.get? q = some (.file bytes)) (hq : d.get? q = some (.file bytes)) :
    d.followWith followLast jump start path = .ok q := by
  have hbelow : start <+: q := h'.followWith_walk hf ▸ start_isPrefix_walk hup
  -- What a step starts from is not the file itself, so it is above the file.
  have habove : ∀ place, place <+: q → d'.get? place = some .dir → d.get? place = some .dir := by
    rintro place ⟨below, rfl⟩ hdir
    cases below with
    | nil => simp [hdir] at hq'
    | cons name below =>
      exact h.dir_above (show d.get? (place ++ name :: below) ≠ none by simp [hq])
  fun_induction Disk.followWith d' followLast jump' start path with
  | case1 => simpa [followWith] using hf
  | case2 | case5 | case7 => cases hf
  | case3 start rest hstart ih =>
    have hdir := habove start hbelow (by simpa using hstart)
    rw [followWith]
    simpa [hdir] using ih (by simp_all) hf hbelow
  | case4 => simp at hup
  | case6 start step rest hstart h1 h2 h3 next hnext hrest =>
    simp [← Except.ok.inj hf, hnext] at hq'
  | case8 | case9 => exact absurd ‹_› (h'.noLink _ _)
  | case10 start step rest hstart h1 h2 h3 next entry hentry hnext ih =>
    have hdir := habove start hbelow (by simpa using hstart)
    have hrest : ".." ∉ rest := fun hm => hup (List.mem_cons_of_mem _ hm)
    have hbelow' : next <+: q := h'.followWith_walk hf ▸ start_isPrefix_walk hrest
    have hd : d.followWith followLast jump next rest = .ok q := ih hrest hf hbelow'
    rw [followWith]
    simp only [hdir, h1, h2, h3]
    obtain ⟨below, hb⟩ := hbelow'
    cases below with
    | nil =>
      have hg : d.get? (start ++ [step]) = some (.file bytes) := by
        rw [← hq, ← hb, List.append_nil]
      simpa [hg] using hd
    | cons name below =>
      have hg : d.get? (start ++ [step]) = some .dir := h.dir_above (by rw [hb, hq]; simp)
      simpa [hg] using hd

theorem Plain.follow_file (h : d.Plain) (h' : d'.Plain) (hup : ".." ∉ path)
    (hf : d'.follow links followLast start path = .ok q)
    (hq' : d'.get? q = some (.file bytes)) (hq : d.get? q = some (.file bytes)) :
    d.follow links followLast start path = .ok q := by
  cases links <;> exact h.followWith_file h' hup hf hq' hq

/-- A file or a directory is put in a directory, and not instead of one that is not empty. -/
theorem Plain.put {entry : Entry} (h : d.Plain) (hpar : d.HasParent place) (hne : place ≠ [])
    (hlink : ∀ target, entry ≠ .link target) (hdir : d.get? place = some .dir → entry = .dir) :
    (d.put place entry).Plain := by
  refine ⟨fun q target => ?_, fun above name hq => ?_⟩
  · rw [get?_put hne]
    split
    · simpa using hlink target
    · exact h.noLink q target
  · have habove : d.get? above = some .dir := by
      rw [get?_put hne] at hq
      split at hq
      · next hp => exact hpar above name hp.symm
      · exact h.inDir above name hq
    rw [get?_put hne]
    split
    · next hp => rw [hdir (hp ▸ habove)]
    · exact habove

theorem Plain.erase (h : d.Plain) (hne : place ≠ []) (hdir : d.get? place ≠ some .dir) :
    (d.erase place).Plain := by
  refine ⟨fun q target => ?_, fun above name hq => ?_⟩
  · rw [get?_erase hne]
    split
    · simp
    · exact h.noLink q target
  · have habove : d.get? above = some .dir := by
      rw [get?_erase hne] at hq
      split at hq
      · simp at hq
      · exact h.inDir above name hq
    rw [get?_erase hne, if_neg]
    · exact habove
    · rintro rfl
      exact hdir habove

theorem Plain.locate_hasParent (h : d.Plain) (hl : d.locate followLast p = .ok q) :
    d.HasParent q := by
  obtain ⟨htakes, hf⟩ := locate_eq_ok.mp hl
  exact h.follow_hasParent (steps_ne_nil htakes.nonempty) hf

theorem Plain.writeBytes (h : d.Plain) (hw : d.writeBytes p bytes = .ok d') : d'.Plain := by
  obtain ⟨place, hl, hdir, rfl⟩ := writeBytes_eq_ok hw
  exact h.put (h.locate_hasParent hl) (ne_nil_of_get?_ne_dir hdir) (by simp)
    (fun hd => absurd hd hdir)

theorem Plain.removeFile (h : d.Plain) (hr : d.removeFile p = .ok d') : d'.Plain := by
  obtain ⟨place, hdir, rfl⟩ := removeFile_eq_ok hr
  exact h.erase (ne_nil_of_get?_ne_dir hdir) hdir

theorem Plain.makeDir (h : d.Plain) (hm : d.makeDir p = .ok d') : d'.Plain := by
  obtain ⟨r, place, hl, hnone, rfl⟩ := makeDir_eq_ok hm
  have hdir : d.get? place ≠ some .dir := by simp [hnone]
  exact h.put (h.locate_hasParent hl) (ne_nil_of_get?_ne_dir hdir) (by simp) (fun _ => rfl)

/-- A path to a name leads to an entry of that name. -/
theorem Plain.getLast?_locate (h : d.Plain) {dir : Path} {name : String} (hn : Path.IsName name)
    (hl : d.locate followLast (dir.child name) = .ok q) : q.getLast? = some name := by
  obtain ⟨-, hf⟩ := locate_eq_ok.mp hl
  obtain ⟨before, hsteps, -⟩ := steps_child dir hn
  rw [h.follow_walk hf, hsteps, walk_append_name hn]
  simp

/-- A disk that came to be from another one without any new file of a name. -/
structure Leaves (name : String) (d d' : Disk) : Prop where
  plain : d'.Plain
  workDir : d'.workDir = d.workDir
  file : ∀ place bytes, place.getLast? = some name → d'.get? place = some (.file bytes) →
    d.get? place = some (.file bytes)

namespace Leaves

variable {name : String}

theorem refl (h : d.Plain) : Leaves name d d := ⟨h, rfl, fun _ _ _ hf => hf⟩

theorem trans {d'' : Disk} (h : Leaves name d d') (h' : Leaves name d' d'') : Leaves name d d'' :=
  ⟨h'.plain, h'.workDir.trans h.workDir, fun p b hn hf => h.file p b hn (h'.file p b hn hf)⟩

/-- What can be read under the name could be read before. -/
theorem readBytes {dir : Path} (h : Leaves name d d') (hd : d.Plain) (hn : Path.IsName name)
    (hup : ".." ∉ steps dir.text) (hr : d'.readBytes (dir.child name) = .ok bytes) :
    d.readBytes (dir.child name) = .ok bytes := by
  obtain ⟨q, hq, hfile'⟩ := readBytes_eq_ok.mp hr
  obtain ⟨htakes, hf⟩ := locate_eq_ok.mp hq
  have hfile := h.file q bytes (h.plain.getLast?_locate hn hq) hfile'
  obtain ⟨before, hsteps, hmem⟩ := steps_child dir hn
  have hup' : ".." ∉ steps (dir.child name).text := by
    rw [hsteps]
    simp only [List.mem_append, List.mem_singleton, not_or]
    exact ⟨fun hm => hup (hmem _ hm), Ne.symm hn.notUp⟩
  rw [h.workDir] at hf
  exact readBytes_eq_ok.mpr
    ⟨q, locate_eq_ok.mpr ⟨htakes, hd.follow_file h.plain hup' hf hfile' hfile⟩, hfile⟩

/-- A file is written under its own name. -/
theorem writeBytes {dir : Path} {other : String} (hd : d.Plain) (hn : Path.IsName other)
    (hne : other ≠ name) (hw : d.writeBytes (dir.child other) bytes = .ok d') :
    Leaves name d d' := by
  refine ⟨hd.writeBytes hw, ?_, fun place file hlast hf => ?_⟩ <;>
    obtain ⟨q, hl, hdir, rfl⟩ := writeBytes_eq_ok hw
  · rfl
  · rw [get?_put (ne_nil_of_get?_ne_dir hdir), if_neg] at hf
    · exact hf
    · rintro rfl
      exact hne (Option.some.inj ((hd.getLast?_locate hn hl).symm.trans hlast))

theorem makeDir (hd : d.Plain) (hm : d.makeDir p = .ok d') : Leaves name d d' := by
  refine ⟨hd.makeDir hm, ?_, fun place file hlast hf => ?_⟩ <;>
    obtain ⟨r, q, hl, hnone, rfl⟩ := makeDir_eq_ok hm
  · rfl
  · have hdir : d.get? q ≠ some .dir := by simp [hnone]
    rw [get?_put (ne_nil_of_get?_ne_dir hdir)] at hf
    split at hf
    · cases hf
    · exact hf

theorem makeFirst (hd : d.Plain) (ps : List Path) : Leaves name d (d.makeFirst ps).2 := by
  fun_induction Disk.makeFirst d ps with
  | case1 | case7 | case8 => exact refl hd
  | case2 p above d' hm => exact makeDir hd hm
  | case3 p above hm e d' hmake ih => exact hmake ▸ ih
  | case4 p above hm d' hmake d'' hm' ih =>
    have habove : Leaves name d d' := by simpa [hmake] using ih
    exact habove.trans (makeDir habove.plain hm')
  | case5 p above hm d' hmake e hm' hdir ih | case6 p above hm d' hmake e hm' hdir ih =>
    simpa [hmake] using ih

end Leaves

end Disk

end Folio
