import Folio.Proofs.DiskChanges

/-! Where paths lead to on a disk without symbolic links. That is told by the directories alone, so a
path goes on leading there as long as they stay. -/

namespace Folio

namespace Disk

variable {d e : Disk} {start place q : Place} {path names rest : List String} {name : String}
  {followLast : Bool} {p base : Path}

/-- Where steps lead to on a disk without symbolic links. -/
def reach (d : Disk) (start : Place) : List String → Except OsError Place
  | [] => .ok start
  | step :: rest =>
    if d.get? start ≠ some .dir then .error .notDirectory
    else if step = "." then d.reach start rest
    else if step = ".." then d.reach start.dropLast rest
    else if maxName < step.utf8ByteSize then .error .nameTooLong
    else if d.get? (start ++ [step]) = none ∧ rest ≠ [] then .error .notFound
    else d.reach (start ++ [step]) rest

theorem Plain.followWith_reach (h : d.Plain) (followLast : Bool)
    (jump : Place → List String → Except OsError Place) (start : Place) (path : List String) :
    d.followWith followLast jump start path = d.reach start path := by
  induction path generalizing start with
  | nil => rw [followWith, reach]
  | cons step rest ih =>
    rw [followWith, reach, ih start, ih start.dropLast]
    dsimp only
    cases hg : d.get? (start ++ [step]) with
    | none => cases rest <;> simp [reach]
    | some entry =>
      cases entry with
      | link target => exact absurd hg (h.noLink _ _)
      | dir | file => simp [ih]

theorem Plain.follow_reach (h : d.Plain) (links : Nat) (followLast : Bool) (start : Place)
    (path : List String) : d.follow links followLast start path = d.reach start path := by
  cases links <;> exact h.followWith_reach _ _ _ _

/-- What leads somewhere goes on leading there, as long as the directories stay. -/
theorem reach_mono (hdirs : ∀ place, d.get? place = some .dir → e.get? place = some .dir)
    (h : d.reach start path = .ok q) : e.reach start path = .ok q := by
  fun_induction Disk.reach d start path with
  | case1 => simpa [reach] using h
  | case2 | case5 | case6 => cases h
  | case3 start rest hstart ih | case4 start rest hstart _ ih =>
    rw [reach]
    simpa [hdirs start (by simpa using hstart)] using ih h
  | case7 start step rest hstart h1 h2 h3 hnone ih =>
    have hrest := ih h
    rw [reach]
    simp only [hdirs start (by simpa using hstart), h1, h2, h3]
    -- What there are steps after is a directory.
    have hnone' : ¬(e.get? (start ++ [step]) = none ∧ rest ≠ []) := by
      rintro ⟨hnone', hne⟩
      obtain ⟨step', rest, rfl⟩ := List.exists_cons_of_ne_nil hne
      rw [reach] at hrest
      simp [hnone'] at hrest
    simpa [hnone'] using hrest

/-- Steps go on from where the steps before them lead to. -/
theorem reach_append (h : d.reach start path = .ok q) (hq : d.get? q ≠ none) :
    d.reach start (path ++ rest) = d.reach q rest := by
  fun_induction Disk.reach d start path with
  | case1 => rw [List.nil_append, Except.ok.inj h]
  | case2 | case5 | case6 => cases h
  | case3 start rest' hstart ih | case4 start rest' hstart _ ih =>
    rw [List.cons_append, reach]
    simpa [hstart] using ih h
  | case7 start step rest' hstart h1 h2 h3 hnone ih =>
    have hnone' : ¬(d.get? (start ++ [step]) = none ∧ rest' ++ rest ≠ []) := by
      rintro ⟨hn, -⟩
      have hnil : rest' = [] := by simpa [hn] using hnone
      rw [hnil, reach] at h
      exact hq (Except.ok.inj h ▸ hn)
    rw [List.cons_append, reach, if_neg hnone']
    simpa [hstart, h1, h2, h3] using ih h

/-- Only a directory can be left. -/
theorem reach_cons_dir {step : String} (h : d.reach start (step :: rest) = .ok q) :
    d.get? start = some .dir := by
  rw [reach] at h
  split at h
  · cases h
  · next hstart => simpa using hstart

/-- Steps that lead somewhere lead to a directory before each of them. -/
theorem reach_of_append {step : String} (h : d.reach start (path ++ step :: rest) = .ok q) :
    ∃ above, d.reach start path = .ok above ∧ d.get? above = some .dir ∧
      d.reach above (step :: rest) = .ok q := by
  induction path generalizing start with
  | nil => exact ⟨start, rfl, reach_cons_dir h, h⟩
  | cons first path ih =>
    have hstart := reach_cons_dir h
    rw [List.cons_append, reach] at h
    rw [reach]
    simp only [hstart, ne_eq, not_true_eq_false, if_false] at h ⊢
    split at h
    · next hfirst => simpa only [if_pos hfirst] using ih h
    · next hfirst =>
      rw [if_neg hfirst]
      split at h
      · next hup => simpa only [if_pos hup] using ih h
      · next hup =>
        rw [if_neg hup]
        split at h
        · cases h
        · next hshort =>
          rw [if_neg hshort]
          split at h
          · cases h
          · next hnone => rw [if_neg fun hn => hnone ⟨hn.1, by simp⟩]; exact ih h

/-- What leads to a name leads to its directory first. -/
theorem reach_of_concat (hname : Path.IsName name) (h : d.reach start (path ++ [name]) = .ok q) :
    ∃ above, d.reach start path = .ok above ∧ d.get? above = some .dir ∧ q = above ++ [name] := by
  obtain ⟨above, habove, hdir, hq⟩ := reach_of_append h
  refine ⟨above, habove, hdir, ?_⟩
  rw [reach, if_neg hname.notHere, if_neg hname.notUp] at hq
  simp only [hdir, ne_eq, not_true_eq_false, if_false] at hq
  split at hq
  · cases hq
  · simpa [reach] using hq.symm

/-- A dot at the end leads nowhere else. -/
theorem reach_of_dot (h : d.reach start (path ++ ["."]) = .ok q) :
    d.reach start path = .ok q ∧ d.get? q = some .dir := by
  obtain ⟨above, habove, hdir, hq⟩ := reach_of_append h
  have hsame : above = q := by simpa [reach, hdir] using hq
  exact ⟨hsame ▸ habove, hsame ▸ hdir⟩

/-- A name that an entry can have. -/
structure Fits (name : String) : Prop extends Path.IsName name where
  short : name.utf8ByteSize ≤ maxName

instance (name : String) : Decidable (Fits name) :=
  decidable_of_iff (Path.IsName name ∧ name.utf8ByteSize ≤ maxName)
    ⟨fun h => ⟨h.1, h.2⟩, fun h => ⟨h.toIsName, h.short⟩⟩

theorem reach_name (hname : Fits name) (hdir : d.get? start = some .dir) :
    d.reach start (name :: rest) =
      if d.get? (start ++ [name]) = none ∧ rest ≠ [] then .error .notFound
      else d.reach (start ++ [name]) rest := by
  rw [reach, if_neg hname.notHere, if_neg hname.notUp, if_neg (Nat.not_lt.mpr hname.short)]
  simp [hdir]

section Names

variable (hd : d.Plain) (hnames : ∀ n ∈ names, Fits n)

include hd hnames

/-- What stands somewhere is reached by its names. -/
theorem Plain.reach_present (hq : d.get? (start ++ names) ≠ none) :
    d.reach start names = .ok (start ++ names) := by
  induction names generalizing start with
  | nil => simp [reach]
  | cons name names ih =>
    have hnext : d.get? (start ++ [name]) = none → names = [] := by
      intro hnone
      cases names with
      | nil => rfl
      | cons next names =>
        have hdir : d.get? (start ++ [name]) = some .dir :=
          hd.dir_above (show d.get? (start ++ [name] ++ next :: names) ≠ none by simpa using hq)
        simp [hdir] at hnone
    rw [reach_name (hnames name (by simp)) (hd.dir_above hq), if_neg fun h => h.2 (hnext h.1),
      ih (fun n hn => hnames n (by simp [hn])) (by simpa using hq)]
    simp

/-- A name in a directory is reached, whether it is there or not. -/
theorem Plain.reach_inside (hname : Fits name) (hdir : d.get? (start ++ names) = some .dir) :
    d.reach start (names ++ [name]) = .ok (start ++ (names ++ [name])) := by
  have hpresent := hd.reach_present hnames (show d.get? (start ++ names) ≠ none by simp [hdir])
  rw [reach_append hpresent (by simp [hdir]), reach_name hname hdir]
  simp [reach]

/-- A file has nothing inside. -/
theorem Plain.reach_below_file {above : List String} {bytes : List UInt8} (habove : above <+: names)
    (hfile : d.get? (start ++ above) = some (.file bytes)) :
    d.reach start (names ++ [name]) = .error .notDirectory := by
  obtain ⟨below, rfl⟩ := habove
  have hpresent := hd.reach_present (fun n hn => hnames n (by simp [hn]))
    (show d.get? (start ++ above) ≠ none by simp [hfile])
  rw [List.append_assoc, reach_append hpresent (by simp [hfile])]
  cases below with
  | nil => simp [reach, hfile]
  | cons next below => simp [reach, hfile]

theorem Plain.reach_below_missing (hdir : d.get? start = some .dir)
    (hnone : d.get? (start ++ names) = none)
    (hfiles : ∀ above bytes, above <+: names → d.get? (start ++ above) ≠ some (.file bytes)) :
    d.reach start (names ++ [name]) = .error .notFound := by
  induction names generalizing start with
  | nil => simp [hdir] at hnone
  | cons next names ih =>
    rw [List.cons_append, reach_name (hnames next (by simp)) hdir]
    cases hnext : d.get? (start ++ [next]) with
    | none => simp
    | some entry =>
      cases entry with
      | link target => exact absurd hnext (hd.noLink _ _)
      | file bytes => exact absurd hnext (hfiles [next] bytes ⟨names, rfl⟩)
      | dir =>
        simp only [reduceCtorEq, false_and, if_false]
        refine ih (fun n hn => hnames n (by simp [hn])) hnext (by simpa using hnone) ?_
        intro above bytes habove
        simpa using hfiles (next :: above) bytes (List.cons_prefix_cons.mpr ⟨rfl, habove⟩)

end Names

/-- Where a path leads to, if a call takes it. -/
def lead (d : Disk) (p : Path) : Except OsError Place :=
  d.reach (startOf d.workDir p.text) (steps p.text)

/-- Why no call takes a path, if none does. -/
def refusal? (p : Path) : Option OsError :=
  if '\x00' ∈ p.text.toList then some .zeroInPath
  else if p.text.isEmpty then some .notFound
  else if maxPath < p.text.utf8ByteSize then some .nameTooLong
  else none

theorem Plain.locate_lead (h : d.Plain) (followLast : Bool) (p : Path) :
    d.locate followLast p = (refusal? p).elim (d.lead p) .error := by
  unfold locate refusal?
  split
  · rfl
  split
  · rfl
  split
  · rfl
  · rw [h.follow_reach]
    rfl

theorem lead_mono (hdirs : ∀ place, d.get? place = some .dir → e.get? place = some .dir)
    (hwork : e.workDir = d.workDir) (h : d.lead p = .ok q) : e.lead p = .ok q := by
  unfold lead at h ⊢
  rw [hwork]
  exact reach_mono hdirs h

theorem Plain.lead_place (h : d.Plain) (hq : d.lead p = .ok q) : q = p.place d.workDir := by
  rw [lead, ← h.follow_reach maxLinks true] at hq
  rw [h.follow_walk hq, walk_steps]

/-- The steps to a name in a directory are those to the directory, but for a dot at their end. -/
theorem steps_child_eq (dir : Path) (h : Path.IsPiece name) :
    ∃ before, steps (dir.child name).text = before ++ [name] ∧
      (steps dir.text = before ∨ steps dir.text = before ++ ["."]) := by
  have habs := h.isAbsolute
  rcases List.eq_nil_or_concat dir.text.toList with hdir | ⟨cs, c, hdir⟩
  · have htext : dir.text = "" := by simpa using hdir
    refine ⟨[], ?_, .inl ?_⟩
    · simp [Path.child, Path.join, habs, htext, steps_name h.nonempty h.noSlash]
    · rw [htext]
      rfl
  · by_cases hc : c = '/'
    · have ht : (dir.child name).text.toList = cs ++ '/' :: name.toList := by
        simp [Path.child, Path.join, habs, hdir, hc]
      refine ⟨_, steps_slash h.nonempty h.noSlash ht, .inr ?_⟩
      rw [steps, hdir, hc, List.concat_eq_append, List.getLast?_concat, Path.split_append_slash]
      simp [Path.split]
    · have ht : (dir.child name).text.toList = dir.text.toList ++ '/' :: name.toList := by
        simp [Path.child, Path.join, habs, hdir, hc]
      refine ⟨_, steps_slash h.nonempty h.noSlash ht, .inl ?_⟩
      rw [steps, hdir, List.concat_eq_append, List.getLast?_concat]
      simp [hc]

theorem startOf_child (workDir : Place) (dir : Path) (h : Path.IsPiece name) :
    startOf workDir (dir.child name).text = startOf workDir dir.text := by
  have hhead : (dir.child name).text.toList.head? = some '/' ↔ dir.text.toList.head? = some '/' := by
    rw [Path.child_toList dir h]
    cases hdir : dir.text.toList with
    | nil =>
      have hslash : name.toList.head? ≠ some '/' := fun hs => h.noSlash (List.mem_of_head? hs)
      simpa using hslash
    | cons c cs => split <;> simp
  simp only [startOf, hhead]

theorem steps_descend_child (dir : Path) (h : Path.IsPiece name)
    (hnames : ∀ n ∈ names, Path.IsPiece n) :
    steps ((dir.child name).descend names).text = steps (dir.child name).text ++ names := by
  induction names generalizing dir name with
  | nil => simp
  | cons next names ih =>
    obtain ⟨before, hbefore, -⟩ := steps_child_eq dir h
    obtain ⟨before', hnext, hdir | hdot⟩ :=
      steps_child_eq (dir.child name) (hnames next (by simp))
    · rw [Path.descend_cons, ih _ (hnames next (by simp)) fun n hn => hnames n (by simp [hn]), hnext,
        hdir]
      simp
    · rw [hbefore] at hdot
      have hlast : name = "." := by simpa using (List.append_inj' hdot rfl).2
      exact absurd hlast h.notHere

theorem startOf_descend (workDir : Place) (base : Path) (hnames : ∀ n ∈ names, Path.IsPiece n) :
    startOf workDir (base.descend names).text = startOf workDir base.text := by
  induction names generalizing base with
  | nil => rfl
  | cons name names ih =>
    rw [Path.descend_cons, ih _ fun n hn => hnames n (by simp [hn]),
      startOf_child workDir base (hnames name (by simp))]

/-- The names below a directory are followed from where it is, and so are double dots. -/
theorem lead_descend (hbase : d.lead base = .ok q) (hdir : d.get? q = some .dir)
    (hnames : ∀ n ∈ names, Path.IsPiece n) : d.lead (base.descend names) = d.reach q names := by
  cases names with
  | nil => exact hbase
  | cons name names =>
    have hname : Path.IsPiece name := hnames name (by simp)
    have hrest : ∀ n ∈ names, Path.IsPiece n := fun n hn => hnames n (by simp [hn])
    obtain ⟨before, hchild, hsteps⟩ := steps_child_eq base hname
    have hbefore : d.reach (startOf d.workDir base.text) before = .ok q := by
      unfold lead at hbase
      rcases hsteps with hsteps | hsteps
      · rwa [hsteps] at hbase
      · rw [hsteps] at hbase
        exact (reach_of_dot hbase).1
    rw [lead, startOf_descend d.workDir base hnames, Path.descend_cons,
      steps_descend_child base hname hrest, hchild, List.append_assoc, reach_append hbefore (by simp [hdir])]
    rfl

/-- A path to a name leads to a directory, without the name. -/
theorem lead_of_child (hname : Path.IsName name) (h : d.lead (base.child name) = .ok q) :
    ∃ above, d.lead base = .ok above ∧ d.get? above = some .dir ∧ q = above ++ [name] := by
  obtain ⟨before, hchild, hsteps⟩ := steps_child_eq base hname.isPiece
  rw [lead, startOf_child d.workDir base hname.isPiece, hchild] at h
  obtain ⟨above, habove, hdir, hq⟩ := reach_of_concat hname h
  refine ⟨above, ?_, hdir, hq⟩
  rcases hsteps with hsteps | hsteps
  · rw [lead, hsteps, habove]
  · rw [lead, hsteps, reach_append habove (by simp [hdir])]
    simp [reach, hdir]

theorem refusal?_child_ne (dir : Path) (h : Path.IsPiece name) :
    refusal? (dir.child name) ≠ some .notFound := by
  have hne : (dir.child name).text ≠ "" := Path.text_child_ne dir h
  unfold refusal?
  split
  · simp
  · simp only [String.isEmpty_iff, hne, if_false]
    split <;> simp

/-- A call that takes a path takes its beginning, unless that is empty. -/
theorem refusal?_of_append {rest : String} (ht : p.text = base.text ++ rest)
    (hp : refusal? p = none) : refusal? base = none ∨ base.text = "" := by
  by_cases hempty : base.text = ""
  · exact .inr hempty
  · left
    unfold refusal? at hp ⊢
    rw [ht] at hp
    split at hp
    · cases hp
    · next hzero =>
      split at hp
      · cases hp
      · split at hp
        · cases hp
        · next hlong =>
          rw [String.utf8ByteSize_append] at hlong
          rw [if_neg fun hz => hzero (by simp [hz]), if_neg (by simpa using hempty), if_neg (by omega)]

theorem refusal?_of_child (dir : Path) (h : Path.IsPiece name)
    (hp : refusal? (dir.child name) = none) : refusal? dir = none ∨ dir.text = "" := by
  obtain ⟨rest, htext⟩ : ∃ rest, (dir.child name).text = dir.text ++ rest := by
    unfold Path.child Path.join
    rw [h.isAbsolute]
    split
    · contradiction
    · split
      · exact ⟨"/" ++ name, String.append_assoc⟩
      · exact ⟨name, rfl⟩
  exact refusal?_of_append htext hp

/-- A call that takes the path to a name takes the path to the name above it. -/
theorem refusal?_above (dir : Path) {last : String} (hlast : Path.IsPiece last)
    (h : Path.IsPiece name) (hp : refusal? ((dir.child last).child name) = none) :
    refusal? (dir.child last) = none :=
  (refusal?_of_child _ h hp).resolve_right (Path.text_child_ne dir hlast)

theorem Plain.locate_of_refusal (hd : d.Plain) {error : OsError} (h : refusal? p = some error)
    (followLast : Bool) : d.locate followLast p = .error error := by
  rw [hd.locate_lead, h]
  rfl

theorem Plain.locate_of_taken (hd : d.Plain) (h : refusal? p = none) (followLast : Bool) :
    d.locate followLast p = d.lead p := by
  rw [hd.locate_lead, h]
  rfl

theorem Plain.locate_iff (hd : d.Plain) :
    d.locate followLast p = .ok q ↔ refusal? p = none ∧ d.lead p = .ok q := by
  rw [hd.locate_lead]
  cases refusal? p <;> simp

/-- A path is located the same on two disks if it leads to the same place on both. -/
theorem Plain.locate_congr {e : Disk} (hd : d.Plain) (he : e.Plain) (h : e.lead p = d.lead p)
    (followLast : Bool) : e.locate followLast p = d.locate followLast p := by
  rw [he.locate_lead, hd.locate_lead, h]

theorem lead_child {dir : Path} (hdir : d.lead dir = .ok q) (hq : d.get? q = some .dir)
    (hname : Fits name) : d.lead (dir.child name) = .ok (q ++ [name]) := by
  rw [show dir.child name = dir.descend [name] from rfl,
    lead_descend hdir hq (by simpa using hname.isPiece), reach_name hname hq]
  simp [reach]

theorem Plain.locate_child (hd : d.Plain) {dir : Path} (hdir : d.lead dir = .ok q)
    (hq : d.get? q = some .dir) (hname : Fits name) (hr : refusal? (dir.child name) = none)
    (followLast : Bool) : d.locate followLast (dir.child name) = .ok (q ++ [name]) :=
  hd.locate_iff.mpr ⟨hr, lead_child hdir hq hname⟩

theorem isDir_iff : d.isDir p = true ↔ ∃ q, d.locate true p = .ok q ∧ d.get? q = some .dir := by
  unfold isDir
  constructor
  · intro h
    split at h
    · next place he => exact ⟨place, entryAt_eq_ok.mp he⟩
    · cases h
  · rintro ⟨q, hq⟩
    rw [entryAt_eq_ok.mpr hq]

theorem isDir_of_locate_error {error : OsError} (h : d.locate true p = .error error) :
    d.isDir p = false := by
  rw [Bool.eq_false_iff]
  intro hdir
  obtain ⟨q, hq, -⟩ := isDir_iff.mp hdir
  simp [h] at hq

end Disk

end Folio
