import Folio.Proofs.PathPlaces
import Folio.Proofs.PlainHistory

/-! What a program can do to a disk without symbolic links. Files change only at the places that the
program's paths name, and directories are made only at or above such places. -/

namespace Folio

namespace Disk

variable {d d' d'' : Disk} {files dirs : Place → Prop} {place : Place} {p : Path} {bytes : List UInt8}

theorem Plain.dir_of_isPrefix (hd : d.Plain) {above : Place} (h : above <+: place) (hne : above ≠ place)
    (hp : d.get? place ≠ none) : d.get? above = some .dir := by
  obtain ⟨below, rfl⟩ := h
  cases below with
  | nil => exact absurd (List.append_nil above).symm hne
  | cons name below => exact hd.dir_above hp

/-- A disk that came to be from another one by changing what stands at the places `files`, and by
making directories at the places `dirs`. What was a directory still is one. -/
structure Changes (files dirs : Place → Prop) (d d' : Disk) : Prop where
  plain : d'.Plain
  workDir : d'.workDir = d.workDir
  root : d'.entries.get? [] = d.entries.get? []
  get? : ∀ place, d'.get? place = d.get? place ∨
    (dirs place ∧ d.get? place = none ∧ d'.get? place = some .dir) ∨
    (files place ∧ d.get? place ≠ some .dir)

namespace Changes

theorem refl (hd : d.Plain) : Changes files dirs d d := ⟨hd, rfl, rfl, fun _ => .inl rfl⟩

theorem trans (h : Changes files dirs d d') (h' : Changes files dirs d' d'') :
    Changes files dirs d d'' where
  plain := h'.plain
  workDir := h'.workDir.trans h.workDir
  root := h'.root.trans h.root
  get? place := by
    rcases h.get? place with hsame | hdir | hfile
    · rw [← hsame]
      exact h'.get? place
    · -- A directory was made, and nothing else can happen to it.
      rcases h'.get? place with hsame | ⟨-, hnone, -⟩ | ⟨-, hne⟩
      · exact .inr (.inl ⟨hdir.1, hdir.2.1, hsame.trans hdir.2.2⟩)
      · simp [hdir.2.2] at hnone
      · exact absurd hdir.2.2 hne
    · exact .inr (.inr hfile)

theorem mono {files' dirs' : Place → Prop} (h : Changes files dirs d d')
    (hf : ∀ place, files place → files' place) (hd : ∀ place, dirs place → dirs' place) :
    Changes files' dirs' d d' where
  plain := h.plain
  workDir := h.workDir
  root := h.root
  get? place := by
    rcases h.get? place with hsame | hdir | hfile
    · exact .inl hsame
    · exact .inr (.inl ⟨hd place hdir.1, hdir.2⟩)
    · exact .inr (.inr ⟨hf place hfile.1, hfile.2⟩)

/-- A directory stays one. -/
theorem dir (h : Changes files dirs d d') (hdir : d.get? place = some .dir) :
    d'.get? place = some .dir := by
  rcases h.get? place with hsame | ⟨-, hnone, -⟩ | ⟨-, hne⟩
  · rw [hsame, hdir]
  · simp [hdir] at hnone
  · exact absurd hdir hne

theorem same (h : Changes files dirs d d') (hfile : ¬files place) (hdir : ¬dirs place) :
    d'.get? place = d.get? place := by
  rcases h.get? place with hsame | ⟨hmade, -⟩ | ⟨hchanged, -⟩
  · exact hsame
  · exact absurd hmade hdir
  · exact absurd hchanged hfile

/-- What stands somewhere stays, where no file was changed. -/
theorem present (h : Changes files dirs d d') (hfile : ¬files place) {entry : Entry}
    (hg : d.get? place = some entry) :
    d'.get? place = some entry := by
  rcases h.get? place with hsame | ⟨-, hnone, -⟩ | ⟨hchanged, -⟩
  · exact hsame.trans hg
  · simp [hg] at hnone
  · exact absurd hchanged hfile

/-- No file came to be where none was changed. -/
theorem of_file (h : Changes files dirs d d') (hfile : ¬files place)
    (hg : d'.get? place = some (.file bytes)) : d.get? place = some (.file bytes) := by
  rcases h.get? place with hsame | ⟨-, -, hdir⟩ | ⟨hchanged, -⟩
  · exact hsame.symm.trans hg
  · simp [hg] at hdir
  · exact absurd hchanged hfile

theorem put {entry : Entry} (hd : d.Plain) (hpar : d.HasParent place)
    (hlink : ∀ target, entry ≠ .link target) (hne : d.get? place ≠ some .dir)
    (hplace : files place ∨ (dirs place ∧ d.get? place = none ∧ entry = .dir)) :
    Changes files dirs d (d.put place entry) where
  plain := hd.put hpar (ne_nil_of_get?_ne_dir hne) hlink (fun hdir => absurd hdir hne)
  workDir := rfl
  root := by
    have hnil := ne_nil_of_get?_ne_dir hne
    simp [Disk.put, SortedMap.get?_insert, hnil]
  get? q := by
    rw [get?_put (ne_nil_of_get?_ne_dir hne)]
    split
    · next hq =>
      rcases hplace with hfile | ⟨hdir, hnone, rfl⟩
      · exact .inr (.inr ⟨hq ▸ hfile, hq ▸ hne⟩)
      · exact .inr (.inl ⟨hq ▸ hdir, hq ▸ hnone, rfl⟩)
    · exact .inl rfl

theorem erase (hd : d.Plain) (hne : d.get? place ≠ some .dir) (hplace : files place) :
    Changes files dirs d (d.erase place) where
  plain := hd.erase (ne_nil_of_get?_ne_dir hne) hne
  workDir := rfl
  root := by
    have hnil := ne_nil_of_get?_ne_dir hne
    simp [Disk.erase, SortedMap.get?_erase, Ne.symm hnil]
  get? q := by
    rw [get?_erase (ne_nil_of_get?_ne_dir hne)]
    split
    · next hq => exact .inr (.inr ⟨hq ▸ hplace, hq ▸ hne⟩)
    · exact .inl rfl

theorem writeBytes (hd : d.Plain) (hp : files (p.place d.workDir))
    (hw : d.writeBytes p bytes = .ok d') : Changes files dirs d d' := by
  obtain ⟨place, hl, hdir, rfl⟩ := writeBytes_eq_ok hw
  exact .put hd (hd.locate_hasParent hl) (by simp) hdir (.inl (hd.locate_place hl ▸ hp))

theorem removeFile (hd : d.Plain) (hp : files (p.place d.workDir)) (hr : d.removeFile p = .ok d') :
    Changes files dirs d d' := by
  unfold Disk.removeFile at hr
  obtain ⟨⟨place, entry⟩, he, hr⟩ := bind_eq_ok.mp hr
  obtain ⟨hl, hg⟩ := entryAt_eq_ok.mp he
  have hplace : files place := hd.locate_place hl ▸ hp
  cases entry with
  | dir => cases hr
  | file | link =>
    obtain rfl := Except.ok.inj hr
    exact .erase hd (by simp [hg]) hplace

theorem makeDir (hd : d.Plain) (hp : dirs (p.place d.workDir)) (hm : d.makeDir p = .ok d') :
    Changes files dirs d d' := by
  obtain ⟨hpar, hnone, rfl⟩ := hd.makeDir_place hm
  exact .put hd hpar (by simp) (by simp [hnone]) (.inr ⟨hp, hnone, rfl⟩)

theorem makeFirst (hd : d.Plain) (ps : List Path) (hps : ∀ p ∈ ps, dirs (p.place d.workDir)) :
    Changes files dirs d (d.makeFirst ps).2 := by
  fun_induction Disk.makeFirst d ps with
  | case1 | case7 | case8 => exact refl hd
  | case2 p above d' hm => exact makeDir hd (hps p (by simp)) hm
  | case3 p above hm e d' hmake ih => exact hmake ▸ ih (fun q hq => hps q (by simp [hq]))
  | case4 p above hm d' hmake d'' hm' ih =>
    have habove : Changes files dirs d d' := by
      simpa [hmake] using ih (fun q hq => hps q (by simp [hq]))
    exact habove.trans (makeDir habove.plain (habove.workDir ▸ hps p (by simp)) hm')
  | case5 p above hm d' hmake e hm' hdir ih | case6 p above hm d' hmake e hm' hdir ih =>
    simpa [hmake] using ih (fun q hq => hps q (by simp [hq]))

/-- Making a directory and those above it makes directories on the way to it. -/
theorem makeDirs (hd : d.Plain) (hup : .up ∉ p.components)
    (hp : ∀ place, place <+: p.place d.workDir → dirs place) :
    Changes files dirs d (d.makeDirs p).2 :=
  makeFirst hd p.ancestors fun _ hq => hp _ (Path.place_ancestors hq hup d.workDir)

end Changes

end Disk

/-- A program that changes a plain disk at most in some places, if it starts in a working
directory. -/
def Affects (workDir : Place) (files dirs : Place → Prop) {α : Type} (x : StateM Disk α) : Prop :=
  ∀ d : Disk, d.Plain → d.workDir = workDir → d.Changes files dirs (x d).2

/-- The names of the files that are written for a document. -/
def Site.outputNames : List String := ["index.html", "styles.css", "script.js"]

theorem Site.isName_of_mem_outputNames {name : String} (h : name ∈ outputNames) :
    Path.IsName name := by
  revert name
  decide

namespace Affects

variable {workDir : Place} {files dirs : Place → Prop} {α β : Type}

theorem pure (a : α) : Affects workDir files dirs (pure a) := fun _ hd _ => .refl hd

theorem bind {x : StateM Disk α} {f : α → StateM Disk β} (hx : Affects workDir files dirs x)
    (hf : ∀ a, Affects workDir files dirs (f a)) : Affects workDir files dirs (x >>= f) := by
  intro d hd hw
  have h := hx d hd hw
  exact h.trans (hf _ _ h.plain (h.workDir.trans hw))

/-- Nothing more happens after an error. -/
theorem bind_run {x : ExceptT Error (StateM Disk) α} {f : α → ExceptT Error (StateM Disk) β}
    (hx : Affects workDir files dirs x.run) (hf : ∀ a, Affects workDir files dirs (f a).run) :
    Affects workDir files dirs (x >>= f).run := by
  rw [ExceptT.run_bind]
  refine hx.bind fun result => ?_
  cases result with
  | error e => exact pure _
  | ok a => exact hf a

theorem attempt {call : Disk → Except OsError Disk}
    (h : ∀ d d', d.Plain → d.workDir = workDir → call d = .ok d' → d.Changes files dirs d') :
    Affects workDir files dirs (Disk.attempt call) := by
  intro d hd hw
  unfold Disk.attempt
  cases hc : call d with
  | error e => exact .refl hd
  | ok d' => exact h d d' hd hw hc

theorem writeBytes {p : Path} (bytes : List UInt8) (hp : files (p.place workDir)) :
    Affects workDir files dirs (FileSystem.writeBytes p bytes : StateM Disk _) :=
  attempt fun _ _ hd hw hc => .writeBytes hd (hw ▸ hp) hc

theorem removeFile {p : Path} (hp : files (p.place workDir)) :
    Affects workDir files dirs (FileSystem.removeFile p : StateM Disk _) :=
  attempt fun _ _ hd hw hc => .removeFile hd (hw ▸ hp) hc

theorem makeDirs {p : Path} (hup : .up ∉ p.components)
    (hp : ∀ place, place <+: p.place workDir → dirs place) :
    Affects workDir files dirs (FileSystem.makeDirs p : StateM Disk _) :=
  fun _ hd hw => .makeDirs hd hup (hw ▸ hp)

/-- Writing the files of a document changes these files, and makes directories on the way to theirs. -/
theorem writeOutputs {dir : Path} (output : Output) (hup : .up ∉ dir.components)
    (hfiles : ∀ name ∈ Site.outputNames, files (dir.place workDir ++ [name]))
    (hdirs : ∀ place, place <+: dir.place workDir → dirs place) :
    Affects workDir files dirs
      (Site.writeOutputs dir output : ExceptT Error (StateM Disk) Site.Paths).run := by
  have hwrite : ∀ name ∈ Site.outputNames, ∀ text, Affects workDir files dirs
      (Site.writeText (dir.child name) text : ExceptT Error (StateM Disk) Unit).run := by
    intro name hname text
    have hplace := Path.place_child dir (Site.isName_of_mem_outputNames hname) workDir
    exact (writeBytes _ (hplace ▸ hfiles name hname)).bind fun _ => pure _
  unfold Site.writeOutputs
  refine bind_run ((makeDirs hup hdirs).bind fun _ => pure _) fun _ => ?_
  refine (hwrite "index.html" (by decide) output.markup).bind_run fun _ => ?_
  refine (hwrite "styles.css" (by decide) output.style).bind_run fun _ => ?_
  exact (hwrite "script.js" (by decide) output.script).bind_run fun _ => pure _

end Affects

end Folio
