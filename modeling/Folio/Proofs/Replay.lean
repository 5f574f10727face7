import Folio.Proofs.Growth
import Folio.Proofs.Independence
import Folio.Proofs.Merging

/-! A program that runs a second time. It starts on the disk that the first run left in the end, and at
each point the disk is as it was in the end, but for files that are as they were at this point of the
first run. So the second run finds every directory made and every file written that the first one made
and wrote, fails where that failed, and ends on the same disk. -/

namespace Folio

namespace Disk

variable {final d d' e : Disk} {files : Place → Prop} {place : Place} {bytes : List UInt8}

/-- The disk `e` at a point of the second run, where the first run had come to the disk `d`. -/
structure Replay (final d e : Disk) : Prop where
  plain : e.Plain
  workDir : e.workDir = final.workDir
  root : e.entries.get? [] = final.entries.get? []
  get? : ∀ place, e.get? place = final.get? place ∨
    ∃ bytes, d.get? place = some (.file bytes) ∧ e.get? place = some (.file bytes)

namespace Replay

theorem refl (h : final.Plain) : Replay final d final := ⟨h, rfl, rfl, fun _ => .inl rfl⟩

/-- At the end of both runs the disks are the same. -/
theorem eq_final (h : Replay final final e) : e = final := by
  refine Disk.ext_get? (fun place => ?_) h.root h.workDir
  rcases h.get? place with hsame | ⟨bytes, hfinal, he⟩
  · exact hsame
  · rw [hfinal, he]

theorem grows (h : Replay final d e) (hgrows : Grows files d final) : Grows files d e where
  plain := h.plain
  workDir := h.workDir.trans hgrows.workDir
  root := h.root.trans hgrows.root
  get? place := by
    rcases h.get? place with hsame | ⟨bytes, hd, he⟩
    · rw [hsame]
      exact hgrows.get? place
    · exact .inl (he.trans hd.symm)
  file place bytes hfile := by
    rcases h.get? place with hsame | ⟨bytes', -, he⟩
    · rw [hsame]
      exact hgrows.file place bytes hfile
    · exact ⟨bytes', he⟩

/-- A directory that is there in the end is there all along. -/
theorem dir (h : Replay final d e) (hgrows : Grows files d final)
    (hdir : final.get? place = some .dir) : e.get? place = some .dir := by
  rcases h.get? place with hsame | ⟨bytes, hd, -⟩
  · rw [hsame, hdir]
  · obtain ⟨bytes', hfile⟩ := hgrows.file place bytes hd
    simp [hdir] at hfile

/-- A file that is there in the end is there all along. -/
theorem ne_dir (h : Replay final d e) (hfile : final.get? place = some (.file bytes)) :
    e.get? place ≠ some .dir := by
  rcases h.get? place with hsame | ⟨bytes', -, he⟩
  · simp [hsame, hfile]
  · simp [he]

/-- The first run goes on without touching a file. -/
theorem forward (h : Replay final d e)
    (hfiles : ∀ place bytes, d.get? place = some (.file bytes) → d'.get? place = some (.file bytes)) :
    Replay final d' e where
  plain := h.plain
  workDir := h.workDir
  root := h.root
  get? place := by
    rcases h.get? place with hsame | ⟨bytes, hd, he⟩
    · exact .inl hsame
    · exact .inr ⟨bytes, hfiles place bytes hd, he⟩

/-- Both runs write the same file. -/
theorem put (h : Replay final d e) (hne : d.get? place ≠ some .dir) (hpar : e.HasParent place)
    (hne' : e.get? place ≠ some .dir) :
    Replay final (d.put place (.file bytes)) (e.put place (.file bytes)) where
  plain := h.plain.put hpar (ne_nil_of_get?_ne_dir hne) (by simp) fun hdir => absurd hdir hne'
  workDir := h.workDir
  root := by
    have hnil := ne_nil_of_get?_ne_dir hne
    simpa [Disk.put, SortedMap.get?_insert, hnil] using h.root
  get? r := by
    have hnil := ne_nil_of_get?_ne_dir hne
    rw [get?_put hnil, get?_put hnil]
    split
    · exact .inr ⟨bytes, rfl, rfl⟩
    · exact h.get? r

end Replay

end Disk

open Disk (Grows Replay Way)

/-- The place of a file that is written for a document. -/
def IsOutput (place : Place) : Prop := ∃ name ∈ Site.outputNames, place.getLast? = some name

theorem FileSystem.writeBytes_unslashed {p : Path} (hp : Disk.unslashed p = p) (bytes : List UInt8)
    (d : Disk) : (writeBytes p bytes : StateM Disk (Except OsError Unit)) d =
      match d.locate true p with
      | .error error => (.error error, d)
      | .ok q =>
        if d.get? q = some .dir then (.error .isDirectory, d) else (.ok (), d.put q (.file bytes)) := by
  rw [writeBytes_eq, Disk.attempt, Disk.writeBytes_unslashed hp]
  cases d.locate true p with
  | error error => rfl
  | ok q =>
    dsimp only [bind, Except.bind]
    split <;> split <;> simp_all

/-- A program that lets a disk grow at the places `files`, and that answers the same in the second run. -/
def Replays (files : Place → Prop) {α : Type} (x : StateM Disk α) (d : Disk) : Prop :=
  Grows files d (x d).2 ∧ ∀ final e, Grows (fun _ => True) (x d).2 final → Replay final d e →
    (x e).1 = (x d).1 ∧ Replay final (x d).2 (x e).2

namespace Replays

variable {files : Place → Prop} {α β : Type} {d : Disk} {p : Path}

theorem pure (a : α) (hd : d.Plain) : Replays files (pure a) d :=
  ⟨.refl hd, fun _ _ _ h => ⟨rfl, h⟩⟩

theorem bind {x : StateM Disk α} {f : α → StateM Disk β} (hx : Replays files x d)
    (hf : Replays files (f (x d).1) (x d).2) : Replays files (x >>= f) d := by
  refine ⟨hx.1.trans hf.1, fun final e hgrows h => ?_⟩
  rw [bind_apply] at hgrows ⊢
  have hfirst := hx.2 final e ((hf.1.mono fun _ _ => trivial).trans hgrows) h
  rw [bind_apply, hfirst.1]
  exact hf.2 final _ hgrows hfirst.2

/-- Nothing happens to the disks after the last call. -/
theorem bind_pure {x : StateM Disk α} (hx : Replays files x d) (f : α → β) :
    Replays files (x >>= fun a => Pure.pure (f a)) d :=
  hx.bind (pure _ hx.1.plain)

theorem bind_run {x : ExceptT Error (StateM Disk) α} {f : α → ExceptT Error (StateM Disk) β}
    (hx : Replays files x.run d)
    (hf : ∀ a, (x.run d).1 = .ok a → Replays files (f a).run (x.run d).2) :
    Replays files (x >>= f).run d := by
  rw [ExceptT.run_bind]
  refine hx.bind ?_
  cases hr : (x.run d).1 with
  | error error => exact pure _ hx.1.plain
  | ok a => exact hf a hr

/-- A program that answers the same on all disks that grow from this one, and changes none of them. -/
theorem idle {x : StateM Disk α} (a : α) (hd : d.Plain)
    (hx : ∀ files e, Grows files d e → x e = (a, e)) : Replays files x d := by
  unfold Replays
  rw [hx (fun _ => True) d (.refl hd)]
  refine ⟨.refl hd, fun final e hfinal h => ?_⟩
  rw [hx _ e (h.grows hfinal)]
  exact ⟨rfl, h⟩

/-- Directories are made on the way from one that is there. -/
theorem makeDirs {base : Path} {q : Place} {words : List String} (hd : d.Plain)
    (hbase : d.lead base = .ok q) (hdir : d.get? q = some .dir)
    (htaken : Disk.refusal? base = none ∨ base.text = "") (hway : Way words) :
    Replays files (FileSystem.makeDirs (base.descend words)) d := by
  rcases hd.makeDirs_or_fails hbase hdir htaken hway with ⟨d', hmake⟩ | ⟨error, hfails⟩
  · obtain ⟨r, hlead, hr, hgiven⟩ := hd.lead_of_way hbase hdir htaken hway hmake
    have hgrows : ∀ {files}, Grows files d (d.makeDirs (base.descend words)).2 := .makeDirs hd _
    unfold Replays
    rw [FileSystem.makeDirs_eq]
    refine ⟨hgrows, fun final e hfinal h => ?_⟩
    have hlater := hgrows.trans hfinal
    rw [hmake] at hfinal hgrows ⊢
    -- What was made is there in the end, and so it is there in the second run.
    have hdirs : ∀ place, d'.get? place = some .dir → e.get? place = some .dir :=
      fun place hplace => h.dir hlater (hfinal.dir hplace)
    have hagain : e.makeDirs (base.descend words) = (.ok (), e) := h.plain.makeFirst_present
      (Disk.lead_mono hdirs (h.workDir.trans hfinal.workDir) hlead) (hdirs r hr) hgiven _
    rw [FileSystem.makeDirs_eq, hagain]
    refine ⟨rfl, h.forward fun place bytes hfile => ?_⟩
    have hframe : Grows (fun _ => False) d d' := hgrows
    exact hframe.present (fun h => h) hfile
  · exact idle _ hd hfails

/-- A file is written at a path that leads to the same place on all disks that grow from this one. -/
theorem writeBytes (hd : d.Plain) (hp : Disk.unslashed p = p)
    (hl : ∀ files e, Grows files d e → e.locate true p = d.locate true p)
    (hplace : ∀ q, d.locate true p = .ok q → files q) (bytes : List UInt8) :
    Replays files (FileSystem.writeBytes p bytes) d := by
  cases hlocate : d.locate true p with
  | error error =>
    refine idle (.error error) hd fun files e h => ?_
    rw [FileSystem.writeBytes_unslashed hp, hl files e h, hlocate]
  | ok q =>
    by_cases hq : d.get? q = some .dir
    · refine idle (.error .isDirectory) hd fun files e h => ?_
      rw [FileSystem.writeBytes_unslashed hp, hl files e h, hlocate]
      simp [h.dir hq]
    · have hwritten : (FileSystem.writeBytes p bytes : StateM Disk _) d =
          (.ok (), d.put q (.file bytes)) := by
        rw [FileSystem.writeBytes_unslashed hp, hlocate]
        simp [hq]
      have hgrows : Grows files d (d.put q (.file bytes)) :=
        .put hd (hd.locate_hasParent hlocate) hq (hplace q hlocate)
      unfold Replays
      rw [hwritten]
      refine ⟨hgrows, fun final e hfinal h => ?_⟩
      have hlater := h.grows ((hgrows.mono fun _ _ => trivial).trans hfinal)
      have hq' : e.get? q ≠ some .dir := by
        obtain ⟨last, hlast⟩ := hfinal.file q bytes (by
          simp [Disk.get?_put (Disk.ne_nil_of_get?_ne_dir hq)])
        exact h.ne_dir hlast
      rw [FileSystem.writeBytes_unslashed hp, hl _ e hlater, hlocate]
      simp only [if_neg hq', true_and]
      exact h.put hq (hlater.hasParent (hd.locate_hasParent hlocate)) hq'

/-- A text is written into a directory that is there. -/
theorem writeText {dir : Path} {q : Place} {name : String} (hd : d.Plain)
    (hlead : d.lead dir = .ok q) (hdir : d.get? q = some .dir) (hmem : name ∈ Site.outputNames)
    (text : String) :
    Replays IsOutput (Site.writeText (dir.child name) text : ExceptT Error (StateM Disk) Unit).run
      d := by
  have hname := InStep.fits_of_mem_outputNames hmem
  have hlocate : ∀ files e, Grows files d e →
      e.locate true (dir.child name) = d.locate true (dir.child name) := by
    intro files e h
    refine hd.locate_congr h.plain ?_ true
    rw [Disk.lead_child hlead hdir hname, Disk.lead_child (h.lead hlead) (h.dir hdir) hname]
  refine bind_pure (writeBytes hd (Disk.unslashed_child dir hname.isPiece) hlocate (fun r hr => ?_) _) _
  exact ⟨name, hmem, hd.getLast?_locate hname.toIsName hr⟩

/-- The texts of a document are written into a directory that is there. -/
theorem writeTexts {dir : Path} {q : Place} (hd : d.Plain) (hlead : d.lead dir = .ok q)
    (hdir : d.get? q = some .dir) (output : Output) :
    Replays IsOutput (do
        Site.writeText (dir.child "index.html") output.markup
        Site.writeText (dir.child "styles.css") output.style
        Site.writeText (dir.child "script.js") output.script
        return Site.Paths.inside dir : ExceptT Error (StateM Disk) Site.Paths).run d := by
  have hmarkup := writeText hd hlead hdir (show "index.html" ∈ _ by decide) output.markup
  refine hmarkup.bind_run fun _ _ => ?_
  have hstyle := writeText hmarkup.1.plain (hmarkup.1.lead hlead) (hmarkup.1.dir hdir)
    (show "styles.css" ∈ _ by decide) output.style
  refine hstyle.bind_run fun _ _ => ?_
  have hscript := writeText hstyle.1.plain (hstyle.1.lead (hmarkup.1.lead hlead))
    (hstyle.1.dir (hmarkup.1.dir hdir)) (show "script.js" ∈ _ by decide) output.script
  exact hscript.bind_run fun _ _ => pure _ hscript.1.plain

/-- The files of a document are written. -/
theorem writeOutputs {base : Path} {q : Place} {words : List String} (hd : d.Plain)
    (hbase : d.lead base = .ok q) (hdir : d.get? q = some .dir)
    (htaken : Disk.refusal? base = none ∨ base.text = "") (hway : Way words) (output : Output) :
    Replays IsOutput (Site.writeOutputs (base.descend words) output :
      ExceptT Error (StateM Disk) Site.Paths).run d := by
  have hmake : Replays IsOutput
      (Site.makeDirs (base.descend words) : ExceptT Error (StateM Disk) Unit).run d :=
    (makeDirs hd hbase hdir htaken hway).bind_pure _
  unfold Site.writeOutputs
  refine hmake.bind_run fun _ hok => ?_
  obtain ⟨r, hlead, hr, -⟩ := hd.lead_of_way hbase hdir htaken hway (Site.makeDirs_eq_ok hok)
  exact writeTexts hmake.1.plain hlead hr output

end Replays

end Folio
