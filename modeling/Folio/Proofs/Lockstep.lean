import Folio.Proofs.MakeDirs

/-! Programs in step. A program that runs on a disk, and again on the disk as others have changed it,
gives the same answers and leaves the same changes between the two, as long as it does not come upon a
file of the others. -/

namespace Folio

namespace Disk

variable {d e : Disk} {files dirs : Place → Prop} {place q : Place} {p : Path} {entry : Entry}

namespace Changes

theorem lead (h : Changes files dirs d e) (hq : d.lead p = .ok q) : e.lead p = .ok q :=
  lead_mono (fun _ => h.dir) h.workDir hq

theorem hasParent (h : Changes files dirs d e) (hpar : d.HasParent place) : e.HasParent place :=
  fun above name hplace => h.dir (hpar above name hplace)

/-- The same entry is put on both disks. -/
theorem put_both (h : Changes files dirs d e) (hpar : d.HasParent place)
    (hlink : ∀ target, entry ≠ .link target) (hne : d.get? place ≠ some .dir) (hfile : ¬files place)
    (hdir : ¬dirs place) : Changes files dirs (d.put place entry) (e.put place entry) where
  plain := by
    have hsame := h.same hfile hdir
    exact h.plain.put (h.hasParent hpar) (ne_nil_of_get?_ne_dir hne) hlink
      fun he => absurd (hsame.symm.trans he) hne
  workDir := h.workDir
  root := by
    have hnil := ne_nil_of_get?_ne_dir hne
    simpa [Disk.put, SortedMap.get?_insert, hnil] using h.root
  get? r := by
    have hnil := ne_nil_of_get?_ne_dir hne
    rw [get?_put hnil, get?_put hnil]
    split
    · exact .inl rfl
    · exact h.get? r

theorem erase_both (h : Changes files dirs d e) (hne : d.get? place ≠ some .dir)
    (hfile : ¬files place) (hdir : ¬dirs place) :
    Changes files dirs (d.erase place) (e.erase place) where
  plain := by
    have hsame := h.same hfile hdir
    exact h.plain.erase (ne_nil_of_get?_ne_dir hne) (hsame ▸ hne)
  workDir := h.workDir
  root := by
    have hnil := ne_nil_of_get?_ne_dir hne
    simpa [Disk.erase, SortedMap.get?_erase, Ne.symm hnil] using h.root
  get? r := by
    have hnil := ne_nil_of_get?_ne_dir hne
    rw [get?_erase hnil, get?_erase hnil]
    split
    · exact .inl rfl
    · exact h.get? r

/-- The same directories are made on both disks. -/
theorem made_both {d' e' : Disk} {names : List String} {result result' : Except OsError Unit}
    (h : Changes files dirs d e) (hd : d.Plain) (hmake : d.makeDirs p = (result, d'))
    (hmake' : e.makeDirs p = (result', e')) (hmade : Made q names d d') (hmade' : Made q names e e') :
    Changes files dirs d' e' := by
  have hframe : Changes (fun _ => False) (fun _ => True) d d' := by
    rw [show d' = (d.makeDirs p).2 by rw [hmake]]
    exact .makeFirst hd _ fun _ _ => trivial
  have hframe' : Changes (fun _ => False) (fun _ => True) e e' := by
    rw [show e' = (e.makeDirs p).2 by rw [hmake']]
    exact .makeFirst h.plain _ fun _ _ => trivial
  refine ⟨hframe'.plain, ?_, ?_, fun place => ?_⟩
  · rw [hframe'.workDir, h.workDir, hframe.workDir]
  · rw [hframe'.root, h.root, hframe.root]
  · by_cases hway : ∃ above, above <+: names ∧ place = q ++ above
    · obtain ⟨above, habove, rfl⟩ := hway
      exact .inl ((hmade'.dir above habove).trans (hmade.dir above habove).symm)
    · have hother : ∀ above, above <+: names → place ≠ q ++ above :=
        fun above habove heq => hway ⟨above, habove, heq⟩
      rw [hmade.other place hother, hmade'.other place hother]
      exact h.get? place

end Changes

theorem readText_congr (hl : e.locate true p = d.locate true p)
    (hg : ∀ q, d.locate true p = .ok q → e.get? q = d.get? q) : e.readText p = d.readText p := by
  have hentry : e.entryAt true p = d.entryAt true p := by
    unfold entryAt
    rw [hl]
    cases hq : d.locate true p with
    | error error => rfl
    | ok q =>
      dsimp only [bind, Except.bind]
      rw [hg q hq]
  unfold readText readBytes
  rw [hentry]

theorem writeBytes_unslashed (hp : unslashed p = p) (bytes : List UInt8) :
    d.writeBytes p bytes = (do
      let place ← d.locate true p
      if d.get? place = some .dir then .error .isDirectory else .ok (d.put place (.file bytes))) := by
  unfold writeBytes
  simp only [hp, ne_eq, not_true_eq_false, decide_false, Bool.not_false, ite_self, Bool.false_or,
    decide_eq_true_eq]
  rfl

end Disk

/-- A program that gives the same answer on two disks and leaves the same changes between them. -/
def InStep (files dirs : Place → Prop) {α : Type} (x : StateM Disk α) (d e : Disk) : Prop :=
  (x e).1 = (x d).1 ∧ (x d).2.Changes files dirs (x e).2

namespace InStep

variable {files dirs : Place → Prop} {α β : Type} {d e : Disk} {p : Path}

theorem pure (a : α) (h : d.Changes files dirs e) : InStep files dirs (pure a) d e := ⟨rfl, h⟩

theorem bind {x : StateM Disk α} {f : α → StateM Disk β} (hx : InStep files dirs x d e)
    (hf : InStep files dirs (f (x d).1) (x d).2 (x e).2) : InStep files dirs (x >>= f) d e := by
  unfold InStep at *
  rw [bind_apply, bind_apply, hx.1]
  exact hf

/-- Nothing happens to the disks after the last call. -/
theorem bind_pure {x : StateM Disk α} (hx : InStep files dirs x d e) (f : α → β) :
    InStep files dirs (x >>= fun a => Pure.pure (f a)) d e :=
  hx.bind (pure _ hx.2)

theorem bind_run {x : ExceptT Error (StateM Disk) α} {f : α → ExceptT Error (StateM Disk) β}
    (hx : InStep files dirs x.run d e)
    (hf : ∀ a, (x.run d).1 = .ok a → InStep files dirs (f a).run (x.run d).2 (x.run e).2) :
    InStep files dirs (x >>= f).run d e := by
  rw [ExceptT.run_bind]
  refine hx.bind ?_
  cases hr : (x.run d).1 with
  | error error => exact pure _ hx.2
  | ok a => exact hf a hr

theorem attempt {call : Disk → Except OsError Disk} (h : d.Changes files dirs e)
    (hcall : (∃ error, call d = .error error ∧ call e = .error error) ∨
      ∃ d' e', call d = .ok d' ∧ call e = .ok e' ∧ d'.Changes files dirs e') :
    InStep files dirs (Disk.attempt call) d e := by
  unfold InStep Disk.attempt
  rcases hcall with ⟨error, hd, he⟩ | ⟨d', e', hd, he, h'⟩
  · rw [hd, he]
    exact ⟨rfl, h⟩
  · rw [hd, he]
    exact ⟨rfl, h'⟩

variable (hd : d.Plain) (h : d.Changes files dirs e)

include h

theorem readText (hl : e.locate true p = d.locate true p)
    (hg : ∀ q, d.locate true p = .ok q → e.get? q = d.get? q) :
    InStep files dirs (FileSystem.readText p) d e := by
  unfold InStep
  rw [FileSystem.readText_eq, FileSystem.readText_eq]
  exact ⟨Disk.readText_congr hl hg, h⟩

theorem removeFile (hl : e.locate false p = d.locate false p)
    (hq : ∀ q, d.locate false p = .ok q → ¬files q ∧ ¬dirs q) :
    InStep files dirs (FileSystem.removeFile p) d e := by
  refine attempt h ?_
  unfold Disk.removeFile Disk.entryAt
  rw [hl]
  cases hlocate : d.locate false p with
  | error error => exact .inl ⟨error, rfl, rfl⟩
  | ok q =>
    obtain ⟨hfile, hdir⟩ := hq q hlocate
    dsimp only [Bind.bind, Except.bind]
    rw [h.same hfile hdir]
    cases hg : d.get? q with
    | none => exact .inl ⟨_, rfl, rfl⟩
    | some entry =>
      cases entry with
      | dir => exact .inl ⟨_, rfl, rfl⟩
      | file | link =>
        exact .inr ⟨_, _, rfl, rfl, h.erase_both (by simp [hg]) hfile hdir⟩

include hd

theorem writeBytes (hp : Disk.unslashed p = p) (hl : e.locate true p = d.locate true p)
    (hq : ∀ q, d.locate true p = .ok q → ¬files q ∧ ¬dirs q) (bytes : List UInt8) :
    InStep files dirs (FileSystem.writeBytes p bytes) d e := by
  refine attempt h ?_
  rw [Disk.writeBytes_unslashed hp, Disk.writeBytes_unslashed hp, hl]
  cases hlocate : d.locate true p with
  | error error => exact .inl ⟨error, rfl, rfl⟩
  | ok q =>
    obtain ⟨hfile, hdir⟩ := hq q hlocate
    dsimp only [Bind.bind, Except.bind]
    rw [h.same hfile hdir]
    split
    · exact .inl ⟨_, rfl, rfl⟩
    · next hne =>
      have hpar := hd.locate_hasParent hlocate
      exact .inr ⟨_, _, rfl, rfl, h.put_both hpar (by simp) hne hfile hdir⟩

/-- Directories are made below one that is there. -/
theorem makeDirs {base : Path} {q : Place} {names : List String} (hbase : d.lead base = .ok q)
    (hdir : d.get? q = some .dir) (htaken : Disk.refusal? base = none ∨ base.text = "")
    (hnames : ∀ n ∈ names, Disk.Fits n) (hway : ∀ above, above <+: names → ¬files (q ++ above)) :
    InStep files dirs (FileSystem.makeDirs (base.descend names)) d e := by
  have herror : ∀ error, d.makeDirs (base.descend names) = (.error error, d) →
      e.makeDirs (base.descend names) = (.error error, e) →
      InStep files dirs (FileSystem.makeDirs (base.descend names)) d e := by
    intro error hmake hmake'
    unfold InStep
    rw [FileSystem.makeDirs_eq, FileSystem.makeDirs_eq, hmake, hmake']
    exact ⟨rfl, h⟩
  by_cases hfree : ∀ above bytes, above <+: names → d.get? (q ++ above) ≠ some (.file bytes)
  · by_cases hgiven : names ≠ [] → Disk.refusal? (base.descend names) = none
    · have hfree' : ∀ above bytes, above <+: names → e.get? (q ++ above) ≠ some (.file bytes) :=
        fun above bytes habove hfile => hfree above bytes habove (h.of_file (hway above habove) hfile)
      obtain ⟨d', hmake, hmade⟩ := hd.makeDirs_free hbase hdir htaken hnames hgiven hfree
      obtain ⟨e', hmake', hmade'⟩ :=
        h.plain.makeDirs_free (h.lead hbase) (h.dir hdir) htaken hnames hgiven hfree'
      unfold InStep
      rw [FileSystem.makeDirs_eq, FileSystem.makeDirs_eq, hmake, hmake']
      exact ⟨rfl, h.made_both hd hmake hmake' hmade hmade'⟩
    · obtain ⟨hne, hrefused⟩ : names ≠ [] ∧ Disk.refusal? (base.descend names) ≠ none := by
        simpa using hgiven
      obtain ⟨error, hr⟩ := Option.ne_none_iff_exists'.mp hrefused
      exact herror error (Disk.makeDirs_refused base hne hnames hr hd)
        (Disk.makeDirs_refused base hne hnames hr h.plain)
  · obtain ⟨above, bytes, habove, hfile⟩ : ∃ above bytes, above <+: names ∧
        d.get? (q ++ above) = some (.file bytes) := by
      simpa using hfree
    obtain ⟨error, hblocked⟩ := Disk.makeDirs_blocked base hnames habove
    exact herror error (hblocked d q bytes hd hbase hdir hfile)
      (hblocked e q bytes h.plain (h.lead hbase) (h.dir hdir) (h.present (hway above habove) hfile))

end InStep

end Folio
