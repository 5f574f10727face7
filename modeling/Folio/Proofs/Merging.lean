import Folio.Proofs.Lockstep
import Folio.Proofs.SortedMaps

/-! Programs that can run in any order. If none of them comes upon a file of another one, each answers
as if it ran alone, and the disk that is left does not depend on the order. -/

namespace Folio

/-- Two disks with the same entries are the same. -/
theorem Disk.ext_get? {d e : Disk} (h : ∀ place, d.get? place = e.get? place)
    (hroot : d.entries.get? [] = e.entries.get? []) (hwork : d.workDir = e.workDir) : d = e := by
  have hentries : d.entries = e.entries := by
    refine SortedMap.ext_get? fun place => ?_
    cases place with
    | nil => exact hroot
    | cons name names => simpa [Disk.get?] using h (name :: names)
  cases d
  cases e
  simp_all

/-- The directories that were made can be told from the disks. -/
theorem Disk.Changes.exactly {d e : Disk} {files dirs : Place → Prop} (h : d.Changes files dirs e) :
    d.Changes files (fun place => d.get? place = none ∧ e.get? place = some .dir) e where
  plain := h.plain
  workDir := h.workDir
  root := h.root
  get? place := by
    rcases h.get? place with hsame | ⟨-, hmade⟩ | hfile
    · exact .inl hsame
    · exact .inr (.inl ⟨hmade, hmade⟩)
    · exact .inr (.inr hfile)

/-- Programs, one for each item of work, with the files that they may change and the directories that
they may make. -/
structure Work (τ α : Type) where
  run : τ → StateM Disk α
  files : τ → Place → Prop
  dirs : τ → Place → Prop

namespace Work

variable {τ α : Type} (work : Work τ α)

/-- No file of one item is at a place that the other one uses. -/
def Apart (t u : τ) : Prop :=
  (∀ place, work.files t place → ¬work.files u place ∧ ¬work.dirs u place) ∧
    ∀ place, work.files u place → ¬work.files t place ∧ ¬work.dirs t place

/-- An item of work that does not depend on what others do on a disk, if they change only files that
make no difference to anyone else. -/
structure Robust (harmless : Place → Prop) (d : Disk) (t : τ) : Prop where
  affects : Affects d.workDir (work.files t) (work.dirs t) (work.run t)
  spares : ∀ place, work.files t place → harmless place
  inStep : ∀ (files dirs : Place → Prop) (e : Disk), d.Changes files dirs e →
    (∀ place, files place → harmless place ∧ ¬work.files t place ∧ ¬work.dirs t place) →
    (∀ place, dirs place → ¬work.files t place) → InStep files dirs (work.run t) d e

/-- The disk that an item of work leaves if it is done alone. -/
def alone (d : Disk) (t : τ) : Disk := (work.run t d).2

/-- The disk after some items of work: where one of them may change files, it is as that one leaves it
alone, and elsewhere there are the directories that any of them makes alone. -/
structure Merged (d : Disk) (ts : List τ) (e : Disk) : Prop where
  changes : d.Changes (fun place => ∃ t ∈ ts, work.files t place)
    (fun place => ∃ t ∈ ts, work.dirs t place) e
  file : ∀ t ∈ ts, ∀ place, work.files t place → e.get? place = (work.alone d t).get? place
  made : ∀ place, (∀ t ∈ ts, ¬work.files t place) →
    (∃ t ∈ ts, (work.alone d t).get? place ≠ d.get? place) → e.get? place = some .dir
  same : ∀ place, (∀ t ∈ ts, ¬work.files t place) →
    (∀ t ∈ ts, (work.alone d t).get? place = d.get? place) → e.get? place = d.get? place

variable {work} {d e e' : Disk} {harmless : Place → Prop} {t : τ} {ts ts' : List τ}

theorem Merged.nil (hd : d.Plain) : work.Merged d [] d where
  changes := .refl hd
  file := by simp
  made := by simp
  same _ _ _ := rfl

/-- The disk is told by which items were done. -/
theorem Merged.unique (h : work.Merged d ts e) (h' : work.Merged d ts' e')
    (hmem : ∀ t, t ∈ ts ↔ t ∈ ts') : e = e' := by
  refine Disk.ext_get? (fun place => ?_) (h.changes.root.trans h'.changes.root.symm)
    (h.changes.workDir.trans h'.changes.workDir.symm)
  by_cases hfile : ∃ t ∈ ts, work.files t place
  · obtain ⟨t, ht, hfile⟩ := hfile
    rw [h.file t ht place hfile, h'.file t ((hmem t).mp ht) place hfile]
  · have hnone : ∀ t ∈ ts, ¬work.files t place := fun t ht hf => hfile ⟨t, ht, hf⟩
    have hnone' : ∀ t ∈ ts', ¬work.files t place := fun t ht => hnone t ((hmem t).mpr ht)
    by_cases hmade : ∃ t ∈ ts, (work.alone d t).get? place ≠ d.get? place
    · obtain ⟨t, ht, hne⟩ := hmade
      rw [h.made place hnone ⟨t, ht, hne⟩, h'.made place hnone' ⟨t, (hmem t).mp ht, hne⟩]
    · have hsame : ∀ t ∈ ts, (work.alone d t).get? place = d.get? place :=
        fun t ht => Classical.byContradiction fun hne => hmade ⟨t, ht, hne⟩
      rw [h.same place hnone hsame, h'.same place hnone' fun t ht => hsame t ((hmem t).mpr ht)]

/-- One more item of work answers as if it was done alone. -/
theorem Merged.step (hd : d.Plain) (h : work.Merged d ts e) (hts : ∀ u ∈ ts, work.Robust harmless d u)
    (ht : work.Robust harmless d t) (hapart : ∀ u ∈ ts, work.Apart u t) :
    (work.run t e).1 = (work.run t d).1 ∧ work.Merged d (ts ++ [t]) (work.run t e).2 := by
  -- The directories that the items before have made.
  let made : Place → Prop := fun place => d.get? place = none ∧ e.get? place = some .dir
  have hmade : ∀ place, made place → ¬work.files t place := by
    intro place hplace hfile
    rcases h.changes.get? place with hsame | ⟨⟨u, hu, hdir⟩, -⟩ | ⟨⟨u, hu, hfile'⟩, -⟩
    · simp [hplace.1, hplace.2] at hsame
    · exact ((hapart u hu).2 place hfile).2 hdir
    · exact ((hapart u hu).1 place hfile').1 hfile
  obtain ⟨hanswer, hbeside⟩ := ht.inStep _ made e h.changes.exactly
    (fun place ⟨u, hu, hfile⟩ => ⟨(hts u hu).spares place hfile, (hapart u hu).1 place hfile⟩) hmade
  have halone : d.Changes (work.files t) (work.dirs t) (work.alone d t) := ht.affects d hd rfl
  have hafter := ht.affects e h.changes.plain h.changes.workDir
  refine ⟨hanswer, ?_, ?_, ?_, ?_⟩
  · refine (h.changes.mono ?_ ?_).trans (hafter.mono ?_ ?_)
    · exact fun place ⟨u, hu, hfile⟩ => ⟨u, by simp [hu], hfile⟩
    · exact fun place ⟨u, hu, hdir⟩ => ⟨u, by simp [hu], hdir⟩
    · exact fun place hfile => ⟨t, by simp, hfile⟩
    · exact fun place hdir => ⟨t, by simp, hdir⟩
  · intro u hu place hfile
    rcases List.mem_append.mp hu with hu | hu
    · rw [← h.file u hu place hfile]
      exact hafter.same ((hapart u hu).1 place hfile).1 ((hapart u hu).1 place hfile).2
    · obtain rfl := List.mem_singleton.mp hu
      refine hbeside.same ?_ fun hm => hmade place hm hfile
      exact fun ⟨v, hv, hfile'⟩ => ((hapart v hv).1 place hfile').1 hfile
  · intro place hnone hmakes
    obtain ⟨u, hu, hne⟩ := hmakes
    rcases List.mem_append.mp hu with hu | hu
    · exact hafter.dir (h.made place (fun v hv => hnone v (by simp [hv])) ⟨u, hu, hne⟩)
    · obtain rfl := List.mem_singleton.mp hu
      rcases halone.get? place with hsame | ⟨-, -, hdir⟩ | ⟨hfile, -⟩
      · exact absurd hsame hne
      · exact hbeside.dir hdir
      · exact absurd hfile (hnone u (by simp))
  · intro place hnone hsame
    have he := h.same place (fun v hv => hnone v (by simp [hv])) fun v hv => hsame v (by simp [hv])
    have ht' : (work.alone d t).get? place = d.get? place := hsame t (by simp)
    rcases hafter.get? place with hunchanged | ⟨-, hempty, hdir⟩ | ⟨hfile, -⟩
    · rw [hunchanged, he]
    · -- A directory that is not made on the disk alone is not made beside the others.
      rcases hbeside.get? place with heq | ⟨⟨-, hedir⟩, -⟩ | ⟨⟨v, hv, hfile⟩, -⟩
      · exact heq.trans ht'
      · simp [hempty] at hedir
      · exact absurd hfile (hnone v (by simp [hv]))
    · exact absurd hfile (hnone t (by simp))

/-- Items of work that are apart answer as if each was done alone. -/
theorem Merged.run (hd : d.Plain) {todo : List τ} (h : work.Merged d ts e)
    (hrobust : ∀ t ∈ ts ++ todo, work.Robust harmless d t) (hapart : (ts ++ todo).Pairwise work.Apart) :
    ∃ e', (todo.mapM work.run : StateM Disk _) e = (todo.map fun t => (work.run t d).1, e') ∧
      work.Merged d (ts ++ todo) e' := by
  induction todo generalizing ts e with
  | nil => exact ⟨e, rfl, by simpa using h⟩
  | cons t todo ih =>
    have hbefore : ∀ u ∈ ts, work.Apart u t :=
      fun u hu => (List.pairwise_append.mp hapart).2.2 u hu t (by simp)
    obtain ⟨hanswer, hnext⟩ := h.step hd (fun u hu => hrobust u (by simp [hu])) (hrobust t (by simp)) hbefore
    obtain ⟨e', hrest, hmerged⟩ := ih hnext (by simpa using hrobust) (by simpa using hapart)
    refine ⟨e', ?_, by simpa using hmerged⟩
    rw [List.mapM_cons, bind_apply, bind_apply, hrest, hanswer]
    rfl

/-- The order in which they are done makes no difference. -/
theorem run_perm (hd : d.Plain) (hrobust : ∀ t ∈ ts, work.Robust harmless d t)
    (hapart : ts.Pairwise work.Apart) :
    ∃ final, ∀ order : List τ, order.Perm ts →
      (order.mapM work.run : StateM Disk _) d = (order.map fun t => (work.run t d).1, final) := by
  obtain ⟨final, -, hfinal⟩ := Merged.run hd (.nil hd) hrobust hapart
  refine ⟨final, fun order hperm => ?_⟩
  have hsymm : ∀ {t u}, work.Apart t u → work.Apart u t := fun h => ⟨h.2, h.1⟩
  obtain ⟨final', hrun, hfinal'⟩ := Merged.run hd (.nil hd)
    (fun t ht => hrobust t (hperm.mem_iff.mp ht)) (hapart.perm hperm.symm hsymm)
  rw [hrun, hfinal'.unique hfinal fun t => hperm.mem_iff]

end Work

end Folio
