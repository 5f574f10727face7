import Folio.Proofs.Independence

/-! Directories of kept results that only builds have written to. Each file of a kept result holds what
was kept for some document, so what is looked up is what a document compiles to. -/

namespace Folio

/-- Removing a file brings no file. -/
theorem Disk.file_of_removeFile {d : Disk} {p : Path} {place : Place} {bytes : List UInt8}
    (hfile : (attempt (·.removeFile p) d).2.get? place = some (.file bytes)) :
    d.get? place = some (.file bytes) := by
  unfold attempt at hfile
  cases hr : d.removeFile p with
  | error error => simpa [hr] using hfile
  | ok d' =>
    obtain ⟨q, hq, rfl⟩ := removeFile_eq_ok hr
    simp only [hr, get?_erase (ne_nil_of_get?_ne_dir hq)] at hfile
    split at hfile
    · cases hfile
    · exact hfile

namespace Cache

variable {inputs : List (String × Options)} {c : Cache} {key source : String} {options : Options}
  {d : Disk} {place : Place} {bytes : List UInt8}

/-- The file of an entry tells the entry. -/
theorem Entry.of_bytes_inj {source' : String} {options' : Options}
    (h : (Entry.of source options).bytes = (Entry.of source' options').bytes) :
    Entry.of source options = Entry.of source' options' := by
  have hread : Entry.read (Entry.of source options).toJson.compact = .ok (Entry.of source options) :=
    Entry.read_compact rfl
  rw [Text.utf8_injective h, Entry.read_compact rfl] at hread
  exact (Except.ok.inj hread).symm

/-- A fresh file is looked up with success just if it holds what belongs to the document. -/
theorem lookup_eq_of_fresh (ht : ToldApart inputs) (hi : (source, options) ∈ inputs)
    (h : Fresh inputs (c.entryPath key) d) :
    (c.lookup key source options : StateM Disk _) d =
      (.ok (if d.readBytes (c.entryPath key) = .ok (Entry.of source options).bytes
        then some (compile source options) else none), d) := by
  cases hread : d.readBytes (c.entryPath key) with
  | error error => simpa using lookup_unreadable hread
  | ok bytes =>
    obtain ⟨⟨source', options'⟩, hi', hbytes⟩ := h bytes hread
    rw [hbytes] at hread ⊢
    rw [lookup_readable hread (Entry.read_compact rfl)]
    by_cases hhash : hash source' options' = hash source options
    · obtain ⟨rfl, rfl⟩ := hashInput_injective (ht _ hi' _ hi hhash)
      simp [Entry.of]
    · have hmiss : ¬(Entry.of source' options').hash = hash source options := hhash
      have hne : (Entry.of source' options').bytes ≠ (Entry.of source options).bytes := by
        intro hsame
        rw [Entry.of_bytes_inj hsame] at hmiss
        exact hmiss rfl
      simp [hmiss, hne]

/-- Looking up a result brings no file. -/
theorem file_of_lookup
    (hfile : ((c.lookup key source options : StateM Disk _) d).2.get? place = some (.file bytes)) :
    d.get? place = some (.file bytes) := by
  unfold lookup at hfile
  generalize c.entryPath key = p at hfile
  rw [bind_apply, FileSystem.readText_eq] at hfile
  revert hfile
  cases d.readText p with
  | error fault => exact id
  | ok text =>
    dsimp only
    cases Entry.read text with
    | ok entry => exact id
    | error fault =>
      dsimp only
      cases fault.cause with
      | badTime => exact id
      | _ => exact Disk.file_of_removeFile

theorem file_of_keep {e : Entry} (hfile : (c.keep key e d).get? place = some (.file bytes)) :
    d.get? place = some (.file bytes) ∨ bytes = e.bytes := by
  unfold keep at hfile
  cases hw : d.writeBytes (c.entryPath key) e.bytes with
  | error error => exact .inl (by simpa [hw, Except.toOption] using hfile)
  | ok d' =>
    obtain ⟨q, -, hq, rfl⟩ := Disk.writeBytes_eq_ok hw
    simp only [hw, Except.toOption, Option.getD_some,
      Disk.get?_put (Disk.ne_nil_of_get?_ne_dir hq)] at hfile
    split at hfile
    · simp_all
    · exact .inl hfile

end Cache

open Cache (Entry ToldApart Fresh)

variable {config : Config} {c : Cache} {key source : String} {d : Disk} {place : Place}
  {bytes : List UInt8} {inputs : List (String × Options)}

/-- A document that is looked up and kept brings no file but that of its own result. -/
theorem file_of_resultFor {cache : Option Cache}
    (hfile : ((resultFor config cache key source : StateM Disk _) d).2.get? place =
      some (.file bytes)) :
    d.get? place = some (.file bytes) ∨ bytes = (Entry.of source config.compiler).bytes := by
  cases cache with
  | none => exact .inl hfile
  | some c =>
    have hok : (compile source config.compiler).success = true := rfl
    have hlookup := fun bytes => @Cache.file_of_lookup c key source config.compiler d place bytes
    unfold resultFor at hfile
    dsimp only at hfile
    rw [bind_apply] at hfile
    revert hfile hlookup
    generalize (c.lookup key source config.compiler : StateM Disk _) d = found
    obtain ⟨fault | _ | result, d'⟩ := found <;> intro hfile hlookup
    · exact .inl (hlookup _ hfile)
    · simp only [bind, StateT.bind, pure, StateT.pure, FileSystem.now, FileSystem.since, Nat.sub_self,
        compile_at_once, Cache.store_eq c key source config.compiler hok d'] at hfile
      exact (Cache.file_of_keep hfile).imp_left (hlookup _)
    · exact .inl (hlookup _ hfile)

/-- The result of a document: the kept one if the file holds it, and else a new one, which is kept. -/
theorem resultFor_eq_of_fresh (ht : ToldApart inputs) (hi : (source, config.compiler) ∈ inputs)
    (h : Fresh inputs (c.entryPath key) d) :
    (resultFor config (some c) key source : StateM Disk _) d =
      if d.readBytes (c.entryPath key) = .ok (Entry.of source config.compiler).bytes
      then (.ok (compile source config.compiler, true), d)
      else (.ok (compile source config.compiler, false),
        c.keep key (Entry.of source config.compiler) d) := by
  have hlookup := Cache.lookup_eq_of_fresh ht hi h
  split
  · next hread => exact resultFor_found (by rw [hlookup, if_pos hread])
  · next hread => exact resultFor_not_found (by rw [hlookup, if_neg hread])

namespace Cache

/-- A directory of kept results in which each file of a result holds what is kept for one of the
inputs. -/
def Kept (shelf : Place) (inputs : List (String × Options)) (d : Disk) : Prop :=
  ∀ key bytes, d.get? (shelf ++ [entryName key]) = some (.file bytes) →
    ∃ i ∈ inputs, bytes = (Entry.of i.1 i.2).bytes

/-- A disk on which nothing but builds has brought files into a directory of kept results. The inputs
are those of the documents that were built since the directory was not there. -/
inductive WrittenByBuilds (shelf : Place) : List (String × Options) → Disk → Prop
  | absent {d : Disk} (hplain : d.Plain) (habsent : d.get? shelf = none) : WrittenByBuilds shelf [] d
  | build {inputs : List (String × Options)} {d : Disk} (config : Config)
      (h : WrittenByBuilds shelf inputs d) :
      WrittenByBuilds shelf (inputs ++ History.inputs [.build config] d)
        (History.Event.run (.build config) d)
  | change {inputs : List (String × Options)} {d d' : Disk} (h : WrittenByBuilds shelf inputs d)
      (hplain : d'.Plain) (hspared : ∀ place bytes, shelf <+: place →
        d'.get? place = some (.file bytes) → d.get? place = some (.file bytes)) :
      WrittenByBuilds shelf inputs d'

variable {shelf : Place}

theorem Kept.mono {inputs' : List (String × Options)} (h : Kept shelf inputs d)
    (hsub : inputs ⊆ inputs') : Kept shelf inputs' d := by
  intro key bytes hfile
  obtain ⟨i, hi, hbytes⟩ := h key bytes hfile
  exact ⟨i, hsub hi, hbytes⟩

/-- A document that gets its result keeps nothing but that. -/
theorem Kept.visit {v : History.Visit} (h : Kept shelf inputs v.disk)
    (hv : ∀ source, v.source? = some source → (source, v.config.compiler) ∈ inputs) :
    Kept shelf inputs v.midway := by
  unfold History.Visit.midway
  cases hs : v.source? with
  | none => exact h
  | some source =>
    intro key bytes hfile
    rcases file_of_resultFor hfile with hfile | hbytes
    · exact h key bytes hfile
    · exact ⟨_, hv source hs, hbytes⟩

/-- So does a document that is built. -/
theorem Kept.built {v : History.Visit} (hd : v.disk.Plain) (h : Kept shelf inputs v.disk)
    (hv : ∀ source, v.source? = some source → (source, v.config.compiler) ∈ inputs) :
    Kept shelf inputs v.built.2 := fun key bytes hfile =>
  h.visit hv key bytes
    ((v.built_leaves (History.Visit.midway_plain hd) key).file _ bytes (by simp) hfile)

/-- What a build does keeps the directory as it should be. -/
theorem Kept.move {m : History.Move} (hm : m.Leaves) (hplain : m.before.Plain)
    (h : Kept shelf inputs m.before)
    (hv : ∀ v, m = .visit v → ∀ source, v.source? = some source →
      (source, v.config.compiler) ∈ inputs) : Kept shelf inputs m.after := by
  cases m with
  | visit v => exact h.visit (hv v rfl)
  | other before after =>
    exact fun key bytes hfile => h key bytes ((hm hplain key).file _ bytes (by simp) hfile)

theorem Kept.build {config : Config} (hd : d.Plain) (h : Kept shelf inputs d)
    (hsub : History.inputs [.build config] d ⊆ inputs) :
    (History.Event.run (.build config) d).Plain ∧
      Kept shelf inputs (History.Event.run (.build config) d) := by
  have hlinked := History.linked_buildMoves config d
  refine (hlinked.invariant (fun d => d.Plain ∧ Kept shelf inputs d) ⟨hd, h⟩ fun m hm hbefore => ?_).2
  have hleaves := History.leaves_buildMoves config d m hm
  refine ⟨hleaves.plain hbefore.1, hbefore.2.move hleaves hbefore.1 fun v hv source hs => hsub ?_⟩
  have hvisit : v ∈ History.visits [.build config] d :=
    History.mem_visits.mpr (by simpa [History.moves, History.Event.moves, ← hv] using hm)
  exact History.mem_inputs hvisit hs

/-- All that is kept was kept for one of the inputs. -/
theorem WrittenByBuilds.kept (h : WrittenByBuilds shelf inputs d) :
    d.Plain ∧ Kept shelf inputs d := by
  induction h with
  | @absent d hplain habsent =>
    refine ⟨hplain, fun key bytes hfile => ?_⟩
    have hdir := hplain.inDir shelf (entryName key) (by simp [hfile])
    simp [habsent] at hdir
  | build config h ih =>
    exact (ih.2.mono (List.subset_append_left _ _)).build ih.1 (List.subset_append_right _ _)
  | change h hplain hspared ih =>
    exact ⟨hplain, fun key bytes hfile =>
      ih.2 key bytes (hspared _ bytes (List.prefix_append _ _) hfile)⟩

end Cache

end Folio
