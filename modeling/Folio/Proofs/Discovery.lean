import Folio.Proofs.OutputRoot
import Folio.Proofs.Reach

/-! The documents that are found below a directory, on a disk without symbolic links. Each of them
stands where its path leads to, and its output directory is named by names that fit. -/

namespace Folio

namespace Disk

variable {d d' : Disk} {place base : Place} {p srcDir outDir file : Path} {names : List String}

/-- A disk whose entries have names that fit. -/
def WellNamed (d : Disk) : Prop := ∀ place name, d.get? (place ++ [name]) ≠ none → Fits name

theorem wellNamed_of_forall (h : ∀ e ∈ d.entries.entries, ∀ name ∈ e.1, Fits name) : d.WellNamed := by
  intro place name hpresent
  obtain ⟨entry, hentry⟩ := Option.ne_none_iff_exists'.mp hpresent
  exact h _ (mem_entries_of_get? hentry (by simp)) name (by simp)

theorem WellNamed.fits (h : d.WellNamed) (hd : d.Plain) (hg : d.get? (base ++ names) ≠ none) :
    ∀ n ∈ names, Fits n := by
  intro name hname
  obtain ⟨above, below, rfl⟩ := List.append_of_mem hname
  apply h (base ++ above) name
  cases below with
  | nil => simpa using hg
  | cons next below =>
    have hdir : d.get? (base ++ above ++ [name]) = some .dir :=
      hd.dir_above (show d.get? (base ++ above ++ [name] ++ next :: below) ≠ none by simpa using hg)
    rw [hdir]
    simp

/-- Files are found by going down from a directory. -/
theorem Plain.mem_filesFrom (hd : d.Plain) {fuel : Nat} {above : List Place}
    (h : file ∈ d.filesFrom fuel above place p) :
    ∃ names bytes, names ≠ [] ∧ file = p.descend names ∧
      d.get? (place ++ names) = some (.file bytes) := by
  induction fuel generalizing above place p with
  | zero => cases h
  | succ fuel ih =>
    unfold filesFrom at h
    obtain ⟨name, -, h⟩ := List.mem_flatMap.mp h
    dsimp only at h
    cases hg : d.get? (place ++ [name]) with
    | none => simp [hg] at h
    | some entry =>
      simp only [hg] at h
      cases entry with
      | link target => exact absurd hg (hd.noLink _ _)
      | file bytes => exact ⟨[name], bytes, by simp, List.mem_singleton.mp h, hg⟩
      | dir =>
        obtain ⟨names, bytes, -, hfile, hplace⟩ := ih h
        exact ⟨name :: names, bytes, by simp, hfile, by simpa using hplace⟩

/-- A document that stands on a disk, below a directory that its path starts with. -/
structure Finds (d : Disk) (srcDir file : Path) (base : Place) (names : List String) : Prop where
  isDocument : isDocument file = true
  lead : d.lead srcDir = .ok base
  file_eq : file = srcDir.descend names
  names_ne : names ≠ []
  fits : ∀ n ∈ names, Fits n
  content : ∃ bytes, d.get? (base ++ names) = some (.file bytes)

theorem exists_finds (hd : d.Plain) (hnamed : d.WellNamed) (hdir : d.isDir srcDir = true)
    (h : file ∈ documentsAmong (d.filesBelow srcDir)) : ∃ base names, d.Finds srcDir file base names := by
  obtain ⟨base, hlocate, hbase⟩ := isDir_iff.mp hdir
  have hlead : d.lead srcDir = .ok base := (hd.locate_iff.mp hlocate).2
  rw [documentsAmong, List.mem_mergeSort, List.mem_filter] at h
  obtain ⟨hfile, hdocument⟩ := h
  rw [filesBelow, entryAt_eq_ok.mpr ⟨hlocate, hbase⟩] at hfile
  obtain ⟨names, bytes, hne, hpath, hplace⟩ := hd.mem_filesFrom (List.mem_of_mem_filter hfile)
  have hpresent : d.get? (base ++ names) ≠ none := by simp [hplace]
  exact ⟨base, names, hdocument, hlead, hpath, hne, hnamed.fits hd hpresent, bytes, hplace⟩

end Disk

/-- The names on the way to the output directory are no longer than those on the way to the document. -/
theorem Document.short_of_mem_words (doc : Document) (h : ¬doc.LeadsUp) {size : Nat}
    (hsize : ∀ n ∈ doc.names, n.utf8ByteSize ≤ size) : ∀ n ∈ doc.words, n.utf8ByteSize ≤ size := by
  intro n hn
  have hdirs : ∀ n ∈ doc.dirs, n.utf8ByteSize ≤ size := fun n hn => hsize n (by simp [names, hn])
  unfold words at hn
  split at hn
  · exact hdirs n hn
  · rcases List.mem_append.mp hn with hn | hn
    · exact hdirs n hn
    · have hstem : n = doc.stem := by
        rw [List.mem_singleton.mp hn, Path.cutStem, if_neg fun hdot => h (.inl hdot)]
      have hname := hsize (doc.stem ++ ".ema") (by simp [names])
      rw [String.utf8ByteSize_append] at hname
      rw [hstem]
      omega

namespace Disk.Finds

variable {d : Disk} {base : Place} {srcDir file : Path} {names : List String}
  (h : d.Finds srcDir file base names)

include h

theorem exists_document : ∃ doc : Document, doc.names = names := by
  refine Document.exists_names srcDir h.names_ne (fun n hn => (h.fits n hn).toIsName) ?_
  rw [← h.file_eq]
  exact h.isDocument

/-- The last name is that of a document. -/
theorem getLast?_names : ∃ stem, names.getLast? = some (stem ++ ".ema") := by
  obtain ⟨doc, rfl⟩ := h.exists_document
  exact ⟨doc.stem, by simp [Document.names]⟩

/-- Without double dots, the output directory is reached by names that fit. -/
theorem outputDir_eq (outDir : Path) (hup : .up ∉ (outputDir srcDir outDir file).components) :
    ∃ words, (∀ n ∈ words, Fits n) ∧ outputDir srcDir outDir file = outDir.descend words := by
  obtain ⟨doc, rfl⟩ := h.exists_document
  have hfile : file = doc.file srcDir := h.file_eq
  have hleads : ¬doc.LeadsUp := by
    intro hleads
    rw [hfile, Document.components_of_leadsUp hleads] at hup
    simp at hup
  refine ⟨doc.words, fun n hn => ⟨Document.words_isName hleads n hn, ?_⟩, ?_⟩
  · exact doc.short_of_mem_words hleads (fun n hn => (h.fits n hn).short) n hn
  · rw [hfile, doc.outputDir_file]

end Disk.Finds

/-- What is found on a disk is found below the directory, so the results about output directories are
about all documents of a project. -/
theorem foundBelow_of_mem_documentsAmong {d : Disk} {srcDir file : Path} (hd : d.Plain)
    (hnamed : d.WellNamed) (hdir : d.isDir srcDir = true)
    (h : file ∈ documentsAmong (d.filesBelow srcDir)) : FoundBelow srcDir file := by
  obtain ⟨base, names, hfinds⟩ := Disk.exists_finds hd hnamed hdir h
  exact ⟨hfinds.isDocument, names, hfinds.names_ne, fun n hn => (hfinds.fits n hn).toIsName,
    hfinds.file_eq⟩

end Folio
