import Folio.Proofs.OutputRoot

/-! Documents that share an output directory. Two documents below the sources do so only if one of them
is the index of the directory that is named like the other one, so there are never three of them. -/

namespace Folio

/-- A document, and the index of the directory that is named like the document. -/
def IndexPair (srcDir file index : Path) : Prop :=
  ∃ (dirs : List String) (name : String), (∀ n ∈ dirs ++ [name], Path.IsName n) ∧ name ≠ "index" ∧
    file = srcDir.descend (dirs ++ [name ++ ".ema"]) ∧
    index = srcDir.descend (dirs ++ [name, "index.ema"])

/-- A document that is named by dots only, and so goes to the directory above. -/
def Path.IsDotted (file : Path) : Prop :=
  file.fileName? = some "..ema" ∨ file.fileName? = some "...ema"

instance (file : Path) : Decidable file.IsDotted := inferInstanceAs (Decidable (_ ∨ _))

variable {srcDir file other : Path}

namespace Document

variable {a b c : Document}

theorem exists_of_isName {dirs : List String} {stem : String}
    (h : ∀ n ∈ dirs ++ [stem], Path.IsName n) :
    ∃ doc : Document, doc.dirs = dirs ∧ doc.stem = stem ∧ ¬doc.LeadsUp := by
  have hstem : Path.IsName stem := h stem (by simp)
  exact ⟨⟨dirs, stem, fun n hn => h n (by simp [hn]), hstem.nonempty, hstem.noSlash⟩, rfl, rfl,
    not_or.mpr ⟨hstem.notHere, hstem.notUp⟩⟩

theorem words_of_index (h : a.stem = "index") : a.words = a.dirs := if_pos h

theorem words_of_stem (h : a.stem ≠ "index") (hup : ¬a.LeadsUp) : a.words = a.dirs ++ [a.stem] := by
  have hdot : a.stem ≠ "." := fun hdot => hup (.inl hdot)
  rw [words, if_neg h, Path.cutStem, if_neg hdot]

/-- The words tell apart the documents that are an index, and those that are none. -/
theorem names_eq_of_words (ha : ¬a.LeadsUp) (hb : ¬b.LeadsUp) (h : a.words = b.words)
    (hindex : a.stem = "index" ↔ b.stem = "index") : a.names = b.names := by
  by_cases hstem : a.stem = "index"
  · have hstem' := hindex.mp hstem
    rw [words_of_index hstem, words_of_index hstem'] at h
    rw [names, names, h, hstem, hstem']
  · have hstem' := mt hindex.mpr hstem
    rw [words_of_stem hstem ha, words_of_stem hstem' hb] at h
    obtain ⟨hdirs, hlast⟩ := List.append_inj' h rfl
    rw [names, names, hdirs, List.singleton_inj.mp hlast]

/-- Of two documents with the same words one is an index and the other is not. -/
theorem index_iff_of_words (ha : ¬a.LeadsUp) (hb : ¬b.LeadsUp)
    (hne : a.file srcDir ≠ b.file srcDir) (h : a.words = b.words) :
    a.stem ≠ "index" ↔ b.stem = "index" :=
  not_iff.mp fun hindex => hne (congrArg srcDir.descend (names_eq_of_words ha hb h hindex))

theorem indexPair_of_words (ha : a.stem ≠ "index") (hup : ¬a.LeadsUp) (hb : b.stem = "index")
    (h : a.words = b.words) : IndexPair srcDir (a.file srcDir) (b.file srcDir) := by
  rw [words_of_stem ha hup, words_of_index hb] at h
  refine ⟨a.dirs, a.stem, h ▸ b.dirs_isName, ha, rfl, ?_⟩
  rw [file, names, ← h, hb, List.append_assoc]
  rfl

theorem indexPair_or_of_words (ha : ¬a.LeadsUp) (hb : ¬b.LeadsUp)
    (hne : a.file srcDir ≠ b.file srcDir) (h : a.words = b.words) :
    IndexPair srcDir (a.file srcDir) (b.file srcDir) ∨
      IndexPair srcDir (b.file srcDir) (a.file srcDir) := by
  have hindex := index_iff_of_words ha hb hne h
  by_cases hstem : b.stem = "index"
  · exact .inl (indexPair_of_words (hindex.mpr hstem) ha hstem h)
  · have hstem' : a.stem = "index" := Classical.not_not.mp (mt hindex.mp hstem)
    exact .inr (indexPair_of_words hstem hb hstem' h.symm)

/-- Of three documents two are an index, or two are none, so they do not have the same words. -/
theorem not_words_of_three (ha : ¬a.LeadsUp) (hb : ¬b.LeadsUp) (hc : ¬c.LeadsUp)
    (hab : a.file srcDir ≠ b.file srcDir) (hbc : b.file srcDir ≠ c.file srcDir)
    (hac : a.file srcDir ≠ c.file srcDir) : ¬(a.words = b.words ∧ b.words = c.words) := by
  intro hall
  obtain ⟨hwords, hwords'⟩ := hall
  have hindex := index_iff_of_words ha hb hab hwords
  have hindex' := index_iff_of_words hb hc hbc hwords'
  have hindex'' := index_iff_of_words ha hc hac (hwords.trans hwords')
  by_cases hstem : b.stem = "index"
  · exact hindex'.mpr (hindex''.mp (hindex.mpr hstem)) hstem
  · exact hindex''.mpr (hindex'.mp hstem) (Classical.not_not.mp (mt hindex.mp hstem))

theorem components_outputDir_inj (srcDir outDir : Path) (ha : ¬a.LeadsUp) (hb : ¬b.LeadsUp) :
    (outputDir srcDir outDir (a.file srcDir)).components =
      (outputDir srcDir outDir (b.file srcDir)).components ↔ a.words = b.words := by
  rw [outputDir_file, outputDir_file, Path.components_descend_names outDir (words_isName ha),
    Path.components_descend_names outDir (words_isName hb), List.append_right_inj,
    List.map_inj_right fun _ _ => Path.Component.name.inj]

end Document

theorem IndexPair.outputDir_eq (h : IndexPair srcDir file other) (outDir : Path) :
    outputDir srcDir outDir file = outputDir srcDir outDir other := by
  obtain ⟨dirs, name, hnames, hname, rfl, rfl⟩ := h
  obtain ⟨doc, rfl, rfl, hup⟩ := Document.exists_of_isName hnames
  have hbelow : ∀ n ∈ (doc.dirs ++ [doc.stem]) ++ ["index"], Path.IsName n :=
    List.forall_mem_append.mpr ⟨hnames, List.forall_mem_singleton.mpr (by decide)⟩
  obtain ⟨index, hdirs, hstem, -⟩ := Document.exists_of_isName hbelow
  have hother : index.file srcDir = srcDir.descend (doc.dirs ++ [doc.stem, "index.ema"]) := by
    rw [Document.file, Document.names, hdirs, hstem, List.append_assoc]
    rfl
  calc
    outputDir srcDir outDir (doc.file srcDir) = outDir.descend doc.words :=
      doc.outputDir_file srcDir outDir
    _ = outDir.descend index.words := by
      rw [Document.words_of_stem hname hup, Document.words_of_index hstem, hdirs]
    _ = outputDir srcDir outDir (index.file srcDir) := (index.outputDir_file srcDir outDir).symm
    _ = outputDir srcDir outDir (srcDir.descend (doc.dirs ++ [doc.stem, "index.ema"])) := by
      rw [hother]

theorem FoundBelow.exists_document_undotted (h : FoundBelow srcDir file) (hdots : ¬file.IsDotted) :
    ∃ doc : Document, file = doc.file srcDir ∧ ¬doc.LeadsUp := by
  obtain ⟨doc, rfl, hname⟩ := h.exists_document
  refine ⟨doc, rfl, fun hup => hdots ?_⟩
  rw [Path.IsDotted, hname]
  rcases hup with hup | hup
  · exact .inl (by rw [hup]; rfl)
  · exact .inr (by rw [hup]; rfl)

/-- Two documents below the sources share an output directory exactly if one of them is the index of the
directory that is named like the other one. A third document never has the same output directory. -/
theorem outputDir_shared_iff (outDir : Path) (hfile : FoundBelow srcDir file)
    (hother : FoundBelow srcDir other) (hdots : ¬file.IsDotted) (hdots' : ¬other.IsDotted)
    (hne : file ≠ other) :
    ((outputDir srcDir outDir file).components = (outputDir srcDir outDir other).components ↔
      IndexPair srcDir file other ∨ IndexPair srcDir other file) ∧
    ∀ third, FoundBelow srcDir third → ¬third.IsDotted → third ≠ file → third ≠ other →
      ¬((outputDir srcDir outDir file).components = (outputDir srcDir outDir other).components ∧
        (outputDir srcDir outDir other).components = (outputDir srcDir outDir third).components) := by
  obtain ⟨a, rfl, ha⟩ := hfile.exists_document_undotted hdots
  obtain ⟨b, rfl, hb⟩ := hother.exists_document_undotted hdots'
  have hsame := Document.components_outputDir_inj srcDir outDir ha hb
  constructor
  · constructor
    · intro hcomponents
      exact Document.indexPair_or_of_words ha hb hne (hsame.mp hcomponents)
    · intro hpair
      rcases hpair with hpair | hpair
      · rw [hpair.outputDir_eq outDir]
      · rw [hpair.outputDir_eq outDir]
  · intro third hthird hdots'' hne' hne''
    obtain ⟨c, rfl, hc⟩ := hthird.exists_document_undotted hdots''
    rw [hsame, Document.components_outputDir_inj srcDir outDir hb hc]
    exact Document.not_words_of_three ha hb hc hne hne''.symm hne'.symm

/-- A document, the index of the directory that is named like it, and the index of all sources. -/
theorem outputDir_shared_sample :
    FoundBelow ⟨"src"⟩ ⟨"src/blog.ema"⟩ ∧ FoundBelow ⟨"src"⟩ ⟨"src/blog/index.ema"⟩ ∧
      FoundBelow ⟨"src"⟩ ⟨"src/index.ema"⟩ ∧
      (IndexPair ⟨"src"⟩ ⟨"src/blog.ema"⟩ ⟨"src/blog/index.ema"⟩ ∨
        IndexPair ⟨"src"⟩ ⟨"src/blog/index.ema"⟩ ⟨"src/blog.ema"⟩) ∧
      ¬((outputDir ⟨"src"⟩ ⟨"dist"⟩ ⟨"src/blog.ema"⟩).components =
          (outputDir ⟨"src"⟩ ⟨"dist"⟩ ⟨"src/blog/index.ema"⟩).components ∧
        (outputDir ⟨"src"⟩ ⟨"dist"⟩ ⟨"src/blog/index.ema"⟩).components =
          (outputDir ⟨"src"⟩ ⟨"dist"⟩ ⟨"src/index.ema"⟩).components) := by
  have hfile : FoundBelow ⟨"src"⟩ ⟨"src/blog.ema"⟩ :=
    foundBelow_child ⟨"src"⟩ "blog.ema" (by decide) (by decide +kernel)
  have hother : FoundBelow ⟨"src"⟩ ⟨"src/blog/index.ema"⟩ :=
    ⟨by decide +kernel, ["blog", "index.ema"], by simp, by decide, rfl⟩
  have hthird : FoundBelow ⟨"src"⟩ ⟨"src/index.ema"⟩ :=
    foundBelow_child ⟨"src"⟩ "index.ema" (by decide) (by decide +kernel)
  have hsame : (outputDir ⟨"src"⟩ ⟨"dist"⟩ ⟨"src/blog.ema"⟩).components =
      (outputDir ⟨"src"⟩ ⟨"dist"⟩ ⟨"src/blog/index.ema"⟩).components := by decide +kernel
  have hshared := outputDir_shared_iff ⟨"dist"⟩ hfile hother (by decide +kernel)
    (by decide +kernel) (by decide)
  exact ⟨hfile, hother, hthird, hshared.1.mp hsame,
    hshared.2 _ hthird (by decide +kernel) (by decide) (by decide)⟩

end Folio
