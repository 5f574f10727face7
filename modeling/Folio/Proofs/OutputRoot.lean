import Folio.Proofs.DiskChanges
import Folio.Proofs.OutputDirs

/-! The root of all output. What is written for a document that was found below the sources stays below
the root, with two exceptions: without its extension, the name of a document may be that of the
directory above. -/

namespace Folio

namespace Path

/-- A path that goes on from another one by names only. -/
def IsBelow (base p : Path) : Prop :=
  ∃ names : List String, (∀ n ∈ names, IsName n) ∧ p.components = base.components ++ names.map .name

theorem not_isBelow_of_up {base p : Path} {rest : List Component}
    (h : p.components = base.components ++ rest) (hup : .up ∈ rest) : ¬base.IsBelow p := by
  rintro ⟨names, -, hnames⟩
  have hrest : rest = names.map .name := List.append_cancel_left (h.symm.trans hnames)
  simp [hrest] at hup

theorem component_name {name : String} (h : IsName name) : component name.toList = .name name := by
  rw [component_toList, if_neg h.notUp]

theorem components_descend_names (base : Path) {names : List String} (h : ∀ n ∈ names, IsName n) :
    (base.descend names).components = base.components ++ names.map .name := by
  rw [components_descend base fun n hn => (h n hn).isPiece]
  congr 1
  exact List.map_congr_left fun n hn => component_name (h n hn)

theorem fileName?_descend (base : Path) {names : List String} {name : String}
    (h : ∀ n ∈ names ++ [name], IsName n) : (base.descend (names ++ [name])).fileName? = some name := by
  rw [fileName?, components_descend_names base h]
  simp

end Path

/-- A document that can be found below a directory. -/
structure FoundBelow (srcDir file : Path) : Prop where
  isDocument : isDocument file = true
  reached : ∃ names, names ≠ [] ∧ (∀ n ∈ names, Path.IsName n) ∧ file = srcDir.descend names

variable {srcDir outDir file : Path}

/-- A document is told by the last one of the names that lead to it. -/
theorem Document.exists_names (srcDir : Path) {names : List String} (hne : names ≠ [])
    (hnames : ∀ n ∈ names, Path.IsName n) (h : isDocument (srcDir.descend names) = true) :
    ∃ doc : Document, doc.names = names := by
  obtain ⟨dirs, name, rfl⟩ := (List.eq_nil_or_concat names).resolve_left hne
  rw [List.concat_eq_append] at hnames h ⊢
  have hext : (Path.splitName name.toList).2.map String.ofList = some "ema" := by
    simpa [isDocument, documentExtension, Path.extension?, Path.fileName?_descend srcDir hnames] using h
  obtain ⟨extension, hsplit, hema⟩ := Option.map_eq_some_iff.mp hext
  obtain ⟨stem, hstem, hwhole⟩ := Path.eq_of_splitName hsplit
  have hname : name = String.ofList stem ++ ".ema" := by
    apply String.toList_inj.mp
    rw [hwhole, String.toList_append, String.toList_ofList]
    congr 1
    simpa using congrArg (fun s => '.' :: s.toList) hema
  have hslash : '/' ∉ stem := by
    have hslash := (hnames name (by simp)).noSlash
    rw [hwhole] at hslash
    exact fun hm => hslash (List.mem_append_left _ hm)
  exact ⟨⟨dirs, String.ofList stem, fun n hn => hnames n (by simp [hn]), by simpa using hstem,
    by simpa using hslash⟩, by simp [names, hname]⟩

theorem FoundBelow.exists_document (h : FoundBelow srcDir file) :
    ∃ doc : Document, file = doc.file srcDir ∧ file.fileName? = some (doc.stem ++ ".ema") := by
  obtain ⟨names, hne, hnames, rfl⟩ := h.reached
  obtain ⟨doc, rfl⟩ := Document.exists_names srcDir hne hnames h.isDocument
  exact ⟨doc, rfl, Path.fileName?_descend srcDir hnames⟩

namespace Document

/-- Whether the document's name without its extension is that of the directory above. -/
def LeadsUp (doc : Document) : Prop := doc.stem = "." ∨ doc.stem = ".."

variable {doc : Document}

theorem cutStem_eq_up : Path.cutStem doc.stem = ".." ↔ doc.LeadsUp := by
  unfold Path.cutStem LeadsUp
  split
  · next h => simp [h]
  · next h => simp [h]

theorem words_isName (h : ¬doc.LeadsUp) : ∀ n ∈ doc.words, Path.IsName n := by
  intro n hn
  have hpiece := doc.words_isPiece n hn
  unfold words at hn
  split at hn
  · exact doc.dirs_isName n hn
  · rcases List.mem_append.mp hn with hn | hn
    · exact doc.dirs_isName n hn
    · have hcut : n = Path.cutStem doc.stem := List.mem_singleton.mp hn
      exact hpiece.isName (hcut ▸ mt cutStem_eq_up.mp h)

theorem words_of_leadsUp (h : doc.LeadsUp) : doc.words = doc.dirs ++ [".."] := by
  have hindex : doc.stem ≠ "index" := by
    rcases h with h | h <;> rw [h] <;> decide
  rw [words, if_neg hindex, cutStem_eq_up.mpr h]

/-- Such a document goes into the directory above the one that it would be in by its place. -/
theorem components_of_leadsUp (h : doc.LeadsUp) (srcDir outDir : Path) :
    (outputDir srcDir outDir (doc.file srcDir)).components =
      outDir.components ++ doc.dirs.map .name ++ [.up] := by
  rw [outputDir_file, words_of_leadsUp h, Path.descend_concat,
    Path.components_child _ Path.isPiece_up, Path.components_descend_names _ doc.dirs_isName]
  rfl

theorem isBelow_outputDir_iff (srcDir outDir : Path) :
    outDir.IsBelow (outputDir srcDir outDir (doc.file srcDir)) ↔ ¬doc.LeadsUp := by
  constructor
  · intro hbelow hup
    have hcomponents := components_of_leadsUp hup srcDir outDir
    rw [List.append_assoc] at hcomponents
    exact Path.not_isBelow_of_up hcomponents (by simp) hbelow
  · intro hup
    rw [outputDir_file]
    exact ⟨doc.words, words_isName hup, Path.components_descend_names outDir (words_isName hup)⟩

end Document

theorem Path.IsBelow.place {base p : Path} (h : base.IsBelow p) (workDir : Place) :
    base.place workDir <+: p.place workDir := by
  obtain ⟨names, -, hp⟩ := h
  rw [Path.place, Path.place, hp, List.foldl_append]
  exact Path.isPrefix_move (by simp) (by simp)

theorem Path.IsBelow.up_notMem {base p : Path} (h : base.IsBelow p) (hup : .up ∉ base.components) :
    .up ∉ p.components := by
  obtain ⟨names, -, hp⟩ := h
  simp [hp, hup]

/-- What is written for a document into a directory below the root stays below the root. Only the root
itself may have to be made, with the directories above it. -/
theorem writeOutputs_below {root dir : Path} (hbelow : root.IsBelow dir)
    (hup : .up ∉ root.components) (output : Output) {d d' : Disk} (hd : d.Plain)
    (hd' : ((Site.writeOutputs dir output : ExceptT Error (StateM Disk) _).run d).2 = d')
    {place : Place} (hplace : d'.get? place ≠ d.get? place) :
    root.place d.workDir <+: place ∨
      (place <+: root.place d.workDir ∧ d.get? place = none ∧ d'.get? place = some .dir) := by
  have hroot := hbelow.place d.workDir
  have hchanges : d.Changes (root.place d.workDir <+: ·) (· <+: dir.place d.workDir) d' := by
    rw [← hd']
    refine Affects.writeOutputs output (hbelow.up_notMem hup) (fun name _ => ?_) (fun _ h => h) d hd rfl
    exact hroot.trans (List.prefix_append _ _)
  rcases hchanges.get? place with hsame | ⟨hdir, hmade⟩ | ⟨hfile, -⟩
  · exact absurd hsame hplace
  · rcases List.prefix_or_prefix_of_prefix hdir hroot with habove | hinside
    · exact .inr ⟨habove, hmade⟩
    · exact .inl hinside
  · exact .inl hfile

/-- The output directory of a document that was found below the sources goes on from the root of all
output by names, unless the document is called `..ema` or `...ema`: these two go to the directory above.
In all other cases nothing is written outside of the root. -/
theorem outputDir_isBelow_unless_dots (hfile : FoundBelow srcDir file)
    (hup : .up ∉ outDir.components) :
    (outDir.IsBelow (outputDir srcDir outDir file) ↔
      file.fileName? ≠ some "..ema" ∧ file.fileName? ≠ some "...ema") ∧
    (¬outDir.IsBelow (outputDir srcDir outDir file) →
      ∃ dirs : List String, (∀ n ∈ dirs, Path.IsName n) ∧
        (outputDir srcDir outDir file).components = outDir.components ++ dirs.map .name ++ [.up]) ∧
    (outDir.IsBelow (outputDir srcDir outDir file) → ∀ (output : Output) (d d' : Disk), d.Plain →
      ((Site.writeOutputs (outputDir srcDir outDir file) output :
        ExceptT Error (StateM Disk) _).run d).2 = d' →
      ∀ place, d'.get? place ≠ d.get? place →
        outDir.place d.workDir <+: place ∨
          (place <+: outDir.place d.workDir ∧ d.get? place = none ∧ d'.get? place = some .dir)) := by
  refine ⟨?_, ?_, fun hbelow output d d' hd hd' place hplace =>
    writeOutputs_below hbelow hup output hd hd' hplace⟩
  · obtain ⟨doc, rfl, hname⟩ := hfile.exists_document
    have hdots : ∀ stem, doc.stem ++ ".ema" = stem ++ ".ema" ↔ doc.stem = stem :=
      fun stem => String.append_left_inj _
    have hone := hdots "."
    have htwo := hdots ".."
    rw [Document.isBelow_outputDir_iff, hname, Document.LeadsUp, not_or]
    simpa using (and_congr (not_congr hone) (not_congr htwo)).symm
  · intro hnot
    obtain ⟨doc, rfl, -⟩ := hfile.exists_document
    rw [Document.isBelow_outputDir_iff, Classical.not_not] at hnot
    exact ⟨doc.dirs, doc.dirs_isName, Document.components_of_leadsUp hnot srcDir outDir⟩

theorem foundBelow_child (dir : Path) (name : String) (hn : Path.IsName name)
    (h : isDocument (dir.child name) = true) : FoundBelow dir (dir.child name) :=
  ⟨h, [name], by simp, by simpa using hn, rfl⟩

/-- A document whose files go where they should. -/
theorem outputDir_isBelow_sample :
    FoundBelow ⟨"src"⟩ ⟨"src/intro.ema"⟩ ∧ .up ∉ Path.components ⟨"dist"⟩ ∧
      Path.IsBelow ⟨"dist"⟩ (outputDir ⟨"src"⟩ ⟨"dist"⟩ ⟨"src/intro.ema"⟩) := by
  have hfound : FoundBelow ⟨"src"⟩ ⟨"src/intro.ema"⟩ :=
    foundBelow_child ⟨"src"⟩ "intro.ema" (by decide) (by decide +kernel)
  have hup : .up ∉ Path.components ⟨"dist"⟩ := by decide
  refine ⟨hfound, hup, (outputDir_isBelow_unless_dots hfound hup).1.mpr ?_⟩
  decide +kernel

/-- A document that is written over the files of the directory above the root. -/
theorem outputDir_leaves_root :
    FoundBelow ⟨"src"⟩ ⟨"src/..ema"⟩ ∧ .up ∉ Path.components ⟨"dist"⟩ ∧
      ¬Path.IsBelow ⟨"dist"⟩ (outputDir ⟨"src"⟩ ⟨"dist"⟩ ⟨"src/..ema"⟩) ∧
      ((Site.writeOutputs (outputDir ⟨"src"⟩ ⟨"dist"⟩ ⟨"src/..ema"⟩) {} :
        ExceptT Error (StateM Disk) _).run .blank).2.get? ["work", "index.html"] =
          some (.file []) := by
  have hfound : FoundBelow ⟨"src"⟩ ⟨"src/..ema"⟩ :=
    foundBelow_child ⟨"src"⟩ "..ema" (by decide) (by decide +kernel)
  have hcomponents : (outputDir ⟨"src"⟩ ⟨"dist"⟩ ⟨"src/..ema"⟩).components =
      Path.components ⟨"dist"⟩ ++ [.up] := by decide +kernel
  exact ⟨hfound, by decide, Path.not_isBelow_of_up hcomponents (by simp), by decide +kernel⟩

end Folio
