import Folio.Proofs.Documents

/-! Discovery is exact. The documents that are found below a directory are the files there whose names
have a stem before `.ema`, each of them once, in the order of their names; but for those that no file
call takes the path of. The order in which a directory is listed makes no difference. -/

namespace Folio

namespace Path

variable {dir : Path} {names names' : List String}

theorem ranks_descend (dir : Path) (h : ∀ n ∈ names, IsName n) :
    (dir.descend names).ranks = dir.ranks ++ names.map ("\x03" ++ ·) := by
  simp [ranks, components_descend_names dir h, Component.rank, Function.comp_def]

theorem ranks_lt_of_lt (h : names < names') :
    names.map ("\x03" ++ ·) < names'.map ("\x03" ++ ·) := by
  refine List.map_lt (fun n n' hlt => ?_) h
  rw [String.lt_iff_toList_lt, String.toList_append, String.toList_append]
  exact List.append_left_lt (String.lt_iff_toList_lt.mp hlt)

/-- Below one directory the order of paths is that of the names. -/
theorem lt_of_ranks_lt (hnames : ∀ n ∈ names, IsName n) (hnames' : ∀ n ∈ names', IsName n)
    (h : (dir.descend names).ranks < (dir.descend names').ranks) : names < names' := by
  rw [ranks_descend dir hnames, ranks_descend dir hnames'] at h
  apply Classical.byContradiction
  intro hnot
  by_cases heq : names = names'
  · exact Std.lt_irrefl (heq ▸ h)
  · have hlt : names' < names := Std.lt_of_le_of_ne (Std.not_lt.mp hnot) (Ne.symm heq)
    exact Std.lt_irrefl (Std.lt_trans h (List.append_left_lt (ranks_lt_of_lt hlt)))

end Path

/-- What the name of a document is like. -/
theorem isDocument_descend (dir : Path) {names : List String} (hne : names ≠ [])
    (hnames : ∀ n ∈ names, Path.IsName n) : isDocument (dir.descend names) = true ↔
      ∃ above stem, names = above ++ [stem ++ ".ema"] ∧ stem ≠ "" := by
  constructor
  · intro h
    obtain ⟨doc, rfl⟩ := Document.exists_names dir hne hnames h
    exact ⟨doc.dirs, doc.stem, rfl, fun hempty => doc.stem_nonempty (by simp [hempty])⟩
  · rintro ⟨above, stem, rfl, hstem⟩
    have hsplit : Path.splitName (stem ++ ".ema").toList = (stem.toList, some "ema".toList) := by
      rw [String.toList_append]
      refine Path.splitName_append (by simpa using hstem) (by decide) fun hup => ?_
      simpa using congrArg List.length hup
    rw [isDocument, Path.extension?, Path.fileName?_descend dir hnames, Option.bind_some, hsplit]
    rfl

/-- Documents are put in the same order, however they are listed. -/
theorem documentsAmong_eq {files files' : List Path}
    (hperm : (files.filter isDocument).Perm (files'.filter isDocument))
    (hinj : ∀ p ∈ files.filter isDocument, ∀ q ∈ files.filter isDocument,
      p.components = q.components → p = q) :
    documentsAmong files = documentsAmong files' := by
  refine List.Perm.eq_of_pairwise (fun p q hp hq hle hle' => ?_) (Path.pairwise_le_mergeSort _)
    (Path.pairwise_le_mergeSort _) ?_
  · rw [documentsAmong, List.mem_mergeSort] at hp hq
    exact hinj p hp q (hperm.mem_iff.mpr hq) (Path.ranks_inj (Std.le_antisymm hle hle'))
  · exact (List.mergeSort_perm _ _).trans (hperm.trans (List.mergeSort_perm _ _).symm)

namespace Disk

variable {d : Disk} {dir : Path} {base : Place} {names : List String}

theorem refusal?_eq_none {p : Path} : refusal? p = none ↔ Takes p := by
  unfold refusal?
  constructor
  · intro h
    split at h
    · cases h
    split at h
    · cases h
    split at h
    · cases h
    · next hzero hempty hlong => exact ⟨hzero, by simpa using hempty, Nat.not_lt.mp hlong⟩
  · intro h
    rw [if_neg h.noZero, if_neg (by simpa using h.nonempty), if_neg (Nat.not_lt.mpr h.short)]

/-- The ways down from a directory to a document that a file call takes the path of. -/
def IsDocumentWay (d : Disk) (dir : Path) (base : Place) (names : List String) : Prop :=
  ∃ above stem bytes, names = above ++ [stem ++ ".ema"] ∧ stem ≠ "" ∧
    d.get? (base ++ names) = some (.file bytes) ∧ Takes (dir.descend names)

namespace IsDocumentWay

theorem present (h : d.IsDocumentWay dir base names) : d.get? (base ++ names) ≠ none := by
  obtain ⟨_, _, bytes, -, -, hfile, -⟩ := h
  simp [hfile]

theorem isName (h : d.IsDocumentWay dir base names) (hd : d.Plain) (hnamed : d.WellNamed) :
    ∀ n ∈ names, Path.IsName n :=
  fun n hn => (hnamed.fits hd h.present n hn).toIsName

end IsDocumentWay

/-- The ways below a directory, as some walk through it yields them. -/
def YieldsBelow (d : Disk) (dir : Path) (base : Place) (yielded : List Path) : Prop :=
  yielded.Nodup ∧ ∀ p, p ∈ yielded ↔ ∃ names, p = dir.descend names ∧ d.get? (base ++ names) ≠ none

section

variable (hd : d.Plain) (hnamed : d.WellNamed) (hl : d.locate true dir = .ok base)
  (hbase : d.get? base = some .dir)

include hd hnamed hl hbase

theorem isFile_iff_of_present (hpresent : d.get? (base ++ names) ≠ none) :
    d.isFile (dir.descend names) = true ↔
      Takes (dir.descend names) ∧ ∃ bytes, d.get? (base ++ names) = some (.file bytes) := by
  have hfits := hnamed.fits hd hpresent
  have hlead := (hd.locate_iff.mp hl).2
  constructor
  · intro h
    obtain ⟨q, bytes, hq, hfile⟩ := isFile_iff.mp h
    obtain ⟨htaken, hleads⟩ := hd.locate_iff.mp hq
    rw [lead_descend hlead hbase fun n hn => (hfits n hn).isPiece,
      hd.reach_present hfits hpresent] at hleads
    exact ⟨refusal?_eq_none.mp htaken, bytes, by rwa [Except.ok.inj hleads]⟩
  · rintro ⟨htakes, bytes, hfile⟩
    exact (hd.isFile_descend hlead hbase hfits hfile).mpr (refusal?_eq_none.mpr htakes)

/-- A path that a walk yields is kept exactly if it is the way to a document. -/
theorem isDocumentWay_iff (hpresent : d.get? (base ++ names) ≠ none) :
    d.isFile (dir.descend names) = true ∧ isDocument (dir.descend names) = true ↔
      d.IsDocumentWay dir base names := by
  have hfits := hnamed.fits hd hpresent
  rw [isFile_iff_of_present hd hnamed hl hbase hpresent]
  constructor
  · rintro ⟨⟨htakes, bytes, hfile⟩, hdocument⟩
    have hne : names ≠ [] := by
      rintro rfl
      simp [hbase] at hfile
    obtain ⟨above, stem, hnames, hstem⟩ :=
      (isDocument_descend dir hne fun n hn => (hfits n hn).toIsName).mp hdocument
    exact ⟨above, stem, bytes, hnames, hstem, hfile, htakes⟩
  · rintro ⟨above, stem, bytes, hnames, hstem, hfile, htakes⟩
    refine ⟨⟨htakes, bytes, hfile⟩, ?_⟩
    exact (isDocument_descend dir (by simp [hnames]) fun n hn => (hfits n hn).toIsName).mpr
      ⟨above, stem, hnames, hstem⟩

theorem mem_documents_iff {file : Path} : file ∈ documentsAmong (d.filesBelow dir) ↔
    ∃ names, d.IsDocumentWay dir base names ∧ file = dir.descend names := by
  rw [hd.mem_documents hl hbase]
  constructor
  · rintro ⟨hdocument, hisFile, names, bytes, -, rfl, hfile⟩
    exact ⟨names, (isDocumentWay_iff hd hnamed hl hbase (by simp [hfile])).mp ⟨hisFile, hdocument⟩, rfl⟩
  · rintro ⟨names, hway, rfl⟩
    obtain ⟨hisFile, hdocument⟩ := (isDocumentWay_iff hd hnamed hl hbase hway.present).mpr hway
    obtain ⟨above, stem, bytes, hnames, -, hfile, -⟩ := hway
    exact ⟨hdocument, hisFile, names, bytes, by simp [hnames], rfl, hfile⟩

/-- Any other walk finds the same documents. -/
theorem documents_of_yieldsBelow {yielded : List Path} (h : d.YieldsBelow dir base yielded) :
    documentsAmong (yielded.filter d.isFile) = documentsAmong (d.filesBelow dir) := by
  have hmem : ∀ p, p ∈ (yielded.filter d.isFile).filter isDocument ↔
      ∃ names, d.IsDocumentWay dir base names ∧ p = dir.descend names := by
    intro p
    rw [List.mem_filter, List.mem_filter, h.2 p]
    constructor
    · rintro ⟨⟨⟨names, rfl, hpresent⟩, hisFile⟩, hdocument⟩
      exact ⟨names, (isDocumentWay_iff hd hnamed hl hbase hpresent).mp ⟨hisFile, hdocument⟩, rfl⟩
    · rintro ⟨names, hway, rfl⟩
      obtain ⟨hisFile, hdocument⟩ := (isDocumentWay_iff hd hnamed hl hbase hway.present).mpr hway
      exact ⟨⟨⟨names, rfl, hway.present⟩, hisFile⟩, hdocument⟩
  have hnodup := hd.nodup_documents hl hbase (hnamed.documentsFit hd)
  rw [documentsAmong, (List.mergeSort_perm _ _).nodup_iff] at hnodup
  refine documentsAmong_eq ((List.perm_ext_iff_of_nodup ((h.1.filter _).filter _) hnodup).mpr ?_) ?_
  · intro p
    rw [hmem, ← mem_documents_iff hd hnamed hl hbase, documentsAmong, List.mem_mergeSort]
  · intro p hp q hq heq
    obtain ⟨names, hway, rfl⟩ := (hmem p).mp hp
    obtain ⟨names', hway', rfl⟩ := (hmem q).mp hq
    rw [descend_injective (hway.isName hd hnamed) (hway'.isName hd hnamed) heq]

/-- No two documents have the same place in the order. -/
theorem pairwise_lt_documents :
    (documentsAmong (d.filesBelow dir)).Pairwise fun p q => p.ranks < q.ranks := by
  have hnodup := hd.nodup_documents hl hbase (hnamed.documentsFit hd)
  refine ((Path.pairwise_le_mergeSort _).and hnodup).imp_of_mem ?_
  rintro p q hp hq ⟨hle, hne⟩
  obtain ⟨names, hway, rfl⟩ := (mem_documents_iff hd hnamed hl hbase).mp hp
  obtain ⟨names', hway', rfl⟩ := (mem_documents_iff hd hnamed hl hbase).mp hq
  refine Std.lt_of_le_of_ne hle fun heq => hne ?_
  rw [descend_injective (hway.isName hd hnamed) (hway'.isName hd hnamed) (Path.ranks_inj heq)]

/-- The documents, by the names that lead to them. -/
theorem exists_documentWays : ∃ found : List (List String),
    documentsAmong (d.filesBelow dir) = found.map dir.descend ∧ found.Pairwise (· < ·) ∧
      ∀ names, names ∈ found ↔ d.IsDocumentWay dir base names := by
  have hrange : documentsAmong (d.filesBelow dir) ∈
      Set.range (List.map fun way : { names // d.IsDocumentWay dir base names } => dir.descend way) := by
    rw [Set.range_list_map]
    intro file hfile
    obtain ⟨names, hway, rfl⟩ := (mem_documents_iff hd hnamed hl hbase).mp hfile
    exact ⟨⟨names, hway⟩, rfl⟩
  obtain ⟨ways, hways⟩ := hrange
  refine ⟨ways.map Subtype.val, by simp [← hways], ?_, fun names => ⟨?_, fun hway => ?_⟩⟩
  · have hpairwise := pairwise_lt_documents hd hnamed hl hbase
    rw [← hways, List.pairwise_map] at hpairwise
    rw [List.pairwise_map]
    exact hpairwise.imp fun {way way'} hlt =>
      Path.lt_of_ranks_lt (way.2.isName hd hnamed) (way'.2.isName hd hnamed) hlt
  · intro hmem
    obtain ⟨way, -, rfl⟩ := List.mem_map.mp hmem
    exact way.2
  · have hmem := (mem_documents_iff hd hnamed hl hbase).mpr ⟨names, hway, rfl⟩
    rw [← hways] at hmem
    obtain ⟨way, hway', heq⟩ := List.mem_map.mp hmem
    have hsame := descend_injective (way.2.isName hd hnamed) (hway.isName hd hnamed)
      (congrArg Path.components heq)
    exact List.mem_map.mpr ⟨way, hway', hsame⟩

end

end Disk

/-- In a directory without symbolic links, the documents that are found are the files at any depth
whose names have a stem before `.ema` and whose paths file calls take. Each is found once, in the order
of the names that lead to it, and any walk that yields everything once finds the same. -/
theorem documents_found_exactly {d : Disk} {dir : Path} {base : Place} (hd : d.Plain)
    (hnamed : d.WellNamed) (hl : d.locate true dir = .ok base) (hbase : d.get? base = some .dir) :
    ∃ found : List (List String),
      (findDocuments dir : StateM Disk _) d = (found.map dir.descend, d) ∧
      found.Pairwise (· < ·) ∧
      (∀ names, names ∈ found ↔ ∃ above stem bytes, names = above ++ [stem ++ ".ema"] ∧ stem ≠ "" ∧
        d.get? (base ++ names) = some (.file bytes) ∧ Disk.Takes (dir.descend names)) ∧
      ∀ yielded, d.YieldsBelow dir base yielded →
        documentsAmong (yielded.filter d.isFile) = found.map dir.descend := by
  obtain ⟨found, hfound, hsorted, hmem⟩ := Disk.exists_documentWays hd hnamed hl hbase
  refine ⟨found, ?_, hsorted, hmem, fun yielded hyielded => ?_⟩
  · rw [← hfound]
    rfl
  · rw [← hfound]
    exact Disk.documents_of_yieldsBelow hd hnamed hl hbase hyielded

section Sample

/-- The entries of a disk with two documents, a file without a stem and a directory that is named like
a document. -/
def sampleTreeEntries : List (Place × Entry) :=
  [(["s"], .dir), (["s", ".ema"], .file []), (["s", "a"], .dir), (["s", "a", "b.ema"], .file []),
    (["s", "a.ema"], .file []), (["s", "x.ema"], .dir)]

def sampleTree : Disk := ⟨.ofList sampleTreeEntries, []⟩

theorem sampleTree_entries : sampleTree.entries.entries = sampleTreeEntries := rfl

theorem sampleTree_plain : sampleTree.Plain := by
  refine Disk.plain_of_forall ?_ ?_
  · simp [sampleTree_entries, sampleTreeEntries]
  · simp only [sampleTree_entries, sampleTreeEntries, List.forall_mem_cons]
    exact ⟨rfl, rfl, rfl, rfl, rfl, rfl, by simp⟩

theorem sampleTree_wellNamed : sampleTree.WellNamed := by
  refine Disk.wellNamed_of_forall ?_
  rw [sampleTree_entries]
  decide

/-- The path `a/b.ema` comes before `a.ema`, and neither `.ema` nor the directory is found. -/
theorem documents_found_exactly_sample : ∃ found : List (List String),
    (findDocuments ⟨"s"⟩ : StateM Disk _) sampleTree = (found.map (Path.descend ⟨"s"⟩), sampleTree) ∧
      found.Pairwise (· < ·) ∧ ["a", "b.ema"] ∈ found ∧ ["a.ema"] ∈ found ∧ [".ema"] ∉ found ∧
      ["x.ema"] ∉ found := by
  obtain ⟨found, hrun, hsorted, hmem, -⟩ := documents_found_exactly sampleTree_plain
    sampleTree_wellNamed (show sampleTree.locate true ⟨"s"⟩ = .ok ["s"] from rfl) rfl
  refine ⟨found, hrun, hsorted, ?_, ?_, fun h => ?_, fun h => ?_⟩
  · exact (hmem _).mpr ⟨["a"], "b", [], rfl, by decide, rfl, Disk.refusal?_eq_none.mp rfl⟩
  · exact (hmem _).mpr ⟨[], "a", [], rfl, by decide, rfl, Disk.refusal?_eq_none.mp rfl⟩
  · obtain ⟨above, stem, bytes, hnames, hstem, -⟩ := (hmem _).mp h
    have hlast := congrArg (fun names => names.getLast?.map String.length) hnames
    simp at hlast
    exact hstem hlast
  · obtain ⟨above, stem, bytes, -, -, hfile, -⟩ := (hmem _).mp h
    cases hfile

end Sample

section LongPath

namespace Path

/-- The current directory, spelled with a dot and slashes. -/
def slashed (n : Nat) : Path := ⟨String.ofList ('.' :: List.replicate n '/')⟩

theorem toList_slashed (n : Nat) : (slashed n).text.toList = '.' :: List.replicate n '/' :=
  String.toList_ofList

theorem getLast?_slashed (n : Nat) : (slashed (n + 1)).text.toList.getLast? = some '/' := by
  rw [toList_slashed, List.replicate_succ', ← List.cons_append, List.getLast?_concat]

theorem utf8ByteSize_slashed (n : Nat) : (slashed n).text.utf8ByteSize = n + 1 := by
  have hslashes : (String.ofList (List.replicate n '/')).utf8ByteSize = n := by
    induction n with
    | zero => rfl
    | succ n ih =>
      rw [List.replicate_succ, String.ofList_cons, String.utf8ByteSize_append, ih]
      exact Nat.add_comm 1 n
  rw [slashed, String.ofList_cons, String.utf8ByteSize_append, hslashes]
  exact Nat.add_comm 1 n

theorem split_slashes (n : Nat) : split (List.replicate n '/') = List.replicate (n + 1) [] := by
  induction n with
  | zero => rfl
  | succ n ih => simp [List.replicate_succ, split, ih]

/-- A slash at the end of a path is there still when a name follows. -/
theorem text_child_slashed (n : Nat) {name : String} (h : IsPiece name) :
    ((slashed (n + 1)).child name).text = (slashed (n + 1)).text ++ name := by
  simp [child, join, h.isAbsolute, getLast?_slashed]

/-- Every name makes a path longer. -/
theorem utf8ByteSize_child (dir : Path) {name : String} (h : IsPiece name) :
    dir.text.utf8ByteSize + name.utf8ByteSize ≤ (dir.child name).text.utf8ByteSize := by
  unfold child join
  rw [h.isAbsolute, if_neg Bool.false_ne_true]
  split <;> simp only [String.utf8ByteSize_append] <;> omega

theorem utf8ByteSize_lt_descend (dir : Path) {names : List String} (hne : names ≠ [])
    (h : ∀ n ∈ names, IsPiece n) :
    dir.text.utf8ByteSize < (dir.descend names).text.utf8ByteSize := by
  induction names generalizing dir with
  | nil => exact absurd rfl hne
  | cons name names ih =>
    have hname : IsPiece name := h name (by simp)
    have hpos : name.utf8ByteSize ≠ 0 := by simpa using hname.nonempty
    have hchild := utf8ByteSize_child dir hname
    rw [descend_cons]
    by_cases hrest : names = []
    · rw [hrest, descend_nil]
      omega
    · have hlt := ih (dir.child name) hrest fun n hn => h n (by simp [hn])
      omega

end Path

namespace Disk

theorem steps_slashed (n : Nat) : steps (Path.slashed (n + 1)).text = [".", "."] := by
  have hsplit : Path.split ('.' :: List.replicate (n + 1) '/') = ['.'] :: List.replicate (n + 1) [] := by
    rw [Path.split, List.replicate_succ, Path.split, Path.split_slashes]
    rfl
  rw [steps, Path.getLast?_slashed, Path.toList_slashed, hsplit]
  simp

theorem takes_slashed {n : Nat} (h : n + 1 ≤ maxPath) : Takes (Path.slashed n) := by
  refine ⟨?_, ?_, by rwa [Path.utf8ByteSize_slashed]⟩
  · rw [Path.toList_slashed]
    simp
  · simp [Path.toList_slashed]

theorem lead_slashed (d : Disk) (n : Nat) (hwork : d.get? d.workDir = some .dir) :
    d.lead (Path.slashed (n + 1)) = .ok d.workDir := by
  have hstart : startOf d.workDir (Path.slashed (n + 1)).text = d.workDir := by
    simp [startOf, Path.toList_slashed]
  rw [lead, hstart, steps_slashed]
  simp [reach, hwork]

end Disk

def sampleLone : Disk := ⟨.ofList [(["work"], .dir), (["work", "a.ema"], .file [])], ["work"]⟩

/-- A document that stands in a directory is not found there if the path of the directory leaves no
room for its name. -/
theorem long_path_hides_document :
    sampleLone.Plain ∧ sampleLone.WellNamed ∧
      sampleLone.locate true (Path.slashed 4094) = .ok ["work"] ∧
      sampleLone.get? ["work"] = some .dir ∧ sampleLone.get? ["work", "a.ema"] = some (.file []) ∧
      (findDocuments (Path.slashed 4094) : StateM Disk _) sampleLone = ([], sampleLone) := by
  have hentries : sampleLone.entries.entries = [(["work"], .dir), (["work", "a.ema"], .file [])] := rfl
  have hplain : sampleLone.Plain := by
    refine Disk.plain_of_forall ?_ ?_
    · simp [hentries]
    · simp only [hentries, List.forall_mem_cons]
      exact ⟨rfl, rfl, by simp⟩
  have hnamed : sampleLone.WellNamed := by
    refine Disk.wellNamed_of_forall ?_
    rw [hentries]
    decide
  have hl : sampleLone.locate true (Path.slashed 4094) = .ok ["work"] :=
    hplain.locate_iff.mpr ⟨Disk.refusal?_eq_none.mpr (Disk.takes_slashed (by decide)),
      Disk.lead_slashed sampleLone 4093 rfl⟩
  refine ⟨hplain, hnamed, hl, rfl, rfl, Prod.ext (List.eq_nil_iff_forall_not_mem.mpr ?_) rfl⟩
  intro file hfile
  obtain ⟨names, hway, -⟩ := (Disk.mem_documents_iff hplain hnamed hl rfl).mp hfile
  have hpieces : ∀ n ∈ names, Path.IsPiece n := fun n hn => (hway.isName hplain hnamed n hn).isPiece
  obtain ⟨above, stem, bytes, hnames, -, -, htakes⟩ := hway
  have hlong := Path.utf8ByteSize_lt_descend (Path.slashed 4094) (by simp [hnames]) hpieces
  rw [Path.utf8ByteSize_slashed] at hlong
  exact absurd htakes.short (Nat.not_le.mpr hlong)

end LongPath

end Folio
