import Folio.Build
import Folio.Proofs.PathNames

/-! Where the files of a document go. The output directory of a document below the sources is reached
from the root of all output by the names that lead to the document, so it is inside of the root unless
the document's name is made of dots. -/

namespace Folio

namespace Path

theorem joined_concat_append (pieces : List (List Char)) (first second : List Char) :
    joined (pieces ++ [first ++ second]) = joined (pieces ++ [first]) ++ second := by
  cases pieces with
  | nil => simp [joined_singleton]
  | cons piece pieces =>
    rw [joined_concat (by simp), joined_concat (by simp)]
    simp

theorem splitName_append {stem extension : List Char} (hstem : stem ≠ []) (hext : '.' ∉ extension)
    (hup : stem ++ '.' :: extension ≠ ['.', '.']) :
    splitName (stem ++ '.' :: extension) = (stem, some extension) := by
  have htake : ((stem ++ '.' :: extension).reverse.takeWhile (· ≠ '.')).reverse = extension := by
    have hall : ∀ c ∈ extension.reverse, (decide (c ≠ '.')) = true := by
      intro c hc
      have hne : c ≠ '.' := by
        rintro rfl
        exact hext (List.mem_reverse.mp hc)
      simpa using hne
    rw [List.reverse_append, List.reverse_cons, List.append_assoc,
      List.takeWhile_append_of_pos hall]
    simp
  have hlength : (stem ++ '.' :: extension).length - extension.length - 1 = stem.length := by
    simp only [List.length_append, List.length_cons]
    omega
  have hne : extension.length ≠ (stem ++ '.' :: extension).length := by
    simp only [List.length_append, List.length_cons]
    omega
  unfold splitName
  simp only [htake, hlength, List.take_left]
  rw [if_neg]
  simpa [hup, hstem] using hne

/-- A name with an extension is its stem, a dot and the extension. -/
theorem eq_of_splitName {name extension : List Char} (h : (splitName name).2 = some extension) :
    ∃ stem, stem ≠ [] ∧ name = stem ++ '.' :: extension := by
  have hwhole : name.reverse = name.reverse.takeWhile (· ≠ '.') ++ name.reverse.dropWhile (· ≠ '.') :=
    List.takeWhile_append_dropWhile.symm
  unfold splitName at h
  generalize hext : (name.reverse.takeWhile (· ≠ '.')).reverse = ext at h
  have htake : name.reverse.takeWhile (· ≠ '.') = ext.reverse := by rw [← hext, List.reverse_reverse]
  dsimp only at h
  split at h
  · cases h
  · next hno =>
    obtain rfl : ext = extension := Option.some.inj h
    simp only [Bool.or_eq_true, decide_eq_true_eq, not_or, List.isEmpty_iff] at hno
    obtain ⟨⟨-, hstem⟩, hlen⟩ := hno
    cases hdrop : name.reverse.dropWhile (· ≠ '.') with
    | nil =>
      rw [htake, hdrop, List.append_nil] at hwhole
      exact absurd (by rw [List.reverse_inj.mp hwhole]) hlen
    | cons c rest =>
      have hc : c = '.' := by
        have hhead := List.head?_dropWhile_not (fun c => decide (c ≠ '.')) name.reverse
        rw [hdrop] at hhead
        simpa using hhead
      have hname : name = rest.reverse ++ '.' :: ext := by
        rw [← List.reverse_inj, hwhole, htake, hdrop, hc]
        simp
      refine ⟨rest.reverse, ?_, hname⟩
      intro hnil
      apply hstem
      simp [hname, hnil]

theorem isPiece_of_mem_concat {dirs : List String} {name : String} (hdirs : ∀ n ∈ dirs, IsPiece n)
    (hname : IsPiece name) : ∀ n ∈ dirs ++ [name], IsPiece n := by
  intro n hn
  rcases List.mem_append.mp hn with hn | hn
  · exact hdirs n hn
  · exact List.mem_singleton.mp hn ▸ hname

section Relative

variable {dirs : List String} {name stem : String}

theorem fileName?_relative (hdirs : ∀ n ∈ dirs, IsPiece n) (hname : IsPiece name) :
    (relative (dirs ++ [name])).fileName? = if name = ".." then none else some name := by
  rw [fileName?, components_relative (by simp) (isPiece_of_mem_concat hdirs hname)]
  simp only [List.map_append, List.map_singleton, List.getLast?_concat, component_toList]
  by_cases hup : name = ".."
  · simp [hup]
  · simp [hup]

theorem parent?_relative (hdirs : ∀ n ∈ dirs, IsPiece n) (hname : IsPiece name) :
    (relative (dirs ++ [name])).parent? = some (relative dirs) := by
  have hparts := parts_relative (by simp) (isPiece_of_mem_concat hdirs hname)
  have htrim : trimEnd (dirs.map String.toList) = dirs.map String.toList := by
    cases dirs with
    | nil => rfl
    | cons dir dirs => simpa using trimEnd_names [] (by simp) hdirs
  have hname' := trimEnd_concat (dirs.map String.toList) hname
  unfold parent?
  rw [hparts, List.map_append, List.map_singleton, hname']
  split
  · next h _ => simp at h
  · next h _ => simp at h
  · simp [htrim, relative]

/-- The name that is left of a document's name without its extension. A dot before the dot of the
extension is left with that dot. -/
def cutStem (stem : String) : String := if stem = "." then ".." else stem

theorem IsPiece.append {name : String} (h : name.toList ≠ []) (hs : '/' ∉ name.toList) {rest : String}
    (hrest : rest.toList ≠ []) (hr : '/' ∉ rest.toList) : IsPiece (name ++ rest) := by
  refine ⟨by simp [h], by simp [hs, hr], fun hdot => ?_⟩
  have hlen : name.toList.length + rest.toList.length = 1 := by
    rw [← List.length_append, ← String.toList_append, hdot]
    rfl
  have hname := List.length_pos_iff.mpr h
  have hlast := List.length_pos_iff.mpr hrest
  omega

theorem append_ema_ne_up (stem : String) : stem ++ ".ema" ≠ ".." := by
  intro h
  have hlen := congrArg (fun s => s.toList.length) h
  simp at hlen

/-- The path of a document without its extension. -/
theorem withoutExtension_relative (hdirs : ∀ n ∈ dirs, IsPiece n) (hne : stem.toList ≠ [])
    (hslash : '/' ∉ stem.toList) :
    (relative (dirs ++ [stem ++ ".ema"])).withoutExtension = relative (dirs ++ [cutStem stem]) := by
  have hname : IsPiece (stem ++ ".ema") := .append hne hslash (by decide) (by decide)
  have hdotted : IsPiece (stem ++ ".") := .append hne hslash (by decide) (by decide)
  have hnotUp := append_ema_ne_up stem
  have hext : (relative (dirs ++ [stem ++ ".ema"])).extension? = some "ema" := by
    have hsplit : splitName (stem ++ ".ema").toList = (stem.toList, some "ema".toList) := by
      have h : (stem ++ ".ema").toList = stem.toList ++ '.' :: "ema".toList := by simp
      rw [h]
      refine splitName_append hne (by decide) fun hup => ?_
      have hlen := congrArg List.length hup
      simp at hlen
    rw [extension?, fileName?_relative hdirs hname, if_neg hnotUp, Option.bind_some, hsplit]
    rfl
  -- The extension goes first, and leaves a dot at the end of the name.
  have htake : (relative (dirs ++ [stem ++ ".ema"])).text.toList.take
      ((relative (dirs ++ [stem ++ ".ema"])).text.length - "ema".length) =
      joined ((dirs ++ [stem ++ "."]).map String.toList) := by
    have htext : (relative (dirs ++ [stem ++ ".ema"])).text.toList =
        joined ((dirs ++ [stem ++ "."]).map String.toList) ++ "ema".toList := by
      rw [relative_toList]
      simpa using joined_concat_append (dirs.map String.toList) (stem ++ ".").toList "ema".toList
    rw [← String.length_toList, htext, ← String.length_toList (s := "ema"), List.length_append,
      Nat.add_sub_cancel, List.take_left]
  rw [withoutExtension, hext]
  dsimp only
  rw [htake]
  change (relative (dirs ++ [stem ++ "."])).cutAfterStem = _
  have hdots : stem ++ "." = ".." ↔ stem = "." := by
    rw [show ".." = "." ++ "." from rfl, String.append_left_inj]
  rw [cutAfterStem, fileName?_relative hdirs hdotted, cutStem]
  by_cases hdot : stem = "."
  · simp [hdot]
  · have hup : stem.toList ++ '.' :: [] ≠ ['.', '.'] := by
      intro h
      exact hdot (String.toList_inj.mp ((List.append_left_inj ['.']).mp h))
    rw [if_neg (mt hdots.mp hdot), if_neg hdot]
    dsimp only
    rw [parts_relative (by simp) (isPiece_of_mem_concat hdirs hdotted), String.toList_append,
      show ".".toList = '.' :: [] from rfl, splitName_append hne (by simp) hup]
    have htrim := trimEnd_concat (dirs.map String.toList) hdotted
    simp only [List.map_append, List.map_singleton]
    rw [htrim]
    simp [relative]

end Relative

theorem head?_relative (name : String) (names : List String) (h : name.toList ≠ []) :
    (relative (name :: names)).text.toList.head? = name.toList.head? := by
  rw [relative_toList]
  obtain ⟨c, cs, hc⟩ := List.exists_cons_of_ne_nil h
  cases names with
  | nil => simp [joined_singleton]
  | cons next names => simp [joined_cons_cons, hc]

theorem isAbsolute_relative {names : List String} (hne : names ≠ []) (h : ∀ n ∈ names, IsPiece n) :
    (relative names).isAbsolute = false := by
  obtain ⟨name, rest, rfl⟩ := List.exists_cons_of_ne_nil hne
  have hname : IsPiece name := h name (by simp)
  apply isAbsolute_of_noSlash
  rw [head?_relative name rest hname.nonempty]
  exact fun hslash => hname.noSlash (List.mem_of_head? hslash)

/-- What is looked up in a directory by the path of names is reached by going down. -/
theorem join_relative (base : Path) {names : List String} (hne : names ≠ [])
    (h : ∀ n ∈ names, IsPiece n) : base.join (relative names) = base.descend names := by
  induction names generalizing base with
  | nil => exact absurd rfl hne
  | cons name names ih =>
    have hname : IsPiece name := h name (by simp)
    cases names with
    | nil =>
      have hone : relative [name] = ⟨name⟩ := by
        simp [relative, ofParts, joined_singleton, Start.text]
      rw [hone]
      rfl
    | cons next names =>
      have hrest : ∀ n ∈ next :: names, IsPiece n := fun n hn => h n (by simp [hn])
      have htext : (relative (name :: next :: names)).text.toList =
          name.toList ++ '/' :: (relative (next :: names)).text.toList := by
        simp [relative_toList, joined_cons_cons]
      rw [descend_cons, ← ih (base.child name) (by simp) hrest]
      apply eq_of_toList
      rw [join_toList base (isAbsolute_relative (by simp) h),
        join_toList (base.child name) (isAbsolute_relative (by simp) hrest),
        if_pos (unended_child base hname), child_toList base hname, htext]
      split <;> simp

end Path

/-- A document below a directory: the directories on the way down to it, and its name without the
extension. -/
structure Document where
  dirs : List String
  stem : String
  dirs_isName : ∀ n ∈ dirs, Path.IsName n
  stem_nonempty : stem.toList ≠ []
  stem_noSlash : '/' ∉ stem.toList

namespace Document

/-- The names on the way down to the document. -/
def names (doc : Document) : List String := doc.dirs ++ [doc.stem ++ ".ema"]

/-- The document's file. -/
def file (doc : Document) (srcDir : Path) : Path := srcDir.descend doc.names

/-- The names on the way down to the document's output directory. -/
def words (doc : Document) : List String :=
  if doc.stem = "index" then doc.dirs else doc.dirs ++ [Path.cutStem doc.stem]

theorem dirs_isPiece (doc : Document) : ∀ n ∈ doc.dirs, Path.IsPiece n :=
  fun n hn => (doc.dirs_isName n hn).isPiece

theorem isPiece_name (doc : Document) : Path.IsPiece (doc.stem ++ ".ema") :=
  .append doc.stem_nonempty doc.stem_noSlash (by decide) (by decide)

theorem isName_name (doc : Document) : Path.IsName (doc.stem ++ ".ema") :=
  doc.isPiece_name.isName (Path.append_ema_ne_up doc.stem)

theorem isPiece_cutStem (doc : Document) : Path.IsPiece (Path.cutStem doc.stem) := by
  unfold Path.cutStem
  split
  · exact Path.isPiece_up
  · next hdot => exact ⟨doc.stem_nonempty, doc.stem_noSlash, hdot⟩

theorem names_isPiece (doc : Document) : ∀ n ∈ doc.names, Path.IsPiece n :=
  Path.isPiece_of_mem_concat doc.dirs_isPiece doc.isPiece_name

theorem words_isPiece (doc : Document) : ∀ n ∈ doc.words, Path.IsPiece n := by
  unfold words
  split
  · exact doc.dirs_isPiece
  · exact Path.isPiece_of_mem_concat doc.dirs_isPiece doc.isPiece_cutStem

/-- The output directory of a document is reached from the root of all output by the words of the
document. -/
theorem outputDir_file (doc : Document) (srcDir outDir : Path) :
    outputDir srcDir outDir (doc.file srcDir) = outDir.descend doc.words := by
  have hrelative : (doc.file srcDir).relativeTo? srcDir = some (Path.relative doc.names) :=
    Path.relativeTo?_descend srcDir (by simp [names]) doc.names_isPiece
  have hstem : (Path.relative doc.names).withoutExtension =
      Path.relative (doc.dirs ++ [Path.cutStem doc.stem]) :=
    Path.withoutExtension_relative doc.dirs_isPiece doc.stem_nonempty doc.stem_noSlash
  have hfile := Path.fileName?_relative doc.dirs_isPiece doc.isPiece_cutStem
  unfold outputDir
  simp only [hrelative, Option.getD_some, hstem, hfile, words]
  by_cases hindex : doc.stem = "index"
  · have hcut : Path.cutStem doc.stem = "index" := by simp [Path.cutStem, hindex]
    have hparent := Path.parent?_relative doc.dirs_isPiece doc.isPiece_cutStem
    have hname : (if "index" = ".." then none else some "index") = some "index" :=
      if_neg (by decide)
    rw [hparent, hcut, if_pos hname, if_pos hindex]
    dsimp only
    have hisPiece := doc.dirs_isPiece
    generalize doc.dirs = above at hisPiece ⊢
    cases above with
    | nil => rfl
    | cons dir dirs =>
      have hdir : dir.toList ≠ [] := (hisPiece dir (by simp)).nonempty
      have hne : (Path.relative (dir :: dirs)).text.isEmpty = false := by
        rw [Bool.eq_false_iff]
        intro hempty
        have hhead := Path.head?_relative dir dirs hdir
        have hnil : (Path.relative (dir :: dirs)).text = "" := by simpa using hempty
        rw [hnil] at hhead
        exact hdir (List.head?_eq_none_iff.mp hhead.symm)
      rw [hne, if_neg Bool.false_ne_true]
      exact Path.join_relative outDir (by simp) hisPiece
  · have hcut : Path.cutStem doc.stem ≠ "index" := by
      unfold Path.cutStem
      split
      · decide
      · exact hindex
    have hname : (if Path.cutStem doc.stem = ".." then none else some (Path.cutStem doc.stem)) ≠
        some "index" := by
      split
      · simp
      · simpa using hcut
    rw [if_neg hname, if_neg hindex]
    exact Path.join_relative outDir (by simp)
      (Path.isPiece_of_mem_concat doc.dirs_isPiece doc.isPiece_cutStem)

end Document

end Folio
