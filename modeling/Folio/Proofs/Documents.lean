import Folio.Proofs.Discovery
import Folio.Proofs.Replay
import Mathlib.Data.List.Nodup

/-! The documents of a project, told by the disk: every file of such a name is found once, in the order
of the paths. So they are the same on a disk that has grown by other files. -/

namespace Folio

namespace Disk

variable {d e : Disk} {place base : Place} {p srcDir file : Path} {names : List String} {name : String}
  {bytes : List UInt8} {fuel : Nat} {above : List Place}

/-- An entry is in a directory under one name. -/
theorem eq_of_mem_names {q : Place}
    (h : (if q.dropLast = place then q.getLast? else none) = some name) : q = place ++ [name] := by
  split at h
  · next hplace =>
    rcases List.eq_nil_or_concat q with rfl | ⟨init, last, rfl⟩
    · cases h
    · simp_all
  · cases h

theorem mem_names : name ∈ d.names place ↔ d.get? (place ++ [name]) ≠ none := by
  unfold names
  rw [List.mem_filterMap]
  constructor
  · rintro ⟨⟨q, entry⟩, hmem, hq⟩ hnone
    rw [← eq_of_mem_names hq] at hnone
    have hne : q ≠ [] := by simp [eq_of_mem_names hq]
    have hlookup : d.entries.entries.lookup q = none := by
      simpa [get?, hne, SortedMap.get?] using hnone
    simpa using List.lookup_eq_none_iff.mp hlookup (q, entry) hmem
  · intro h
    obtain ⟨entry, hentry⟩ := Option.ne_none_iff_exists'.mp h
    exact ⟨_, mem_entries_of_get? hentry (by simp), by simp⟩

theorem nodup_names (d : Disk) (place : Place) : (d.names place).Nodup := by
  unfold names
  refine List.Pairwise.filterMap _ (fun e f hlt n hn m hm => ?_) d.entries.sorted
  rintro rfl
  rw [eq_of_mem_names hn, eq_of_mem_names hm] at hlt
  exact Key.lt_irrefl _ hlt

/-- A file is found from each directory above it. -/
theorem Plain.mem_filesFrom_of_file (hd : d.Plain) (hne : names ≠ []) (hfuel : names.length ≤ fuel)
    (hfile : d.get? (place ++ names) = some (.file bytes)) :
    p.descend names ∈ d.filesFrom fuel above place p := by
  induction names generalizing fuel place p above with
  | nil => exact absurd rfl hne
  | cons name rest ih =>
    obtain ⟨fuel, rfl⟩ := Nat.exists_eq_succ_of_ne_zero (Nat.ne_zero_of_lt hfuel)
    rw [filesFrom, List.mem_flatMap]
    refine ⟨name, ?_⟩
    cases rest with
    | nil => exact ⟨mem_names.mpr (by simp [hfile]), by simp [hfile, Path.descend]⟩
    | cons next rest =>
      have hdir : d.get? (place ++ [name]) = some .dir :=
        hd.dir_above (show d.get? (place ++ [name] ++ next :: rest) ≠ none by simp [hfile])
      refine ⟨mem_names.mpr (by simp [hdir]), ?_⟩
      dsimp only
      rw [hdir]
      exact ih (by simp) (by simpa using hfuel) (by simpa using hfile)

/-- A way down is no longer than the number of entries. -/
theorem Plain.length_le (hd : d.Plain) (hpresent : d.get? (place ++ names) ≠ none) :
    names.length ≤ d.entries.entries.length := by
  let ways := (List.range names.length).map fun n => place ++ names.take (n + 1)
  have hnodup : ways.Nodup := by
    refine List.Nodup.map_on (fun n hn m hm heq => ?_) List.nodup_range
    rw [List.mem_range] at hn hm
    have hlength := congrArg List.length heq
    simp only [List.length_append, List.length_take] at hlength
    omega
  have hsubset : ways ⊆ d.entries.entries.map Prod.fst := by
    intro way hway
    obtain ⟨n, hn, rfl⟩ := List.mem_map.mp hway
    have hne : names.take (n + 1) ≠ [] := by
      have hlt := List.mem_range.mp hn
      rw [List.ne_nil_iff_length_pos, List.length_take]
      omega
    have hthere : d.get? (place ++ names.take (n + 1)) ≠ none := by
      rw [← List.take_append_drop (n + 1) names, ← List.append_assoc] at hpresent
      cases hrest : names.drop (n + 1) with
      | nil => simpa [hrest] using hpresent
      | cons next rest =>
        rw [hrest] at hpresent
        simp [hd.dir_above hpresent]
    obtain ⟨entry, hentry⟩ := Option.ne_none_iff_exists'.mp hthere
    exact List.mem_map.mpr ⟨_, mem_entries_of_get? hentry (by simp [hne]), rfl⟩
  have hlength := List.Nodup.length_le_of_subset hnodup hsubset
  simpa [ways] using hlength

/-- The documents below a directory are all those files below it whose paths are not too long. -/
theorem Plain.mem_documents (hd : d.Plain) (hl : d.locate true srcDir = .ok base)
    (hbase : d.get? base = some .dir) :
    file ∈ documentsAmong (d.filesBelow srcDir) ↔
      isDocument file = true ∧ d.isFile file = true ∧ ∃ names bytes, names ≠ [] ∧
        file = srcDir.descend names ∧ d.get? (base ++ names) = some (.file bytes) := by
  rw [documentsAmong, List.mem_mergeSort, List.mem_filter, filesBelow, entryAt_eq_ok.mpr ⟨hl, hbase⟩]
  dsimp only
  rw [List.mem_filter, and_comm]
  refine and_congr_right fun _ => ?_
  constructor
  · rintro ⟨hmem, hfile⟩
    exact ⟨hfile, hd.mem_filesFrom hmem⟩
  · rintro ⟨hfile, names, bytes, hne, rfl, hcontent⟩
    have hlength := hd.length_le (show d.get? (base ++ names) ≠ none by simp [hcontent])
    refine ⟨hd.mem_filesFrom_of_file hne ?_ hcontent, hfile⟩
    nlinarith

/-- All documents below a directory are reached by names that fit. -/
def DocumentsFit (d : Disk) (base : Place) (srcDir : Path) : Prop :=
  ∀ names bytes, d.get? (base ++ names) = some (.file bytes) →
    isDocument (srcDir.descend names) = true → ∀ n ∈ names, Fits n

theorem WellNamed.documentsFit (h : d.WellNamed) (hd : d.Plain) : d.DocumentsFit base srcDir :=
  fun names bytes hfile _ => h.fits hd (show d.get? (base ++ names) ≠ none by simp [hfile])

theorem DocumentsFit.child (h : d.DocumentsFit place p) (name : String) :
    d.DocumentsFit (place ++ [name]) (p.child name) :=
  fun names bytes hfile hdocument n hn =>
    h (name :: names) bytes (by simpa using hfile) hdocument n (by simp [hn])

theorem descend_injective {names names' : List String} (hnames : ∀ n ∈ names, Path.IsName n)
    (hnames' : ∀ n ∈ names', Path.IsName n)
    (h : (p.descend names).components = (p.descend names').components) : names = names' := by
  rw [Path.components_descend_names p hnames, Path.components_descend_names p hnames'] at h
  exact List.map_injective_iff.mpr (fun _ _ heq => Path.Component.name.inj heq) (List.append_cancel_left h)

/-- The files at or below a name in a directory. -/
def filesAt (d : Disk) (fuel : Nat) (above : List Place) (place : Place) (p : Path) (name : String) :
    List Path :=
  match d.get? (place ++ [name]) with
  | some (.file _) => [p.child name]
  | some .dir => d.filesFrom fuel ((place ++ [name]) :: above) (place ++ [name]) (p.child name)
  | _ => []

theorem Plain.filesFrom_succ (hd : d.Plain) : d.filesFrom (fuel + 1) above place p =
    (d.names place).flatMap (d.filesAt fuel above place p) := by
  rw [filesFrom]
  congr 1
  funext name
  unfold filesAt
  dsimp only
  cases hg : d.get? (place ++ [name]) with
  | none => rfl
  | some entry =>
    cases entry with
    | link target => exact absurd hg (hd.noLink _ _)
    | file bytes => rfl
    | dir => rfl

theorem Plain.mem_filesAt (hd : d.Plain) (h : file ∈ d.filesAt fuel above place p name) :
    ∃ names bytes, file = p.descend (name :: names) ∧
      d.get? (place ++ name :: names) = some (.file bytes) := by
  unfold filesAt at h
  split at h
  · next bytes hg => exact ⟨[], bytes, List.mem_singleton.mp h, hg⟩
  · obtain ⟨names, bytes, -, hfile, hplace⟩ := hd.mem_filesFrom h
    exact ⟨names, bytes, hfile, by simpa using hplace⟩
  · cases h

/-- No document is found twice. -/
theorem Plain.nodup_filesFrom (hd : d.Plain) (h : d.DocumentsFit place p) :
    ((d.filesFrom fuel above place p).filter isDocument).Nodup := by
  induction fuel generalizing above place p with
  | zero => exact List.nodup_nil
  | succ fuel ih =>
    rw [hd.filesFrom_succ, List.filter_flatMap, List.nodup_flatMap]
    refine ⟨fun name _ => ?_, (nodup_names d place).imp fun {name other} hne file hfile hfile' => ?_⟩
    · unfold filesAt
      split
      · exact (List.nodup_singleton _).filter _
      · exact ih (h.child name)
      · exact List.nodup_nil
    · -- The first name that leads to a document tells which branch it is in.
      obtain ⟨hmem, hdocument⟩ := List.mem_filter.mp hfile
      obtain ⟨names, bytes, hpath, hplace⟩ := hd.mem_filesAt hmem
      obtain ⟨names', bytes', hpath', hplace'⟩ := hd.mem_filesAt (List.mem_filter.mp hfile').1
      have hnames := h _ bytes hplace (hpath ▸ hdocument)
      have hnames' := h _ bytes' hplace' (hpath' ▸ hdocument)
      have hsame := descend_injective (fun n hn => (hnames n hn).toIsName)
        (fun n hn => (hnames' n hn).toIsName) (congrArg Path.components (hpath.symm.trans hpath'))
      exact hne (List.cons.inj hsame).1

theorem Plain.nodup_documents (hd : d.Plain) (hl : d.locate true srcDir = .ok base)
    (hbase : d.get? base = some .dir) (h : d.DocumentsFit base srcDir) :
    (documentsAmong (d.filesBelow srcDir)).Nodup := by
  rw [documentsAmong, (List.mergeSort_perm _ _).nodup_iff, filesBelow, entryAt_eq_ok.mpr ⟨hl, hbase⟩]
  exact ((List.filter_sublist).filter _).nodup (hd.nodup_filesFrom h)

end Disk

namespace Path

/-- The texts that a path is ordered by. -/
def ranks (p : Path) : List String := p.components.map Component.rank

theorem le_iff {p q : Path} : p.le q = true ↔ p.ranks ≤ q.ranks := by
  rw [le, Bool.not_eq_true', Bool.eq_false_iff, ne_eq, Key.precedes_iff]
  exact Std.not_lt

theorem rank_injective : Function.Injective Component.rank := by
  intro a b h
  -- The first character tells which kind of component it is.
  have hhead : a.rank.toList.head? = b.rank.toList.head? := by rw [h]
  cases a <;> cases b <;> simp [Component.rank] at hhead h ⊢
  exact h

theorem ranks_inj {p q : Path} (h : p.ranks = q.ranks) : p.components = q.components :=
  List.map_injective_iff.mpr rank_injective h

theorem pairwise_le_mergeSort (files : List Path) :
    (files.mergeSort Path.le).Pairwise fun p q => p.ranks ≤ q.ranks := by
  refine (List.pairwise_mergeSort (fun p q r hpq hqr => ?_) (fun p q => ?_) files).imp le_iff.mp
  · exact le_iff.mpr (Std.le_trans (le_iff.mp hpq) (le_iff.mp hqr))
  · rw [Bool.or_eq_true, le_iff, le_iff]
    exact Std.le_total

end Path

/-- The place of a file that a build writes. -/
def Generated (place : Place) : Prop :=
  IsOutput place ∨ ∃ key, place.getLast? = some (Cache.entryName key)

theorem Generated.last {place : Place} {name : String} (h : Generated place)
    (hlast : place.getLast? = some name) : Path.IsName name ∧
      name.toList.getLast? ≠ some 'a' ∧ name.toList.getLast? ≠ some 'e' := by
  rcases h with ⟨output, hmem, houtput⟩ | ⟨key, hkey⟩
  · obtain rfl := Option.some.inj (hlast.symm.trans houtput)
    have hends : ∀ name ∈ Site.outputNames,
        name.toList.getLast? ≠ some 'a' ∧ name.toList.getLast? ≠ some 'e' := by
      decide
    exact ⟨Site.isName_of_mem_outputNames hmem, hends name hmem⟩
  · have hend := Cache.getLast?_entryName key
    have hname := Cache.isName_entryName key
    rw [← Option.some.inj (hlast.symm.trans hkey)] at hend hname
    simp [hname, hend]

namespace Disk

variable {d e : Disk} {files : Place → Prop} {base : Place} {srcDir file : Path} {names : List String}
  {bytes : List UInt8}

theorem isFile_iff {p : Path} : d.isFile p = true ↔
    ∃ q bytes, d.locate true p = .ok q ∧ d.get? q = some (.file bytes) := by
  unfold isFile
  constructor
  · intro h
    split at h
    · next q bytes hentry => exact ⟨q, bytes, entryAt_eq_ok.mp hentry⟩
    · cases h
  · rintro ⟨q, bytes, hq⟩
    rw [entryAt_eq_ok.mpr hq]

/-- A file that stands below a directory is reached, unless no call takes its path. -/
theorem Plain.isFile_descend (hd : d.Plain) (hlead : d.lead srcDir = .ok base)
    (hbase : d.get? base = some .dir) (hnames : ∀ n ∈ names, Fits n)
    (hfile : d.get? (base ++ names) = some (.file bytes)) :
    d.isFile (srcDir.descend names) = true ↔ refusal? (srcDir.descend names) = none := by
  have hreach : d.lead (srcDir.descend names) = .ok (base ++ names) := by
    rw [lead_descend hlead hbase fun n hn => (hnames n hn).isPiece]
    exact hd.reach_present hnames (by simp [hfile])
  rw [isFile_iff]
  constructor
  · rintro ⟨q, -, hl, -⟩
    exact (hd.locate_iff.mp hl).1
  · exact fun hr => ⟨_, bytes, hd.locate_iff.mpr ⟨hr, hreach⟩, hfile⟩

end Disk

end Folio
