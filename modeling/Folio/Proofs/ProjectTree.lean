import Folio.Proofs.ExactDiscovery
import Folio.Proofs.FreshDirs
import Folio.Proofs.Growth
import Folio.Proofs.OutputRoot

/-! The entries of a project in a directory that was made for it. A file call inside of the project
does what the list of its entries tells, unless no call takes the path at all. -/

namespace Folio

namespace Path

variable {name last : String} {names : List String}

theorem utf8ByteSize_child_of_unended {base : Path}
    (hend : base.text.toList.getLast?.any (· ≠ '/') = true) (h : IsPiece name) :
    (base.child name).text.utf8ByteSize = base.text.utf8ByteSize + (name.utf8ByteSize + 1) := by
  unfold child join
  rw [h.isAbsolute, if_neg Bool.false_ne_true, if_pos hend]
  simp only [String.utf8ByteSize_append]
  exact Nat.add_right_comm _ 1 _

/-- Each name below a directory adds itself and a slash. -/
theorem utf8ByteSize_descend_child (dir : Path) (h : IsPiece last) (hnames : ∀ n ∈ names, IsPiece n) :
    ((dir.child last).descend names).text.utf8ByteSize =
      (dir.child last).text.utf8ByteSize + (names.map fun n => n.utf8ByteSize + 1).sum := by
  induction names generalizing dir last with
  | nil => simp
  | cons name names ih =>
    obtain ⟨hname, hrest⟩ := List.forall_mem_cons.mp hnames
    rw [descend_cons, ih (dir.child last) hname hrest,
      utf8ByteSize_child_of_unended (unended_child dir h) hname, List.map_cons, List.sum_cons,
      Nat.add_assoc]

theorem mem_child_toList (base : Path) (h : IsPiece name) {c : Char} (hc : c ≠ '/') :
    c ∈ (base.child name).text.toList ↔ c ∈ base.text.toList ∨ c ∈ name.toList := by
  rw [child_toList base h]
  split <;> simp [hc]

end Path

namespace Disk

variable {dir : Path} {name last : String} {names : List String}

/-- A call that takes the path of an entry takes that of its directory. -/
theorem takes_of_child (hlast : Path.IsPiece last) (hname : Path.IsPiece name)
    (htakes : Takes ((dir.child last).child name)) : Takes (dir.child last) := by
  refine ⟨fun hzero => htakes.noZero ?_, (Path.EndsIn.child dir hlast).nonempty, ?_⟩
  · exact (Path.mem_child_toList _ hname (by decide)).mpr (.inl hzero)
  · have hsize := Path.utf8ByteSize_child (dir.child last) hname
    have hshort := htakes.short
    omega

theorem noZero_descend (hdir : '\x00' ∉ dir.text.toList) (hpieces : ∀ n ∈ names, Path.IsPiece n)
    (hnames : ∀ n ∈ names, '\x00' ∉ n.toList) : '\x00' ∉ (dir.descend names).text.toList := by
  induction names generalizing dir with
  | nil => exact hdir
  | cons name names ih =>
    obtain ⟨hpiece, hpieces⟩ := List.forall_mem_cons.mp hpieces
    obtain ⟨hname, hnames⟩ := List.forall_mem_cons.mp hnames
    refine ih (fun hzero => ?_) hpieces hnames
    exact ((Path.mem_child_toList dir hpiece (by decide)).mp hzero).elim hdir hname

/-- Below a directory nothing but its length can keep a call from taking a path. -/
theorem takes_descend_child (h : Path.IsPiece last) (htakes : Takes (dir.child last))
    (hpieces : ∀ n ∈ names, Path.IsPiece n) (hnames : ∀ n ∈ names, '\x00' ∉ n.toList) :
    Takes ((dir.child last).descend names) ↔
      ((dir.child last).descend names).text.utf8ByteSize ≤ maxPath := by
  refine ⟨fun htakes => htakes.short, fun hshort => ?_⟩
  refine ⟨noZero_descend htakes.noZero hpieces hnames, fun hempty => ?_, hshort⟩
  have hsize := Path.utf8ByteSize_descend_child dir h hpieces
  have hpos : (dir.child last).text.utf8ByteSize ≠ 0 := by simpa using htakes.nonempty
  have hzero : ((dir.child last).descend names).text.utf8ByteSize = 0 := by simpa using hempty
  omega

end Disk

namespace Scaffold

open Disk (Rooted Extends Fits Gains Fresh Takes refusal?)

variable {d e : Disk} {root : Path} {base : Place} {name : String} {dirs : List String}
  {entry : Entry}

/-- What may be new on a disk after a project was made, or was not: the directories on the way to its
root, and what is in it. -/
structure Confined (root : Path) (d e : Disk) : Prop extends Extends d e where
  rooted : e.Rooted
  inside : ∀ place, d.get? place = none → e.get? place ≠ none →
    (e.get? place = some .dir ∧ ∃ p : Path, p.components <+: root.components ∧
      e.locate true p = .ok place) ∨
    ∃ base, e.locate true root = .ok base ∧ base <+: place

theorem Confined.refl (root : Path) (hd : d.Rooted) : Confined root d d :=
  ⟨.refl d, hd, fun _ hnone hsome => absurd hnone hsome⟩

theorem Confined.of_gains {fuel : Nat} (h : Gains (Path.ancestorsFrom fuel root) d e) :
    Confined root d e := by
  refine ⟨h.toExtends, h.rooted, fun place hnone hsome => .inl ?_⟩
  obtain ⟨hdir, p, hp, hl⟩ := h.made place hnone hsome
  exact ⟨hdir, p, (Path.components_ancestorsFrom hp).1, hl⟩

/-- The entry that is listed under some names. -/
def entryFor (entries : List (List String × Entry)) (names : List String) : Option Entry :=
  (entries.find? fun listed => listed.1 = names).map Prod.snd

@[simp]
theorem entryFor_nil (names : List String) : entryFor [] names = none := rfl

@[simp]
theorem entryFor_cons (listed : List String × Entry) (entries : List (List String × Entry))
    (names : List String) : entryFor (listed :: entries) names =
      if listed.1 = names then some listed.2 else entryFor entries names := by
  unfold entryFor
  rw [List.find?_cons]
  by_cases heq : listed.1 = names <;> simp [heq]

/-- What is listed under other names does not matter. -/
theorem entryFor_append {listed entries : List (List String × Entry)} {names : List String}
    (h : ∀ l ∈ listed, l.1 ≠ names) : entryFor (listed ++ entries) names = entryFor entries names := by
  have hnone : listed.find? (fun l => l.1 = names) = none := by simpa using h
  simp [entryFor, hnone]

/-- A project in a new directory, with the entries that are listed and no others. -/
structure Layout (root : Path) (base : Place) (entries : List (List String × Entry)) (d e : Disk) :
    Prop extends Confined root d e where
  named : ∃ parent last, Path.IsPiece last ∧ root = Path.child parent last
  locate : e.locate true root = .ok base
  dir : e.get? base = some .dir
  missing : d.get? base = none
  below : ∀ names, names ≠ [] → e.get? (base ++ names) = entryFor entries names
  unlinked : ∀ names target, entryFor entries names ≠ some (.link target)

namespace Layout

variable {entries : List (List String × Entry)}

theorem of_fresh {fuel : Nat} (hnamed : ∃ parent last, Path.IsPiece last ∧ root = Path.child parent last)
    (h : Gains (Path.ancestorsFrom fuel root) d e) (hfresh : Fresh d e root base) :
    Layout root base [] d e :=
  ⟨.of_gains h, hnamed, hfresh.locate, hfresh.dir, hfresh.missing, hfresh.empty, by simp [entryFor]⟩

/-- A directory of the project. -/
def IsDirOf (entries : List (List String × Entry)) (dirs : List String) : Prop :=
  dirs = [] ∨ entryFor entries dirs = some .dir

theorem get?_dir (h : Layout root base entries d e) (hdir : IsDirOf entries dirs) :
    e.get? (base ++ dirs) = some .dir := by
  by_cases hnil : dirs = []
  · simpa [hnil] using h.dir
  · rw [h.below dirs hnil]
    exact hdir.resolve_left hnil

/-- An entry is added. -/
theorem put (h : Layout root base entries d e) (hdir : IsDirOf entries dirs)
    (hnone : entryFor entries (dirs ++ [name]) = none) (hlink : ∀ target, entry ≠ .link target) :
    Layout root base ((dirs ++ [name], entry) :: entries) d
      (e.put (base ++ (dirs ++ [name])) entry) := by
  have hparent := h.get?_dir hdir
  have hmissing : e.get? (base ++ (dirs ++ [name])) = none := by rw [h.below _ (by simp), hnone]
  have hne : base ++ (dirs ++ [name]) ≠ [] := by simp
  have hextends : Extends e (e.put (base ++ (dirs ++ [name])) entry) := .put hmissing hlink
  have hrooted : (e.put (base ++ (dirs ++ [name])) entry).Rooted := by
    rw [← List.append_assoc] at hmissing ⊢
    exact h.rooted.put hparent (by rw [hmissing]; simp)
  have hlocate := hextends.locate h.locate
  refine ⟨⟨h.toExtends.trans hextends, hrooted, fun place hnew hsome => ?_⟩, h.named, hlocate,
    hextends.keeps _ _ h.dir, h.missing, fun names hnames => ?_, fun names target => ?_⟩
  · by_cases hplace : place = base ++ (dirs ++ [name])
    · exact .inr ⟨base, hlocate, hplace ▸ List.prefix_append _ _⟩
    · rw [Disk.get?_put hne, if_neg hplace] at hsome
      rcases h.inside place hnew hsome with ⟨hdir, p, hp, hl⟩ | ⟨base', hl, hprefix⟩
      · exact .inl ⟨hextends.keeps _ _ hdir, p, hp, hextends.locate hl⟩
      · exact .inr ⟨base', hextends.locate hl, hprefix⟩
  · rw [Disk.get?_put hne, entryFor_cons]
    by_cases hsame : names = dirs ++ [name]
    · simp [hsame]
    · rw [if_neg (by simpa using hsame), if_neg (Ne.symm hsame), h.below names hnames]
  · rw [entryFor_cons]
    split
    · exact fun heq => hlink target (Option.some.inj heq)
    · exact h.unlinked names target

section Calls

variable (h : Layout root base entries d e) (hdir : IsDirOf entries dirs)
  (hnames : ∀ n ∈ dirs ++ [name], Fits n)

include h hdir hnames

/-- The path to a name in a directory of the project leads there, if a call takes it. -/
theorem locate_inside (followLast : Bool) :
    e.locate followLast (root.descend (dirs ++ [name])) =
      (refusal? (root.descend (dirs ++ [name]))).elim (.ok (base ++ (dirs ++ [name]))) .error := by
  obtain ⟨parent, last, hlast, rfl⟩ := h.named
  have hpieces : ∀ n ∈ dirs ++ [name], Path.IsPiece n := fun n hn => (hnames n hn).isPiece
  rw [Disk.locate_eq_refusal, Disk.startOf_descend e.workDir _ hpieces,
    Disk.steps_descend_child parent hlast hpieces]
  refine congrArg (fun result => Option.elim _ result Except.error) ?_
  obtain ⟨htakes, hf⟩ := Disk.locate_eq_ok.mp h.locate
  cases h.rooted.outcome Disk.maxLinks (Disk.startOf e.workDir (parent.child last).text)
    (Disk.steps_ne_nil htakes.nonempty) with
  | fails error here _ => cases here.symm.trans hf
  | misses above name' _ missing here _ =>
    have hbase := Except.ok.inj (here.symm.trans hf)
    rw [hbase, h.dir] at missing
    cases missing
  | arrives q left _ here longer =>
    obtain rfl := Except.ok.inj (here.symm.trans hf)
    rw [longer followLast (dirs ++ [name]) (by simp)]
    refine h.rooted.follow_inside (h.get?_dir hdir) hnames fun target => ?_
    rw [h.below _ (by simp)]
    exact h.unlinked _ target

theorem locate_of_takes (htakes : Takes (root.descend (dirs ++ [name]))) (followLast : Bool) :
    e.locate followLast (root.descend (dirs ++ [name])) = .ok (base ++ (dirs ++ [name])) := by
  rw [h.locate_inside hdir hnames, Disk.refusal?_eq_none.mpr htakes]
  rfl

/-- What is read is a file that is listed. -/
theorem readBytes_inside {bytes : List UInt8} :
    e.readBytes (root.descend (dirs ++ [name])) = .ok bytes ↔
      Takes (root.descend (dirs ++ [name])) ∧ entryFor entries (dirs ++ [name]) = some (.file bytes) := by
  rw [Disk.readBytes_eq_ok, h.locate_inside hdir hnames, ← Disk.refusal?_eq_none]
  cases Disk.refusal? (root.descend (dirs ++ [name])) with
  | some error => simp
  | none => simp [h.below]

theorem isPresent_inside : e.isPresent (root.descend (dirs ++ [name])) = true ↔
    Takes (root.descend (dirs ++ [name])) ∧ entryFor entries (dirs ++ [name]) ≠ none := by
  rw [Disk.isPresent_iff, h.locate_inside hdir hnames, ← Disk.refusal?_eq_none]
  cases Disk.refusal? (root.descend (dirs ++ [name])) with
  | some error => simp
  | none => simp [h.below]

theorem isDir_inside : e.isDir (root.descend (dirs ++ [name])) = true ↔
    Takes (root.descend (dirs ++ [name])) ∧ entryFor entries (dirs ++ [name]) = some .dir := by
  rw [Disk.isDir_iff, h.locate_inside hdir hnames, ← Disk.refusal?_eq_none]
  cases Disk.refusal? (root.descend (dirs ++ [name])) with
  | some error => simp
  | none => simp [h.below]

/-- A directory that is listed is made already. -/
theorem makeDirs_again (htakes : Takes (root.descend (dirs ++ [name])))
    (hentry : entryFor entries (dirs ++ [name]) = some .dir) :
    e.makeDirs (root.descend (dirs ++ [name])) = (.ok (), e) := by
  have hname : Path.IsPiece name := (hnames name (by simp)).isPiece
  have hlocate := h.locate_of_takes hdir hnames htakes false
  have hisDir := (h.isDir_inside hdir hnames).mpr ⟨htakes, hentry⟩
  have hget : e.get? (base ++ (dirs ++ [name])) = some .dir := by rw [h.below _ (by simp), hentry]
  rw [Path.descend_concat] at hlocate hisDir ⊢
  have hmake : e.makeDir ((root.descend dirs).child name) = .error .alreadyExists := by
    rw [Disk.makeDir_child _ hname hlocate, hget]
    rfl
  obtain ⟨q, hq, -⟩ := Disk.ancestorsFrom_child ((root.descend dirs).child name).text.length
    (root.descend dirs) hname
  rw [Disk.makeDirs, Path.ancestors, hq, Disk.makeFirst_of_error hmake (by simp), if_pos hisDir]

variable (hnone : entryFor entries (dirs ++ [name]) = none)

include hnone

/-- A directory is made at a name that is free, if a call takes its path. -/
theorem makeDir_inside : e.makeDir (root.descend (dirs ++ [name])) =
    (refusal? (root.descend (dirs ++ [name]))).elim
      (.ok (e.put (base ++ (dirs ++ [name])) .dir)) .error := by
  have hname : Path.IsPiece name := (hnames name (by simp)).isPiece
  have hlocate := h.locate_inside hdir hnames false
  rw [Path.descend_concat] at hlocate ⊢
  cases hrefusal : refusal? ((root.descend dirs).child name) with
  | some error =>
    rw [hrefusal] at hlocate
    exact Disk.makeDir_child_of_error _ hname hlocate
  | none =>
    rw [hrefusal] at hlocate
    rw [Disk.makeDir_child _ hname hlocate, h.below _ (by simp), hnone]
    rfl

theorem makeDirs_inside : e.makeDirs (root.descend (dirs ++ [name])) =
    (refusal? (root.descend (dirs ++ [name]))).elim
      (.ok (), e.put (base ++ (dirs ++ [name])) .dir) fun error => (.error error, e) := by
  have hname : Path.IsPiece name := (hnames name (by simp)).isPiece
  have hmake := h.makeDir_inside hdir hnames hnone
  have hlocate := h.locate_inside hdir hnames
  rw [Path.descend_concat] at hmake hlocate ⊢
  cases hrefusal : refusal? ((root.descend dirs).child name) with
  | some error =>
    rw [hrefusal] at hlocate
    exact Disk.makeDirs_of_error _ hname hlocate fun he => Disk.refusal?_child_ne _ hname (he ▸ hrefusal)
  | none =>
    rw [hrefusal] at hmake
    obtain ⟨q, hq, -⟩ := Disk.ancestorsFrom_child ((root.descend dirs).child name).text.length
      (root.descend dirs) hname
    rw [Disk.makeDirs, Path.ancestors, hq]
    exact Disk.makeFirst_of_ok hmake

/-- A file is written at a name that is free, if a call takes its path. -/
theorem writeBytes_inside (bytes : List UInt8) : e.writeBytes (root.descend (dirs ++ [name])) bytes =
    (refusal? (root.descend (dirs ++ [name]))).elim
      (.ok (e.put (base ++ (dirs ++ [name])) (.file bytes))) .error := by
  have hname : Path.IsPiece name := (hnames name (by simp)).isPiece
  have hlocate := h.locate_inside hdir hnames true
  rw [Path.descend_concat] at hlocate ⊢
  rw [Disk.writeBytes_unslashed (Disk.unslashed_child _ hname), hlocate]
  cases refusal? ((root.descend dirs).child name) with
  | some error => rfl
  | none =>
    change (if _ then _ else _ : Except OsError Disk) = _
    rw [if_neg]
    · rfl
    · rw [h.below _ (by simp), hnone]
      simp

end Calls

end Layout

/-- A call that fails without a trace if its path is not taken, and goes on if it is. -/
def Advances (p : Path) (x : ExceptT Error (StateM Disk) Unit) (e : Disk) (next : Disk → Prop) : Prop :=
  (¬Takes p ∧ ∃ error, x.run e = (.error (.write p error), e)) ∨
    Takes p ∧ ∃ e', x.run e = (.ok (), e') ∧ next e'

namespace Advances

variable {p : Path} {x : ExceptT Error (StateM Disk) Unit} {next : Disk → Prop}

theorem taken (h : Advances p x e next) (htakes : Takes p) : ∃ e', x.run e = (.ok (), e') ∧ next e' := by
  rcases h with ⟨hrefused, -⟩ | ⟨-, hruns⟩
  · exact absurd htakes hrefused
  · exact hruns

theorem refused (h : Advances p x e next) (hrefused : ¬Takes p) :
    ∃ error, x.run e = (.error (.write p error), e) := by
  rcases h with ⟨-, hfails⟩ | ⟨htakes, -⟩
  · exact hfails
  · exact absurd htakes hrefused

end Advances

section Steps

variable {entries : List (List String × Entry)} (h : Layout root base entries d e)
  (hdir : Layout.IsDirOf entries dirs) (hnames : ∀ n ∈ dirs ++ [name], Fits n)
  (hnone : entryFor entries (dirs ++ [name]) = none)

include h hdir hnames hnone

theorem Layout.advances_makeDirs :
    Advances (root.descend (dirs ++ [name])) (Site.makeDirs (root.descend (dirs ++ [name]))) e
      (Layout root base ((dirs ++ [name], .dir) :: entries) d) := by
  have hnew := h.put hdir hnone (show ∀ target, Entry.dir ≠ .link target by simp)
  unfold Advances
  rw [Site.makeDirs, FileSystem.orElse_run, FileSystem.makeDirs_eq, h.makeDirs_inside hdir hnames hnone,
    ← Disk.refusal?_eq_none]
  cases refusal? (root.descend (dirs ++ [name])) with
  | some error => exact .inl ⟨by simp, error, rfl⟩
  | none => exact .inr ⟨rfl, _, rfl, hnew⟩

theorem Layout.advances_writeText (text : String) :
    Advances (root.descend (dirs ++ [name])) (Site.writeText (root.descend (dirs ++ [name])) text) e
      (Layout root base ((dirs ++ [name], .file (Text.utf8 text)) :: entries) d) := by
  have hnew := h.put hdir hnone (show ∀ target, Entry.file (Text.utf8 text) ≠ .link target by simp)
  unfold Advances
  rw [Site.writeText, FileSystem.orElse_run, FileSystem.writeBytes_eq, Disk.attempt,
    h.writeBytes_inside hdir hnames hnone, ← Disk.refusal?_eq_none]
  cases refusal? (root.descend (dirs ++ [name])) with
  | some error => exact .inl ⟨by simp, error, rfl⟩
  | none => exact .inr ⟨rfl, _, rfl, hnew⟩

end Steps

end Scaffold

end Folio
