import Folio.Proofs.Rebuild

/-! Who owns an output directory. The first document of the list that wants a directory is built into
it, and every later one with the same directory is left out of the build and reported as failed. -/

namespace Folio

variable {config : Config} {files : List Path}

/-- The directory that a document is to be built into. -/
def Config.dirOf (config : Config) (file : Path) : Path := outputDir config.srcDir config.outDir file

/-- The first of some documents that wants a directory. -/
def ownerAmong (config : Config) (files : List Path) (dir : Path) : Option Path :=
  files.find? fun file => (config.dirOf file).same dir

theorem ownerAmong_eq_none {dir : Path} : ownerAmong config files dir = none ↔
    ∀ file ∈ files, (config.dirOf file).components ≠ dir.components := by
  simp [ownerAmong, Path.same]

/-- What is done with a document that comes after others. -/
def targetAfter (config : Config) (earlier : List Path) (file : Path) : Target :=
  match ownerAmong config earlier (config.dirOf file) with
  | none => .build file (config.dirOf file)
  | some owner => .conflict file (config.dirOf file) owner

/-- The owners of directories are the first documents among those that were seen. -/
def Tracks (config : Config) (owners : List (Path × Path)) (seen : List Path) : Prop :=
  ∀ dir, (owners.find? fun owner => owner.1.same dir).map Prod.snd = ownerAmong config seen dir

namespace Tracks

variable {owners : List (Path × Path)} {seen : List Path} {file : Path}

theorem nil (config : Config) : Tracks config [] [] := fun _ => rfl

theorem ownerAmong_concat (seen : List Path) (file dir : Path) :
    ownerAmong config (seen ++ [file]) dir = (ownerAmong config seen dir).or
      (if (config.dirOf file).same dir then some file else none) := by
  rw [ownerAmong, List.find?_append, List.find?_cons]
  cases (config.dirOf file).same dir <;> simp [ownerAmong]

/-- A spelling of a directory makes no difference to who owns it. -/
theorem find?_congr {dir dir' : Path} (h : dir.same dir') :
    (owners.find? fun owner => owner.1.same dir) = owners.find? fun owner => owner.1.same dir' := by
  simp only [Path.same, beq_iff_eq] at h
  simp only [Path.same, h]

/-- A document whose directory is taken changes nothing about the owners. -/
theorem skip (h : Tracks config owners seen) {owner : Path × Path}
    (hfind : (owners.find? fun owner => owner.1.same (config.dirOf file)) = some owner) :
    Tracks config owners (seen ++ [file]) := by
  intro dir
  rw [ownerAmong_concat, ← h dir]
  split
  · next hsame => simp [← find?_congr hsame, hfind]
  · simp

/-- A document whose directory nobody has becomes the owner of it. -/
theorem claim (h : Tracks config owners seen)
    (hfind : (owners.find? fun owner => owner.1.same (config.dirOf file)) = none) :
    Tracks config ((config.dirOf file, file) :: owners) (seen ++ [file]) := by
  intro dir
  rw [ownerAmong_concat, ← h dir, List.find?_cons]
  cases hsame : (config.dirOf file).same dir with
  | true => simp [← find?_congr hsame, hfind]
  | false => simp

/-- Each document is treated as the documents before it in the list demand. -/
theorem getElem?_assignFrom (h : Tracks config owners seen) (i : Nat) :
    (assignFrom config owners files)[i]? =
      files[i]?.map (targetAfter config (seen ++ files.take i)) := by
  induction files generalizing owners seen i with
  | nil => rfl
  | cons file files ih =>
    have howner := h (config.dirOf file)
    rw [assignFrom, ← Config.dirOf]
    cases hfind : owners.find? fun owner => owner.1.same (config.dirOf file) with
    | some owner =>
      have htarget : targetAfter config seen file = .conflict file (config.dirOf file) owner.2 := by
        rw [targetAfter, ← howner, hfind, Option.map_some]
      cases i with
      | zero => simp [htarget]
      | succ i => simpa using ih (h.skip hfind) i
    | none =>
      have htarget : targetAfter config seen file = .build file (config.dirOf file) := by
        rw [targetAfter, ← howner, hfind, Option.map_none]
      cases i with
      | zero => simp [htarget]
      | succ i => simpa using ih (h.claim hfind) i

end Tracks

theorem getElem?_assign (config : Config) (files : List Path) (i : Nat) :
    (assign config files)[i]? = files[i]?.map (targetAfter config (files.take i)) :=
  (Tracks.nil config).getElem?_assignFrom i

/-- The document at a position is the first one of the list that wants a directory. -/
structure FirstWith (config : Config) (files : List Path) (dir : Path) (k : Nat) (owner : Path) :
    Prop where
  at_position : files[k]? = some owner
  same : (config.dirOf owner).components = dir.components
  first : ∀ j < k, ∀ other, files[j]? = some other →
    (config.dirOf other).components ≠ dir.components

/-- The first document with a directory is built. -/
theorem FirstWith.build {dir owner : Path} {k : Nat} (h : FirstWith config files dir k owner) :
    (assign config files)[k]? = some (.build owner (config.dirOf owner)) := by
  have hnone : ownerAmong config (files.take k) (config.dirOf owner) = none := by
    refine ownerAmong_eq_none.mpr fun other hother => ?_
    obtain ⟨j, hj⟩ := List.mem_iff_getElem?.mp hother
    rw [h.same]
    by_cases hlt : j < k
    · exact h.first j hlt other (by rwa [List.getElem?_take_of_lt hlt] at hj)
    · rw [List.getElem?_take_eq_none (Nat.le_of_not_lt hlt)] at hj
      cases hj
  rw [getElem?_assign, h.at_position]
  simp [targetAfter, hnone]

/-- A document that comes after another one with its directory is left out, and the first one with that
directory owns it. -/
theorem conflict_of_earlier {file other : Path} {i j : Nat} (hi : files[i]? = some file) (hj : j < i)
    (hother : files[j]? = some other)
    (hsame : (config.dirOf other).components = (config.dirOf file).components) :
    ∃ k < i, ∃ owner, FirstWith config files (config.dirOf file) k owner ∧
      (assign config files)[i]? = some (.conflict file (config.dirOf file) owner) := by
  cases hfind : ownerAmong config (files.take i) (config.dirOf file) with
  | none =>
    have hmem : other ∈ files.take i :=
      List.mem_iff_getElem?.mpr ⟨j, (List.getElem?_take_of_lt hj).trans hother⟩
    exact absurd hsame (ownerAmong_eq_none.mp hfind other hmem)
  | some owner =>
    obtain ⟨hdir, k, hk, hget, hfirst⟩ := List.find?_eq_some_iff_getElem.mp hfind
    have hki : k < i := Nat.lt_of_lt_of_le hk (List.length_take_le i files)
    refine ⟨k, hki, owner, ⟨?_, by simpa [Path.same] using hdir, fun l hl named hnamed => ?_⟩, ?_⟩
    · rw [← hget, List.getElem_take]
      exact List.getElem?_eq_getElem _
    · have hne := hfirst l hl
      obtain ⟨_, hget'⟩ := List.getElem?_eq_some_iff.mp hnamed
      rw [List.getElem_take, hget'] at hne
      simpa [Path.same] using hne
    · rw [getElem?_assign, hi]
      simp [targetAfter, hfind]

/-- A document is built exactly if none before it has the same directory. -/
theorem build_iff {file : Path} {i : Nat} (hi : files[i]? = some file) :
    (assign config files)[i]? = some (.build file (config.dirOf file)) ↔
      ∀ j < i, ∀ other, files[j]? = some other →
        (config.dirOf other).components ≠ (config.dirOf file).components := by
  constructor
  · intro hbuild j hj other hother hsame
    obtain ⟨k, -, owner, -, hconflict⟩ := conflict_of_earlier hi hj hother hsame
    cases hbuild.symm.trans hconflict
  · exact fun hfirst => FirstWith.build ⟨hi, rfl, hfirst⟩

section Reports

/-- Whether a document is built. -/
def Target.isBuild : Target → Bool
  | build _ _ => true
  | conflict _ _ _ => false

/-- All reports in order: those of the documents that were built, and between them those of the
documents that were left out. -/
def weave : List Target → List FileReport → List FileReport
  | .conflict file outDir owner :: targets, built =>
    conflictReport file outDir owner :: weave targets built
  | .build _ _ :: targets, report :: built => report :: weave targets built
  | _, _ => []

/-- A build is that of the documents that own their directory. Nothing is done for the others. -/
theorem buildTargets_weave {m : Type → Type} [Monad m] [LawfulMonad m] [FileSystem m] (config : Config)
    (cache : Option Cache) (targets : List Target) :
    (buildTargets config cache targets : m _) = (fun built => built.map (weave targets)) <$>
      (buildTargets config cache (targets.filter Target.isBuild) : m _) := by
  induction targets with
  | nil => simp [buildTargets, weave, Except.map]
  | cons target targets ih =>
    rw [buildTargets, ih]
    cases target with
    | conflict file dir owner =>
      rw [List.filter_cons_of_neg (by simp [Target.isBuild])]
      simp only [buildTarget, pure_bind, map_eq_pure_bind, bind_assoc]
      congr 1
      funext built
      cases built <;> rfl
    | build file dir =>
      rw [List.filter_cons_of_pos rfl, buildTargets]
      simp only [map_eq_pure_bind, bind_assoc, pure_bind]
      congr 1
      funext first
      congr 1
      funext built
      cases first <;> cases built <;> rfl

/-- What a report says of its document. -/
def Target.ReportedBy : Target → FileReport → Prop
  | build file outDir, report => report.source = file ∧ report.outDir = outDir
  | conflict file outDir owner, report => report = conflictReport file outDir owner

theorem Target.ReportedBy.source_eq {t : Target} {report : FileReport} (h : t.ReportedBy report) :
    report.source = t.file := by
  cases t with
  | build file dir => exact h.1
  | conflict file dir owner => rw [show report = _ from h]; rfl

theorem reportedBy_deliver {file dir : Path} {result : Result} {cached : Bool} {report : FileReport}
    {d : Disk} (h : (deliver file dir result cached d).1 = .ok report) :
    (Target.build file dir).ReportedBy report := by
  cases hsuccess : result.success with
  | true =>
    rw [deliver_eq file dir cached hsuccess] at h
    cases Except.ok.inj h
    generalize ((Site.writeOutputs dir result.output : ExceptT Error (StateM Disk) _).run d).1 = written
    cases written <;> exact ⟨rfl, rfl⟩
  | false =>
    simp only [deliver, hsuccess, Bool.false_eq_true, if_false] at h
    cases Except.ok.inj h
    exact ⟨rfl, rfl⟩

/-- The report of a document that was built is about it. -/
theorem reportedBy_buildFile {cache : Option Cache} {file dir : Path} {report : FileReport} {d : Disk}
    (h : ((buildFile config cache file dir : StateM Disk _) d).1 = .ok report) :
    (Target.build file dir).ReportedBy report := by
  unfold buildFile at h
  rw [bind_apply, FileSystem.readText_eq] at h
  cases hread : d.readText file with
  | error fault =>
    rw [hread] at h
    cases Except.ok.inj h
    exact ⟨rfl, rfl⟩
  | ok source =>
    rw [hread] at h
    dsimp only at h
    rw [bind_apply] at h
    generalize (resultFor config cache (cacheKey config file) source : StateM Disk _) d = kept at h
    obtain ⟨_ | ⟨result, cached⟩, d'⟩ := kept
    · cases h
    · exact reportedBy_deliver (d := d') h

/-- There is one report for each document, in the same order. -/
theorem forall₂_reportedBy {cache : Option Cache} {targets : List Target} {reports : List FileReport}
    {d : Disk} (h : ((buildTargets config cache targets : StateM Disk _) d).1 = .ok reports) :
    List.Forall₂ Target.ReportedBy targets reports := by
  induction targets generalizing reports d with
  | nil =>
    cases Except.ok.inj h
    exact .nil
  | cons target targets ih =>
    rw [buildTargets, bind_apply] at h
    cases hfirst : (buildTarget config cache target : StateM Disk _) d with
    | mk first middle =>
      rw [hfirst, bind_apply] at h
      cases hrest : (buildTargets config cache targets : StateM Disk _) middle with
      | mk rest after =>
        rw [hrest] at h
        obtain _ | report := first
        · cases h
        · obtain _ | reports' := rest
          · cases h
          · cases Except.ok.inj h
            refine .cons ?_ (ih (by rw [hrest]))
            cases target with
            | build file dir => exact reportedBy_buildFile (congrArg Prod.fst hfirst)
            | conflict file dir owner =>
              exact (Except.ok.inj (congrArg Prod.fst hfirst)).symm

/-- What a project's report says, and what was done for it. -/
structure ReportsOwners (config : Config) (found : List Path) (start after : Disk) (report : Report) :
    Prop where
  /-- There is a report for each document, in order. -/
  sources : report.files.map FileReport.source = found
  /-- A document that is left out has failed and was not looked up. -/
  conflicts : ∀ (i : Nat) (file dir owner : Path),
    (assign config found)[i]? = some (.conflict file dir owner) →
    ∃ entry, report.files[i]? = some entry ∧ entry.source = file ∧ entry.success = false ∧
      entry.cached = false ∧
      entry.errors = ["output directory " ++ dir.text ++ " is already used by " ++ owner.text]
  /-- The disk and the other reports are those of a build without the documents that are left out. -/
  others : ∃ ready built, Prepared config start ready ∧
    (buildTargets config config.cache? ((assign config found).filter Target.isBuild) :
      StateM Disk _) ready = (.ok built, after) ∧
    report.files = weave (assign config found) built

theorem reportsOwners_of_build {d d' : Disk} {report : Report}
    (h : (buildProject config : ExceptT Error (StateM Disk) Report).run d = (.ok report, d')) :
    ReportsOwners config (documentsAmong (d.filesBelow config.srcDir)) d d' report := by
  obtain ⟨ready, hprepared⟩ := exists_prepared h
  rw [hprepared.run_buildProject] at h
  generalize documentsAmong (d.filesBelow config.srcDir) = found at h ⊢
  cases hrun : (buildTargets config config.cache? (assign config found) : StateM Disk _) ready with
  | mk result after =>
    rw [hrun] at h
    obtain _ | reports := result
    · cases h
    · obtain ⟨hreport, rfl⟩ := Prod.mk.inj h
      cases Except.ok.inj hreport
      have hreported := forall₂_reportedBy (congrArg Prod.fst hrun)
      refine ⟨?_, fun i file dir owner hi => ?_, ?_⟩
      · have hsources : List.Forall₂ (· = ·) ((assign config found).map Target.file)
            (reports.map FileReport.source) := by
          rw [List.forall₂_map_left_iff, List.forall₂_map_right_iff]
          exact hreported.imp fun _ _ h => h.source_eq.symm
        rw [List.forall₂_eq_eq_eq] at hsources
        rw [← hsources, assign, map_file_assignFrom]
      · obtain ⟨hlt, htarget⟩ := List.getElem?_eq_some_iff.mp hi
        have hlt' : i < reports.length := hreported.length_eq ▸ hlt
        have hreport : (assign config found)[i].ReportedBy reports[i] := hreported.get hlt hlt'
        rw [htarget] at hreport
        rw [List.getElem?_eq_getElem hlt', show reports[i] = _ from hreport]
        exact ⟨_, rfl, rfl, rfl, rfl, rfl⟩
      · rw [buildTargets_weave] at hrun
        obtain ⟨hwoven, hafter⟩ := Prod.mk.inj hrun
        cases hbuilt : ((buildTargets config config.cache?
            ((assign config found).filter Target.isBuild) : StateM Disk _) ready).1 with
        | error fault =>
          rw [hbuilt] at hwoven
          cases hwoven
        | ok built =>
          rw [hbuilt] at hwoven
          exact ⟨ready, built, hprepared, Prod.ext hbuilt hafter, (Except.ok.inj hwoven).symm⟩

end Reports

/-- Of the documents that want one directory the first is built, and all others are left out with that
one as the owner. So no two documents are built into the same directory. A build reports on all the
documents that it found, in order. Those that are left out have failed, and nothing is looked up,
compiled or written for them. -/
theorem first_document_owns_dir (config : Config) (files : List Path) :
    (assign config files).map Target.file = files ∧
    (∀ (i : Nat) (file : Path), files[i]? = some file →
      ((assign config files)[i]? = some (.build file (config.dirOf file)) ↔
        ∀ j < i, ∀ other, files[j]? = some other →
          (config.dirOf other).components ≠ (config.dirOf file).components) ∧
      ((∃ j < i, ∃ other, files[j]? = some other ∧
          (config.dirOf other).components = (config.dirOf file).components) →
        ∃ k < i, ∃ owner, FirstWith config files (config.dirOf file) k owner ∧
          (assign config files)[i]? = some (.conflict file (config.dirOf file) owner) ∧
          (assign config files)[k]? = some (.build owner (config.dirOf owner)))) ∧
    (∀ (i j : Nat) (file other dir dir' : Path), i ≠ j →
      (assign config files)[i]? = some (.build file dir) →
      (assign config files)[j]? = some (.build other dir') → dir.components ≠ dir'.components) ∧
    ∀ (d d' : Disk) (report : Report),
      (buildProject config : ExceptT Error (StateM Disk) Report).run d = (.ok report, d') →
      ReportsOwners config (documentsAmong (d.filesBelow config.srcDir)) d d' report := by
  refine ⟨map_file_assignFrom config [] files, fun i file hi => ⟨build_iff hi, ?_⟩,
    fun i j file other dir dir' hij hi hj => components_ne_of_assign hij hi hj,
    fun d d' report => reportsOwners_of_build⟩
  rintro ⟨j, hj, other, hother, hsame⟩
  obtain ⟨k, hk, owner, hfirst, hconflict⟩ := conflict_of_earlier hi hj hother hsame
  exact ⟨k, hk, owner, hfirst, hconflict, hfirst.build⟩

/-- Of the three documents of the sample the second is left out. -/
theorem first_document_owns_dir_sample :
    ∃ report after, (buildProject (sampleTrioConfig false) :
        ExceptT Error (StateM Disk) Report).run sampleTrio = (.ok report, after) ∧
      report.files.map FileReport.source = [⟨"s/a/index.ema"⟩, ⟨"s/a.ema"⟩, ⟨"s/b.ema"⟩] ∧
      ∃ entry, report.files[1]? = some entry ∧ entry.success = false ∧
        entry.errors = ["output directory o/a is already used by s/a/index.ema"] := by
  have hoff : (sampleTrioConfig false).cache = true → False := by decide
  obtain ⟨reports, final, hrun, -⟩ := (sampleTrio_prepared false).builtAgain sampleTrio_plain
    sampleTrio_wellNamed (fun h => (hoff h).elim) (fun h => (hoff h).elim) (List.Subset.refl _)
    (fun h => (hoff h).elim)
  have hbuild : (buildProject (sampleTrioConfig false) : ExceptT Error (StateM Disk) Report).run
      sampleTrio = (.ok { files := reports, elapsedMs := 0 }, final) := by
    rw [(sampleTrio_prepared false).run_buildProject, hrun]
    rfl
  have howners := (first_document_owns_dir (sampleTrioConfig false)
    [⟨"s/a/index.ema"⟩, ⟨"s/a.ema"⟩, ⟨"s/b.ema"⟩]).2.2.2 _ _ _ hbuild
  have htarget : (assign (sampleTrioConfig false)
      (documentsAmong (sampleTrio.filesBelow (sampleTrioConfig false).srcDir)))[1]? =
      some (.conflict ⟨"s/a.ema"⟩ ⟨"o/a"⟩ ⟨"s/a/index.ema"⟩) := by
    rw [sampleTrio_assign]
    rfl
  obtain ⟨entry, hentry, -, hfailed, -, herrors⟩ := howners.conflicts 1 _ _ _ htarget
  refine ⟨_, final, hbuild, howners.sources.trans ?_, entry, hentry, hfailed, herrors.trans rfl⟩
  rw [sampleTrioConfig, sampleTrio_documents]

end Folio
