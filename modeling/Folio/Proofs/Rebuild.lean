import Folio.Proofs.SecondBuild

/-! Building a project a second time. Every document gets the report that it got before, and nothing
changes on the disk. -/

namespace Folio

open Disk (Grows Replay Way Fits)
open Cache (ToldApart Kept)

variable {config : Config} {d e : Disk} {inputs : List (String × Options)}

/-- The document of a target. -/
def Target.file : Target → Path
  | build file _ => file
  | conflict file _ _ => file

theorem map_file_assignFrom (config : Config) (owners : List (Path × Path)) (files : List Path) :
    (assignFrom config owners files).map Target.file = files := by
  induction files generalizing owners with
  | nil => rfl
  | cons file files ih =>
    rw [assignFrom]
    split <;> simp [Target.file, ih]

/-- A document that stands on a disk, with a directory that can be reached from the root of all
output. -/
structure Placed (config : Config) (d : Disk) (file dir : Path) : Prop where
  finds : ∃ base names, d.Finds config.srcDir file base names
  reached : ∃ words, Way words ∧ dir = config.outDir.descend words

/-- The output directory of a document is reached, with a step up if its name leads there. -/
theorem Disk.Finds.exists_way {srcDir file : Path} {base : Place} {names : List String}
    (h : d.Finds srcDir file base names) (outDir : Path) :
    ∃ words, Way words ∧ outputDir srcDir outDir file = outDir.descend words := by
  obtain ⟨doc, rfl⟩ := h.exists_document
  have hfile : file = doc.file srcDir := h.file_eq
  refine ⟨doc.words, ?_, by rw [hfile, doc.outputDir_file]⟩
  by_cases hup : doc.LeadsUp
  · rw [Document.words_of_leadsUp hup]
    exact .up fun n hn => h.fits n (by simp [Document.names, hn])
  · exact .down fun n hn => ⟨Document.words_isName hup n hn,
      doc.short_of_mem_words hup (fun n hn => (h.fits n hn).short) n hn⟩

/-- What building some documents touches. -/
def Touched (config : Config) (workDir : Place) (targets : List Target) (place : Place) : Prop :=
  IsOutput place ∨ ∃ t ∈ targets, Shelved config workDir (cacheKey config t.file) place

theorem Touched.generated {workDir place : Place} {targets : List Target}
    (h : Touched config workDir targets place) : Generated place := by
  rcases h with houtput | ⟨t, -, hshelved⟩
  · exact .inl houtput
  · exact hshelved.generated

theorem Touched.cons {workDir place : Place} {targets : List Target}
    (h : Touched config workDir targets place) (target : Target) :
    Touched config workDir (target :: targets) place := by
  rcases h with houtput | ⟨t, ht, hshelved⟩
  · exact .inl houtput
  · exact .inr ⟨t, List.mem_cons_of_mem _ ht, hshelved⟩

theorem buildTargets_cons {cache : Option Cache} {target : Target} {targets : List Target}
    {report : FileReport} {reports : List FileReport} {d' d'' : Disk}
    (h : (buildTarget config cache target : StateM Disk _) d = (.ok report, d'))
    (h' : (buildTargets config cache targets : StateM Disk _) d' = (.ok reports, d'')) :
    (buildTargets config cache (target :: targets) : StateM Disk _) d =
      (.ok (report :: reports), d'') := by
  rw [buildTargets, bind_apply, h, bind_apply, h']
  rfl

/-- No two of these documents have their results kept at one place. -/
def KeptApart (config : Config) (files : List Path) : Prop :=
  files.Pairwise fun file other =>
    Cache.entryName (cacheKey config file) ≠ Cache.entryName (cacheKey config other)

/-- What a row of documents does in the second run: the same reports, and the disk that it left. -/
def BuiltAgain (config : Config) (targets : List Target) (d : Disk) : Prop :=
  ∃ reports final,
    (buildTargets config config.cache? targets : StateM Disk _) d = (.ok reports, final) ∧
    Grows (Touched config d.workDir targets) d final ∧
    ∀ e, Replay final d e → ∃ reports',
      (buildTargets config config.cache? targets : StateM Disk _) e = (.ok reports', final) ∧
      List.Forall₂ FileReport.Again reports reports'

theorem FileReport.Again.refl (report : FileReport) : report.Again report :=
  ⟨rfl, rfl, rfl, rfl, rfl, id⟩

namespace BuiltAgain

variable {targets : List Target} {file dir : Path}

theorem nil (hd : d.Plain) : BuiltAgain config [] d :=
  ⟨[], d, rfl, .refl hd, fun _ h => ⟨[], by rw [h.eq_final]; rfl, .nil⟩⟩

/-- Nothing is done for a document that is left out. -/
theorem conflict (h : BuiltAgain config targets d) (owner : Path) :
    BuiltAgain config (.conflict file dir owner :: targets) d := by
  obtain ⟨reports, final, hrun, hgrows, hagain⟩ := h
  refine ⟨_, final, buildTargets_cons rfl hrun, hgrows.mono fun _ h => h.cons _, fun e h => ?_⟩
  obtain ⟨reports', hrun', hreports⟩ := hagain e h
  exact ⟨_, buildTargets_cons rfl hrun', .cons (.refl _) hreports⟩

/-- A document is built, and the others after it do not touch its kept result. -/
theorem build
    (hfirst : Repeats (Shelved config d.workDir (cacheKey config file)) SameReport
      (buildFile config config.cache? file dir) d)
    (hrest : BuiltAgain config targets
      ((buildFile config config.cache? file dir : StateM Disk _) d).2)
    (hkeys : config.cache = true → ∀ t ∈ targets, Cache.entryName (cacheKey config file) ≠
      Cache.entryName (cacheKey config t.file)) :
    BuiltAgain config (.build file dir :: targets) d := by
  obtain ⟨reports, final, hrun, hgrows, hagain⟩ := hrest
  obtain ⟨_, report, _, hreport, -⟩ := hfirst.exists_answer
  rw [hfirst.grows.workDir] at hgrows
  have hspared : Grows (Elsewhere (Shelved config d.workDir (cacheKey config file)))
      ((buildFile config config.cache? file dir : StateM Disk _) d).2 final := by
    refine hgrows.mono fun place hplace => ⟨hplace.generated, ?_⟩
    rcases hplace with houtput | ⟨t, ht, hon, hentry⟩
    · exact houtput.not_shelved config d.workDir (cacheKey config file)
    · rintro ⟨-, hsame⟩
      have hnames := hentry.symm.trans hsame
      simp only [entryPlace, List.append_cancel_left_eq, List.cons.injEq, true_and, and_true] at hnames
      exact hkeys hon t ht hnames.symm
  refine ⟨_, final, buildTargets_cons (Prod.ext hreport rfl) hrun, .trans (hfirst.grows.mono ?_)
    (hgrows.mono fun _ h => h.cons _), fun e h => ?_⟩
  · intro place hplace
    exact hplace.imp_right fun hshelved => ⟨_, List.mem_cons_self, hshelved⟩
  · obtain ⟨⟨_, report', hreport₁, hreport', hsame⟩, hreplay⟩ := hfirst.again final e hspared h
    obtain rfl := Except.ok.inj (hreport.symm.trans hreport₁)
    obtain ⟨reports', hrun', hreports⟩ := hagain _ hreplay
    exact ⟨_, buildTargets_cons (Prod.ext hreport' rfl) hrun', .cons hsame hreports⟩

end BuiltAgain

theorem Placed.grows {file dir : Path} (h : Placed config d file dir) (hgrows : Grows Generated d e) :
    Placed config e file dir := by
  obtain ⟨base, names, hfinds⟩ := h.finds
  exact ⟨⟨base, names, hfinds.changes hgrows.toChanges fun _ hplace => hplace.harmless⟩, h.reached⟩

/-- Documents that stand on a disk are built the same a second time. -/
theorem builtAgain_of_placed {targets : List Target} (hr : Ready config d)
    (hkept : config.cache = true → Kept (config.shelf.dir.place d.workDir) inputs d)
    (ht : config.cache = true → ToldApart inputs)
    (hplaced : ∀ file dir, .build file dir ∈ targets → Placed config d file dir)
    (hkeys : config.cache = true → KeptApart config (targets.map Target.file))
    (hinputs : ∀ v, .visit v ∈ History.targetMoves config targets d → ∀ source,
      v.source? = some source → (source, v.config.compiler) ∈ inputs) :
    BuiltAgain config targets d := by
  induction targets generalizing d with
  | nil => exact .nil hr.plain
  | cons target targets ih =>
    have hothers : config.cache = true → KeptApart config (targets.map Target.file) :=
      fun hon => (hkeys hon).tail
    cases target with
    | conflict file dir owner =>
      exact .conflict
        (ih hr hkept (fun file dir hmem => hplaced file dir (by simp [hmem])) hothers hinputs) owner
    | build file dir =>
      let v : History.Visit := ⟨config, file, dir, d⟩
      have hsource := hinputs v List.mem_cons_self
      obtain ⟨⟨base, names, hfinds⟩, words, hway, hdir⟩ := hplaced file dir List.mem_cons_self
      have hfirst : Repeats (Shelved config d.workDir (cacheKey config file)) SameReport
          (buildFile config config.cache? file dir) d := by
        rw [hdir]
        refine .buildFile hr hfinds hway hkept ht fun source hread => hsource source ?_
        simp [History.Visit.source?, v, hread, Except.toOption]
      have hgrows := hfirst.generated
      refine .build hfirst (ih (hr.grows hgrows) (fun hon => ?_) ?_ hothers ?_)
        fun hon t ht => List.rel_of_pairwise_cons (hkeys hon) (List.mem_map_of_mem ht)
      · rw [hgrows.workDir]
        exact (hkept hon).built (v := v) hr.plain hsource
      · exact fun file dir hmem => (hplaced file dir (by simp [hmem])).grows hgrows
      · exact fun v hv => hinputs v (List.mem_cons_of_mem _ (List.mem_cons_of_mem _ hv))

theorem Disk.Finds.cacheKey_eq {file : Path} {base : Place} {names : List String}
    (h : d.Finds config.srcDir file base names) :
    cacheKey config file = (Path.relative names).text := by
  have hnames : ∀ n ∈ names, Path.IsPiece n := fun n hn => (h.fits n hn).isPiece
  rw [cacheKey, h.file_eq, Path.relativeTo?_descend config.srcDir h.names_ne hnames, Option.getD_some]

/-- Two documents whose results are kept under one name are the same. -/
theorem Disk.Finds.eq_of_cacheKey {file file' : Path} {base base' : Place} {names names' : List String}
    (h : d.Finds config.srcDir file base names) (h' : d.Finds config.srcDir file' base' names')
    (hkey : cacheKey config file = cacheKey config file') : file = file' := by
  rw [h.cacheKey_eq, h'.cacheKey_eq] at hkey
  have hparts : (Path.relative names).parts = (Path.relative names').parts :=
    congrArg (fun text => (Path.mk text).parts) hkey
  rw [Path.parts_relative h.names_ne fun n hn => (h.fits n hn).isPiece,
    Path.parts_relative h'.names_ne fun n hn => (h'.fits n hn).isPiece] at hparts
  have hnames : names = names' :=
    List.map_injective_iff.mpr (fun _ _ => String.toList_inj.mp) (Path.Parts.mk.inj hparts).2
  rw [h.file_eq, h'.file_eq, hnames]

/-- No two of these names have one digest. -/
def Cache.KeysToldApart (keys : List String) : Prop :=
  ∀ key ∈ keys, ∀ key' ∈ keys,
    Digest.sha256 (Text.utf8 key) = Digest.sha256 (Text.utf8 key') → key = key'

theorem keptApart_documents (hd : d.Plain) (hnamed : d.WellNamed) (hdir : d.isDir config.srcDir = true)
    (h : Cache.KeysToldApart
      ((documentsAmong (d.filesBelow config.srcDir)).map (cacheKey config))) :
    KeptApart config (documentsAmong (d.filesBelow config.srcDir)) := by
  obtain ⟨base, hl, hbase⟩ := Disk.isDir_iff.mp hdir
  refine (hd.nodup_documents hl hbase (hnamed.documentsFit hd)).imp_of_mem ?_
  intro file other hfile hother hne hname
  obtain ⟨_, _, hfinds⟩ := Disk.exists_finds hd hnamed hdir hfile
  obtain ⟨_, _, hfinds'⟩ := Disk.exists_finds hd hnamed hdir hother
  have hdigest : Digest.sha256 (Text.utf8 (cacheKey config file)) =
      Digest.sha256 (Text.utf8 (cacheKey config other)) := by
    simpa [Cache.entryName] using hname
  exact hne (hfinds.eq_of_cacheKey hfinds'
    (h _ (List.mem_map_of_mem hfile) _ (List.mem_map_of_mem hother) hdigest))

namespace Prepared

variable {start after : Disk}

section Again

variable {middle : Disk} {files : Place → Prop} (hstart : start.Plain)
  (h : (Site.prepareAssets config.outDir : ExceptT Error (StateM Disk) Unit).run start =
    (.ok (), middle))

include hstart h

/-- The directories are there already when the project is built again. -/
theorem assets_again (hgrows : Grows files middle after) :
    (Site.prepareAssets config.outDir : ExceptT Error (StateM Disk) Unit).run after =
      (.ok (), after) := by
  obtain ⟨first, hcss, hjs⟩ := prepareAssets_eq_ok.mp h
  have hfirst := (changes_makeDirs hstart hcss).plain
  have hlater : Grows files first after := .trans (.of_changes (changes_makeDirs hfirst hjs)) hgrows
  have hcss' := hlater.makeDirs_again hstart config.outDir (show Path.IsName "css" by decide).isPiece hcss
  have hjs' := hgrows.makeDirs_again hfirst config.outDir (show Path.IsName "js" by decide).isPiece hjs
  exact prepareAssets_eq_ok.mpr ⟨after, hcss', hjs'⟩

/-- The directory of kept results is there, or it cannot be made this time either. -/
theorem create_again
    (hgrows : Grows files ((Cache.create config.outDir : StateM Disk Cache) middle).2 after) :
    ((Cache.create config.outDir : StateM Disk Cache) after).2 = after := by
  obtain ⟨first, hcss, hjs⟩ := prepareAssets_eq_ok.mp h
  have hfirst := (changes_makeDirs hstart hcss).plain
  have hmiddle := (changes_makeDirs hfirst hjs).plain
  obtain ⟨hlead, hdir, htaken⟩ := lead_of_made (by decide) hfirst hjs
  have hlater : Grows files middle after :=
    .trans (.of_changes (changes_create hmiddle config.outDir)) hgrows
  rw [create_snd] at hgrows ⊢
  split at hgrows
  · next hpresent => rw [if_pos (hlater.isPresent hmiddle hpresent)]
  · have hway : Way [Cache.dirName] := .down (by simpa using Cache.fits_dirName)
    have hmake : (after.makeDirs (config.outDir.child Cache.dirName)).2 = after := by
      rcases hmiddle.makeDirs_or_fails hlead hdir htaken hway with ⟨made, hmade⟩ | ⟨error, hfails⟩
      · have hchild : middle.makeDirs (config.outDir.child Cache.dirName) = (.ok (), made) := hmade
        rw [hchild] at hgrows
        exact congrArg Prod.snd
          (hgrows.makeDirs_again hmiddle config.outDir Cache.fits_dirName.isPiece hchild)
      · exact congrArg Prod.snd (hfails files after hlater)
    rw [hmake, ite_self]

end Again

/-- A project that was built is prepared to be built again. -/
theorem again (hstart : start.Plain) (h : Prepared config start d) {files : Place → Prop}
    (hgrows : Grows files d after) : Prepared config after after := by
  have hall : Grows files start after := .trans (.of_changes (h.changes hstart)) hgrows
  obtain ⟨hdir, middle, hassets, rfl⟩ := h
  obtain ⟨first, hcss, hjs⟩ := prepareAssets_eq_ok.mp hassets
  have hmiddle := (changes_makeDirs (changes_makeDirs hstart hcss).plain hjs).plain
  refine ⟨hall.isDir hstart hdir, after, ?_⟩
  split at hgrows
  · next hon =>
    rw [if_pos hon]
    exact ⟨assets_again hstart hassets (.trans (.of_changes (changes_create hmiddle _)) hgrows),
      (create_again hstart hassets hgrows).symm⟩
  · next hoff =>
    rw [if_neg hoff]
    exact ⟨assets_again hstart hassets hgrows, rfl⟩

theorem run_buildProject (h : Prepared config start d) :
    (buildProject config : ExceptT Error (StateM Disk) Report).run start =
      let built := (buildTargets config config.cache?
        (assign config (documentsAmong (start.filesBelow config.srcDir))) : StateM Disk _) d
      ((built.1.mapError .time).map fun reports => { files := reports, elapsedMs := 0 }, built.2) := by
  obtain ⟨hdir, middle, hassets, rfl⟩ := h
  rw [History.run_buildProject, if_pos hdir, hassets]

theorem buildMoves (h : Prepared config start d) :
    History.buildMoves config start = .other start d :: History.targetMoves config
      (assign config (documentsAmong (start.filesBelow config.srcDir))) d := by
  obtain ⟨hdir, middle, hassets, rfl⟩ := h
  rw [History.buildMoves, if_pos hdir, hassets]

theorem placed {file dir : Path} (hstart : start.Plain) (hnamed : start.WellNamed)
    (h : Prepared config start d)
    (hmem : .build file dir ∈ assign config (documentsAmong (start.filesBelow config.srcDir))) :
    Placed config d file dir := by
  obtain ⟨hfile, hdir, -⟩ := mem_assignFrom hmem
  obtain ⟨base, names, hfinds⟩ := Disk.exists_finds hstart hnamed h.1 hfile
  exact ⟨⟨base, names, hfinds.changes (h.changes hstart) (by simp)⟩,
    hdir ▸ hfinds.exists_way config.outDir⟩

end Prepared

theorem exists_prepared {start after : Disk} {report : Report}
    (h : (buildProject config : ExceptT Error (StateM Disk) Report).run start = (.ok report, after)) :
    ∃ d, Prepared config start d := by
  rw [History.run_buildProject] at h
  split at h
  · next hdir =>
    cases hassets : (Site.prepareAssets config.outDir : ExceptT Error (StateM Disk) Unit).run start with
    | mk result middle =>
      cases result with
      | error e =>
        rw [hassets] at h
        cases h
      | ok _ => exact ⟨_, hdir, middle, hassets, rfl⟩
  · cases h

/-- Every document of a project that is prepared is built the same a second time. -/
theorem Prepared.builtAgain {start : Disk} (hstart : start.Plain) (hnamed : start.WellNamed)
    (h : Prepared config start d)
    (hkept : config.cache = true → Kept (config.shelf.dir.place start.workDir) inputs start)
    (ht : config.cache = true → ToldApart inputs)
    (hsub : History.inputs [.build config] start ⊆ inputs)
    (hkeys : config.cache = true → Cache.KeysToldApart
      ((documentsAmong (start.filesBelow config.srcDir)).map (cacheKey config))) :
    BuiltAgain config (assign config (documentsAmong (start.filesBelow config.srcDir))) d := by
  have hchanges := h.changes hstart
  refine builtAgain_of_placed (h.ready hstart) (fun hon => ?_) ht
    (fun file dir hmem => h.placed hstart hnamed hmem) (fun hon => ?_) fun v hv source hs => ?_
  · rw [hchanges.workDir]
    exact fun key bytes hfile => hkept hon key bytes (hchanges.of_file (fun h => h) hfile)
  · rw [assign, map_file_assignFrom]
    exact keptApart_documents hstart hnamed h.1 (hkeys hon)
  · have hvisit : v ∈ History.visits [.build config] start :=
      History.mem_visits.mpr (by simp [History.moves, History.Event.moves, h.buildMoves, hv])
    exact hsub (History.mem_inputs hvisit hs)

section Sample

end Sample

end Folio
