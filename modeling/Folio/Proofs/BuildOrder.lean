import Folio.Proofs.Independence
import Folio.Proofs.Merging
import Folio.Proofs.OutputClash

/-! Documents are built in any order. Those that are not in each other's way give the same reports as if
each was built alone, and leave the same disk. -/

namespace Folio

open Disk (Fits)

namespace Path

theorem foldl_move_names (place : Place) (names : List String) :
    (names.map Component.name).foldl Component.move place = place ++ names := by
  induction names generalizing place with
  | nil => simp
  | cons name names ih => simp [ih, Component.move]

/-- Below one path, places tell which path is above which. -/
theorem IsBelow.components_isPrefix {base p q : Path} {workDir : Place} (hp : base.IsBelow p)
    (hq : base.IsBelow q) (h : p.place workDir <+: q.place workDir) : p.components <+: q.components := by
  obtain ⟨ps, -, hps⟩ := hp
  obtain ⟨qs, -, hqs⟩ := hq
  rw [Path.place, Path.place, hps, hqs, List.foldl_append, List.foldl_append, foldl_move_names, foldl_move_names,
    List.prefix_append_right_inj] at h
  rw [hps, hqs, List.prefix_append_right_inj]
  exact h.map _

theorem isBelow_descend (base : Path) {names : List String} (h : ∀ n ∈ names, IsName n) :
    base.IsBelow (base.descend names) := ⟨names, h, components_descend_names base h⟩

end Path

namespace Target

/-- The files that building a document writes or removes. -/
def files (config : Config) : Target → List Path
  | build file dir => (Site.Paths.inside dir).all ++
      (config.cache?.map (·.entryPath (cacheKey config file))).toList
  | conflict .. => []

/-- The paths that building a document needs for itself. -/
def needs (config : Config) : Target → List Path
  | build file dir => dir :: files config (build file dir)
  | conflict .. => []

/-- Whether a file of one document is in the way of the other one. -/
def Clash (config : Config) (t u : Target) : Prop :=
  Path.Blocks (t.files config) (u.needs config) ∨ Path.Blocks (u.files config) (t.needs config)

instance (config : Config) (t u : Target) : Decidable (t.Clash config u) :=
  inferInstanceAs (Decidable (_ ∨ _))

variable {config : Config} {file dir p : Path}

theorem mem_files : p ∈ (build file dir).files config ↔
    (∃ name ∈ Site.outputNames, p = dir.child name) ∨
      (config.cache = true ∧ p = config.shelf.entryPath (cacheKey config file)) := by
  rw [files, List.mem_append, Site.mem_all_inside, Config.cache?_eq]
  cases config.cache <;> simp

end Target

/-- The disk when the documents of a project are about to be built: the source directory is there, and
the directories that every page refers to were made, and that of kept results. -/
def Prepared (config : Config) (start d : Disk) : Prop :=
  start.isDir config.srcDir = true ∧ ∃ middle,
    (Site.prepareAssets config.outDir : ExceptT Error (StateM Disk) Unit).run start =
      (.ok (), middle) ∧
    d = if config.cache then ((Cache.create config.outDir : StateM Disk Cache) middle).2 else middle

namespace Prepared

variable {config : Config} {start d : Disk}

theorem changes_makeDirs {d d' : Disk} {p : Path} {result : Except OsError Unit} (hd : d.Plain)
    (h : d.makeDirs p = (result, d')) : d.Changes (fun _ => False) (fun _ => True) d' := by
  rw [show d' = (d.makeDirs p).2 by rw [h]]
  exact .makeFirst hd _ fun _ _ => trivial

/-- The directories that every page refers to are made one after the other. -/
theorem prepareAssets_eq_ok {outDir : Path} {middle : Disk} :
    (Site.prepareAssets outDir : ExceptT Error (StateM Disk) Unit).run start = (.ok (), middle) ↔
      ∃ first, start.makeDirs (outDir.child "css") = (.ok (), first) ∧
        first.makeDirs (outDir.child "js") = (.ok (), middle) := by
  constructor
  · intro h
    obtain ⟨_, first, hcss, hjs⟩ := run_bind_eq_ok h
    exact ⟨first, Site.run_makeDirs_eq_ok.mp hcss, Site.run_makeDirs_eq_ok.mp hjs⟩
  · rintro ⟨first, hcss, hjs⟩
    rw [Site.prepareAssets, History.run_bind, Site.run_makeDirs_eq_ok.mpr hcss]
    exact Site.run_makeDirs_eq_ok.mpr hjs

theorem create_snd (outDir : Path) (d : Disk) :
    ((Cache.create outDir : StateM Disk Cache) d).2 =
      if d.isPresent (outDir.child Cache.dirName) then d
      else (d.makeDirs (outDir.child Cache.dirName)).2 := by
  unfold Cache.create
  generalize outDir.child Cache.dirName = dir
  change ((if (!d.isPresent dir) = true then _ else _ : StateM Disk Cache) d).2 = _
  cases d.isPresent dir <;> rfl

theorem changes_create {middle : Disk} (hm : middle.Plain) (outDir : Path) :
    middle.Changes (fun _ => False) (fun _ => True)
      ((Cache.create outDir : StateM Disk Cache) middle).2 := by
  rw [create_snd]
  split
  · exact .refl hm
  · exact .makeFirst hm _ fun _ _ => trivial

/-- Nothing but directories were made. -/
theorem changes (hstart : start.Plain) (h : Prepared config start d) :
    start.Changes (fun _ => False) (fun _ => True) d := by
  obtain ⟨-, middle, hassets, rfl⟩ := h
  obtain ⟨first, hcss, hjs⟩ := prepareAssets_eq_ok.mp hassets
  have hfirst := changes_makeDirs hstart hcss
  have hmiddle := hfirst.trans (changes_makeDirs hfirst.plain hjs)
  split
  · exact hmiddle.trans (changes_create hmiddle.plain config.outDir)
  · exact hmiddle

/-- The root of all output is there after a directory was made in it. -/
theorem lead_of_made {d d' : Disk} {dir : Path} {name : String} (hname : Path.IsName name)
    (hd : d.Plain) (h : d.makeDirs (dir.child name) = (.ok (), d')) :
    d'.lead dir = .ok (dir.place d'.workDir) ∧ d'.get? (dir.place d'.workDir) = some .dir ∧
      (Disk.refusal? dir = none ∨ dir.text = "") := by
  obtain ⟨q, hl, -⟩ := Disk.isDir_iff.mp (hd.isDir_of_makeDirs dir hname.isPiece h)
  have hd' := (hd.of_makeFirst h).1
  obtain ⟨hr, hchild⟩ := hd'.locate_iff.mp hl
  obtain ⟨above, hlead, hdir, -⟩ := Disk.lead_of_child hname hchild
  obtain rfl := hd'.lead_place hlead
  exact ⟨hlead, hdir, Disk.refusal?_of_child dir hname.isPiece hr⟩

/-- The directory of kept results is there, unless no call takes its path. -/
theorem shelf_created {middle : Disk} {outDir : Path} (hm : middle.Plain)
    (hlead : middle.lead outDir = .ok (outDir.place middle.workDir))
    (hdir : middle.get? (outDir.place middle.workDir) = some .dir)
    (htaken : Disk.refusal? outDir = none ∨ outDir.text = "")
    (hr : Disk.refusal? (outDir.child Cache.dirName) = none) :
    ((Cache.create outDir : StateM Disk Cache) middle).2.get?
      (outDir.place middle.workDir ++ [Cache.dirName]) ≠ none := by
  have hchanges := changes_create hm outDir
  cases hg : middle.get? (outDir.place middle.workDir ++ [Cache.dirName]) with
  | some entry => simp [hchanges.present (fun h => h) hg]
  | none =>
    have habsent : middle.isPresent (outDir.child Cache.dirName) = false := by
      have hplace := hm.locate_child hlead hdir Cache.fits_dirName hr true
      simp [Disk.isPresent, Disk.entryAt, hplace, hg, bind, Except.bind, throw, throwThe,
        MonadExceptOf.throw, Except.toOption]
    have hfree : ∀ above bytes, above <+: [Cache.dirName] →
        middle.get? (outDir.place middle.workDir ++ above) ≠ some (.file bytes) := by
      intro above bytes habove
      rcases List.prefix_cons_iff.mp habove with rfl | ⟨rest, rfl, hrest⟩
      · simp [hdir]
      · simp [List.prefix_nil.mp hrest, hg]
    have hchild : outDir.descend [Cache.dirName] = outDir.child Cache.dirName := rfl
    obtain ⟨d', hmake, hmade⟩ := hm.makeDirs_free hlead hdir htaken
      (by simpa using Cache.fits_dirName) (fun _ => by rw [hchild, hr]) hfree
    rw [hchild] at hmake
    rw [create_snd, habsent, hmake]
    simp [hmade.dir [Cache.dirName] List.prefix_rfl]

theorem ready (hstart : start.Plain) (h : Prepared config start d) : Ready config d := by
  obtain ⟨-, middle, hassets, rfl⟩ := h
  obtain ⟨first, hcss, hjs⟩ := prepareAssets_eq_ok.mp hassets
  have hfirst := changes_makeDirs hstart hcss
  obtain ⟨hlead, hdir, htaken⟩ := lead_of_made (by decide) hfirst.plain hjs
  have hmiddle := changes_makeDirs hfirst.plain hjs
  have hready : ∀ d, middle.Changes (fun _ => False) (fun _ => True) d →
      (config.cache = true → d.get? (config.outDir.place middle.workDir ++ [Cache.dirName]) ≠ none ∨
        Disk.refusal? (config.outDir.child Cache.dirName) ≠ none) → Ready config d := by
    intro d hd hcache
    rw [← hd.workDir] at hlead hdir hcache
    exact ⟨hd.plain, hd.lead hlead, hd.dir hdir, htaken, hcache⟩
  split
  · refine hready _ (changes_create hmiddle.plain config.outDir) fun _ => ?_
    by_cases hr : Disk.refusal? (config.outDir.child Cache.dirName) = none
    · exact .inl (shelf_created hmiddle.plain hlead hdir htaken hr)
    · exact .inr hr
  · next hoff => exact hready _ (.refl hmiddle.plain) fun hon => absurd hon hoff

end Prepared

/-- Building documents, with what each of them touches. -/
def buildWork (config : Config) (workDir : Place) :
    Work Target (Except Duration.Fault FileReport) where
  run := buildTarget config config.cache?
  files t place := ∃ p ∈ t.files config, p.place workDir = place
  dirs t place :=
    match t with
    | .build _ dir => place <+: dir.place workDir
    | .conflict .. => False

/-- A place that is neither that of a document nor that of the directory of kept results. -/
def Harmless (place : Place) : Prop :=
  ∀ name, place.getLast? = some name → name ≠ Cache.dirName ∧ ∀ stem, name ≠ stem ++ ".ema"

/-- A document that can be built on a disk: it stands there, and its output directory is reached by names
that fit. -/
structure Buildable (config : Config) (d : Disk) (file dir : Path) : Prop where
  finds : ∃ base names, d.Finds config.srcDir file base names
  reached : ∃ words, (∀ n ∈ words, Fits n) ∧ dir = config.outDir.descend words
  noUp : .up ∉ dir.components

section Targets

variable {config : Config} {d : Disk} {file dir p : Path} {t u : Target}

theorem harmless_of_last {above : Place} {name : String} (h : name.toList.getLast? ≠ some 'a')
    (h' : name.toList.getLast? ≠ some 'e') : Harmless (above ++ [name]) := by
  intro last hlast
  obtain rfl : name = last := by simpa using hlast
  refine ⟨?_, ?_⟩
  · rintro rfl
    exact h' (by decide)
  · rintro stem rfl
    exact h (by simp)

theorem harmless_of_mem_files (h : p ∈ t.files config) (workDir : Place) :
    Harmless (p.place workDir) := by
  cases t with
  | conflict => cases h
  | build file dir =>
    -- The path is not replaced by what it is equal to: its digest would be unfolded at every step.
    rcases Target.mem_files.mp h with ⟨name, hname, hp⟩ | ⟨-, hp⟩
    · rw [hp, Path.place_child dir (Site.isName_of_mem_outputNames hname)]
      have hlast : ∀ name ∈ Site.outputNames,
          name.toList.getLast? ≠ some 'a' ∧ name.toList.getLast? ≠ some 'e' := by
        decide
      exact harmless_of_last (hlast name hname).1 (hlast name hname).2
    · rw [hp, Cache.entryPath_eq, Path.place_child _ (Cache.isName_entryName _)]
      have hlast := Cache.getLast?_entryName (cacheKey config file)
      exact harmless_of_last (by simp [hlast]) (by simp [hlast])

theorem isBelow_of_mem_needs (hbuild : Buildable config d file dir)
    (h : p ∈ (Target.build file dir).needs config) : config.outDir.IsBelow p := by
  obtain ⟨words, hwords, hdir⟩ := hbuild.reached
  have hnames : ∀ n ∈ words, Path.IsName n := fun n hn => (hwords n hn).toIsName
  rcases List.mem_cons.mp h with hp | h
  · rw [hp, hdir]
    exact Path.isBelow_descend _ hnames
  · rcases Target.mem_files.mp h with ⟨name, hname, hp⟩ | ⟨-, hp⟩
    · rw [hp, hdir, ← Path.descend_concat]
      refine Path.isBelow_descend _ fun n hn => ?_
      rcases List.mem_append.mp hn with hn | hn
      · exact hnames n hn
      · exact List.mem_singleton.mp hn ▸ Site.isName_of_mem_outputNames hname
    · rw [hp, Cache.entryPath_eq, Config.shelf]
      have hentry := Cache.isName_entryName (cacheKey config file)
      generalize Cache.entryName (cacheKey config file) = name at hentry
      have hnames : ∀ n ∈ [Cache.dirName, name], Path.IsName n := by
        simp [hentry, History.isName_dirName]
      have hpath : (config.outDir.child Cache.dirName).child name =
          config.outDir.descend [Cache.dirName, name] := rfl
      rw [hpath]
      exact Path.isBelow_descend config.outDir hnames

/-- Documents that are not in each other's way are built apart. -/
theorem apart_of_not_clash {workDir : Place}
    (ht : ∀ file dir, t = .build file dir → Buildable config d file dir)
    (hu : ∀ file dir, u = .build file dir → Buildable config d file dir) (h : ¬t.Clash config u) :
    (buildWork config workDir).Apart t u := by
  -- A file of one document at a place of the other one would be above one of its paths.
  have hone : ∀ {t u : Target}, (∀ file dir, t = .build file dir → Buildable config d file dir) →
      (∀ file dir, u = .build file dir → Buildable config d file dir) →
      ¬Path.Blocks (t.files config) (u.needs config) → ∀ place,
      (buildWork config workDir).files t place → ¬(buildWork config workDir).files u place ∧
        ¬(buildWork config workDir).dirs u place := by
    rintro t u ht hu hfree place ⟨p, hp, hplace⟩
    cases t with
    | conflict => cases hp
    | build file dir =>
      cases u with
      | conflict => exact ⟨fun ⟨_, hq, _⟩ => (nomatch hq), fun h => h⟩
      | build other dir' =>
        have hbelow := isBelow_of_mem_needs (ht file dir rfl) (List.mem_cons_of_mem _ hp)
        have hblocks : ∀ q ∈ (Target.build other dir').needs config, ¬place <+: q.place workDir := by
          intro q hq hpre
          rw [← hplace] at hpre
          exact hfree ⟨p, hp, q, hq, hbelow.components_isPrefix
            (isBelow_of_mem_needs (hu other dir' rfl) hq) hpre⟩
        refine ⟨fun ⟨q, hq, hsame⟩ => ?_, fun hdir => ?_⟩
        · exact hblocks q (List.mem_cons_of_mem _ hq) (hsame ▸ List.prefix_rfl)
        · exact hblocks dir' List.mem_cons_self hdir
  have hfree := not_or.mp h
  exact ⟨hone ht hu hfree.1, hone hu ht hfree.2⟩

/-- A document is built the same, whatever is done to harmless files elsewhere. -/
theorem robust_of_buildable (hr : Ready config d)
    (ht : ∀ file dir, t = .build file dir → Buildable config d file dir) :
    (buildWork config d.workDir).Robust Harmless d t := by
  cases t with
  | conflict file dir owner =>
    exact ⟨.pure _, fun _ ⟨_, hp, _⟩ => (nomatch hp), fun _ _ _ hchanges _ _ => .pure _ hchanges⟩
  | build file dir =>
    obtain ⟨⟨base, names, hfinds⟩, ⟨words, hwords, hdir⟩, hup⟩ := ht file dir rfl
    have hplace : dir.place d.workDir = config.outDir.place d.workDir ++ words := by
      rw [hdir, Path.place_descend _ fun n hn => (hwords n hn).toIsName]
    have houtput : ∀ name ∈ Site.outputNames, (buildWork config d.workDir).files (.build file dir)
        (dir.place d.workDir ++ [name]) := by
      intro name hname
      refine ⟨dir.child name, Target.mem_files.mpr (.inl ⟨name, hname, rfl⟩), ?_⟩
      rw [Path.place_child dir (Site.isName_of_mem_outputNames hname)]
    have hentry : config.cache = true → (buildWork config d.workDir).files (.build file dir)
        (entryPlace config d.workDir (cacheKey config file)) :=
      fun hon => ⟨_, Target.mem_files.mpr (.inr ⟨hon, rfl⟩), place_entryPath _ _ _⟩
    refine ⟨?_, fun place ⟨p, hp, hplace⟩ => hplace ▸ harmless_of_mem_files hp d.workDir, ?_⟩
    · refine Affects.buildFile config hup (fun c hc => ?_) houtput fun _ h => h
      rw [Config.cache?_eq] at hc
      split at hc
      · next hon =>
        rw [← Option.some.inj hc, place_entryPath]
        exact hentry hon
      · cases hc
    · intro files dirs e hchanges hfiles hdirs
      have havoids : Avoids config d.workDir (cacheKey config file) words files dirs := by
        refine ⟨fun h => ?_, fun hon => ⟨fun h => ?_, fun h => ?_⟩, fun above habove h => ?_,
          fun name hname => ?_, fun place stem hlast h => ?_⟩
        · exact ((hfiles _ h).1 Cache.dirName (by simp)).1 rfl
        · exact (hfiles _ h).2.1 (hentry hon)
        · exact hdirs _ h (hentry hon)
        · refine (hfiles _ h).2.2 (show _ <+: dir.place d.workDir from ?_)
          rw [hplace]
          exact (List.prefix_append_right_inj _).mpr habove
        · rw [← hplace]
          exact ⟨fun h => (hfiles _ h).2.1 (houtput name hname), fun h => hdirs _ h (houtput name hname)⟩
        · exact ((hfiles place h).1 _ hlast).2 stem rfl
      change InStep files dirs (buildFile config config.cache? file dir) d e
      rw [hdir]
      exact .buildFile hr hfinds hwords havoids hchanges

end Targets

/-- A document is still there after harmless changes. -/
theorem Disk.Finds.changes {d e : Disk} {srcDir file : Path} {base : Place} {names : List String}
    {files dirs : Place → Prop} (h : d.Finds srcDir file base names)
    (hchanges : d.Changes files dirs e) (hfiles : ∀ place, files place → Harmless place) :
    e.Finds srcDir file base names := by
  obtain ⟨bytes, hcontent⟩ := h.content
  have hspared : ¬files (base ++ names) := by
    intro hplace
    obtain ⟨stem, hlast⟩ := h.getLast?_names
    have hname : (base ++ names).getLast? = some (stem ++ ".ema") := by simp [hlast]
    exact (hfiles _ hplace _ hname).2 stem rfl
  exact { h with
    lead := hchanges.lead h.lead
    content := ⟨bytes, hchanges.present hspared hcontent⟩ }

/-- What is assigned to be built can be built, unless its directory leads up. -/
theorem Prepared.buildable {config : Config} {start d : Disk} {file dir : Path} (hstart : start.Plain)
    (hnamed : start.WellNamed) (h : Prepared config start d)
    (hmem : .build file dir ∈ assign config (documentsAmong (start.filesBelow config.srcDir)))
    (hup : .up ∉ dir.components) : Buildable config d file dir := by
  obtain ⟨hfile, hdir, -⟩ := mem_assignFrom hmem
  obtain ⟨base, names, hfinds⟩ := Disk.exists_finds hstart hnamed h.1 hfile
  rw [hdir] at hup ⊢
  exact ⟨⟨base, names, hfinds.changes (h.changes hstart) (by simp)⟩,
    hfinds.outputDir_eq config.outDir hup, hup⟩

/-- All documents are built, whatever comes of one of them. -/
theorem buildTargets_eq (config : Config) (cache : Option Cache) (targets : List Target) (d : Disk) :
    (buildTargets config cache targets : StateM Disk _) d =
      (((targets.mapM (buildTarget config cache) : StateM Disk _) d).1.mapM id,
        ((targets.mapM (buildTarget config cache) : StateM Disk _) d).2) := by
  induction targets generalizing d with
  | nil => rfl
  | cons target targets ih =>
    rw [buildTargets, bind_apply, bind_apply, ih, List.mapM_cons, bind_apply, bind_apply]
    have hpure : ∀ {α : Type} (a : α) (e : Disk), (pure a : StateM Disk α) e = (a, e) := fun _ _ => rfl
    rw [hpure, hpure, List.mapM_cons]
    rfl

/-- Whatever the order in which documents are built, each gets the report that it gets alone, and the
disk is the same at the end. -/
def OrderFree (config : Config) (d : Disk) (targets : List Target) : Prop :=
  ∃ final, ∀ order : List Target, order.Perm targets →
    let reports := order.map fun t => ((buildTarget config config.cache? t : StateM Disk _) d).1
    (order.mapM (buildTarget config config.cache?) : StateM Disk _) d = (reports, final) ∧
      (buildTargets config config.cache? order : StateM Disk _) d = (reports.mapM id, final)

/-- The order makes no difference to documents that are not in each other's way. -/
theorem orderFree_of_not_clash {config : Config} {start d : Disk} (hstart : start.Plain)
    (hnamed : start.WellNamed) (hprepared : Prepared config start d) {targets : List Target}
    (htargets : targets ⊆ assign config (documentsAmong (start.filesBelow config.srcDir)))
    (hup : ∀ file dir, .build file dir ∈ targets → .up ∉ dir.components)
    (hclash : targets.Pairwise fun t u => ¬t.Clash config u) : OrderFree config d targets := by
  have hready := hprepared.ready hstart
  have hbuildable : ∀ t ∈ targets, ∀ file dir, t = .build file dir → Buildable config d file dir := by
    rintro t ht file dir rfl
    exact hprepared.buildable hstart hnamed (htargets ht) (hup file dir ht)
  obtain ⟨final, hfinal⟩ := (buildWork config d.workDir).run_perm hready.plain
    (fun t ht => robust_of_buildable hready (hbuildable t ht))
    (hclash.imp_of_mem fun ht hu h => apart_of_not_clash (hbuildable _ ht) (hbuildable _ hu) h)
  refine ⟨final, fun order hperm => ?_⟩
  have hrun : (order.mapM (buildTarget config config.cache?) : StateM Disk _) d =
      (order.map fun t => ((buildTarget config config.cache? t : StateM Disk _) d).1, final) :=
    hfinal order hperm
  exact ⟨hrun, by rw [buildTargets_eq, hrun]⟩

section Sample

/-- The entries of a disk with three documents: two of them want the same directory, and one is not a
text. -/
def sampleTrioEntries : List (Place × Entry) :=
  [(["o"], .dir), (["o", "css"], .dir), (["o", "js"], .dir), (["s"], .dir), (["s", "a"], .dir),
    (["s", "a", "index.ema"], .file (Text.utf8 "page A")),
    (["s", "a.ema"], .file (Text.utf8 "page B")), (["s", "b.ema"], .file [0xff])]

def sampleTrio : Disk := ⟨.ofList sampleTrioEntries, []⟩

def sampleTrioConfig (cache : Bool) : Config :=
  { srcDir := ⟨"s"⟩, outDir := ⟨"o"⟩, cache := cache }

/-- The same disk when the documents are about to be built. -/
def sampleTrioReady (cache : Bool) : Disk :=
  if cache then ⟨.ofList ((["o", ".emadocs-cache"], .dir) :: sampleTrioEntries), []⟩ else sampleTrio

def sampleTrioTargets : List Target :=
  [.build ⟨"s/a/index.ema"⟩ ⟨"o/a"⟩, .conflict ⟨"s/a.ema"⟩ ⟨"o/a"⟩ ⟨"s/a/index.ema"⟩,
    .build ⟨"s/b.ema"⟩ ⟨"o/b"⟩]

theorem sampleTrio_entries : sampleTrio.entries.entries = sampleTrioEntries := rfl

theorem sampleTrio_plain : sampleTrio.Plain := by
  refine Disk.plain_of_forall ?_ ?_
  · simp [sampleTrio_entries, sampleTrioEntries]
  · simp only [sampleTrio_entries, sampleTrioEntries, List.forall_mem_cons]
    exact ⟨rfl, rfl, rfl, rfl, rfl, rfl, rfl, rfl, by simp⟩

theorem sampleTrio_wellNamed : sampleTrio.WellNamed := by
  refine Disk.wellNamed_of_forall ?_
  rw [sampleTrio_entries]
  decide

theorem sampleTrio_prepared (cache : Bool) :
    Prepared (sampleTrioConfig cache) sampleTrio (sampleTrioReady cache) := by
  have hdir : sampleTrio.isDir ⟨"s"⟩ = true := rfl
  have hassets : (Site.prepareAssets ⟨"o"⟩ : ExceptT Error (StateM Disk) Unit).run sampleTrio =
      (.ok (), sampleTrio) := rfl
  refine ⟨hdir, sampleTrio, hassets, ?_⟩
  cases cache <;> rfl

theorem sampleTrio_documents : documentsAmong (sampleTrio.filesBelow ⟨"s"⟩) =
    [⟨"s/a/index.ema"⟩, ⟨"s/a.ema"⟩, ⟨"s/b.ema"⟩] := by
  have hfiles : sampleTrio.filesBelow ⟨"s"⟩ = [⟨"s/a/index.ema"⟩, ⟨"s/a.ema"⟩, ⟨"s/b.ema"⟩] := rfl
  have hfilter : [⟨"s/a/index.ema"⟩, ⟨"s/a.ema"⟩, ⟨"s/b.ema"⟩].filter isDocument =
      [⟨"s/a/index.ema"⟩, ⟨"s/a.ema"⟩, ⟨"s/b.ema"⟩] := by
    decide +kernel
  have hsorted : [(⟨"s/a/index.ema"⟩ : Path), ⟨"s/a.ema"⟩, ⟨"s/b.ema"⟩].Pairwise
      fun p q => p.le q = true := by
    decide +kernel
  rw [documentsAmong, hfiles, hfilter, List.mergeSort_of_pairwise hsorted]

theorem sampleTrio_assign (cache : Bool) : assign (sampleTrioConfig cache)
    (documentsAmong (sampleTrio.filesBelow (sampleTrioConfig cache).srcDir)) = sampleTrioTargets := by
  rw [sampleTrioConfig, sampleTrio_documents]
  cases cache <;> decide +kernel

theorem sampleTrio_up : ∀ file dir, .build file dir ∈ sampleTrioTargets → .up ∉ dir.components := by
  intro file dir h
  simp only [sampleTrioTargets, List.mem_cons, List.not_mem_nil, Target.build.injEq, reduceCtorEq,
    or_false, false_or] at h
  rcases h with ⟨-, rfl⟩ | ⟨-, rfl⟩ <;> decide

/-- With no results kept, all the documents can be built in any order. With results kept, so can the
first one and the one that is left out. -/
theorem orderFree_sample :
    OrderFree (sampleTrioConfig false) (sampleTrioReady false) sampleTrioTargets ∧
      OrderFree (sampleTrioConfig true) (sampleTrioReady true) (sampleTrioTargets.take 2) :=
  ⟨orderFree_of_not_clash sampleTrio_plain sampleTrio_wellNamed (sampleTrio_prepared false)
      (sampleTrio_assign false ▸ List.Subset.refl _) sampleTrio_up (by decide +kernel),
    orderFree_of_not_clash sampleTrio_plain sampleTrio_wellNamed (sampleTrio_prepared true)
      (sampleTrio_assign true ▸ List.take_subset 2 _)
      (fun file dir h => sampleTrio_up file dir (List.take_subset 2 _ h)) (by decide +kernel)⟩

end Sample

end Folio
