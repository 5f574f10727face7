import Folio.Proofs.Footprint

/-! Building a document beside others. What the others do to the disk makes no difference to it, as long
as they stay away from its files, from the way to them and from documents. -/

namespace Folio

open Disk (Fits)

/-- A disk on which documents can be built: the root of all output is there, and so is the directory of
kept results, unless no call takes its path. -/
structure Ready (config : Config) (d : Disk) : Prop where
  plain : d.Plain
  lead : d.lead config.outDir = .ok (config.outDir.place d.workDir)
  dir : d.get? (config.outDir.place d.workDir) = some .dir
  taken : Disk.refusal? config.outDir = none ∨ config.outDir.text = ""
  cache : config.cache = true →
    d.get? (config.outDir.place d.workDir ++ [Cache.dirName]) ≠ none ∨
      Disk.refusal? (config.outDir.child Cache.dirName) ≠ none

variable {config : Config} {d e : Disk} {files dirs : Place → Prop}

theorem Ready.changes (h : Ready config d) (hc : d.Changes files dirs e)
    (hcache : ¬files (config.outDir.place d.workDir ++ [Cache.dirName])) : Ready config e where
  plain := hc.plain
  lead := by
    rw [hc.workDir]
    exact hc.lead h.lead
  dir := by
    rw [hc.workDir]
    exact hc.dir h.dir
  taken := h.taken
  cache hon := by
    rw [hc.workDir]
    refine (h.cache hon).imp_left fun hg => ?_
    obtain ⟨entry, hentry⟩ := Option.ne_none_iff_exists'.mp hg
    simp [hc.present hcache hentry]

/-- Where the results of a build would be kept. -/
def Config.shelf (config : Config) : Cache := ⟨config.outDir.child Cache.dirName⟩

theorem Config.cache?_eq (config : Config) :
    config.cache? = if config.cache then some config.shelf else none := rfl

theorem Cache.fits_dirName : Fits dirName := ⟨History.isName_dirName, by decide⟩

/-- Where a name in a directory leads to, if there is something at the place of the directory. -/
theorem Disk.lead_second {base : Path} {q : Place} {first second : String} {entry : Entry}
    (hbase : d.lead base = .ok q) (hdir : d.get? q = some .dir) (hfirst : Fits first)
    (hsecond : Path.IsName second) (hg : d.get? (q ++ [first]) = some entry) :
    d.lead ((base.child first).child second) =
      if entry ≠ .dir then .error .notDirectory
      else if maxName < second.utf8ByteSize then .error .nameTooLong
      else .ok (q ++ [first] ++ [second]) := by
  have hnames : ∀ n ∈ [first, second], Path.IsPiece n := by simp [hfirst.isPiece, hsecond.isPiece]
  rw [show (base.child first).child second = base.descend [first, second] from rfl,
    lead_descend hbase hdir hnames, reach_name hfirst hdir, if_neg (by simp [hg])]
  simp [reach, hg, hsecond.notHere, hsecond.notUp]

/-- The path of a kept result leads to the same place on both disks, or fails the same, if both have a
directory for kept results or both have something else there. -/
theorem Ready.locate_entryPath_congr (h : Ready config d) (hc : d.Changes files dirs e)
    (hon : config.cache = true)
    (hkind : ∀ entry, d.get? (config.outDir.place d.workDir ++ [Cache.dirName]) = some entry →
      ∃ entry', e.get? (config.outDir.place d.workDir ++ [Cache.dirName]) = some entry' ∧
        (entry' = .dir ↔ entry = .dir))
    (key : String) (followLast : Bool) :
    e.locate followLast (config.shelf.entryPath key) =
      d.locate followLast (config.shelf.entryPath key) := by
  have hname := Cache.isName_entryName key
  rw [Cache.entryPath_eq, Config.shelf]
  generalize Cache.entryName key = name at hname
  dsimp only
  cases hr : Disk.refusal? ((config.outDir.child Cache.dirName).child name) with
  | some error => rw [h.plain.locate_of_refusal hr, hc.plain.locate_of_refusal hr]
  | none =>
    have hpresent : d.get? (config.outDir.place d.workDir ++ [Cache.dirName]) ≠ none := by
      refine (h.cache hon).resolve_right fun hrefused => ?_
      exact hrefused (Disk.refusal?_above _ Cache.fits_dirName.isPiece hname.isPiece hr)
    obtain ⟨entry, hentry⟩ := Option.ne_none_iff_exists'.mp hpresent
    obtain ⟨entry', hentry', hsame⟩ := hkind entry hentry
    rw [h.plain.locate_of_taken hr, hc.plain.locate_of_taken hr,
      Disk.lead_second h.lead h.dir Cache.fits_dirName hname hentry,
      Disk.lead_second (hc.lead h.lead) (hc.dir h.dir) Cache.fits_dirName hname hentry']
    simp only [ne_eq, hsame]

theorem Ready.locate_entryPath (h : Ready config d) (hc : d.Changes files dirs e)
    (hon : config.cache = true) (hcache : ¬files (config.outDir.place d.workDir ++ [Cache.dirName]))
    (key : String) (followLast : Bool) :
    e.locate followLast (config.shelf.entryPath key) =
      d.locate followLast (config.shelf.entryPath key) :=
  h.locate_entryPath_congr hc hon (fun entry hentry => ⟨entry, hc.present hcache hentry, .rfl⟩) key
    followLast

theorem Cache.unslashed_entryPath (c : Cache) (key : String) :
    Disk.unslashed (c.entryPath key) = c.entryPath key :=
  Disk.unslashed_child c.dir (isName_entryName key).isPiece

/-- The place of a kept result. -/
def entryPlace (config : Config) (workDir : Place) (key : String) : Place :=
  config.outDir.place workDir ++ [Cache.dirName, Cache.entryName key]

theorem place_entryPath (config : Config) (workDir : Place) (key : String) :
    (config.shelf.entryPath key).place workDir =
      entryPlace config workDir key := by
  rw [Cache.entryPath_eq, Path.place_child _ (Cache.isName_entryName key), Config.shelf,
    Path.place_child _ History.isName_dirName, entryPlace, List.append_assoc]
  rfl

/-- On its way, the path of a kept result comes upon no file of others. -/
theorem Ready.notMem_of_locate (h : Ready config d) {key : String}
    (hentry : ¬files (entryPlace config d.workDir key) ∧ ¬dirs (entryPlace config d.workDir key))
    (followLast : Bool) (q : Place)
    (hq : d.locate followLast (config.shelf.entryPath key) = .ok q) :
    ¬files q ∧ ¬dirs q := by
  rw [h.plain.locate_place hq, place_entryPath]
  exact hentry

namespace InStep

theorem now (h : d.Changes files dirs e) : InStep files dirs (FileSystem.now : StateM Disk Nat) d e :=
  ⟨rfl, h⟩

section Entries

variable {c : Cache} {key : String} (h : d.Changes files dirs e)
  (hl : ∀ followLast, e.locate followLast (c.entryPath key) = d.locate followLast (c.entryPath key))
  (hq : ∀ followLast q, d.locate followLast (c.entryPath key) = .ok q → ¬files q ∧ ¬dirs q)

include h hl hq

theorem lookup (source : String) (options : Options) :
    InStep files dirs (c.lookup key source options) d e := by
  have hread : InStep files dirs (FileSystem.readText (c.entryPath key)) d e :=
    readText h (hl true) fun q hlocate => h.same (hq true q hlocate).1 (hq true q hlocate).2
  unfold Cache.lookup
  refine hread.bind ?_
  rw [FileSystem.readText_eq, FileSystem.readText_eq]
  dsimp only
  split
  · exact pure _ h
  · split
    · exact pure _ h
    · split
      · exact pure _ h
      · exact (removeFile h (hl false) (hq false)).bind_pure _

theorem store (hd : d.Plain) (source : String) (options : Options) (result : Result) :
    InStep files dirs (c.store key source options result) d e := by
  unfold Cache.store
  split
  · exact (writeBytes hd h (c.unslashed_entryPath key) (hl true) (hq true) _).bind_pure _
  · exact pure _ h

end Entries

/-- A new result is kept. -/
theorem keepNew (hr : Ready config d) (h : d.Changes files dirs e) (hon : config.cache = true)
    (key source : String) (hcache : ¬files (config.outDir.place d.workDir ++ [Cache.dirName]))
    (hentry : ¬files (entryPlace config d.workDir key) ∧ ¬dirs (entryPlace config d.workDir key)) :
    InStep files dirs (do
      let start ← FileSystem.now
      let result := { compile source config.compiler with elapsed := ← FileSystem.since start }
      config.shelf.store key source config.compiler result
      return (.ok (result, false) : Except Duration.Fault (Result × Bool))) d e := by
  have hstore := store h (hr.locate_entryPath h hon hcache key) (hr.notMem_of_locate hentry) hr.plain
    source config.compiler
  refine (now h).bind ?_
  refine ((now h).bind_pure _).bind ?_
  exact (hstore _).bind_pure _

theorem resultFor (hr : Ready config d) (h : d.Changes files dirs e) (key source : String)
    (hcache : ¬files (config.outDir.place d.workDir ++ [Cache.dirName]))
    (hentry : config.cache = true → ¬files (entryPlace config d.workDir key) ∧
      ¬dirs (entryPlace config d.workDir key)) :
    InStep files dirs (resultFor config config.cache? key source) d e := by
  unfold Folio.resultFor
  rw [Config.cache?_eq]
  by_cases hon : config.cache = true
  · rw [if_pos hon]
    have hentry := hentry hon
    have hlookup := lookup h (hr.locate_entryPath h hon hcache key) (hr.notMem_of_locate hentry) source
      config.compiler
    -- Looking up a result changes no other file than that of the result.
    have haffects : Affects d.workDir (· = entryPlace config d.workDir key) (fun _ => False)
        (config.shelf.lookup key source config.compiler : StateM Disk _) :=
      .lookup source config.compiler (place_entryPath config d.workDir key)
    have hframe := haffects d hr.plain rfl
    have hr' := hr.changes hframe (by simp [entryPlace])
    have h' := hlookup.2
    have hcache' := hcache
    rw [← hframe.workDir] at hcache' hentry
    refine hlookup.bind ?_
    split
    · exact pure _ h'
    · exact pure _ h'
    · exact keepNew hr' h' hon key source hcache' hentry
  · rw [if_neg hon]
    exact pure _ h

theorem fits_of_mem_outputNames {name : String} (h : name ∈ Site.outputNames) : Fits name :=
  ⟨Site.isName_of_mem_outputNames h, by revert name; decide⟩

/-- Two disks with a directory that a path leads to, and in which no file of others is in the way. -/
structure Inside (files dirs : Place → Prop) (dir : Path) (place : Place) (d e : Disk) : Prop where
  plain : d.Plain
  changes : d.Changes files dirs e
  lead : d.lead dir = .ok place
  isDir : d.get? place = some .dir
  free : ∀ name ∈ Site.outputNames, ¬files (place ++ [name]) ∧ ¬dirs (place ++ [name])

/-- A text is written into the directory, which is still there afterwards. -/
theorem writeText {dir : Path} {place : Place} {name : String} (h : Inside files dirs dir place d e)
    (hmem : name ∈ Site.outputNames) (text : String) :
    InStep files dirs (Site.writeText (dir.child name) text : ExceptT Error (StateM Disk) Unit).run
        d e ∧
      Inside files dirs dir place
        ((Site.writeText (dir.child name) text : ExceptT Error (StateM Disk) Unit).run d).2
        ((Site.writeText (dir.child name) text : ExceptT Error (StateM Disk) Unit).run e).2 := by
  have hname := fits_of_mem_outputNames hmem
  have hplace : (dir.child name).place d.workDir = place ++ [name] := by
    rw [Path.place_child dir hname.toIsName, ← h.plain.lead_place h.lead]
  have hl : e.locate true (dir.child name) = d.locate true (dir.child name) := by
    refine h.plain.locate_congr h.changes.plain ?_ true
    rw [Disk.lead_child h.lead h.isDir hname,
      Disk.lead_child (h.changes.lead h.lead) (h.changes.dir h.isDir) hname]
  have hstep : InStep files dirs
      (Site.writeText (dir.child name) text : ExceptT Error (StateM Disk) Unit).run d e := by
    refine (writeBytes h.plain h.changes (Disk.unslashed_child dir hname.isPiece) hl (fun q hq => ?_)
      _).bind_pure _
    rw [h.plain.locate_place hq, hplace]
    exact h.free name hmem
  have haffects : Affects d.workDir (· = place ++ [name]) (fun _ => False)
      (Site.writeText (dir.child name) text : ExceptT Error (StateM Disk) Unit).run :=
    (Affects.writeBytes _ hplace).bind fun _ => .pure _
  have hframe := haffects d h.plain rfl
  exact ⟨hstep, hframe.plain, hstep.2, hframe.lead h.lead, hframe.dir h.isDir, h.free⟩

/-- The texts of a document are written into the directory. -/
theorem writeTexts {dir : Path} {place : Place} (h : Inside files dirs dir place d e)
    (output : Output) :
    InStep files dirs (do
        Site.writeText (dir.child "index.html") output.markup
        Site.writeText (dir.child "styles.css") output.style
        Site.writeText (dir.child "script.js") output.script
        return Site.Paths.inside dir : ExceptT Error (StateM Disk) Site.Paths).run d e := by
  obtain ⟨hmarkup, hinside⟩ := writeText h (show "index.html" ∈ _ by decide) output.markup
  refine hmarkup.bind_run fun _ _ => ?_
  obtain ⟨hstyle, hinside⟩ := writeText hinside (show "styles.css" ∈ _ by decide) output.style
  refine hstyle.bind_run fun _ _ => ?_
  obtain ⟨hscript, -⟩ := writeText hinside (show "script.js" ∈ _ by decide) output.script
  exact hscript.bind_run fun _ _ => pure _ hscript.2

/-- The files of a document are written. -/
theorem writeOutputs {words : List String} (hr : Ready config d) (h : d.Changes files dirs e)
    (hwords : ∀ n ∈ words, Fits n)
    (hway : ∀ above, above <+: words → ¬files (config.outDir.place d.workDir ++ above))
    (hfiles : ∀ name ∈ Site.outputNames,
      ¬files (config.outDir.place d.workDir ++ words ++ [name]) ∧
        ¬dirs (config.outDir.place d.workDir ++ words ++ [name])) (output : Output) :
    InStep files dirs (Site.writeOutputs (config.outDir.descend words) output :
      ExceptT Error (StateM Disk) Site.Paths).run d e := by
  have hmake : InStep files dirs (Site.makeDirs (config.outDir.descend words) :
      ExceptT Error (StateM Disk) Unit).run d e :=
    (makeDirs hr.plain h hr.lead hr.dir hr.taken hwords hway).bind_pure _
  unfold Site.writeOutputs
  refine bind_run hmake fun _ hok => ?_
  have hmade := Site.makeDirs_eq_ok hok
  obtain ⟨hlead, hdir⟩ := hr.plain.lead_of_makeDirs hr.lead hr.dir hwords hmade
  exact writeTexts ⟨(hr.plain.of_makeFirst hmade).1, hmake.2, hlead, hdir, hfiles⟩ output

theorem deliver {words : List String} (hr : Ready config d) (h : d.Changes files dirs e)
    (hwords : ∀ n ∈ words, Fits n)
    (hway : ∀ above, above <+: words → ¬files (config.outDir.place d.workDir ++ above))
    (hfiles : ∀ name ∈ Site.outputNames,
      ¬files (config.outDir.place d.workDir ++ words ++ [name]) ∧
        ¬dirs (config.outDir.place d.workDir ++ words ++ [name]))
    (file : Path) (result : Result) (cached : Bool) :
    InStep files dirs (deliver file (config.outDir.descend words) result cached) d e := by
  have hwrite := writeOutputs hr h hwords hway hfiles result.output
  unfold Folio.deliver
  split
  · refine hwrite.bind ?_
    split <;> exact pure _ hwrite.2
  · exact pure _ h

/-- A document is found where it was. -/
theorem readSource {base : Place} {names : List String} {file : Path} (hd : d.Plain)
    (h : d.Changes files dirs e) (hfile : d.Finds config.srcDir file base names)
    (hdocuments : ∀ place stem, place.getLast? = some (stem ++ ".ema") → ¬files place) :
    InStep files dirs (FileSystem.readText file) d e := by
  obtain ⟨bytes, hcontent⟩ := hfile.content
  have hstays : e.get? (base ++ names) = some (.file bytes) := by
    obtain ⟨stem, hlast⟩ := hfile.getLast?_names
    refine h.present (hdocuments _ stem ?_) hcontent
    rw [List.getLast?_append, hlast]
    rfl
  have hlead : ∀ disk : Disk, disk.Plain → disk.lead config.srcDir = .ok base →
      disk.get? (base ++ names) = some (.file bytes) → disk.lead file = .ok (base ++ names) := by
    intro disk hplain hbase hg
    have hdir : disk.get? base = some .dir := by
      obtain ⟨name, below, hnames⟩ := List.exists_cons_of_ne_nil hfile.names_ne
      exact hplain.dir_above (show disk.get? (base ++ name :: below) ≠ none by simp [← hnames, hg])
    rw [hfile.file_eq, Disk.lead_descend hbase hdir fun n hn => (hfile.fits n hn).isPiece]
    exact hplain.reach_present hfile.fits (by simp [hg])
  have hfirst := hlead d hd hfile.lead hcontent
  have hsecond := hlead e h.plain (h.lead hfile.lead) hstays
  refine readText h (hd.locate_congr h.plain (hsecond.trans hfirst.symm) true) fun q hq => ?_
  have hplace : base ++ names = q := Except.ok.inj (hfirst.symm.trans (hd.locate_iff.mp hq).2)
  rw [← hplace, hcontent, hstays]

end InStep

/-- Places that building a document does not depend on. -/
structure Avoids (config : Config) (workDir : Place) (key : String) (words : List String)
    (files dirs : Place → Prop) : Prop where
  shelf : ¬files (config.outDir.place workDir ++ [Cache.dirName])
  entry : config.cache = true →
    ¬files (entryPlace config workDir key) ∧ ¬dirs (entryPlace config workDir key)
  way : ∀ above, above <+: words → ¬files (config.outDir.place workDir ++ above)
  outputs : ∀ name ∈ Site.outputNames, ¬files (config.outDir.place workDir ++ words ++ [name]) ∧
    ¬dirs (config.outDir.place workDir ++ words ++ [name])
  documents : ∀ place stem, place.getLast? = some (stem ++ ".ema") → ¬files place

/-- Building a document gives the same report, whatever was done to places that it does not depend on,
and does the same to the disk. -/
theorem InStep.buildFile {file : Path} {base : Place} {names words : List String}
    (hr : Ready config d) (hfile : d.Finds config.srcDir file base names)
    (hwords : ∀ n ∈ words, Fits n)
    (havoids : Avoids config d.workDir (cacheKey config file) words files dirs)
    (h : d.Changes files dirs e) :
    InStep files dirs (buildFile config config.cache? file (config.outDir.descend words)) d e := by
  have hread := readSource hr.plain h hfile havoids.documents
  unfold Folio.buildFile
  refine hread.bind ?_
  rw [FileSystem.readText_eq, FileSystem.readText_eq]
  dsimp only
  split
  · exact pure _ h
  · next source hsource =>
    have hresult := resultFor hr h (cacheKey config file) source havoids.shelf havoids.entry
    have haffects : Affects d.workDir (· = entryPlace config d.workDir (cacheKey config file))
        (fun _ => False) (Folio.resultFor config config.cache? (cacheKey config file) source) := by
      refine .resultFor config source fun c hc => ?_
      rw [Config.cache?_eq] at hc
      split at hc
      · obtain rfl := Option.some.inj hc
        exact place_entryPath config d.workDir (cacheKey config file)
      · cases hc
    have hframe := haffects d hr.plain rfl
    have hr' := hr.changes hframe (by simp [entryPlace])
    rw [← hframe.workDir] at havoids
    refine hresult.bind ?_
    split
    · exact pure _ hresult.2
    · next result cached _ =>
      exact deliver hr' hresult.2 hwords havoids.way havoids.outputs file result cached

end Folio
