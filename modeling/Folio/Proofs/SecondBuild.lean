import Folio.Proofs.BuildOrder
import Folio.Proofs.Documents
import Folio.Proofs.KeptResults

/-! Building a document a second time. Its result is found among the kept ones or made again, its files
are written with the same outcome, and so its report is the same. -/

namespace Folio

open Disk (Grows Replay Way Fits)
open Cache (ToldApart Kept Fresh)

variable {config : Config} {d e : Disk} {files : Place → Prop} {key source : String}
  {inputs : List (String × Options)}

/-- The place of the kept result of a document, if results are kept. -/
def Shelved (config : Config) (workDir : Place) (key : String) (place : Place) : Prop :=
  config.cache = true ∧ place = entryPlace config workDir key

/-- Files of a build, but not those of one kept result. -/
def Elsewhere (shelved : Place → Prop) (place : Place) : Prop := Generated place ∧ ¬shelved place

/-- A program that builds a document and keeps its result. In the second run its answer is related to the
first one, as long as no other document touches that result. -/
structure Repeats (shelved : Place → Prop) {α : Type} (R : α → α → Prop) (x : StateM Disk α)
    (d : Disk) : Prop where
  grows : Grows (fun place => IsOutput place ∨ shelved place) d (x d).2
  again : ∀ final e, Grows (Elsewhere shelved) (x d).2 final → Replay final d e →
    R (x d).1 (x e).1 ∧ Replay final (x d).2 (x e).2

theorem Disk.Replay.put_first {final : Disk} {place : Place} {bytes : List UInt8}
    (h : Replay final d e) (hne : place ≠ []) (he : e.get? place = some (.file bytes)) :
    Replay final (d.put place (.file bytes)) e where
  plain := h.plain
  workDir := h.workDir
  root := h.root
  get? q := by
    rw [Disk.get?_put hne]
    split
    · next hq => exact .inr ⟨bytes, rfl, hq ▸ he⟩
    · exact h.get? q

/-- The path of a kept result leads to the same place on all disks that grow from this one. -/
theorem Ready.locate_entryPath_grows (h : Ready config d) (hon : config.cache = true)
    (key : String) (followLast : Bool) (hgrows : Grows files d e) :
    e.locate followLast (config.shelf.entryPath key) =
      d.locate followLast (config.shelf.entryPath key) := by
  refine h.locate_entryPath_congr hgrows.toChanges hon (fun entry hentry => ?_) key followLast
  cases entry with
  | link target => exact absurd hentry (h.plain.noLink _ _)
  | dir => exact ⟨.dir, hgrows.dir hentry, .rfl⟩
  | file bytes =>
    obtain ⟨bytes', hfile⟩ := hgrows.file _ bytes hentry
    exact ⟨.file bytes', hfile, by simp⟩

theorem Cache.keep_eq (c : Cache) (key : String) (entry : Cache.Entry) (d : Disk) :
    c.keep key entry d =
      ((FileSystem.writeBytes (c.entryPath key) entry.bytes : StateM Disk (Except OsError Unit)) d).2 := by
  rw [FileSystem.writeBytes_eq, Disk.attempt, keep]
  cases d.writeBytes (c.entryPath key) entry.bytes <;> rfl

/-- A document gets a result in both runs. In the second one it is a kept one if it was before. -/
def SameResult (result : Result) (first second : Except Duration.Fault (Result × Bool)) : Prop :=
  ∃ cached cached', first = .ok (result, cached) ∧ second = .ok (result, cached') ∧
    (cached = true → cached' = true)

section Results

variable (hr : Ready config d) (hon : config.cache = true)

include hr hon

/-- A new result is kept, if it can be, in both runs. -/
theorem Ready.keep_replays (key : String) (entry : Cache.Entry) :
    Grows (· = entryPlace config d.workDir key) d (config.shelf.keep key entry d) ∧
      ∀ final e, Grows (fun _ => True) (config.shelf.keep key entry d) final → Replay final d e →
        Replay final (config.shelf.keep key entry d) (config.shelf.keep key entry e) := by
  have hreplays : Replays (· = entryPlace config d.workDir key)
      (FileSystem.writeBytes (config.shelf.entryPath key) entry.bytes) d := by
    refine .writeBytes hr.plain (config.shelf.unslashed_entryPath key)
      (fun files e h => hr.locate_entryPath_grows hon key true h) (fun q hq => ?_) entry.bytes
    rw [hr.plain.locate_place hq, place_entryPath]
  simp only [Cache.keep_eq]
  exact ⟨hreplays.1, fun final e hfinal h => (hreplays.2 final e hfinal h).2⟩

/-- A result that is read was kept at its place. -/
theorem Ready.readBytes_iff (hgrows : Grows files d e) {bytes : List UInt8} :
    e.readBytes (config.shelf.entryPath key) = .ok bytes ↔
      d.locate true (config.shelf.entryPath key) = .ok (entryPlace config d.workDir key) ∧
        e.get? (entryPlace config d.workDir key) = some (.file bytes) := by
  rw [Disk.readBytes_eq_ok, hr.locate_entryPath_grows hon key true hgrows]
  constructor
  · rintro ⟨q, hl, hfile⟩
    have hq : q = entryPlace config d.workDir key := by
      rw [hr.plain.locate_place hl, place_entryPath]
    exact ⟨hq ▸ hl, hq ▸ hfile⟩
  · exact fun h => ⟨_, h⟩

/-- The second run finds the result that the first one kept. -/
theorem Ready.replay_found {final : Disk} {entry : Cache.Entry} (h : Replay final d e)
    (hgrows : Grows files d e)
    (hread : e.readBytes (config.shelf.entryPath key) = .ok entry.bytes) :
    Replay final (config.shelf.keep key entry d) e := by
  obtain ⟨hl, hfile⟩ := (hr.readBytes_iff hon hgrows).mp hread
  have hne : d.get? (entryPlace config d.workDir key) ≠ some .dir := by
    intro hdir
    simp [hgrows.dir hdir] at hfile
  have hkeep : config.shelf.keep key entry d =
      d.put (entryPlace config d.workDir key) (.file entry.bytes) := by
    rw [Cache.keep_eq, FileSystem.writeBytes_unslashed (config.shelf.unslashed_entryPath key), hl]
    simp only [if_neg hne]
  rw [hkeep]
  exact h.put_first (Disk.ne_nil_of_get?_ne_dir hne) hfile

end Results

theorem kept_entryPlace (h : Kept (config.shelf.dir.place d.workDir) inputs d) {bytes : List UInt8}
    (hfile : d.get? (entryPlace config d.workDir key) = some (.file bytes)) :
    ∃ i ∈ inputs, bytes = (Cache.Entry.of i.1 i.2).bytes := by
  refine h key bytes ?_
  rw [Config.shelf, Path.place_child _ History.isName_dirName]
  simpa [entryPlace] using hfile

section SecondResult

variable (hr : Ready config d) (hon : config.cache = true) (ht : ToldApart inputs)
  (hi : (source, config.compiler) ∈ inputs)

include hr hon ht hi

/-- What is looked up and kept on a disk that has grown, if the file at that place was kept for one of
the inputs. -/
theorem Ready.resultFor_eq (hgrows : Grows files d e)
    (hbytes : ∀ bytes, e.get? (entryPlace config d.workDir key) = some (.file bytes) →
      ∃ i ∈ inputs, bytes = (Cache.Entry.of i.1 i.2).bytes) :
    (resultFor config (some config.shelf) key source : StateM Disk _) e =
      if e.readBytes (config.shelf.entryPath key) =
          .ok (Cache.Entry.of source config.compiler).bytes
      then (.ok (compile source config.compiler, true), e)
      else (.ok (compile source config.compiler, false),
        config.shelf.keep key (Cache.Entry.of source config.compiler) e) :=
  resultFor_eq_of_fresh ht hi fun bytes hread =>
    hbytes bytes ((hr.readBytes_iff hon hgrows).mp hread).2

/-- A result that was kept before is found again. -/
theorem Repeats.resultFor_kept
    (hhit : d.readBytes (config.shelf.entryPath key) =
      .ok (Cache.Entry.of source config.compiler).bytes) :
    Repeats (Shelved config d.workDir key) (SameResult (compile source config.compiler))
      (resultFor config (some config.shelf) key source) d := by
  have hself : Grows (fun _ => True) d d := .refl hr.plain
  obtain ⟨hl, hfile⟩ := (hr.readBytes_iff hon hself).mp hhit
  have hfound : ∀ {files e}, Grows files d e → e.get? (entryPlace config d.workDir key) =
      some (.file (Cache.Entry.of source config.compiler).bytes) →
      (Folio.resultFor config (some config.shelf) key source : StateM Disk _) e =
        (.ok (compile source config.compiler, true), e) := by
    intro files e hgrows hfile
    rw [hr.resultFor_eq hon ht hi hgrows, if_pos ((hr.readBytes_iff hon hgrows).mpr ⟨hl, hfile⟩)]
    exact fun bytes hbytes => ⟨_, hi, by simpa [hfile] using hbytes.symm⟩
  have hfirst := hfound hself hfile
  refine ⟨?_, fun final e hfinal h => ?_⟩
  · rw [hfirst]
    exact .refl hr.plain
  · rw [hfirst] at hfinal ⊢
    have hsecond : e.get? (entryPlace config d.workDir key) =
        some (.file (Cache.Entry.of source config.compiler).bytes) := by
      rcases h.get? (entryPlace config d.workDir key) with hsame | ⟨bytes, hd, he⟩
      · rw [hsame]
        exact hfinal.present (fun helsewhere => helsewhere.2 ⟨hon, rfl⟩) hfile
      · rw [he, ← hd, hfile]
    rw [hfound (h.grows hfinal) hsecond]
    exact ⟨⟨_, _, rfl, rfl, id⟩, h⟩

/-- A result that is new is kept, and found or made again. -/
theorem Repeats.resultFor_new (hkept : Kept (config.shelf.dir.place d.workDir) inputs d)
    (hmiss : d.readBytes (config.shelf.entryPath key) ≠
      .ok (Cache.Entry.of source config.compiler).bytes) :
    Repeats (Shelved config d.workDir key) (SameResult (compile source config.compiler))
      (resultFor config (some config.shelf) key source) d := by
  have hself : Grows (fun _ => True) d d := .refl hr.plain
  have hfirst : (Folio.resultFor config (some config.shelf) key source : StateM Disk _) d =
      (.ok (compile source config.compiler, false),
        config.shelf.keep key (Cache.Entry.of source config.compiler) d) := by
    rw [hr.resultFor_eq hon ht hi hself fun bytes => kept_entryPlace hkept, if_neg hmiss]
  obtain ⟨hkeep, hagain⟩ := hr.keep_replays hon key (Cache.Entry.of source config.compiler)
  refine ⟨?_, fun final e hfinal h => ?_⟩
  · rw [hfirst]
    dsimp only
    exact hkeep.mono fun place hplace => .inr ⟨hon, hplace⟩
  · rw [hfirst] at hfinal ⊢
    dsimp only at hfinal ⊢
    have hlater : Grows (fun _ => True) _ final := hfinal.mono fun _ _ => trivial
    have hgrows : Grows (fun _ => True) d e := h.grows ((hkeep.mono fun _ _ => trivial).trans hlater)
    rw [hr.resultFor_eq hon ht hi hgrows]
    · split
      · next hread => exact ⟨⟨_, _, rfl, rfl, by simp⟩, hr.replay_found hon h hgrows hread⟩
      · dsimp only
        exact ⟨⟨_, _, rfl, rfl, id⟩, hagain final e hlater h⟩
    · intro bytes hfile
      rcases h.get? (entryPlace config d.workDir key) with hsame | ⟨bytes', hd, he⟩
      · have hkeep := hfinal.of_file (fun helsewhere => helsewhere.2 ⟨hon, rfl⟩)
          (hsame.symm.trans hfile)
        rcases Cache.file_of_keep hkeep with hfile | hbytes
        · exact kept_entryPlace hkept hfile
        · exact ⟨_, hi, hbytes⟩
      · exact kept_entryPlace hkept (hd.trans (he.symm.trans hfile))

end SecondResult

/-- A document gets the same result in the second run. -/
theorem Repeats.resultFor (hr : Ready config d)
    (hkept : config.cache = true → Kept (config.shelf.dir.place d.workDir) inputs d)
    (ht : config.cache = true → ToldApart inputs) (hi : (source, config.compiler) ∈ inputs) :
    Repeats (Shelved config d.workDir key) (SameResult (compile source config.compiler))
      (resultFor config config.cache? key source) d := by
  rw [Config.cache?_eq]
  by_cases hon : config.cache = true
  · rw [if_pos hon]
    by_cases hhit : d.readBytes (config.shelf.entryPath key) =
        .ok (Cache.Entry.of source config.compiler).bytes
    · exact .resultFor_kept hr hon (ht hon) hi hhit
    · exact .resultFor_new hr hon (ht hon) hi (hkept hon) hhit
  · rw [if_neg hon]
    exact ⟨.refl hr.plain, fun final e _ h => ⟨⟨_, _, rfl, rfl, id⟩, h⟩⟩

theorem Generated.harmless {place : Place} (h : Generated place) : Harmless place := by
  intro name hname
  obtain ⟨-, hema, hdir⟩ := h.last hname
  refine ⟨?_, ?_⟩
  · rintro rfl
    exact hdir (by decide)
  · rintro stem rfl
    exact hema (by simp)

theorem IsOutput.not_shelved {place : Place} (h : IsOutput place) (config : Config) (workDir : Place)
    (key : String) : ¬Shelved config workDir key place := by
  rintro ⟨-, rfl⟩
  obtain ⟨name, hmem, hlast⟩ := h
  have hends : ∀ name ∈ Site.outputNames, name.toList.getLast? ≠ some 'n' := by decide
  have hname : Cache.entryName key = name := by simpa [entryPlace] using hlast
  exact hends name hmem (hname ▸ Cache.getLast?_entryName key)

theorem Shelved.generated {workDir place : Place} (h : Shelved config workDir key place) :
    Generated place := .inr ⟨key, by simp [h.2, entryPlace]⟩

/-- Nothing that a build writes is a document, so the text of a document stays the same. -/
theorem Disk.Finds.readText_eq {file : Path} {base : Place} {names : List String}
    {dirs : Place → Prop} (h : d.Finds config.srcDir file base names) (hd : d.Plain)
    (hchanges : d.Changes files dirs e) (hfiles : ∀ place, files place → Harmless place) :
    e.readText file = d.readText file := by
  have hstep := InStep.readSource hd hchanges h
    fun place stem hlast hplace => (hfiles place hplace _ hlast).2 stem rfl
  simpa [InStep, FileSystem.readText_eq] using hstep.1

/-- A disk stays ready while files of a build are written. -/
theorem Ready.grows (h : Ready config d) (hgrows : Grows Generated d e) : Ready config e :=
  h.changes hgrows.toChanges fun hplace => (hplace.harmless Cache.dirName (by simp)).1 rfl

/-- What a document touches is a file of the build. -/
theorem Repeats.generated {α : Type} {R : α → α → Prop} {x : StateM Disk α}
    (h : Repeats (Shelved config d.workDir key) R x d) : Grows Generated d (x d).2 := by
  refine h.grows.mono ?_
  rintro place (houtput | hshelved)
  · exact .inl houtput
  · exact hshelved.generated

/-- The report of a document in the second run: the same, but the result may have been kept. -/
structure FileReport.Again (first second : FileReport) : Prop where
  source : second.source = first.source
  outDir : second.outDir = first.outDir
  success : second.success = first.success
  errors : second.errors = first.errors
  warnings : second.warnings = first.warnings
  cached : first.cached = true → second.cached = true

def SameReport (first second : Except Duration.Fault FileReport) : Prop :=
  ∃ report report', first = .ok report ∧ second = .ok report' ∧ report.Again report'

/-- The report of a document whose files were written, or could not be. -/
def FileReport.afterWriting (report : FileReport) : Except Error Site.Paths → FileReport
  | .ok _ => report
  | .error e => { report with success := false, errors := report.errors ++ [e.message] }

theorem FileReport.Again.afterWriting {first second : FileReport} (h : first.Again second)
    (written : Except Error Site.Paths) : (first.afterWriting written).Again (second.afterWriting written) := by
  cases written with
  | ok paths => exact h
  | error e =>
    exact ⟨h.source, h.outDir, rfl, congrArg (· ++ [e.message]) h.errors, h.warnings, h.cached⟩

/-- The report of a document with a result. -/
def Result.report (result : Result) (file outDir : Path) (cached : Bool) : FileReport :=
  { source := file
    outDir := outDir
    success := result.success
    cached := cached
    errors := result.errors
    warnings := result.warnings }

theorem deliver_eq (file outDir : Path) {result : Result} (cached : Bool)
    (hsuccess : result.success = true) (d : Disk) :
    deliver file outDir result cached d =
      let written := (Site.writeOutputs outDir result.output :
        ExceptT Error (StateM Disk) Site.Paths).run d
      (.ok ((result.report file outDir cached).afterWriting written.1), written.2) := by
  unfold deliver
  rw [if_pos hsuccess, bind_apply]
  generalize (ExceptT.run (Site.writeOutputs outDir result.output) : StateM Disk _) d = written
  obtain ⟨_ | paths, d'⟩ := written <;> rfl

/-- The files of a document are written with the same outcome. -/
theorem deliver_again (file : Path) {dir : Path} {result : Result} {cached cached' : Bool}
    (hsuccess : result.success = true)
    (hwrite : Replays IsOutput
      (Site.writeOutputs dir result.output : ExceptT Error (StateM Disk) Site.Paths).run d)
    (hcached : cached = true → cached' = true) :
    Grows IsOutput d (deliver file dir result cached d).2 ∧
      ∀ final e, Grows (fun _ => True) (deliver file dir result cached d).2 final → Replay final d e →
        SameReport (deliver file dir result cached d).1 (deliver file dir result cached' e).1 ∧
          Replay final (deliver file dir result cached d).2 (deliver file dir result cached' e).2 := by
  simp only [deliver_eq file dir _ hsuccess]
  refine ⟨hwrite.1, fun final e hfinal h => ?_⟩
  obtain ⟨hsame, hreplay⟩ := hwrite.2 final e hfinal h
  rw [hsame]
  have hreport : (result.report file dir cached).Again (result.report file dir cached') :=
    ⟨rfl, rfl, rfl, rfl, rfl, hcached⟩
  exact ⟨⟨_, _, rfl, rfl, hreport.afterWriting _⟩, hreplay⟩

theorem buildFile_of_unread (config : Config) (cache : Option Cache) {file : Path}
    {fault : FileSystem.TextFault} (h : d.readText file = .error fault) (outDir : Path) :
    (buildFile config cache file outDir : StateM Disk _) d =
      (.ok { source := file, outDir := outDir, errors := [(Error.read file fault).message] }, d) := by
  simp only [buildFile, bind, StateT.bind, FileSystem.readText_eq, h]
  rfl

theorem buildFile_of_result {file : Path} {result : Result} {cached : Bool}
    (h : d.readText file = .ok source)
    (hresult : ((resultFor config config.cache? (cacheKey config file) source : StateM Disk _) d).1 =
      .ok (result, cached)) (outDir : Path) :
    (buildFile config config.cache? file outDir : StateM Disk _) d = deliver file outDir result cached
      ((resultFor config config.cache? (cacheKey config file) source : StateM Disk _) d).2 := by
  let v : History.Visit := ⟨config, file, outDir, d⟩
  have hs : v.source? = some source := by simp [History.Visit.source?, v, h, Except.toOption]
  have hmidway : v.midway = (v.result source).2 := by rw [History.Visit.midway, hs, Option.elim_some]
  exact (History.Visit.built_of_source hs hresult).trans (by rw [hmidway]; rfl)

/-- The first run gets an answer. -/
theorem Repeats.exists_answer {shelved : Place → Prop} {α : Type} {R : α → α → Prop}
    {x : StateM Disk α} (h : Repeats shelved R x d) : ∃ b, R (x d).1 b :=
  ⟨_, (h.again _ _ (.refl h.grows.plain) (.refl h.grows.plain)).1⟩

/-- A document is built the same in the second run. -/
theorem Repeats.buildFile {file : Path} {base : Place} {names words : List String}
    (hr : Ready config d) (hfile : d.Finds config.srcDir file base names) (hway : Way words)
    (hkept : config.cache = true → Kept (config.shelf.dir.place d.workDir) inputs d)
    (ht : config.cache = true → ToldApart inputs)
    (hi : ∀ source, d.readText file = .ok source → (source, config.compiler) ∈ inputs) :
    Repeats (Shelved config d.workDir (cacheKey config file)) SameReport
      (buildFile config config.cache? file (config.outDir.descend words)) d := by
  have hread : ∀ e, Grows Generated d e → e.readText file = d.readText file := fun e hgrows =>
    hfile.readText_eq hr.plain hgrows.toChanges fun _ hplace => hplace.harmless
  have hlater : ∀ q, Elsewhere (Shelved config d.workDir (cacheKey config file)) q → Generated q :=
    fun q hq => hq.1
  cases hsource : d.readText file with
  | error fault =>
    have hfirst := buildFile_of_unread config config.cache? hsource (config.outDir.descend words)
    refine ⟨?_, fun final e hfinal h => ?_⟩
    · rw [hfirst]
      exact .refl hr.plain
    · rw [hfirst] at hfinal ⊢
      have hsource' := (hread e (h.grows (hfinal.mono hlater))).trans hsource
      rw [buildFile_of_unread config config.cache? hsource']
      exact ⟨⟨_, _, rfl, rfl, ⟨rfl, rfl, rfl, rfl, rfl, id⟩⟩, h⟩
  | ok source =>
    have hresult : Repeats _ _ (Folio.resultFor config config.cache? (cacheKey config file) source) d :=
      .resultFor hr hkept ht (hi source hsource)
    obtain ⟨_, cached, _, hcached, -⟩ := hresult.exists_answer
    have hfirst := buildFile_of_result hsource hcached (config.outDir.descend words)
    have hr' := hr.grows hresult.generated
    have hwrite := Replays.writeOutputs hr'.plain hr'.lead hr'.dir hr'.taken hway
      (compile source config.compiler).output
    have hdeliver := deliver_again file rfl hwrite (fun h : cached = true => h)
    have hspared : Grows (Elsewhere _) _ _ := hdeliver.1.mono fun q hq =>
      ⟨.inl hq, hq.not_shelved config d.workDir (cacheKey config file)⟩
    refine ⟨?_, fun final e hfinal h => ?_⟩
    · rw [hfirst]
      exact hresult.grows.trans (hdeliver.1.mono fun _ => .inl)
    · rw [hfirst] at hfinal ⊢
      obtain ⟨⟨_, cached', hcached₁, hcached', hmono⟩, hreplay⟩ :=
        hresult.again final e (hspared.trans hfinal) h
      obtain ⟨-, rfl⟩ := Prod.mk.inj (Except.ok.inj (hcached.symm.trans hcached₁))
      have hgrows : Grows Generated d final :=
        hresult.generated.trans ((hspared.trans hfinal).mono hlater)
      rw [buildFile_of_result ((hread e (h.grows hgrows)).trans hsource) hcached']
      exact (deliver_again file rfl hwrite hmono).2 final _ (hfinal.mono fun _ _ => trivial) hreplay

end Folio
