import Folio.Proofs.CacheEntries

/-! Histories of a project: builds one after the other, with any changes to the disk between them. A
history is a row of moves, and the moves that look up and keep results are told from all others. -/

namespace Folio

/-- What building a document does with its result. -/
def deliver (file outDir : Path) (result : Result) (cached : Bool) :
    StateM Disk (Except Duration.Fault FileReport) := do
  let report : FileReport :=
    { source := file
      outDir := outDir
      success := result.success
      cached := cached
      errors := result.errors
      warnings := result.warnings }
  if result.success then
    match ← (Site.writeOutputs outDir result.output).run with
    | .ok _ => return .ok report
    | .error e =>
      return .ok { report with success := false, errors := report.errors ++ [e.message] }
  else return .ok report

/-- Where the results of a build are kept, if they are. -/
def Config.cache? (config : Config) : Option Cache :=
  if config.cache then some ⟨config.outDir.child Cache.dirName⟩ else none

namespace History

/-- A document that is about to be built. -/
structure Visit where
  config : Config
  file : Path
  outDir : Path
  disk : Disk

namespace Visit

def key (v : Visit) : String := cacheKey v.config v.file

/-- The file of the document's kept result. -/
def entry? (v : Visit) : Option Path := v.config.cache?.map (·.entryPath v.key)

def source? (v : Visit) : Option String := (v.disk.readText v.file).toOption

def input? (v : Visit) : Option (String × Options) := v.source?.map (·, v.config.compiler)

/-- The result that is used for the document, and the disk after it was looked up and kept. -/
def result (v : Visit) (source : String) : Except Duration.Fault (Result × Bool) × Disk :=
  (resultFor v.config v.config.cache? v.key source : StateM Disk _) v.disk

/-- The disk when the result is there. -/
def midway (v : Visit) : Disk := v.source?.elim v.disk fun source => (v.result source).2

/-- The report of the document, and the disk after it was built. -/
def built (v : Visit) : Except Duration.Fault FileReport × Disk :=
  (buildFile v.config v.config.cache? v.file v.outDir : StateM Disk _) v.disk

variable {v : Visit} {source : String}

theorem readText_of_source (hs : v.source? = some source) :
    v.disk.readText v.file = .ok source := by
  unfold source? at hs
  cases hread : v.disk.readText v.file with
  | error e => simp [hread, Except.toOption] at hs
  | ok text => simpa [hread, Except.toOption] using hs

theorem result_eq (hs : v.source? = some source) :
    (resultFor v.config v.config.cache? (cacheKey v.config v.file) source : StateM Disk _) v.disk =
      ((v.result source).1, v.midway) := by
  rw [midway, hs]
  rfl

/-- A document with a result is built from it. -/
theorem built_of_source {result : Result} {cached : Bool} (hs : v.source? = some source)
    (hr : (v.result source).1 = .ok (result, cached)) :
    v.built = deliver v.file v.outDir result cached v.midway := by
  simp only [built, buildFile, bind, StateT.bind, FileSystem.readText_eq, readText_of_source hs,
    result_eq hs, hr]
  rfl

/-- Nothing more happens to the disk for a document without a result. -/
theorem built_of_fault {fault : Duration.Fault} (hs : v.source? = some source)
    (hr : (v.result source).1 = .error fault) : v.built.2 = v.midway := by
  simp only [built, buildFile, bind, StateT.bind, FileSystem.readText_eq, readText_of_source hs,
    result_eq hs, hr]
  rfl

/-- Nothing happens to the disk for a document that cannot be read. -/
theorem built_of_unread (hs : v.source? = none) : v.built.2 = v.midway := by
  rw [midway, hs]
  unfold source? at hs
  cases hread : v.disk.readText v.file with
  | ok text => simp [hread, Except.toOption] at hs
  | error fault =>
    simp only [built, buildFile, bind, StateT.bind, FileSystem.readText_eq, hread]
    rfl

end Visit

/-- A part of a history: a document gets its result, or anything else happens to the disk. -/
inductive Move where
  | visit (v : Visit)
  | other (before after : Disk)

namespace Move

def before : Move → Disk
  | visit v => v.disk
  | other before _ => before

def after : Move → Disk
  | visit v => v.midway
  | other _ after => after

def visit? : Move → Option Visit
  | visit v => some v
  | other _ _ => none

/-- Nothing new can be read from a file after the move, unless it looks up and keeps a result. -/
def Spares (p : Path) : Move → Prop
  | visit _ => True
  | other before after => ∀ bytes, after.readBytes p = .ok bytes → before.readBytes p = .ok bytes

end Move

/-- Building documents one after the other. -/
def targetMoves (config : Config) : List Target → Disk → List Move
  | [], _ => []
  | .conflict .. :: targets, d => targetMoves config targets d
  | .build file outDir :: targets, d =>
    let v : Visit := ⟨config, file, outDir, d⟩
    .visit v :: .other v.midway v.built.2 :: targetMoves config targets v.built.2

/-- Building a project. Nothing comes after directories that cannot be made. -/
def buildMoves (config : Config) (d : Disk) : List Move :=
  if d.isDir config.srcDir then
    match (Site.prepareAssets config.outDir : ExceptT Error (StateM Disk) Unit).run d with
    | (.error _, d') => [.other d d']
    | (.ok _, d') =>
      let ready := if config.cache then ((Cache.create config.outDir : StateM Disk Cache) d').2 else d'
      .other d ready ::
        targetMoves config (assign config (documentsAmong (d.filesBelow config.srcDir))) ready
  else []

/-- What can happen to a project. -/
inductive Event where
  /-- Documents are edited, added or removed, or anything else is done to the disk. -/
  | change (edit : Disk → Disk)
  | build (config : Config)

def Event.run : Event → Disk → Disk
  | change edit, d => edit d
  | build config, d => ((buildProject config : ExceptT Error (StateM Disk) Report).run d).2

def Event.moves : Event → Disk → List Move
  | change edit, d => [.other d (edit d)]
  | build config, d => buildMoves config d

/-- The moves of a history. -/
def moves : List Event → Disk → List Move
  | [], _ => []
  | event :: events, d => event.moves d ++ moves events (event.run d)

def visits (events : List Event) (d : Disk) : List Visit := (moves events d).filterMap Move.visit?

def inputs (events : List Event) (d : Disk) : List (String × Options) :=
  (visits events d).filterMap Visit.input?

def entries (events : List Event) (d : Disk) : List Path :=
  (visits events d).filterMap Visit.entry?

/-- Moves that lead from a disk to another one: each starts from what the one before it leaves. -/
inductive Linked : Disk → List Move → Disk → Prop
  | nil (d : Disk) : Linked d [] d
  | cons {m : Move} {ms : List Move} {d : Disk} (h : Linked m.after ms d) : Linked m.before (m :: ms) d

theorem Linked.append {d d' d'' : Disk} {ms ns : List Move} (h : Linked d ms d')
    (h' : Linked d' ns d'') : Linked d (ms ++ ns) d'' := by
  induction h with
  | nil => exact h'
  | cons _ ih => exact .cons (ih h')

/-- What holds at the start, and is kept by each move, holds before each move and at the end. -/
theorem Linked.invariant {d d' : Disk} {ms : List Move} (h : Linked d ms d') (Inv : Disk → Prop)
    (hd : Inv d) (hstep : ∀ m ∈ ms, Inv m.before → Inv m.after) :
    (∀ m ∈ ms, Inv m.before) ∧ Inv d' := by
  induction h with
  | nil => exact ⟨by simp, hd⟩
  | @cons m ms d' _ ih =>
    obtain ⟨hbefore, hend⟩ := ih (hstep m (by simp) hd) (fun n hn => hstep n (by simp [hn]))
    refine ⟨fun n hn => ?_, hend⟩
    rcases List.mem_cons.mp hn with rfl | hn
    · exact hd
    · exact hbefore n hn

theorem linked_other (before after : Disk) : Linked before [.other before after] after :=
  .cons (m := .other before after) (.nil after)

theorem linked_targetMoves (config : Config) (targets : List Target) (d : Disk) :
    Linked d (targetMoves config targets d)
      ((buildTargets config config.cache? targets : StateM Disk _) d).2 := by
  induction targets generalizing d with
  | nil => exact .nil d
  | cons target targets ih =>
    cases target with
    | conflict file outDir owner => exact ih d
    | build file outDir =>
      let v : Visit := ⟨config, file, outDir, d⟩
      have hrest : Linked v.midway (.other v.midway v.built.2 :: targetMoves config targets v.built.2)
          ((buildTargets config config.cache? targets : StateM Disk _) v.built.2).2 :=
        (linked_other v.midway v.built.2).append (ih v.built.2)
      exact .cons (m := .visit v) hrest

theorem run_lift_bind {α β : Type} (x : StateM Disk α) (f : α → ExceptT Error (StateM Disk) β)
    (d : Disk) : ((liftM x : ExceptT Error (StateM Disk) α) >>= f).run d = (f (x d).1).run (x d).2 :=
  rfl

theorem run_bind {α β : Type} (x : ExceptT Error (StateM Disk) α)
    (f : α → ExceptT Error (StateM Disk) β) (d : Disk) :
    (x >>= f).run d = match x.run d with
      | (.ok a, d') => (f a).run d'
      | (.error e, d') => (.error e, d') := by
  change ExceptT.bindCont f (x.run d).1 (x.run d).2 = _
  rcases x.run d with ⟨_ | a, d'⟩ <;> rfl

theorem now_eq (d : Disk) : (FileSystem.now : StateM Disk Nat) d = (0, d) := rfl

theorem isDir_eq (p : Path) (d : Disk) :
    (FileSystem.isDir p : StateM Disk Bool) d = (d.isDir p, d) := rfl

theorem findDocuments_eq (dir : Path) (d : Disk) :
    (findDocuments dir : StateM Disk (List Path)) d = (documentsAmong (d.filesBelow dir), d) := rfl

theorem create_fst (outDir : Path) (d : Disk) :
    ((Cache.create outDir : StateM Disk Cache) d).1 = ⟨outDir.child Cache.dirName⟩ := by
  change ((if (!d.isPresent (outDir.child Cache.dirName)) = true then _ else _ :
    StateM Disk Cache) d).1 = _
  split <;> rfl

/-- Building a project: directories are made, and all documents that were there before are built. -/
theorem run_buildProject (config : Config) (d : Disk) :
    (buildProject config : ExceptT Error (StateM Disk) Report).run d =
      if d.isDir config.srcDir then
        match (Site.prepareAssets config.outDir : ExceptT Error (StateM Disk) Unit).run d with
        | (.error e, d') => (.error e, d')
        | (.ok _, d') =>
          let ready := if config.cache then ((Cache.create config.outDir : StateM Disk Cache) d').2 else d'
          let built := (buildTargets config config.cache?
            (assign config (documentsAmong (d.filesBelow config.srcDir))) : StateM Disk _) ready
          ((built.1.mapError .time).map fun reports => { files := reports, elapsedMs := 0 }, built.2)
      else (.error (.missingSourceDir config.srcDir), d) := by
  unfold buildProject
  rw [run_lift_bind, now_eq, run_lift_bind, isDir_eq]
  cases hdir : d.isDir config.srcDir with
  | false => rfl
  | true =>
    simp only [Bool.not_true, Bool.false_eq_true, if_false, if_true]
    rw [run_lift_bind, findDocuments_eq, run_bind]
    generalize (Site.prepareAssets config.outDir : ExceptT Error (StateM Disk) Unit).run d = prepared
    obtain ⟨e | _, d'⟩ := prepared
    · rfl
    · -- With and without kept results, the documents are built, and only the report comes after them.
      cases hc : config.cache with
      | false =>
        have hnone : config.cache? = none := by simp [Config.cache?, hc]
        simp only [Bool.false_eq_true, if_false, pure_bind, hnone]
        rw [run_lift_bind]
        generalize (buildTargets config none _ : StateM Disk _) d' = built
        obtain ⟨_ | _, _⟩ := built <;> rfl
      | true =>
        have hsome : config.cache? = some ⟨config.outDir.child Cache.dirName⟩ := by
          simp [Config.cache?, hc]
        simp only [if_true, map_eq_pure_bind, bind_assoc, pure_bind, hsome]
        rw [run_lift_bind, run_lift_bind, create_fst]
        generalize (buildTargets config (some _) _ : StateM Disk _) _ = built
        obtain ⟨_ | _, _⟩ := built <;> rfl

theorem linked_buildMoves (config : Config) (d : Disk) :
    Linked d (buildMoves config d)
      ((buildProject config : ExceptT Error (StateM Disk) Report).run d).2 := by
  rw [run_buildProject, buildMoves]
  split
  · generalize (Site.prepareAssets config.outDir : ExceptT Error (StateM Disk) Unit).run d = prepared
    obtain ⟨e | _, d'⟩ := prepared
    · exact linked_other d d'
    · exact (linked_other d _).append (linked_targetMoves config _ _)
  · exact .nil d

/-- The disk after a history. -/
def run (events : List Event) (d : Disk) : Disk := events.foldl (fun d event => event.run d) d

variable {events : List Event} {d : Disk} {v : Visit} {source : String}

theorem mem_visits : v ∈ visits events d ↔ .visit v ∈ moves events d := by
  simp only [visits, List.mem_filterMap]
  constructor
  · rintro ⟨m, hm, hv⟩
    cases m with
    | visit w => cases hv; exact hm
    | other => cases hv
  · exact fun hm => ⟨_, hm, rfl⟩

theorem mem_inputs (hv : v ∈ visits events d) (hs : v.source? = some source) :
    (source, v.config.compiler) ∈ inputs events d :=
  List.mem_filterMap.mpr ⟨v, hv, by simp [Visit.input?, hs]⟩

theorem mem_entries (hv : v ∈ visits events d) {c : Cache} (hc : c ∈ v.config.cache?) :
    c.entryPath v.key ∈ entries events d :=
  List.mem_filterMap.mpr ⟨v, hv, by simp [Visit.entry?, Option.mem_def.mp hc]⟩

end History

end Folio
