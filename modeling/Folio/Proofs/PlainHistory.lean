import Folio.Proofs.Histories
import Folio.Proofs.PlainDisk

/-! Histories on disks without symbolic links. A build makes directories and writes files of fixed
names, none of which is the name of a kept result, so it leaves kept results alone. -/

namespace Folio

theorem Digest.slash_notMem_toDigits (n : Nat) : '/' ∉ Nat.toDigits 16 n := by
  induction n using Nat.strongRecOn with
  | ind n ih =>
    rw [Nat.toDigits_eq_if (by decide)]
    split
    · simp
    · next h =>
      have hlt : n / 16 < n := by omega
      simp only [List.mem_append, List.mem_singleton, not_or]
      exact ⟨ih _ hlt, (Nat.digitChar_ne _ (by decide)).symm⟩

theorem Digest.slash_notMem_sha256 (message : List UInt8) : '/' ∉ (sha256 message).toList := by
  simp [sha256, hexWord, slash_notMem_toDigits]

/-- The name of a file for a kept result. -/
def Cache.entryName (key : String) : String := Digest.sha256 (Text.utf8 key) ++ ".json"

theorem Cache.entryPath_eq (c : Cache) (key : String) : c.entryPath key = c.dir.child (entryName key) :=
  rfl

theorem Cache.getLast?_entryName (key : String) : (entryName key).toList.getLast? = some 'n' := by
  simp [entryName]

theorem Cache.isName_entryName (key : String) : Path.IsName (entryName key) where
  nonempty h := by simpa [h] using getLast?_entryName key
  noSlash := by simp [entryName, Digest.slash_notMem_sha256]
  notHere h := by simpa [h] using getLast?_entryName key
  notUp h := by simpa [h] using getLast?_entryName key

/-- A program that keeps a plain disk plain, and brings no file of a name. -/
def Spares (name : String) {α : Type} (x : ExceptT Error (StateM Disk) α) : Prop :=
  ∀ d : Disk, d.Plain → d.Leaves name (x.run d).2

theorem FileSystem.orElse_run {α : Type} (call : StateM Disk (Except OsError α))
    (error : OsError → Error) (d : Disk) :
    (orElse call error).run d = ((call d).1.mapError error, (call d).2) := rfl

theorem FileSystem.makeDirs_eq (p : Path) (d : Disk) :
    (makeDirs p : StateM Disk (Except OsError Unit)) d = d.makeDirs p := rfl

namespace Spares

variable {name : String} {α β : Type}

theorem pure (a : α) : Spares name (pure a) := fun _ hd => .refl hd

theorem bind {x : ExceptT Error (StateM Disk) α} {f : α → ExceptT Error (StateM Disk) β}
    (hx : Spares name x) (hf : ∀ a, Spares name (f a)) : Spares name (x >>= f) := by
  intro d hd
  have hx := hx d hd
  rw [History.run_bind]
  generalize x.run d = r at hx
  obtain ⟨_ | a, d'⟩ := r
  · exact hx
  · exact hx.trans (hf a d' hx.plain)

theorem makeDirs (dir : Path) : Spares name (Site.makeDirs dir) := by
  intro d hd
  rw [Site.makeDirs, FileSystem.orElse_run]
  exact .makeFirst hd dir.ancestors

theorem writeText (dir : Path) {other : String} (hn : Path.IsName other) (hne : other ≠ name)
    (text : String) : Spares name (Site.writeText (dir.child other) text) := by
  intro d hd
  rw [Site.writeText, FileSystem.orElse_run, FileSystem.writeBytes_eq, Disk.attempt]
  cases hw : d.writeBytes (dir.child other) (Text.utf8 text) with
  | error e => exact .refl hd
  | ok d' => exact .writeBytes hd hn hne hw

theorem prepareAssets (outDir : Path) : Spares name (Site.prepareAssets outDir) :=
  (makeDirs _).bind fun _ => makeDirs _

theorem writeOutputs (dir : Path) (output : Output) (key : String) :
    Spares (Cache.entryName key) (Site.writeOutputs dir output) := by
  have hwrite : ∀ other ∈ ["index.html", "styles.css", "script.js"], ∀ text,
      Spares (Cache.entryName key) (Site.writeText (dir.child other) text) := by
    intro other hother text
    have hname : Path.IsName other ∧ other.toList.getLast? ≠ some 'n' := by
      revert other
      decide
    refine writeText dir hname.1 ?_ text
    rintro rfl
    exact hname.2 (Cache.getLast?_entryName key)
  unfold Site.writeOutputs
  refine (makeDirs dir).bind fun _ => ?_
  refine (hwrite "index.html" (by simp) output.markup).bind fun _ => ?_
  refine (hwrite "styles.css" (by simp) output.style).bind fun _ => ?_
  exact (hwrite "script.js" (by simp) output.script).bind fun _ => .pure _

end Spares

variable {d : Disk}

theorem bind_apply {α β : Type} (x : StateM Disk α) (f : α → StateM Disk β) (d : Disk) :
    (x >>= f) d = f (x d).1 (x d).2 := rfl

theorem Cache.create_leaves (outDir : Path) (name : String) (hd : d.Plain) :
    d.Leaves name ((Cache.create outDir : StateM Disk Cache) d).2 := by
  unfold create
  generalize outDir.child dirName = dir
  have hmake : d.Leaves name (d.makeDirs dir).2 := .makeFirst hd dir.ancestors
  change d.Leaves name ((if (!d.isPresent dir) = true then _ else _ : StateM Disk Cache) d).2
  split
  · exact hmake
  · exact .refl hd

theorem deliver_leaves (file outDir : Path) (result : Result) (cached : Bool) (key : String)
    (hd : d.Plain) : d.Leaves (Cache.entryName key) (deliver file outDir result cached d).2 := by
  have h := Spares.writeOutputs outDir result.output key d hd
  unfold deliver
  split
  · rw [bind_apply]
    generalize (ExceptT.run (Site.writeOutputs outDir result.output) : StateM Disk _) d = written at h
    obtain ⟨_ | paths, d'⟩ := written <;> exact h
  · exact .refl hd

theorem Disk.Plain.attempt {call : Disk → Except OsError Disk} (hd : d.Plain)
    (h : ∀ d', call d = .ok d' → d'.Plain) : (Disk.attempt call d).2.Plain := by
  unfold Disk.attempt
  cases hc : call d with
  | error e => exact hd
  | ok d' => exact h d' hc

theorem Cache.lookup_plain (c : Cache) (key source : String) (options : Options) (hd : d.Plain) :
    ((c.lookup key source options : StateM Disk _) d).2.Plain := by
  unfold lookup
  generalize c.entryPath key = p
  have hremove : (Disk.attempt (·.removeFile p) d).2.Plain :=
    hd.attempt fun d' hr => hd.removeFile hr
  rw [bind_apply, FileSystem.readText_eq]
  cases d.readText p with
  | error fault => exact hd
  | ok text =>
    dsimp only
    cases Entry.read text with
    | ok entry => exact hd
    | error fault =>
      dsimp only
      cases fault.cause with
      | badTime => exact hd
      | _ => exact hremove

theorem Cache.keep_plain (c : Cache) (key : String) (e : Entry) (hd : d.Plain) :
    (c.keep key e d).Plain := by
  unfold keep
  cases hw : d.writeBytes (c.entryPath key) e.bytes with
  | error e => exact hd
  | ok d' => exact hd.writeBytes hw

theorem resultFor_plain (config : Config) (cache : Option Cache) (key source : String)
    (hd : d.Plain) : ((resultFor config cache key source : StateM Disk _) d).2.Plain := by
  cases cache with
  | none => exact hd
  | some c =>
    have hok : (compile source config.compiler).success = true := rfl
    have hl := c.lookup_plain key source config.compiler hd
    unfold resultFor
    dsimp only
    rw [bind_apply]
    generalize (c.lookup key source config.compiler : StateM Disk _) d = found at hl
    obtain ⟨fault | _ | result, d'⟩ := found
    · exact hl
    · have hkeep := c.keep_plain key (.of source config.compiler) hl
      simp only [bind, StateT.bind, pure, StateT.pure, FileSystem.now, FileSystem.since, Nat.sub_self,
        compile_at_once, Cache.store_eq c key source config.compiler hok d']
      exact hkeep
    · exact hl

namespace History

theorem Visit.midway_plain {v : Visit} (h : v.disk.Plain) : v.midway.Plain := by
  unfold midway
  cases v.source? with
  | none => exact h
  | some source => exact resultFor_plain v.config v.config.cache? v.key source h

theorem Visit.built_leaves {v : Visit} (h : v.midway.Plain) (key : String) :
    v.midway.Leaves (Cache.entryName key) v.built.2 := by
  cases hs : v.source? with
  | none =>
    rw [built_of_unread hs]
    exact .refl h
  | some source =>
    cases hr : (v.result source).1 with
    | ok r =>
      rw [built_of_source hs hr]
      exact deliver_leaves v.file v.outDir r.1 r.2 key h
    | error fault =>
      rw [built_of_fault hs hr]
      exact .refl h

/-- A move that brings no file with the name of a kept result, unless it looks up and keeps results. -/
def Move.Leaves : Move → Prop
  | visit _ => True
  | other before after => before.Plain → ∀ key, before.Leaves (Cache.entryName key) after

theorem leaves_targetMoves (config : Config) (targets : List Target) (d : Disk) :
    ∀ m ∈ targetMoves config targets d, m.Leaves := by
  induction targets generalizing d with
  | nil => simp [targetMoves]
  | cons target targets ih =>
    cases target with
    | conflict file outDir owner => exact ih d
    | build file outDir =>
      let v : Visit := ⟨config, file, outDir, d⟩
      rintro m hm
      rcases List.mem_cons.mp hm with rfl | hm
      · trivial
      rcases List.mem_cons.mp hm with rfl | hm
      · exact fun hmid key => v.built_leaves hmid key
      · exact ih v.built.2 m hm

theorem leaves_buildMoves (config : Config) (d : Disk) : ∀ m ∈ buildMoves config d, m.Leaves := by
  have hassets : d.Plain → ∀ key, d.Leaves (Cache.entryName key)
      ((Site.prepareAssets config.outDir : ExceptT Error (StateM Disk) Unit).run d).2 :=
    fun hd key => Spares.prepareAssets config.outDir d hd
  unfold buildMoves
  split
  · generalize (Site.prepareAssets config.outDir : ExceptT Error (StateM Disk) Unit).run d = prepared
      at hassets
    obtain ⟨e | _, d'⟩ := prepared
    · intro m hm
      obtain rfl := List.mem_singleton.mp hm
      exact hassets
    · intro m hm
      rcases List.mem_cons.mp hm with rfl | hm
      · intro hd key
        have hd' := hassets hd key
        split
        · exact hd'.trans (Cache.create_leaves config.outDir _ hd'.plain)
        · exact hd'
      · exact leaves_targetMoves config _ _ m hm
  · simp

theorem Move.Leaves.plain {m : Move} (h : m.Leaves) (hb : m.before.Plain) : m.after.Plain := by
  cases m with
  | visit v => exact Visit.midway_plain hb
  | other before after => exact (h hb "").plain

theorem isName_dirName : Path.IsName Cache.dirName := by decide

end History

end Folio
