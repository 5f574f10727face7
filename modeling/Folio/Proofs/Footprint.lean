import Folio.Proofs.Discovery
import Folio.Proofs.Lockstep

/-! What building a document touches: its output files, the file of its kept result, and directories on
the way to its output directory. -/

namespace Folio

namespace Affects

variable {workDir : Place} {files dirs : Place → Prop}

theorem readText (p : Path) : Affects workDir files dirs (FileSystem.readText p : StateM Disk _) := by
  intro d hd _
  rw [FileSystem.readText_eq]
  exact .refl hd

theorem lookup {c : Cache} {key : String} (source : String) (options : Options)
    (hentry : files ((c.entryPath key).place workDir)) :
    Affects workDir files dirs (c.lookup key source options : StateM Disk _) := by
  unfold Cache.lookup
  refine (readText _).bind fun text => ?_
  split
  · exact pure _
  · split
    · exact pure _
    · split
      · exact pure _
      · exact (removeFile hentry).bind fun _ => pure _

theorem store {c : Cache} {key : String} (source : String) (options : Options) (result : Result)
    (hentry : files ((c.entryPath key).place workDir)) :
    Affects workDir files dirs (c.store key source options result : StateM Disk _) := by
  unfold Cache.store
  split
  · exact (writeBytes _ hentry).bind fun _ => pure _
  · exact pure _

theorem now : Affects workDir files dirs (FileSystem.now : StateM Disk Nat) := fun _ hd _ => .refl hd

theorem resultFor (config : Config) {cache : Option Cache} {key : String} (source : String)
    (hentry : ∀ c, cache = some c → files ((c.entryPath key).place workDir)) :
    Affects workDir files dirs (resultFor config cache key source : StateM Disk _) := by
  unfold Folio.resultFor
  cases cache with
  | none => exact pure _
  | some c =>
    have hentry := hentry c rfl
    refine (lookup _ _ hentry).bind fun found => ?_
    split
    · exact pure _
    · exact pure _
    · refine now.bind fun start => (now.bind fun _ => pure _).bind fun elapsed => ?_
      exact (store _ _ _ hentry).bind fun _ => pure _

theorem buildFile (config : Config) {cache : Option Cache} {file outDir : Path}
    (hup : .up ∉ outDir.components)
    (hentry : ∀ c, cache = some c → files ((c.entryPath (cacheKey config file)).place workDir))
    (hfiles : ∀ name ∈ Site.outputNames, files (outDir.place workDir ++ [name]))
    (hdirs : ∀ place, place <+: outDir.place workDir → dirs place) :
    Affects workDir files dirs (buildFile config cache file outDir : StateM Disk _) := by
  unfold Folio.buildFile
  refine (readText file).bind fun text => ?_
  split
  · exact pure _
  · refine (resultFor config _ hentry).bind fun result => ?_
    split
    · exact pure _
    · split
      · refine (writeOutputs _ hup hfiles hdirs).bind fun written => ?_
        split <;> exact pure _
      · exact pure _

end Affects

end Folio
