import Folio.Build
import Folio.Proofs.DiskWrites
import Folio.Proofs.HashInputs

/-! What looking up and keeping the result of a document does, as long as all files of kept results
hold what was kept there. -/

namespace Folio

namespace Cache

/-- What is kept for a text and its options. -/
def Entry.of (source : String) (options : Options) : Entry :=
  ⟨Cache.hash source options, compile source options⟩

/-- The content of its file. -/
def Entry.bytes (e : Entry) : List UInt8 := Text.utf8 e.toJson.compact

/-- No two of these texts with their options have one digest. -/
def ToldApart (inputs : List (String × Options)) : Prop :=
  ∀ i ∈ inputs, ∀ j ∈ inputs, hash i.1 i.2 = hash j.1 j.2 → hashInput i.1 i.2 = hashInput j.1 j.2

/-- A file that holds nothing but what is kept for one of the inputs, if it can be read. -/
def Fresh (inputs : List (String × Options)) (p : Path) (d : Disk) : Prop :=
  ∀ bytes, d.readBytes p = .ok bytes → ∃ i ∈ inputs, bytes = (Entry.of i.1 i.2).bytes

end Cache

/-- The text of a file on a disk. -/
def Disk.readText (d : Disk) (p : Path) : Except FileSystem.TextFault String :=
  match d.readBytes p with
  | .error e => .error (.os e)
  | .ok bytes => (Text.ofUtf8 bytes).mapError .notText

theorem FileSystem.readText_eq (p : Path) (d : Disk) :
    (readText p : StateM Disk (Except TextFault String)) d = (d.readText p, d) := by
  change (match d.readBytes p with | .error e => _ | .ok bytes => _ : StateM Disk _) d = _
  unfold Disk.readText
  cases d.readBytes p <;> rfl

theorem FileSystem.writeBytes_eq (p : Path) (bytes : List UInt8) (d : Disk) :
    (writeBytes p bytes : StateM Disk (Except OsError Unit)) d =
      Disk.attempt (·.writeBytes p bytes) d := rfl

namespace Cache

variable {inputs : List (String × Options)} {c : Cache} {key source : String} {options : Options}
  {d d' : Disk} {p : Path}

/-- Where nothing can be read, nothing is found. -/
theorem lookup_unreadable {e : OsError} (h : d.readBytes (c.entryPath key) = .error e) :
    (c.lookup key source options : StateM Disk _) d = (.ok none, d) := by
  have hr : d.readText (c.entryPath key) = .error (.os e) := by
    rw [Disk.readText, h]
  simp only [lookup, bind, StateT.bind, FileSystem.readText_eq, hr]
  rfl

/-- An entry that can be read back is found by those who have its digest. -/
theorem lookup_readable {e : Entry} (h : d.readBytes (c.entryPath key) = .ok e.bytes)
    (he : Entry.read e.toJson.compact = .ok e) :
    (c.lookup key source options : StateM Disk _) d =
      (.ok (if e.hash = hash source options then some e.result else none), d) := by
  have hr : d.readText (c.entryPath key) = .ok e.toJson.compact := by
    rw [Disk.readText, h, Entry.bytes]
    simp only [Text.ofUtf8_utf8]
    rfl
  simp only [lookup, bind, StateT.bind, FileSystem.readText_eq, hr, he]
  rfl

/-- What is found is what the document compiles to, and looking for it changes nothing. -/
theorem lookup_fresh (ht : ToldApart inputs) (hi : (source, options) ∈ inputs)
    (h : Fresh inputs (c.entryPath key) d) :
    (c.lookup key source options : StateM Disk _) d = (.ok none, d) ∨
      (c.lookup key source options : StateM Disk _) d = (.ok (some (compile source options)), d) := by
  cases hread : d.readBytes (c.entryPath key) with
  | error e => exact .inl (lookup_unreadable hread)
  | ok bytes =>
    obtain ⟨⟨source', options'⟩, hi', hbytes⟩ := h bytes hread
    rw [hbytes] at hread
    rw [lookup_readable hread (Entry.read_compact rfl)]
    by_cases hhash : hash source' options' = hash source options
    · obtain ⟨rfl, rfl⟩ := hashInput_injective (ht _ hi' _ hi hhash)
      exact .inr (by simp [Entry.of])
    · exact .inl (by simp [Entry.of, hhash])

/-- The disk after an entry was kept: with its file, unless that cannot be written. -/
def keep (c : Cache) (key : String) (e : Entry) (d : Disk) : Disk :=
  (d.writeBytes (c.entryPath key) e.bytes).toOption.getD d

theorem store_eq (c : Cache) (key source : String) (options : Options) {result : Result}
    (h : result.success = true) (d : Disk) :
    (c.store key source options result : StateM Disk _) d =
      ((), c.keep key ⟨hash source options, result⟩ d) := by
  simp only [store, h, if_true, bind, StateT.bind, FileSystem.writeBytes_eq, Disk.attempt, keep,
    Entry.bytes]
  cases d.writeBytes (c.entryPath key)
      (Text.utf8 (Entry.toJson ⟨hash source options, result⟩).compact) <;> rfl

/-- A file stays fresh when what belongs to an input is kept in it, or in another file. -/
theorem Fresh.keep (h : Fresh inputs p d) (hi : (source, options) ∈ inputs) :
    Fresh inputs p (c.keep key (Entry.of source options) d) := by
  intro bytes hread
  unfold Cache.keep at hread
  cases hw : d.writeBytes (c.entryPath key) (Entry.of source options).bytes with
  | error e => exact h bytes (by simpa [hw, Except.toOption] using hread)
  | ok d' =>
    simp only [hw, Except.toOption, Option.getD_some] at hread
    rcases Disk.readBytes_writeBytes hw hread with hbytes | hread
    · exact ⟨_, hi, hbytes⟩
    · exact h bytes hread

end Cache

variable {inputs : List (String × Options)} {config : Config} {cache : Option Cache} {c : Cache}
  {key source : String} {d : Disk}

/-- On a disk that is a value, compiling takes no time. -/
theorem compile_at_once (source : String) (options : Options) :
    { compile source options with elapsed := ⟨0⟩ } = compile source options := rfl

theorem resultFor_found {result : Result}
    (h : (c.lookup key source config.compiler : StateM Disk _) d = (.ok (some result), d)) :
    (resultFor config (some c) key source : StateM Disk _) d = (.ok (result, true), d) := by
  simp only [resultFor, bind, StateT.bind, h]
  rfl

theorem resultFor_not_found
    (h : (c.lookup key source config.compiler : StateM Disk _) d = (.ok none, d)) :
    (resultFor config (some c) key source : StateM Disk _) d =
      (.ok (compile source config.compiler, false),
        c.keep key (Cache.Entry.of source config.compiler) d) := by
  have hok : (compile source config.compiler).success = true := rfl
  simp only [resultFor, bind, StateT.bind, pure, StateT.pure, h, FileSystem.now, FileSystem.since,
    Nat.sub_self, compile_at_once, Cache.store_eq c key source config.compiler hok d]
  rfl

/-- The result of a document is what it compiles to, kept or new, and all files of kept results that
were fresh still are. -/
theorem resultFor_fresh (ht : Cache.ToldApart inputs) (hi : (source, config.compiler) ∈ inputs)
    (h : ∀ c ∈ cache, Cache.Fresh inputs (c.entryPath key) d) :
    ∃ cached d', (resultFor config cache key source : StateM Disk _) d =
        (.ok (compile source config.compiler, cached), d') ∧
      ∀ p, Cache.Fresh inputs p d → Cache.Fresh inputs p d' := by
  cases cache with
  | none => exact ⟨false, d, rfl, fun p hp => hp⟩
  | some c =>
    rcases Cache.lookup_fresh ht hi (h c rfl) with hl | hl
    · exact ⟨false, _, resultFor_not_found hl, fun p hp => hp.keep hi⟩
    · exact ⟨true, d, resultFor_found hl, fun p hp => hp⟩

end Folio
