import Folio.Proofs.CacheEntries
import Folio.Proofs.Reach

/-! What looking up a kept result does with any content of its file. A text that is not that of a kept
result is removed, and nothing else on the disk changes. Bytes that are no text stay, and a time that is
too large breaks the build off. -/

namespace Folio

theorem Digest.ascii_of_mem_toDigits {n : Nat} {c : Char} (h : c ∈ Nat.toDigits 16 n) :
    c.utf8Size = 1 ∧ c ≠ '\x00' := by
  have hdigit : ∀ n : Fin 16, (Nat.digitChar n).utf8Size = 1 ∧ Nat.digitChar n ≠ '\x00' := by decide
  induction n using Nat.strongRecOn with
  | ind n ih =>
    rw [Nat.toDigits_eq_if (by decide)] at h
    split at h
    · next hlt => exact List.mem_singleton.mp h ▸ hdigit ⟨n, hlt⟩
    · next hle =>
      rcases List.mem_append.mp h with h | h
      · exact ih (n / 16) (by omega) h
      · exact List.mem_singleton.mp h ▸ hdigit ⟨n % 16, by omega⟩

theorem Digest.utf8Len_eq_length {cs : List Char} (h : ∀ c ∈ cs, c.utf8Size = 1) :
    String.utf8Len cs = cs.length := by
  induction cs with
  | nil => rfl
  | cons c cs ih =>
    simp [String.utf8Len, h c (by simp), ih fun c hc => h c (by simp [hc])]

/-- A word takes eight digits. -/
theorem Digest.utf8ByteSize_hexWord (w : UInt32) : (hexWord w).utf8ByteSize = 8 := by
  have hlength : (Nat.toDigits 16 w.toNat).length ≤ 8 :=
    (Nat.length_toDigits_le_iff (by decide) (by decide)).mpr w.toNat_lt
  have hascii : ∀ c ∈ List.replicate (8 - (Nat.toDigits 16 w.toNat).length) '0' ++
      Nat.toDigits 16 w.toNat, c.utf8Size = 1 := by
    intro c hc
    rcases List.mem_append.mp hc with hc | hc
    · exact List.eq_of_mem_replicate hc ▸ by decide
    · exact (ascii_of_mem_toDigits hc).1
  rw [hexWord, String.utf8ByteSize_ofList, utf8Len_eq_length hascii]
  simp
  omega

theorem Digest.utf8ByteSize_sha256 (message : List UInt8) : (sha256 message).utf8ByteSize = 64 := by
  simp [sha256, String.join, String.utf8ByteSize_append, utf8ByteSize_hexWord]

theorem Digest.zero_notMem_sha256 (message : List UInt8) : '\x00' ∉ (sha256 message).toList := by
  have hword : ∀ w, '\x00' ∉ (hexWord w).toList := by
    intro w h
    rw [hexWord, String.toList_ofList] at h
    rcases List.mem_append.mp h with h | h
    · simp at h
    · exact (ascii_of_mem_toDigits h).2 rfl
  simp [sha256, hword]

theorem Cache.utf8ByteSize_entryName (key : String) : (entryName key).utf8ByteSize = 69 := by
  have hend : ".json".utf8ByteSize = 5 := by decide
  rw [entryName, String.utf8ByteSize_append, Digest.utf8ByteSize_sha256, hend]

theorem Cache.fits_entryName (key : String) : Disk.Fits (entryName key) :=
  ⟨isName_entryName key, by simp [utf8ByteSize_entryName, Disk.maxName]⟩

namespace Disk

variable {d d' : Disk} {place q start : Place} {path : List String} {p : Path} {bytes : List UInt8}
  {followLast : Bool}

/-- A way to an entry is the same on a disk with more entries. -/
theorem followWith_of_fewer (hsub : ∀ p, d'.get? p ≠ none → d.get? p = d'.get? p)
    {jump jump' : Place → List String → Except OsError Place}
    (hjump : ∀ start path, jump' start path = .ok q → jump start path = .ok q)
    (h : d'.followWith followLast jump' start path = .ok q) (hq : d'.get? q ≠ none) :
    d.followWith followLast jump start path = .ok q := by
  have hsame : ∀ {p entry}, d'.get? p = some entry → d.get? p = some entry :=
    fun hp => (hsub _ (by simp [hp])).trans hp
  fun_induction Disk.followWith d' followLast jump' start path with
  | case1 => exact h
  | case2 | case5 | case7 => cases h
  | case3 start rest hstart ih | case4 start rest hstart _ ih =>
    rw [followWith]
    simpa [hsame (by simpa using hstart)] using ih h
  | case6 start step rest hstart h1 h2 h3 next hnext hrest =>
    exact absurd (Except.ok.inj h ▸ hnext) hq
  | case8 start step rest hstart h1 h2 h3 next target hnext hlast =>
    have hd : d.get? (start ++ [step]) = some (.link target) := hsame hnext
    rw [followWith]
    simpa [hsame (p := start) (by simpa using hstart), h1, h2, h3, hd, hlast] using h
  | case9 start step rest hstart h1 h2 h3 next target hnext hlast =>
    have hd : d.get? (start ++ [step]) = some (.link target) := hsame hnext
    rw [followWith]
    simpa [hsame (p := start) (by simpa using hstart), h1, h2, h3, hd, hlast] using hjump _ _ h
  | case10 start step rest hstart h1 h2 h3 next entry hentry hnext ih =>
    have hd : d.get? (start ++ [step]) = some entry := hsame hnext
    rw [followWith]
    simp only [hsame (p := start) (by simpa using hstart), h1, h2, h3, hd]
    cases entry with
    | link target => exact absurd rfl (hentry target)
    | dir | file => simpa using ih h

theorem follow_of_fewer (hsub : ∀ p, d'.get? p ≠ none → d.get? p = d'.get? p) {links : Nat}
    (h : d'.follow links followLast start path = .ok q) (hq : d'.get? q ≠ none) :
    d.follow links followLast start path = .ok q := by
  induction links generalizing start path with
  | zero => exact followWith_of_fewer hsub (fun _ _ hj => by cases hj) h hq
  | succ links ih => exact followWith_of_fewer hsub (fun _ _ hj => ih hj) h hq

/-- An entry that a path leads to if a link at its end is not followed: it is a directory only if the
one that the link leads to is. -/
def Names (d : Disk) (q place : Place) : Prop :=
  d.get? place ≠ none ∧ (d.get? place = some .dir → d.get? q = some .dir)

theorem followWith_unfollowed {jump jump' : Place → List String → Except OsError Place}
    (hjump : ∀ start path, jump start path = .ok q → ∃ place, jump' start path = .ok place ∧ d.Names q place)
    (h : d.followWith true jump start path = .ok q) (hq : d.get? q ≠ none) :
    ∃ place, d.followWith false jump' start path = .ok place ∧ d.Names q place := by
  fun_induction Disk.followWith d true jump start path with
  | case1 =>
    obtain rfl := Except.ok.inj h
    exact ⟨_, rfl, hq, id⟩
  | case2 | case5 | case7 => cases h
  | case3 start rest hstart ih | case4 start rest hstart _ ih =>
    rw [followWith]
    simpa [show d.get? start = some .dir by simpa using hstart] using ih h
  | case6 start step rest hstart h1 h2 h3 next hnext hrest =>
    exact absurd (Except.ok.inj h ▸ hnext) hq
  | case8 start step rest hstart h1 h2 h3 next target hnext hlast => simp at hlast
  | case9 start step rest hstart h1 h2 h3 next target hnext hlast =>
    have hd : d.get? (start ++ [step]) = some (.link target) := hnext
    rw [followWith]
    by_cases hrest : rest = []
    · refine ⟨start ++ [step], ?_, by simp [hd], by simp [hd]⟩
      simp [show d.get? start = some .dir by simpa using hstart, h1, h2, h3, hd, hrest]
    · simpa [show d.get? start = some .dir by simpa using hstart, h1, h2, h3, hd, hrest] using hjump _ _ h
  | case10 start step rest hstart h1 h2 h3 next entry hentry hnext ih =>
    have hd : d.get? (start ++ [step]) = some entry := hnext
    rw [followWith]
    simp only [show d.get? start = some .dir by simpa using hstart, h1, h2, h3, hd]
    cases entry with
    | link target => exact absurd rfl (hentry target)
    | dir | file => simpa using ih h

theorem follow_unfollowed {links : Nat} (h : d.follow links true start path = .ok q)
    (hq : d.get? q ≠ none) : ∃ place, d.follow links false start path = .ok place ∧ d.Names q place := by
  induction links generalizing start path with
  | zero => exact followWith_unfollowed (fun _ _ hj => by cases hj) h hq
  | succ links ih => exact followWith_unfollowed (fun _ _ hj => ih hj) h hq

theorem locate_unfollowed (h : d.locate true p = .ok q) (hq : d.get? q ≠ none) :
    ∃ place, d.locate false p = .ok place ∧ d.Names q place := by
  obtain ⟨htakes, hfollow⟩ := locate_eq_ok.mp h
  obtain ⟨place, hplace, hnames⟩ := follow_unfollowed hfollow hq
  exact ⟨place, locate_eq_ok.mpr ⟨htakes, hplace⟩, hnames⟩

/-- A file that can be read can be removed. -/
theorem removeFile_of_readBytes (h : d.readBytes p = .ok bytes) :
    ∃ place, d.locate false p = .ok place ∧ place ≠ [] ∧ d.removeFile p = .ok (d.erase place) := by
  obtain ⟨q, hq, hfile⟩ := readBytes_eq_ok.mp h
  obtain ⟨place, hplace, hpresent, hdir⟩ := locate_unfollowed hq (by simp [hfile])
  have hnodir : d.get? place ≠ some .dir := fun h => by simp [hfile] at hdir; exact hdir h
  obtain ⟨entry, hentry⟩ := Option.ne_none_iff_exists'.mp hpresent
  refine ⟨place, hplace, ne_nil_of_get?_ne_dir hnodir, ?_⟩
  rw [removeFile, entryAt_eq_ok.mpr ⟨hplace, hentry⟩]
  cases entry with
  | dir => exact absurd hentry hnodir
  | file | link => rfl

/-- Where an entry was removed, its path leads to none. -/
theorem isPresent_erase (h : d.locate false p = .ok place) (hne : place ≠ []) :
    (d.erase place).isPresent p = false := by
  rw [isPresent, Option.isSome_eq_false_iff, Option.isNone_iff_eq_none]
  cases hentry : (d.erase place).entryAt true p with
  | error e => rfl
  | ok found =>
    obtain ⟨q, entry⟩ := found
    obtain ⟨hq, hget⟩ := entryAt_eq_ok.mp hentry
    obtain ⟨last, hlast, hpresent, -⟩ := locate_unfollowed hq (by simp [hget])
    have hsub : ∀ p, (d.erase place).get? p ≠ none → d.get? p = (d.erase place).get? p := by
      intro p hp
      rw [get?_erase hne] at hp ⊢
      split
      · next heq => simp [heq] at hp
      · rfl
    obtain ⟨htakes, hfollow⟩ := locate_eq_ok.mp hlast
    have hsame : d.locate false p = .ok last :=
      locate_eq_ok.mpr ⟨htakes, follow_of_fewer hsub hfollow hpresent⟩
    obtain rfl : place = last := Except.ok.inj (h.symm.trans hsame)
    simp [get?_erase hne] at hpresent

end Disk

namespace Cache

deriving instance DecidableEq for Entry

/-- What the bytes in the file of a kept result are. -/
inductive Content where
  | entry (e : Entry)
  /-- The time of the result cannot be held. -/
  | badTime (fault : Duration.Fault)
  /-- A text that is not that of a kept result. -/
  | malformed
  | notText
  deriving DecidableEq

def Content.ofBytes (bytes : List UInt8) : Content :=
  match Text.ofUtf8 bytes with
  | .error _ => .notText
  | .ok text =>
    match Entry.read text with
    | .ok e => .entry e
    | .error fault =>
      match fault.cause with
      | .badTime fault => .badTime fault
      | _ => .malformed

/-- What is answered for a content, to those who ask for a digest. -/
def Content.answer (digest : String) : Content → Except Duration.Fault (Option Result)
  | entry e => .ok (if e.hash = digest then some e.result else none)
  | badTime fault => .error fault
  | malformed | notText => .ok none

variable {c : Cache} {key source : String} {options : Options} {d : Disk} {bytes : List UInt8}

theorem lookup_eq (h : d.readBytes (c.entryPath key) = .ok bytes) :
    (c.lookup key source options : StateM Disk _) d =
      ((Content.ofBytes bytes).answer (hash source options),
        match Content.ofBytes bytes with
        | .malformed => (Disk.attempt (·.removeFile (c.entryPath key)) d).2
        | _ => d) := by
  have hread : d.readText (c.entryPath key) = (Text.ofUtf8 bytes).mapError .notText := by
    rw [Disk.readText, h]
  unfold lookup Content.ofBytes
  generalize c.entryPath key = path at hread
  rw [bind_apply, FileSystem.readText_eq, hread]
  cases Text.ofUtf8 bytes with
  | error fault => rfl
  | ok text =>
    dsimp only [Except.mapError]
    cases Entry.read text with
    | ok entry => rfl
    | error fault =>
      dsimp only
      cases fault.cause <;> rfl

theorem lookup_malformed (h : d.readBytes (c.entryPath key) = .ok bytes)
    (hcontent : Content.ofBytes bytes = .malformed) (source : String) (options : Options) :
    ∃ place, d.locate false (c.entryPath key) = .ok place ∧ place ≠ [] ∧
      (c.lookup key source options : StateM Disk _) d = (.ok none, d.erase place) := by
  obtain ⟨place, hplace, hne, hremove⟩ := Disk.removeFile_of_readBytes h
  refine ⟨place, hplace, hne, ?_⟩
  rw [lookup_eq h, hcontent]
  simp only [Content.answer, Disk.attempt, hremove]

theorem lookup_kept (h : d.readBytes (c.entryPath key) = .ok bytes)
    (hcontent : Content.ofBytes bytes ≠ .malformed) (source : String) (options : Options) :
    (c.lookup key source options : StateM Disk _) d =
      ((Content.ofBytes bytes).answer (hash source options), d) := by
  rw [lookup_eq h]
  split
  · next hmalformed => exact absurd hmalformed hcontent
  · rfl

theorem Content.answer_eq_some {content : Content} {digest : String} {result : Result} :
    content.answer digest = .ok (some result) ↔
      ∃ e, content = .entry e ∧ e.hash = digest ∧ e.result = result := by
  cases content with
  | entry e => by_cases he : e.hash = digest <;> simp [answer, he]
  | badTime | malformed | notText => simp [answer]

theorem Content.answer_eq_error {content : Content} {digest : String} {fault : Duration.Fault} :
    content.answer digest = .error fault ↔ content = .badTime fault := by
  cases content <;> simp [answer]

/-- Whatever a file of a kept result holds, a result is found exactly if it is that of an entry with the
digest that is asked for, and looking it up breaks off exactly for a time that cannot be held. A text
that is not an entry is removed. Nothing else changes, not even bytes that are no text. -/
theorem lookup_by_content (h : d.readBytes (c.entryPath key) = .ok bytes) (source : String)
    (options : Options) :
    ∃ answer after, (c.lookup key source options : StateM Disk _) d = (answer, after) ∧
      (∀ result, answer = .ok (some result) ↔
        ∃ e, Content.ofBytes bytes = .entry e ∧ e.hash = hash source options ∧ e.result = result) ∧
      (∀ fault, answer = .error fault ↔ Content.ofBytes bytes = .badTime fault) ∧
      (Content.ofBytes bytes = .malformed →
        answer = .ok none ∧ after.isPresent (c.entryPath key) = false ∧
          ∃ place, d.locate false (c.entryPath key) = .ok place ∧ after.get? place = none ∧
            ∀ other, other ≠ place → after.get? other = d.get? other) ∧
      (Content.ofBytes bytes ≠ .malformed → after = d) := by
  refine ⟨_, _, lookup_eq h, fun _ => Content.answer_eq_some, fun _ => Content.answer_eq_error,
    fun hcontent => ?_, fun hcontent => ?_⟩
  · obtain ⟨place, hplace, hne, hlookup⟩ := lookup_malformed h hcontent source options
    obtain ⟨hanswer, hafter⟩ := Prod.mk.inj ((lookup_eq h).symm.trans hlookup)
    rw [hanswer, hafter]
    refine ⟨rfl, Disk.isPresent_erase hplace hne, place, hplace, ?_, fun other hother => ?_⟩
    · simp [Disk.get?_erase hne]
    · simp [Disk.get?_erase hne, hother]
  · exact (Prod.mk.inj ((lookup_eq h).symm.trans (lookup_kept h hcontent source options))).2

/-- A disk with one file in a directory. -/
def sampleShelf (name : String) (bytes : List UInt8) : Disk :=
  ⟨.ofList [(["o"], .dir), (["o", name], .file bytes)], []⟩

theorem sampleShelf_entries (name : String) (bytes : List UInt8) :
    (sampleShelf name bytes).entries.entries = [(["o"], .dir), (["o", name], .file bytes)] := rfl

theorem sampleShelf_plain (name : String) (bytes : List UInt8) : (sampleShelf name bytes).Plain := by
  refine Disk.plain_of_forall ?_ ?_
  · simp [sampleShelf_entries]
  · simp only [sampleShelf_entries, List.forall_mem_cons]
    exact ⟨rfl, rfl, by simp⟩

/-- Any bytes can stand in the file of a kept result. -/
theorem readBytes_sampleShelf (key : String) (bytes : List UInt8) :
    (sampleShelf (entryName key) bytes).readBytes (entryPath ⟨⟨"o"⟩⟩ key) = .ok bytes := by
  have hfits := fits_entryName key
  have hzero : '\x00' ∉ (entryName key).toList := by
    simp [entryName, Digest.zero_notMem_sha256]
  rw [entryPath_eq]
  generalize entryName key = name at hfits hzero
  have hplain := sampleShelf_plain name bytes
  have hlead : (sampleShelf name bytes).lead ⟨"o"⟩ = .ok ["o"] := rfl
  have hdir : (sampleShelf name bytes).get? ["o"] = some .dir := rfl
  have hfile : (sampleShelf name bytes).get? ["o", name] = some (.file bytes) := by
    simp [Disk.get?, SortedMap.get?, sampleShelf_entries, List.lookup_cons]
  have htaken : Disk.refusal? (Path.child ⟨"o"⟩ name) = none := by
    have htext : (Path.child ⟨"o"⟩ name).text = "o/" ++ name := by
      apply String.toList_injective
      rw [Path.child_toList _ hfits.isPiece]
      simp
    have hsize := hfits.short
    have hslash : "o/".utf8ByteSize = 2 := by decide
    simp [Disk.refusal?, htext, hzero, Disk.maxName, Disk.maxPath, String.utf8ByteSize_append] at hsize ⊢
    omega
  exact Disk.readBytes_eq_ok.mpr ⟨_, hplain.locate_child hlead hdir hfits htaken true, hfile⟩

/-- A file that holds some other text is removed. -/
theorem lookup_by_content_sample :
    ∃ answer after,
      (lookup ⟨⟨"o"⟩⟩ "a.ema" "" {} : StateM Disk _)
        (sampleShelf (entryName "a.ema") (Text.utf8 "not json")) = (answer, after) ∧
      answer = .ok none ∧ after.isPresent (entryPath ⟨⟨"o"⟩⟩ "a.ema") = false := by
  have hcontent : Content.ofBytes (Text.utf8 "not json") = .malformed := by decide +kernel
  obtain ⟨answer, after, hlookup, -, -, hmalformed, -⟩ :=
    lookup_by_content (readBytes_sampleShelf "a.ema" (Text.utf8 "not json")) "" {}
  exact ⟨answer, after, hlookup, (hmalformed hcontent).1, (hmalformed hcontent).2.1⟩

/-- A kept result that took longer than any duration. -/
def overlongText : String := "\x7b\"result\":\x7b\"elapsedMs\":100000000000000000000000\x7d\x7d"

/-- Bytes that are no text are left in the file, and a time that is too large breaks the build off. -/
theorem lookup_damage :
    (lookup ⟨⟨"o"⟩⟩ "a.ema" "" {} : StateM Disk _) (sampleShelf (entryName "a.ema") [0xff]) =
      (.ok none, sampleShelf (entryName "a.ema") [0xff]) ∧
    (sampleShelf (entryName "a.ema") [0xff]).readBytes (entryPath ⟨⟨"o"⟩⟩ "a.ema") = .ok [0xff] ∧
    (lookup ⟨⟨"o"⟩⟩ "a.ema" "" {} : StateM Disk _)
        (sampleShelf (entryName "a.ema") (Text.utf8 overlongText)) =
      (.error .tooLarge, sampleShelf (entryName "a.ema") (Text.utf8 overlongText)) := by
  have hbytes : Content.ofBytes [0xff] = .notText := by decide +kernel
  have htime : Content.ofBytes (Text.utf8 overlongText) = .badTime .tooLarge := by decide +kernel
  have hread := readBytes_sampleShelf "a.ema"
  refine ⟨?_, hread [0xff], ?_⟩
  · rw [lookup_kept (hread _) (by simp [hbytes]), hbytes, Content.answer]
  · rw [lookup_kept (hread _) (by simp [htime]), htime, Content.answer]

end Cache

end Folio
