import Folio.Disk
import Folio.Proofs.SortedMaps

/-! What can be read on a disk after a file was written: what could be read before, or what was
written. -/

namespace Folio

namespace Disk

variable {d d' : Disk} {place q : Place} {entry : Entry} {bytes written : List UInt8}

/-- The root stays a directory. -/
theorem get?_put (hne : place ≠ []) (p : Place) :
    (d.put place entry).get? p = if p = place then some entry else d.get? p := by
  by_cases hp : p = []
  · simp [get?, hp, Ne.symm hne]
  · simp [get?, put, hp, SortedMap.get?_insert]

theorem get?_erase (hne : place ≠ []) (p : Place) :
    (d.erase place).get? p = if p = place then none else d.get? p := by
  by_cases hp : p = []
  · simp [get?, hp, Ne.symm hne]
  · simp [get?, erase, hp, SortedMap.get?_erase]

theorem followWith_put (hne : place ≠ []) {followLast : Bool}
    {jump jump' : Place → List String → Except OsError Place}
    (hjump : ∀ start path, jump' start path = .ok q → q = place ∨ jump start path = .ok q)
    {start : Place} {path : List String}
    (h : (d.put place (.file bytes)).followWith followLast jump' start path = .ok q) :
    q = place ∨ d.followWith followLast jump start path = .ok q := by
  have hput : ∀ p, (d.put place (.file bytes)).get? p = if p = place then _ else d.get? p :=
    get?_put hne
  generalize d.put place (.file bytes) = d' at h hput
  have hdir : ∀ p, d'.get? p = some .dir → d.get? p = some .dir := by
    intro p hp
    grind
  fun_induction Disk.followWith d' followLast jump' start path with
  | case1 => exact .inr (by rw [followWith]; exact h)
  | case2 | case5 | case7 => cases h
  | case3 start rest hstart ih | case4 start rest hstart _ ih =>
    refine (ih h).imp_right fun hd => ?_
    rw [followWith]
    simpa [hdir start (by simpa using hstart)] using hd
  | case6 start step rest hstart h1 h2 h3 next hnext hrest =>
    have hd : d.get? (start ++ [step]) = none := by grind
    right
    rw [followWith]
    simpa [hdir start (by simpa using hstart), h1, h2, h3, hd, hrest] using h
  | case8 start step rest hstart h1 h2 h3 next target hnext hlast =>
    have hd : d.get? (start ++ [step]) = some (.link target) := by grind
    right
    rw [followWith]
    simpa [hdir start (by simpa using hstart), h1, h2, h3, hd, hlast] using h
  | case9 start step rest hstart h1 h2 h3 next target hnext hlast =>
    have hd : d.get? (start ++ [step]) = some (.link target) := by grind
    refine (hjump _ _ h).imp_right fun hf => ?_
    rw [followWith]
    simpa [hdir start (by simpa using hstart), h1, h2, h3, hd, hlast] using hf
  | case10 start step rest hstart h1 h2 h3 next entry hentry hnext ih =>
    by_cases hp : next = place
    · -- The path passes the file itself, so it ends there.
      left
      cases rest with
      | nil => grind [followWith]
      | cons => grind [followWith]
    · have hd : d.get? (start ++ [step]) = some entry := by grind
      refine (ih h).imp_right fun hf => ?_
      rw [followWith]
      simp only [hdir start (by simpa using hstart), h1, h2, h3, hd]
      cases entry with
      | link target => exact absurd rfl (hentry target)
      | dir | file => simpa using hf

/-- A path that leads somewhere after a file was put at a place leads to that place, or where it led
before. -/
theorem follow_put (hne : place ≠ []) {links : Nat} {followLast : Bool} {start : Place}
    {path : List String}
    (h : (d.put place (.file bytes)).follow links followLast start path = .ok q) :
    q = place ∨ d.follow links followLast start path = .ok q := by
  induction links generalizing start path with
  | zero => exact followWith_put hne (fun _ _ hj => by cases hj) h
  | succ links ih => exact followWith_put hne (fun _ _ hj => ih hj) h

/-- A path that file calls take. -/
structure Takes (p : Path) : Prop where
  noZero : '\x00' ∉ p.text.toList
  nonempty : p.text.toList ≠ []
  short : p.text.utf8ByteSize ≤ maxPath

theorem locate_eq_ok {followLast : Bool} {p : Path} :
    d.locate followLast p = .ok q ↔
      Takes p ∧ d.follow maxLinks followLast (startOf d.workDir p.text) (steps p.text) = .ok q := by
  unfold locate
  split
  · next hzero => exact ⟨nofun, fun h => absurd hzero h.1.noZero⟩
  split
  · next hempty => exact ⟨nofun, fun h => absurd (by simpa using hempty) h.1.nonempty⟩
  split
  · next hlong => exact ⟨nofun, fun h => absurd hlong (Nat.not_lt.mpr h.1.short)⟩
  · next hzero hempty hlong =>
    exact ⟨fun h => ⟨⟨hzero, by simpa using hempty, Nat.not_lt.mp hlong⟩, h⟩, fun h => h.2⟩

theorem locate_put (hne : place ≠ []) {followLast : Bool} {p : Path}
    (h : (d.put place (.file bytes)).locate followLast p = .ok q) :
    q = place ∨ d.locate followLast p = .ok q := by
  obtain ⟨htakes, hf⟩ := locate_eq_ok.mp h
  exact (follow_put hne hf).imp_right fun hf => locate_eq_ok.mpr ⟨htakes, hf⟩

theorem bind_eq_ok {ε α β : Type} {x : Except ε α} {f : α → Except ε β} {b : β} :
    x >>= f = .ok b ↔ ∃ a, x = .ok a ∧ f a = .ok b := by
  cases x <;> simp [bind, Except.bind]

theorem entryAt_eq_ok {followLast : Bool} {p : Path} :
    d.entryAt followLast p = .ok (place, entry) ↔
      d.locate followLast p = .ok place ∧ d.get? place = some entry := by
  unfold entryAt
  rw [bind_eq_ok]
  constructor
  · rintro ⟨q, hl, h⟩
    cases hg : d.get? q with
    | none => simp [hg, throw, throwThe, MonadExceptOf.throw] at h
    | some e =>
      simp only [hg] at h
      cases h
      exact ⟨hl, hg⟩
  · rintro ⟨hl, hg⟩
    exact ⟨place, hl, by simp only [hg]; rfl⟩

theorem readBytes_eq_ok {p : Path} :
    d.readBytes p = .ok bytes ↔
      ∃ place, d.locate true p = .ok place ∧ d.get? place = some (.file bytes) := by
  unfold readBytes
  rw [bind_eq_ok]
  constructor
  · rintro ⟨⟨place, entry⟩, he, h⟩
    obtain ⟨hl, hg⟩ := entryAt_eq_ok.mp he
    cases entry <;> cases h
    exact ⟨place, hl, hg⟩
  · rintro ⟨place, hl, hg⟩
    exact ⟨(place, .file bytes), entryAt_eq_ok.mpr ⟨hl, hg⟩, rfl⟩

/-- A file is written by putting it where its path leads to, unless that is a directory. -/
theorem writeBytes_eq_ok {p : Path} (h : d.writeBytes p written = .ok d') :
    ∃ place, d.locate true p = .ok place ∧ d.get? place ≠ some .dir ∧
      d' = d.put place (.file written) := by
  unfold writeBytes at h
  obtain ⟨place, hl, h⟩ := bind_eq_ok.mp h
  dsimp only at h
  split at h
  · cases h
  · next hno =>
    obtain ⟨hslash, hdir⟩ : p = unslashed p ∧ d.get? place ≠ some .dir := by simpa using hno
    rw [← hslash] at hl
    exact ⟨place, by simpa using hl, hdir, (Except.ok.inj h).symm⟩

theorem ne_nil_of_get?_ne_dir (h : d.get? place ≠ some .dir) : place ≠ [] := by
  rintro rfl
  simp [get?] at h

/-- A file is removed where it stands. -/
theorem removeFile_eq_ok {p : Path} (h : d.removeFile p = .ok d') :
    ∃ place, d.get? place ≠ some .dir ∧ d' = d.erase place := by
  unfold removeFile at h
  obtain ⟨⟨place, entry⟩, he, h⟩ := bind_eq_ok.mp h
  obtain ⟨-, hg⟩ := entryAt_eq_ok.mp he
  cases entry with
  | dir => cases h
  | file | link => exact ⟨place, by simp [hg], (Except.ok.inj h).symm⟩

/-- A directory is made where nothing stands. -/
theorem makeDir_eq_ok {p : Path} (h : d.makeDir p = .ok d') :
    ∃ r place, d.locate false r = .ok place ∧ d.get? place = none ∧ d' = d.put place .dir := by
  unfold makeDir vacancy at h
  obtain ⟨place, hv, h⟩ := bind_eq_ok.mp h
  obtain ⟨q, hl, hv⟩ := bind_eq_ok.mp hv
  dsimp only at hv
  split at hv
  · cases hv
  · next hno =>
    cases hv
    exact ⟨_, place, hl, by simpa using hno, (Except.ok.inj h).symm⟩

theorem readBytes_writeBytes {p r : Path} (hw : d.writeBytes p written = .ok d')
    (hr : d'.readBytes r = .ok bytes) : bytes = written ∨ d.readBytes r = .ok bytes := by
  obtain ⟨place, -, hdir, rfl⟩ := writeBytes_eq_ok hw
  have hne := ne_nil_of_get?_ne_dir hdir
  obtain ⟨q, hq, hfile⟩ := readBytes_eq_ok.mp hr
  rw [get?_put hne] at hfile
  by_cases hqp : q = place
  · left
    simpa [hqp] using hfile.symm
  · right
    rcases locate_put hne hq with hpl | hq
    · exact absurd hpl hqp
    · exact readBytes_eq_ok.mpr ⟨q, hq, by simpa [hqp] using hfile⟩

end Disk

end Folio
