import Folio.Key

/-! Finite maps as lists of pairs in increasing order of their keys. Two maps with the same values are
the same map. -/

namespace Folio

/-- A finite map. -/
structure SortedMap (κ ν : Type) [LT κ] where
  entries : List (κ × ν)
  sorted : entries.Pairwise (·.1 < ·.1)

namespace SortedMap

variable {κ ν : Type} [LT κ]

/-- The map without any key. -/
def empty : SortedMap κ ν := ⟨[], .nil⟩

instance : Inhabited (SortedMap κ ν) := ⟨empty⟩

@[ext]
theorem ext {a b : SortedMap κ ν} (h : a.entries = b.entries) : a = b := by
  cases a
  cases b
  congr

instance [DecidableEq κ] [DecidableEq ν] : DecidableEq (SortedMap κ ν) := fun a b =>
  decidable_of_iff (a.entries = b.entries) ⟨ext, congrArg entries⟩

/-- The value of a key. -/
def get? [BEq κ] (m : SortedMap κ ν) (k : κ) : Option ν :=
  m.entries.lookup k

/-- The pairs that satisfy `p`. -/
def filter (m : SortedMap κ ν) (p : κ → ν → Bool) : SortedMap κ ν :=
  ⟨m.entries.filter fun e => p e.1 e.2, m.sorted.filter _⟩

/-- The map without one key. -/
def erase [DecidableEq κ] (m : SortedMap κ ν) (k : κ) : SortedMap κ ν :=
  m.filter fun k' _ => k' ≠ k

variable [Key κ]

/-- Puts a pair in its place, instead of the pair with the same key if there is one. -/
def insertInto (k : κ) (v : ν) : List (κ × ν) → List (κ × ν)
  | [] => [(k, v)]
  | e :: es =>
    if Key.precedes k e.1 then (k, v) :: e :: es
    else if Key.precedes e.1 k then e :: insertInto k v es
    else (k, v) :: es

theorem mem_insertInto {k : κ} {v : ν} {es : List (κ × ν)} {e : κ × ν}
    (h : e ∈ insertInto k v es) : e = (k, v) ∨ e ∈ es := by
  induction es with
  | nil => simpa [insertInto] using h
  | cons f fs ih =>
    simp only [insertInto] at h
    split at h
    · simpa using h
    · split at h
      · rcases List.mem_cons.mp h with rfl | h
        · simp
        · rcases ih h with rfl | h
          · simp
          · simp [h]
      · rcases List.mem_cons.mp h with rfl | h
        · simp
        · simp [h]

theorem sorted_insertInto (k : κ) (v : ν) {es : List (κ × ν)} (h : es.Pairwise (·.1 < ·.1)) :
    (insertInto k v es).Pairwise (·.1 < ·.1) := by
  induction es with
  | nil => simp [insertInto]
  | cons e es ih =>
    obtain ⟨he, hs⟩ := List.pairwise_cons.mp h
    simp only [insertInto]
    split
    · next hk =>
      refine List.pairwise_cons.mpr ⟨fun f hf => ?_, h⟩
      rcases List.mem_cons.mp hf with rfl | hf
      · exact Key.precedes_iff.mp hk
      · exact Key.lt_trans (Key.precedes_iff.mp hk) (he f hf)
    · next hk =>
      split
      · next hk' =>
        refine List.pairwise_cons.mpr ⟨fun f hf => ?_, ih hs⟩
        rcases mem_insertInto hf with rfl | hf
        · exact Key.precedes_iff.mp hk'
        · exact he f hf
      · next hk' =>
        have same : k = e.1 :=
          Key.eq_of_not_lt (mt Key.precedes_iff.mpr hk) (mt Key.precedes_iff.mpr hk')
        exact List.pairwise_cons.mpr ⟨fun f hf => same ▸ he f hf, hs⟩

/-- The map with a new value for a key. -/
def insert (m : SortedMap κ ν) (k : κ) (v : ν) : SortedMap κ ν :=
  ⟨insertInto k v m.entries, sorted_insertInto k v m.sorted⟩

/-- The map of a list of pairs. The last value of a key counts. -/
def ofList (pairs : List (κ × ν)) : SortedMap κ ν :=
  pairs.foldl (fun m e => m.insert e.1 e.2) empty

end SortedMap

end Folio
