import Folio.SortedMap

/-! Finite maps by the values of their keys: what a key is sent to after a change, and how a map comes
back from its values or from its pairs. -/

namespace Folio.SortedMap

section Values
variable {κ ν : Type} [LT κ] [BEq κ] [LawfulBEq κ]

theorem get?_erase [DecidableEq κ] (m : SortedMap κ ν) (k k' : κ) :
    (m.erase k).get? k' = if k' = k then none else m.get? k' := by
  obtain ⟨es, hs⟩ := m
  simp only [erase, filter, get?]
  clear hs
  induction es with
  | nil => simp
  | cons e es ih => grind

variable [Key κ]

theorem lookup_insertInto (k k' : κ) (v : ν) (es : List (κ × ν)) :
    (insertInto k v es).lookup k' = if k' == k then some v else es.lookup k' := by
  induction es with
  | nil => grind [insertInto]
  | cons e es ih =>
    rw [insertInto]
    split
    · grind
    · split
      · next hlt =>
        have hne : e.1 ≠ k := by
          rintro rfl
          exact Key.lt_irrefl _ (Key.precedes_iff.mp hlt)
        grind
      · next hk hk' =>
        have hek : k = e.1 :=
          Key.eq_of_not_lt (mt Key.precedes_iff.mpr hk) (mt Key.precedes_iff.mpr hk')
        grind

theorem get?_insert (m : SortedMap κ ν) (k k' : κ) (v : ν) :
    (m.insert k v).get? k' = if k' == k then some v else m.get? k' :=
  lookup_insertInto k k' v m.entries

omit [LT κ] [LawfulBEq κ] [Key κ] in
theorem lookup_cons_eq (k : κ) (e : κ × ν) (es : List (κ × ν)) :
    (e :: es).lookup k = if k == e.1 then some e.2 else es.lookup k := by
  grind

theorem get?_foldl_insert (m : SortedMap κ ν) (es : List (κ × ν)) (k : κ) :
    (es.foldl (fun m e => m.insert e.1 e.2) m).get? k = (es.reverse.lookup k).or (m.get? k) := by
  induction es generalizing m with
  | nil => rfl
  | cons e es ih =>
    rw [List.foldl_cons, ih, List.reverse_cons, List.lookup_append, get?_insert, Option.or_assoc,
      lookup_cons_eq]
    split
    · rfl
    · rfl

/-- Of several values for a key, the last one counts. -/
theorem get?_ofList (es : List (κ × ν)) (k : κ) : (ofList es).get? k = es.reverse.lookup k := by
  rw [ofList, get?_foldl_insert]
  exact Option.or_none

theorem lookup_eq_none_of_lt {k : κ} {es : List (κ × ν)} (h : ∀ e ∈ es, k < e.1) :
    es.lookup k = none := by
  rw [List.lookup_eq_none_iff]
  intro e he
  have hne : k ≠ e.1 := fun heq => Key.lt_irrefl _ (heq ▸ h e he)
  simpa using hne

/-- A key that comes first in a list of pairs has no value in a list that starts later. -/
theorem not_lt_of_lookup {e e' : κ × ν} {es es' : List (κ × ν)} (he' : ∀ f ∈ es', e'.1 < f.1)
    (h : (e :: es).lookup e.1 = (e' :: es').lookup e.1) : ¬e.1 < e'.1 := by
  intro hlt
  have hnone : (e' :: es').lookup e.1 = none := by
    refine lookup_eq_none_of_lt fun f hf => ?_
    rcases List.mem_cons.mp hf with rfl | hf
    · exact hlt
    · exact Key.lt_trans hlt (he' f hf)
  simp [hnone, lookup_cons_eq] at h

theorem entries_eq_of_lookup {es es' : List (κ × ν)} (hs : es.Pairwise (·.1 < ·.1))
    (hs' : es'.Pairwise (·.1 < ·.1)) (h : ∀ k, es.lookup k = es'.lookup k) : es = es' := by
  induction es generalizing es' with
  | nil =>
    cases es' with
    | nil => rfl
    | cons e' rest' => simpa [lookup_cons_eq] using h e'.1
  | cons e rest ih =>
    cases es' with
    | nil => simpa [lookup_cons_eq] using h e.1
    | cons e' rest' =>
      obtain ⟨he, hrest⟩ := List.pairwise_cons.mp hs
      obtain ⟨he', hrest'⟩ := List.pairwise_cons.mp hs'
      have hkey : e.1 = e'.1 :=
        Key.eq_of_not_lt (not_lt_of_lookup he' (h e.1)) (not_lt_of_lookup he (h e'.1).symm)
      have hhead : e = e' := by
        have hvalue := h e.1
        rw [lookup_cons_eq, lookup_cons_eq, ← hkey] at hvalue
        exact Prod.ext hkey (by simpa using hvalue)
      rw [hhead, ih hrest hrest' fun k => ?_]
      by_cases hk : k = e.1
      · rw [hk, lookup_eq_none_of_lt he, lookup_eq_none_of_lt (hkey ▸ he')]
      · have hrestEq := h k
        rw [lookup_cons_eq, lookup_cons_eq, ← hkey] at hrestEq
        simpa [hk] using hrestEq

/-- Putting in a number for a key changes the sum of all numbers by that number, less the one that the
key had before. -/
theorem sum_insertInto (k : κ) (v : Nat) {es : List (κ × Nat)} (h : es.Pairwise (·.1 < ·.1)) :
    (insertInto k v es).foldr (fun e n => e.2 + n) 0 + (es.lookup k).getD 0 =
      es.foldr (fun e n => e.2 + n) 0 + v := by
  induction es with
  | nil => simp [insertInto]
  | cons e es ih =>
    obtain ⟨he, hs⟩ := List.pairwise_cons.mp h
    rw [insertInto]
    split
    · next hk =>
      have hlt := Key.precedes_iff.mp hk
      have hall : ∀ f ∈ e :: es, k < f.1 :=
        List.forall_mem_cons.mpr ⟨hlt, fun f hf => Key.lt_trans hlt (he f hf)⟩
      rw [lookup_eq_none_of_lt hall, List.foldr_cons, Option.getD_none, Nat.add_zero, Nat.add_comm]
    · next hk =>
      rw [lookup_cons_eq]
      split
      · next hk' =>
        have hne : k ≠ e.1 := fun heq => Key.lt_irrefl _ (heq ▸ Key.precedes_iff.mp hk')
        rw [if_neg (by simpa using hne), List.foldr_cons, List.foldr_cons, Nat.add_assoc, ih hs,
          Nat.add_assoc]
      · next hk' =>
        have hek : k = e.1 :=
          Key.eq_of_not_lt (mt Key.precedes_iff.mpr hk) (mt Key.precedes_iff.mpr hk')
        rw [if_pos (by simpa using hek), List.foldr_cons, List.foldr_cons, Option.getD_some]
        omega

theorem sum_insert (m : SortedMap κ Nat) (k : κ) (v : Nat) :
    (m.insert k v).entries.foldr (fun e n => e.2 + n) 0 + (m.get? k).getD 0 =
      m.entries.foldr (fun e n => e.2 + n) 0 + v :=
  sum_insertInto k v m.sorted

/-- Two maps with the same values are the same. -/
theorem ext_get? {a b : SortedMap κ ν} (h : ∀ k, a.get? k = b.get? k) : a = b :=
  ext (entries_eq_of_lookup a.sorted b.sorted h)

end Values

section Pairs
variable {κ ν : Type} [LT κ] [Key κ]

/-- The keys of a map, in their order. -/
def keys (m : SortedMap κ ν) : List κ := m.entries.map (·.1)

theorem mem_keys_insert (m : SortedMap κ ν) (k k' : κ) (v : ν) :
    k' ∈ (m.insert k v).keys ↔ k' = k ∨ k' ∈ m.keys := by
  obtain ⟨es, hs⟩ := m
  simp only [keys, insert]
  clear hs
  induction es with
  | nil => simp [insertInto]
  | cons e es ih =>
    rw [insertInto]
    split
    · simp
    · next hk =>
      split
      · simp only [List.map_cons, List.mem_cons, ih, or_left_comm]
      · next hk' =>
        have hek : k = e.1 :=
          Key.eq_of_not_lt (mt Key.precedes_iff.mpr hk) (mt Key.precedes_iff.mpr hk')
        simp [hek]

theorem precedes_false {a b : κ} (h : a < b) : Key.precedes b a = false := by
  cases hp : Key.precedes b a with
  | false => rfl
  | true => exact absurd (Key.lt_trans h (Key.precedes_iff.mp hp)) (Key.lt_irrefl a)

/-- A key that comes after all others is put at the end. -/
theorem insertInto_last {k : κ} {v : ν} {es : List (κ × ν)} (h : ∀ e ∈ es, e.1 < k) :
    insertInto k v es = es ++ [(k, v)] := by
  induction es with
  | nil => rfl
  | cons e es ih =>
    have he := h e (by simp)
    rw [insertInto, precedes_false he, Key.precedes_iff.mpr he, ih (fun f hf => h f (by simp [hf]))]
    simp

/-- Putting in the pairs of a map in their order gives the map. -/
theorem foldl_insert_entries (done : SortedMap κ ν) (es : List (κ × ν))
    (h : (done.entries ++ es).Pairwise (·.1 < ·.1)) :
    (es.foldl (fun m e => m.insert e.1 e.2) done).entries = done.entries ++ es := by
  induction es generalizing done with
  | nil => simp
  | cons e es ih =>
    have hlt : ∀ f ∈ done.entries, f.1 < e.1 :=
      fun f hf => (List.pairwise_append.mp h).2.2 f hf e (by simp)
    have hi : (done.insert e.1 e.2).entries = done.entries ++ [e] := insertInto_last hlt
    rw [List.foldl_cons, ih (done.insert e.1 e.2) (by simpa [hi] using h), hi]
    simp

theorem ofList_entries (m : SortedMap κ ν) : ofList m.entries = m :=
  ext (foldl_insert_entries empty m.entries m.sorted)

end Pairs

end Folio.SortedMap
