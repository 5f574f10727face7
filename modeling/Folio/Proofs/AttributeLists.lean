import Folio.Proofs.SortedMaps
import Folio.Tree.Heading

/-! Lists of attributes. The reader goes on by one, two or three tokens at a time, and still it finds
each `key = "value"` in front of the token that ends the list: no two of them share a token. -/

namespace Folio.Heading
open Token (Kind)

/-- The kinds of tokens that a list of attributes never goes past. -/
def EndsList (kind : Kind) : Prop :=
  kind ∈ [.symbol .leftBrace, .symbol .rightBrace, .symbol .semicolon, .eof] ∨
    kind.opensConstruct = true

/-- The attribute that the first three tokens write: an identifier, `=` and a string. -/
def pair? : List Token → Option (String × String)
  | name :: assign :: literal :: _ =>
    if name.kind = .identifier ∧ assign.kind = .symbol .assign ∧ literal.kind = .string then
      some (name.text, literal.value)
    else none
  | _ => none

section Pairs
variable {t u v : Token} {ts : List Token} {e : String × String} {key value : String} {n : Nat}

theorem pair?_some (ht : t.kind = .identifier) (hu : u.kind = .symbol .assign)
    (hv : v.kind = .string) : pair? (t :: u :: v :: ts) = some (t.text, v.value) :=
  if_pos ⟨ht, hu, hv⟩

theorem exists_of_pair? (h : pair? ts = some e) : ∃ t u v more, ts = t :: u :: v :: more ∧
    t.kind = .identifier ∧ u.kind = .symbol .assign ∧ v.kind = .string ∧ e = (t.text, v.value) := by
  rcases ts with _ | ⟨t, _ | ⟨u, _ | ⟨v, ts⟩⟩⟩
  · cases h
  · cases h
  · cases h
  · rw [pair?, Option.ite_none_right_eq_some] at h
    obtain ⟨⟨ht, hu, hv⟩, ⟨⟩⟩ := h
    exact ⟨t, u, v, ts, rfl, ht, hu, hv, rfl⟩

theorem pair?_none (h : t.kind ≠ .identifier) : pair? (t :: ts) = none := by
  rcases ts with _ | ⟨u, _ | ⟨v, ts⟩⟩
  · rfl
  · rfl
  · exact if_neg fun hp => h hp.1

theorem pair?_none_of_assign (h : u.kind ≠ .symbol .assign) : pair? (t :: u :: ts) = none := by
  rcases ts with _ | ⟨v, ts⟩
  · rfl
  · exact if_neg fun hp => h hp.2.1

theorem pair?_none_of_string (h : v.kind ≠ .string) : pair? (t :: u :: v :: ts) = none :=
  if_neg fun hp => h hp.2.2

theorem pair?_take : pair? (ts.take n) = some e ↔ pair? ts = some e ∧ 2 < n := by
  rcases ts with _ | ⟨t, _ | ⟨u, _ | ⟨v, ts⟩⟩⟩ <;> rcases n with _ | _ | _ | n <;> simp [pair?]

/-- The attributes in `n` tokens are those of all tokens that end before the last of them. -/
theorem pair?_span {cursor i : Nat} : pair? (((ts.drop cursor).take n).drop i) = some e ↔
    pair? (ts.drop (cursor + i)) = some e ∧ i + 2 < n := by
  have hi : 2 < n - i ↔ i + 2 < n := by omega
  rw [List.drop_take, pair?_take, List.drop_drop, hi]

/-- The value in the last attribute with this key. -/
def lastValue? (key : String) : List Token → Option String
  | [] => none
  | t :: ts =>
    (lastValue? key ts).or
      ((pair? (t :: ts)).bind fun e => if e.1 = key then some e.2 else none)

theorem lastValue?_pass (h : pair? (t :: ts) = none) :
    lastValue? key (t :: ts) = lastValue? key ts := by
  simp [lastValue?, h]

/-- Behind the key of an attribute, no other one starts before its value has ended. -/
theorem lastValue?_pair (ht : t.kind = .identifier) (hu : u.kind = .symbol .assign)
    (hv : v.kind = .string) :
    lastValue? key (t :: u :: v :: ts) =
      (lastValue? key ts).or (if t.text = key then some v.value else none) := by
  rw [lastValue?, pair?_some ht hu hv, lastValue?_pass (pair?_none (by simp [hu])),
    lastValue?_pass (pair?_none (by simp [hv]))]
  rfl

theorem head_value : ((pair? ts).bind fun e => if e.1 = key then some e.2 else none) = some value ↔
    pair? ts = some (key, value) := by
  rcases pair? ts with _ | ⟨k, v⟩ <;> simp

theorem lastValue?_eq_none : lastValue? key ts = none ↔
    ∀ i value, pair? (ts.drop i) ≠ some (key, value) := by
  induction ts with
  | nil => simp [lastValue?, pair?]
  | cons t ts ih =>
    rw [lastValue?, Option.or_eq_none_iff, ih, Option.eq_none_iff_forall_ne_some]
    constructor
    · rintro ⟨hbehind, hhead⟩ i value
      cases i with
      | zero => exact fun h => hhead value (head_value.mpr h)
      | succ i => exact hbehind i value
    · intro h
      exact ⟨fun i => h (i + 1), fun value hv => h 0 value (head_value.mp hv)⟩

theorem lastValue?_eq_some : lastValue? key ts = some value ↔
    ∃ i, pair? (ts.drop i) = some (key, value) ∧
      ∀ j other, i < j → pair? (ts.drop j) ≠ some (key, other) := by
  induction ts with
  | nil => simp [lastValue?, pair?]
  | cons t ts ih =>
    rw [lastValue?, Option.or_eq_some_iff, head_value, ih, lastValue?_eq_none]
    constructor
    · rintro (⟨i, hi, hlast⟩ | ⟨hbehind, hhead⟩)
      · refine ⟨i + 1, hi, fun j other hj => ?_⟩
        obtain ⟨j, rfl⟩ := Nat.exists_eq_add_one_of_ne_zero (Nat.ne_zero_of_lt hj)
        exact hlast j other (by omega)
      · refine ⟨0, hhead, fun j other hj => ?_⟩
        obtain ⟨j, rfl⟩ := Nat.exists_eq_add_one_of_ne_zero (Nat.ne_zero_of_lt hj)
        exact hbehind j other
    · rintro ⟨i, hi, hlast⟩
      cases i with
      | zero => exact .inr ⟨fun j other => hlast (j + 1) other (by omega), hi⟩
      | succ i => exact .inl ⟨i, hi, fun j other hj => hlast (j + 1) other (by omega)⟩

end Pairs

section Reading
variable {t u v : Token} {ts : List Token} {done : Attributes} {r : Attributes × List Token}

/-- Whether a list of attributes goes on over a token. -/
def goesOn (t : Token) : Bool := !endsAttributes t.kind

theorem not_goesOn : (!goesOn t) = true ↔ EndsList t.kind := by
  rw [goesOn, Bool.not_not]
  simp [endsAttributes, EndsList, or_assoc]

theorem goesOn_of_kind {kind : Kind} (h : t.kind = kind) (hk : endsAttributes kind = false) :
    goesOn t = true := by
  simp [goesOn, h, hk]

/-- The tokens of an attribute end no list. -/
theorem pair?_takeWhile : pair? (ts.takeWhile goesOn) = pair? ts := by
  cases hp : pair? ts with
  | none =>
    rw [Option.eq_none_iff_forall_ne_some]
    intro e he
    rw [List.prefix_iff_eq_take.mp (List.takeWhile_prefix goesOn), pair?_take, hp] at he
    cases he.1
  | some e =>
    obtain ⟨t, u, v, ts, rfl, ht, hu, hv, rfl⟩ := exists_of_pair? hp
    simp [goesOn_of_kind ht rfl, goesOn_of_kind hu rfl, goesOn_of_kind hv rfl,
      pair?_some ht hu hv]

/-- What is to be read from a list of attributes: it stops in front of the first token that may end
it, and the last value of each key up to there counts. -/
structure Reads (done : Attributes) (ts : List Token) (r : Attributes × List Token) : Prop where
  rest : r.2 = ts.dropWhile goesOn
  values : ∀ key, r.1.get? key = (lastValue? key (ts.takeWhile goesOn)).or (done.get? key)

theorem reads_nil : Reads done [] (done, []) := ⟨rfl, fun _ => rfl⟩

theorem Reads.pass (h : Reads done ts r) (ht : goesOn t = true) (hp : pair? (t :: ts) = none) :
    Reads done (t :: ts) r := by
  have hpair : pair? (t :: ts.takeWhile goesOn) = none := by
    rw [← List.takeWhile_cons_of_pos ht, pair?_takeWhile, hp]
  constructor
  · rw [List.dropWhile_cons_of_pos ht, h.rest]
  · intro key
    rw [List.takeWhile_cons_of_pos ht, lastValue?_pass hpair, h.values]

theorem Reads.pair (ht : t.kind = .identifier) (hu : u.kind = .symbol .assign)
    (hv : v.kind = .string) (h : Reads (done.insert t.text v.value) ts r) :
    Reads done (t :: u :: v :: ts) r := by
  have hgt := goesOn_of_kind ht rfl
  have hgu := goesOn_of_kind hu rfl
  have hgv := goesOn_of_kind hv rfl
  constructor
  · rw [h.rest]
    simp [hgt, hgu, hgv]
  · intro key
    rw [List.takeWhile_cons_of_pos hgt, List.takeWhile_cons_of_pos hgu,
      List.takeWhile_cons_of_pos hgv, lastValue?_pair ht hu hv, h.values, SortedMap.get?_insert,
      Option.or_assoc]
    by_cases hk : t.text = key
    · simp [hk]
    · simp [hk, Ne.symm hk]

theorem reads_attributesFrom (done : Attributes) (ts : List Token) :
    Reads done ts (attributesFrom done ts) := by
  fun_induction attributesFrom done ts with
  | case1 done => exact reads_nil
  | case2 done t ts h => exact ⟨by simp [goesOn, h], by simp [goesOn, h, lastValue?]⟩
  | case3 done t h hi => exact reads_nil.pass (goesOn_of_kind hi rfl) rfl
  | case4 done t h hi assign ha =>
    exact (reads_nil.pass (goesOn_of_kind ha rfl) rfl).pass (goesOn_of_kind hi rfl) rfl
  | case5 done t h hi assign ha value rest hv ih => exact .pair hi ha hv ih
  | case6 done t h hi assign ha value rest hv ih =>
    have hassign := ih.pass (goesOn_of_kind ha rfl) (pair?_none (by simp [ha]))
    exact hassign.pass (goesOn_of_kind hi rfl) (pair?_none_of_string hv)
  | case7 done t h hi assign more ha ih =>
    exact ih.pass (goesOn_of_kind hi rfl) (pair?_none_of_assign ha)
  | case8 done t ts h hi ih => exact ih.pass (by simpa [goesOn] using h) (pair?_none hi)

end Reading

/-- Attributes are read up to the first token that may end their list. Each key that is written in
front of a value gets the last value that is written for it there, and no other key gets one. -/
theorem attributes_exact (ts : List Token) (cursor : Nat) :
    ∃ stop, cursor ≤ stop ∧ (attributes (ts.drop cursor)).2 = ts.drop stop ∧
      (∀ i, cursor ≤ i → i < stop → ∃ t ∈ ts[i]?, ¬EndsList t.kind) ∧
      (∀ t ∈ ts[stop]?, EndsList t.kind) ∧
      ∀ key value, (attributes (ts.drop cursor)).1.get? key = some value ↔
        ∃ i, cursor ≤ i ∧ i + 2 < stop ∧ pair? (ts.drop i) = some (key, value) ∧
          ∀ j other, i < j → j + 2 < stop → pair? (ts.drop j) ≠ some (key, other) := by
  have hread := reads_attributesFrom .empty (ts.drop cursor)
  obtain ⟨n, hn⟩ : ∃ n, n = (ts.drop cursor).findIdx fun t => !goesOn t := ⟨_, rfl⟩
  refine ⟨cursor + n, Nat.le_add_right cursor n, ?_, ?_, ?_, ?_⟩
  · rw [attributes, hread.rest, List.dropWhile_eq_drop_findIdx_not, ← hn, List.drop_drop]
  · intro i hi hlt
    obtain ⟨k, rfl⟩ := Nat.exists_eq_add_of_le hi
    have hk : k < (ts.drop cursor).findIdx fun t => !goesOn t := by omega
    have hget := List.getElem?_eq_getElem (Nat.le_trans hk List.findIdx_le_length)
    rw [List.getElem?_drop] at hget
    exact ⟨_, hget, mt not_goesOn.mpr (Bool.eq_false_iff.mp (List.not_of_lt_findIdx hk))⟩
  · intro t ht
    rw [hn, ← List.getElem?_drop] at ht
    exact not_goesOn.mp (List.findIdx_of_getElem?_eq_some (p := fun t => !goesOn t) ht)
  · intro key value
    rw [attributes, hread.values, List.takeWhile_eq_take_findIdx_not, ← hn, Option.or_eq_some_iff,
      lastValue?_eq_some]
    simp only [ne_eq, pair?_span]
    constructor
    · rintro (⟨i, ⟨hi, hlt⟩, hlast⟩ | ⟨-, h⟩)
      · refine ⟨cursor + i, Nat.le_add_right cursor i, by omega, hi, fun j other hj hjn hp => ?_⟩
        obtain ⟨k, rfl⟩ := Nat.exists_eq_add_of_le (by omega : cursor ≤ j)
        exact hlast k other (by omega) ⟨hp, by omega⟩
      · cases h
    · rintro ⟨i, hi, hlt, hp, hlast⟩
      obtain ⟨k, rfl⟩ := Nat.exists_eq_add_of_le hi
      refine .inl ⟨k, ⟨hp, by omega⟩, fun j other hj hq => ?_⟩
      exact hlast (cursor + j) other (by omega) (by omega) hq.1

end Folio.Heading
