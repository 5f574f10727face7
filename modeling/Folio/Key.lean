/-! Keys of maps: texts and lists of texts, in the order of their characters. -/

namespace Folio

/-- A type whose values stand in a strict order, in which any two of them can be compared. -/
class Key (κ : Type) [LT κ] where
  /-- Whether a key comes before another one. -/
  precedes : κ → κ → Bool
  precedes_iff {a b : κ} : precedes a b = true ↔ a < b
  lt_irrefl (a : κ) : ¬a < a
  lt_trans {a b c : κ} : a < b → b < c → a < c
  eq_of_not_lt {a b : κ} : ¬a < b → ¬b < a → a = b

instance : Key String where
  precedes a b := decide (a < b)
  precedes_iff := decide_eq_true_iff
  lt_irrefl _ := Std.lt_irrefl
  lt_trans := Std.lt_trans
  eq_of_not_lt h h' := Std.le_antisymm (Std.not_lt.mp h') (Std.not_lt.mp h)

instance : Key (List String) where
  precedes a b := List.lex a b fun x y => decide (x < y)
  precedes_iff := List.lex_eq_true_iff_lt
  lt_irrefl := List.lt_irrefl
  lt_trans := List.lt_trans
  eq_of_not_lt h h' := Std.le_antisymm (Std.not_lt.mp h') (Std.not_lt.mp h)

end Folio
