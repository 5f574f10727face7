import Folio.OutputDir
import Folio.Proofs.PlainDisk

/-! Paths that go down from a directory by names. Going down adds one component for each name, and the
path from the directory down to the last name is found again by cutting the directory off. -/

namespace Folio.Path

/-- A text between two slashes that counts as a component. -/
structure IsPiece (name : String) : Prop where
  nonempty : name.toList ≠ []
  noSlash : '/' ∉ name.toList
  notHere : name ≠ "."

theorem IsName.isPiece {name : String} (h : IsName name) : IsPiece name :=
  ⟨h.nonempty, h.noSlash, h.notHere⟩

theorem IsPiece.isName {name : String} (h : IsPiece name) (hup : name ≠ "..") : IsName name :=
  ⟨h.nonempty, h.noSlash, h.notHere, hup⟩

/-- The first piece of a path that starts with neither a slash nor a dot alone. -/
def IsFirst (piece : List Char) : Prop := piece ≠ [] ∧ piece ≠ ['.']

theorem IsPiece.isFirst {name : String} (h : IsPiece name) : IsFirst name.toList :=
  ⟨h.nonempty, fun hd => h.notHere (String.toList_inj.mp hd)⟩

theorem isPiece_up : IsPiece ".." := ⟨by decide, by decide, by decide⟩

theorem IsPiece.isNoise {name : String} (h : IsPiece name) : isNoise name.toList = false := by
  simp [Path.isNoise, h.isFirst.1, h.isFirst.2]

/-- The component of a name. -/
theorem component_toList (name : String) :
    component name.toList = if name = ".." then .up else .name name := by
  have hup : name.toList = ['.', '.'] ↔ name = ".." := by
    rw [show ['.', '.'] = "..".toList from rfl, String.toList_inj]
  simp [component, hup]

/-! Taking a text apart and putting it together. -/

theorem joined_cons_cons (piece next : List Char) (pieces : List (List Char)) :
    joined (piece :: next :: pieces) = piece ++ '/' :: joined (next :: pieces) := by
  simp [joined, List.intercalate_cons_cons]

theorem joined_singleton (piece : List Char) : joined [piece] = piece := by
  simp [joined]

theorem joined_concat {pieces : List (List Char)} (h : pieces ≠ []) (piece : List Char) :
    joined (pieces ++ [piece]) = joined pieces ++ '/' :: piece := by
  induction pieces with
  | nil => exact absurd rfl h
  | cons first pieces ih =>
    cases pieces with
    | nil => simp [joined_cons_cons, joined_singleton]
    | cons next pieces =>
      have hrest := ih (by simp)
      simp only [List.cons_append] at hrest ⊢
      rw [joined_cons_cons, hrest, joined_cons_cons]
      simp

theorem split_joined {pieces : List (List Char)} (hne : pieces ≠ [])
    (h : ∀ piece ∈ pieces, '/' ∉ piece) : split (joined pieces) = pieces := by
  induction pieces with
  | nil => exact absurd rfl hne
  | cons piece pieces ih =>
    have hpiece : '/' ∉ piece := h piece (by simp)
    cases pieces with
    | nil => rw [joined_singleton, split_of_no_slash hpiece]
    | cons next pieces =>
      have hrest := ih (by simp) (fun p hp => h p (by simp [hp]))
      rw [joined_cons_cons, split_append_slash, split_of_no_slash hpiece, hrest]
      rfl

theorem joined_split (cs : List Char) : joined (split cs) = cs := by
  induction cs with
  | nil => rfl
  | cons c cs ih =>
    obtain ⟨piece, pieces, hs⟩ := List.exists_cons_of_ne_nil (split_ne_nil cs)
    rw [hs] at ih
    rw [split, hs]
    split
    · next hc => rw [joined_cons_cons, ih, hc]; rfl
    · cases pieces with
      | nil => simpa [joined_singleton] using ih
      | cons next pieces => simpa [joined_cons_cons] using ih

theorem parts_root {p : Path} {body : List Char} (h : p.text.toList = '/' :: body) :
    p.parts = ⟨.root, split body⟩ := by
  unfold parts
  simp [h]

theorem parts_dot {p : Path} (h : p.text.toList = ['.']) : p.parts = ⟨.here, [[]]⟩ := by
  unfold parts
  simp [h]

theorem parts_here {p : Path} {body : List Char} (h : p.text.toList = '.' :: '/' :: body) :
    p.parts = ⟨.here, [] :: split body⟩ := by
  unfold parts
  simp [h, split]

theorem parts_empty {p : Path} (h : p.text.toList = []) : p.parts = ⟨.bare, [[]]⟩ := by
  unfold parts
  simp [h, split]

theorem parts_bare {p : Path} {piece : List Char} {pieces : List (List Char)}
    (h : split p.text.toList = piece :: pieces) (hfirst : IsFirst piece) :
    p.parts = ⟨.bare, piece :: pieces⟩ := by
  unfold parts
  split
  · next body ht =>
    rw [ht, split, if_pos rfl] at h
    exact absurd (List.cons.inj h).1.symm hfirst.1
  · next ht =>
    rw [ht] at h
    exact absurd (List.cons.inj h).1.symm hfirst.2
  · next body ht =>
    rw [ht, show '.' :: '/' :: body = ['.'] ++ '/' :: body from rfl, split_append_slash] at h
    exact absurd (List.cons.inj h).1.symm hfirst.2
  · rw [h]

/-- How a path can start. -/
inductive Starts (p : Path) : Prop where
  | root (body : List Char) (ht : p.text.toList = '/' :: body) (hp : p.parts = ⟨.root, split body⟩)
  | dot (ht : p.text.toList = ['.']) (hp : p.parts = ⟨.here, [[]]⟩)
  | here (body : List Char) (ht : p.text.toList = '.' :: '/' :: body)
    (hp : p.parts = ⟨.here, [] :: split body⟩)
  | empty (ht : p.text.toList = []) (hp : p.parts = ⟨.bare, [[]]⟩)
  | bare (piece : List Char) (pieces : List (List Char)) (hs : split p.text.toList = piece :: pieces)
    (hfirst : IsFirst piece) (hp : p.parts = ⟨.bare, piece :: pieces⟩)

theorem starts (p : Path) : Starts p := by
  obtain ⟨piece, pieces, hs⟩ := List.exists_cons_of_ne_nil (split_ne_nil p.text.toList)
  have htext : p.text.toList = joined (piece :: pieces) := hs ▸ (joined_split p.text.toList).symm
  by_cases hfirst : IsFirst piece
  · exact .bare piece pieces hs hfirst (parts_bare hs hfirst)
  -- The first piece is empty or a dot, and what follows it stands behind a slash.
  have hpiece : piece = [] ∨ piece = ['.'] := by
    unfold IsFirst at hfirst
    grind
  rcases hpiece with rfl | rfl
  · cases pieces with
    | nil => exact .empty htext (parts_empty htext)
    | cons next pieces =>
      rw [joined_cons_cons] at htext
      exact .root _ htext (parts_root htext)
  · cases pieces with
    | nil => exact .dot htext (parts_dot htext)
    | cons next pieces =>
      rw [joined_cons_cons] at htext
      exact .here _ htext (parts_here htext)

/-- Putting the parts of a path together gives the path again. -/
theorem ofParts_parts (p : Path) : ofParts p.parts = p := by
  have htext : p.parts.start.text ++ joined p.parts.pieces = p.text.toList := by
    cases starts p with
    | root body ht hp => simp [hp, ht, Start.text, joined_split]
    | dot ht hp => simp [hp, ht, Start.text, joined_singleton]
    | here body ht hp =>
      have hj : joined ([] :: split body) = '/' :: body := joined_split ('/' :: body)
      simp [hp, ht, Start.text, hj]
    | empty ht hp => simp [hp, ht, Start.text, joined_singleton]
    | bare piece pieces hs hfirst hp => rw [hp, ← hs, joined_split]; rfl
  rw [ofParts, htext, String.ofList_toList]

/-- What stands behind a slash comes after the parts of what stands before it. -/
theorem parts_slash {p q : Path} {ds : List Char} (hne : p.text.toList ≠ [])
    (hq : q.text.toList = p.text.toList ++ '/' :: ds) :
    q.parts = ⟨p.parts.start, p.parts.pieces ++ split ds⟩ := by
  cases starts p with
  | root body ht hp =>
    rw [ht] at hq
    rw [hp, parts_root hq]
    simp [split_append_slash]
  | dot ht hp =>
    rw [ht] at hq
    rw [hp, parts_here hq]
    rfl
  | here body ht hp =>
    rw [ht] at hq
    rw [hp, parts_here hq]
    simp [split_append_slash]
  | empty ht hp => exact absurd ht hne
  | bare piece pieces hs hfirst hp =>
    have hsplit : split q.text.toList = piece :: (pieces ++ split ds) := by
      rw [hq, split_append_slash, hs]
      rfl
    rw [hp, parts_bare hsplit hfirst]
    rfl

/-- The pieces of a directory that stay when something is looked up in it: a slash at its end is the
one before what is looked up. -/
def piecesAbove (base : Path) : List (List Char) :=
  if base.text.toList.getLast?.any (· ≠ '/') then base.parts.pieces else base.parts.pieces.dropLast

theorem eq_of_toList {p q : Path} (h : p.text.toList = q.text.toList) : p = q :=
  congrArg Path.mk (String.toList_inj.mp h)

theorem join_toList (base : Path) {p : Path} (h : p.isAbsolute = false) :
    (base.join p).text.toList =
      if base.text.toList.getLast?.any (· ≠ '/') then base.text.toList ++ '/' :: p.text.toList
      else base.text.toList ++ p.text.toList := by
  rw [join, h, if_neg Bool.false_ne_true]
  split <;> simp

theorem isAbsolute_of_noSlash {p : Path} (h : p.text.toList.head? ≠ some '/') :
    p.isAbsolute = false := by
  simpa [isAbsolute] using h

theorem IsPiece.isAbsolute {name : String} (h : IsPiece name) : Path.isAbsolute ⟨name⟩ = false :=
  isAbsolute_of_noSlash fun hh => h.noSlash (List.mem_of_head? hh)

theorem child_toList (base : Path) {name : String} (h : IsPiece name) :
    (base.child name).text.toList =
      if base.text.toList.getLast?.any (· ≠ '/') then base.text.toList ++ '/' :: name.toList
      else base.text.toList ++ name.toList :=
  join_toList base h.isAbsolute

/-- What is added to an empty path or to one with a slash at its end takes the place of the empty text
there. -/
theorem parts_unended {base q : Path} {ds : List Char}
    (hlast : ¬base.text.toList.getLast?.any (· ≠ '/')) (hq : q.text.toList = base.text.toList ++ ds)
    (hds : ds = [] ∨ ∃ piece, split ds = [piece] ∧ IsFirst piece) :
    q.parts = ⟨base.parts.start, base.parts.pieces.dropLast ++ split ds⟩ := by
  rcases List.eq_nil_or_concat base.text.toList with hnil | ⟨cs, c, hcs⟩
  · rw [hnil, List.nil_append] at hq
    rw [parts_empty hnil]
    rcases hds with rfl | ⟨piece, hs, hfirst⟩
    · exact parts_empty hq
    · rw [parts_bare (hq.symm ▸ hs) hfirst, hs]
      rfl
  · have hc : c = '/' := by simpa [hcs] using hlast
    have hbase : base.text.toList = cs ++ '/' :: [] := by simp [hcs, hc]
    rw [hbase, List.append_assoc] at hq
    cases cs with
    | nil => rw [parts_root hbase, parts_root hq]; rfl
    | cons b bs =>
      let stem : Path := ⟨String.ofList (b :: bs)⟩
      have hstem : stem.text.toList = b :: bs := String.toList_ofList
      have hne : stem.text.toList ≠ [] := by simp [hstem]
      rw [← hstem] at hbase hq
      rw [parts_slash hne hbase, parts_slash hne hq]
      simp [split]

theorem parts_child (base : Path) {name : String} (h : IsPiece name) :
    (base.child name).parts = ⟨base.parts.start, base.piecesAbove ++ [name.toList]⟩ := by
  have ht := child_toList base h
  have hname := split_of_no_slash h.noSlash
  unfold piecesAbove
  split at ht
  · next hlast =>
    have hne : base.text.toList ≠ [] := by
      intro hnil
      simp [hnil] at hlast
    rw [parts_slash hne ht, hname, if_pos hlast]
  · next hlast =>
    rw [parts_unended hlast ht (.inr ⟨_, hname, h.isFirst⟩), hname, if_neg hlast]

/-- The text of a path to a name ends with the name. -/
theorem unended_child (base : Path) {name : String} (h : IsPiece name) :
    (base.child name).text.toList.getLast?.any (· ≠ '/') = true := by
  obtain ⟨before, c, hn⟩ := (List.eq_nil_or_concat name.toList).resolve_left h.nonempty
  have hc : c ≠ '/' := by
    rintro rfl
    exact h.noSlash (by simp [hn])
  have hend : ∃ cs, (base.child name).text.toList = cs ++ [c] := by
    rw [child_toList base h, hn]
    split
    · exact ⟨base.text.toList ++ '/' :: before, by simp⟩
    · exact ⟨base.text.toList ++ before, by simp⟩
  obtain ⟨cs, hcs⟩ := hend
  simpa [hcs] using hc

theorem text_child_ne (base : Path) {name : String} (h : IsPiece name) :
    (base.child name).text ≠ "" := by
  intro hempty
  have hend := unended_child base h
  simp [hempty] at hend

theorem piecesAbove_child (base : Path) {name : String} (h : IsPiece name) :
    (base.child name).piecesAbove = base.piecesAbove ++ [name.toList] := by
  rw [piecesAbove, if_pos (unended_child base h), parts_child base h]

/-- The path from a directory down through names. -/
def descend (base : Path) (names : List String) : Path := names.foldl child base

@[simp]
theorem descend_nil (base : Path) : base.descend [] = base := rfl

theorem descend_cons (base : Path) (name : String) (names : List String) :
    base.descend (name :: names) = (base.child name).descend names := rfl

theorem descend_concat (base : Path) (names : List String) (name : String) :
    base.descend (names ++ [name]) = (base.descend names).child name := by
  simp [descend]

/-- A path down through names is the path to the last of them. -/
theorem exists_child_descend (base : Path) {names : List String} (hne : names ≠ [])
    (h : ∀ n ∈ names, IsPiece n) :
    ∃ (above : Path) (last : String), IsPiece last ∧ base.descend names = above.child last := by
  obtain ⟨init, last, rfl⟩ := (List.eq_nil_or_concat names).resolve_left hne
  rw [List.concat_eq_append] at h ⊢
  exact ⟨base.descend init, last, h last (by simp), descend_concat base init last⟩

theorem parts_descend (base : Path) {names : List String} (hne : names ≠ [])
    (h : ∀ n ∈ names, IsPiece n) :
    (base.descend names).parts =
      ⟨base.parts.start, base.piecesAbove ++ names.map String.toList⟩ := by
  induction names generalizing base with
  | nil => exact absurd rfl hne
  | cons name names ih =>
    have hname : IsPiece name := h name (by simp)
    rw [descend_cons]
    cases names with
    | nil => exact parts_child base hname
    | cons next names =>
      rw [ih (base.child name) (by simp) (fun n hn => h n (by simp [hn])), parts_child base hname,
        piecesAbove_child base hname]
      simp

/-- A slash at the end of a directory adds no component to it. -/
theorem filter_piecesAbove (base : Path) :
    base.piecesAbove.filter (fun piece => !isNoise piece) =
      base.parts.pieces.filter fun piece => !isNoise piece := by
  unfold piecesAbove
  split
  · rfl
  · next hlast =>
    have hparts := parts_unended hlast (List.append_nil base.text.toList).symm (.inl rfl)
    have hpieces : base.parts.pieces = base.parts.pieces.dropLast ++ [[]] :=
      congrArg Parts.pieces hparts
    conv => rhs; rw [hpieces]
    simp [isNoise]

theorem components_child (base : Path) {name : String} (h : IsPiece name) :
    (base.child name).components = base.components ++ [component name.toList] := by
  simp [components, parts_child base h, filter_piecesAbove, h.isNoise]

theorem components_descend (base : Path) {names : List String} (h : ∀ n ∈ names, IsPiece n) :
    (base.descend names).components =
      base.components ++ names.map fun n => component n.toList := by
  induction names generalizing base with
  | nil => simp
  | cons name names ih =>
    rw [descend_cons, ih _ (fun n hn => h n (by simp [hn])), components_child base (h name (by simp))]
    simp

/-! The path below a directory. -/

/-- The path that consists of names. -/
def relative (names : List String) : Path := ofParts ⟨.bare, names.map String.toList⟩

theorem relative_toList (names : List String) :
    (relative names).text.toList = joined (names.map String.toList) := by
  simp [relative, ofParts, Start.text]

theorem parts_relative {names : List String} (hne : names ≠ []) (h : ∀ n ∈ names, IsPiece n) :
    (relative names).parts = ⟨.bare, names.map String.toList⟩ := by
  have hsplit : split (relative names).text.toList = names.map String.toList := by
    rw [relative_toList, split_joined (by simpa using hne)]
    intro piece hp
    obtain ⟨n, hn, rfl⟩ := List.mem_map.mp hp
    exact (h n hn).noSlash
  obtain ⟨name, rest, rfl⟩ := List.exists_cons_of_ne_nil hne
  exact parts_bare hsplit (h name (by simp)).isFirst

theorem components_relative {names : List String} (hne : names ≠ []) (h : ∀ n ∈ names, IsPiece n) :
    (relative names).components = names.map fun n => component n.toList := by
  have hfilter : (names.map String.toList).filter (fun piece => !isNoise piece) =
      names.map String.toList := by
    apply List.filter_eq_self.mpr
    intro piece hp
    obtain ⟨n, hn, rfl⟩ := List.mem_map.mp hp
    simp [(h n hn).isNoise]
  simp [components, parts_relative hne h, hfilter, Start.components]

theorem trimEnd_concat (pieces : List (List Char)) {name : String} (h : IsPiece name) :
    trimEnd (pieces ++ [name.toList]) = pieces ++ [name.toList] := by
  simp [trimEnd, h.isNoise]

theorem trimEnd_names (pieces : List (List Char)) {names : List String} (hne : names ≠ [])
    (h : ∀ n ∈ names, IsPiece n) :
    trimEnd (pieces ++ names.map String.toList) = pieces ++ names.map String.toList := by
  obtain ⟨above, last, rfl⟩ := (List.eq_nil_or_concat names).resolve_left hne
  have hlast : IsPiece last := h last (by simp)
  simpa using trimEnd_concat (pieces ++ above.map String.toList) hlast

theorem dropComponents_append (pieces rest : List (List Char))
    (hrest : rest.dropWhile isNoise = rest) :
    dropComponents (pieces.filter fun piece => !isNoise piece).length (pieces ++ rest) = rest := by
  induction pieces with
  | nil => simpa [dropComponents] using hrest
  | cons piece pieces ih =>
    cases hn : isNoise piece with
    | false => simpa [hn, dropComponents] using ih
    | true =>
      simp only [hn, List.filter_cons, Bool.not_true, Bool.false_eq_true, if_false,
        List.cons_append]
      cases hl : (pieces.filter fun piece => !isNoise piece).length with
      | zero => simpa [hl, dropComponents, hn] using ih
      | succ n => simpa [hl, dropComponents, hn] using ih

/-- Only the empty path has no components. -/
theorem text_of_components_nil {p : Path} (h : p.components = []) : p.text.toList = [] := by
  unfold components at h
  cases starts p with
  | root body ht hp => simp [hp, Start.components] at h
  | dot ht hp => simp [hp, Start.components] at h
  | here body ht hp => simp [hp, Start.components] at h
  | empty ht hp => exact ht
  | bare piece pieces hs hfirst hp => simp [hp, Start.components, isNoise, hfirst.1, hfirst.2] at h

/-- A path that goes down from a directory by names is, below the directory, the path of the names. -/
theorem relativeTo?_descend (base : Path) {names : List String} (hne : names ≠ [])
    (h : ∀ n ∈ names, IsPiece n) : (base.descend names).relativeTo? base = some (relative names) := by
  have hpre : base.components.isPrefixOf (base.descend names).components = true := by
    rw [components_descend base h, List.isPrefixOf_iff_prefix]
    exact List.prefix_append _ _
  have hparts := parts_descend base hne h
  unfold relativeTo?
  rw [hparts]
  simp only [hpre, Bool.not_true, Bool.false_eq_true, if_false]
  split
  · next hempty =>
    have htext := text_of_components_nil (List.isEmpty_iff.mp hempty)
    have habove : base.piecesAbove = [] ∧ base.parts.start = .bare := by
      unfold piecesAbove parts
      simp [htext, split]
    rw [habove.1, habove.2, trimEnd_names [] hne h]
    rfl
  · have hpassed : base.components.length - base.parts.start.components.length =
        (base.piecesAbove.filter fun piece => !isNoise piece).length := by
      simp [components, filter_piecesAbove]
    have hrest : (names.map String.toList).dropWhile isNoise = names.map String.toList := by
      obtain ⟨name, rest, rfl⟩ := List.exists_cons_of_ne_nil hne
      simp [(h name (by simp)).isNoise]
    rw [hpassed, dropComponents_append _ _ hrest, ← List.nil_append (names.map String.toList),
      trimEnd_names [] hne h]
    rfl

end Folio.Path
