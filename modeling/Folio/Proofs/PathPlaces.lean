import Folio.Proofs.PathNames

/-! The place that a path names. On a disk without symbolic links a path leads nowhere else, and the
paths above it name the places above its own, as long as it has no double dots. -/

namespace Folio

namespace Path

/-- Where a component leads to from a place. -/
def Component.move (place : Place) : Component → Place
  | root => []
  | here => place
  | up => place.dropLast
  | name n => place ++ [n]

/-- The place that a path names, with its start at a working directory. -/
def place (p : Path) (workDir : Place) : Place := p.components.foldl Component.move workDir

theorem place_child (base : Path) {name : String} (h : IsName name) (workDir : Place) :
    (base.child name).place workDir = base.place workDir ++ [name] := by
  rw [place, components_child base h.isPiece, component_toList, if_neg h.notUp, List.foldl_append]
  rfl

theorem place_descend (base : Path) {names : List String} (h : ∀ n ∈ names, IsName n)
    (workDir : Place) : (base.descend names).place workDir = base.place workDir ++ names := by
  induction names generalizing base with
  | nil => simp
  | cons name names ih =>
    rw [descend_cons, ih _ (fun n hn => h n (by simp [hn])), place_child base (h name (by simp))]
    simp

theorem slash_notMem_of_mem_split {cs piece : List Char} (h : piece ∈ split cs) : '/' ∉ piece := by
  induction cs generalizing piece with
  | nil => simp_all [split]
  | cons c cs ih =>
    obtain ⟨first, pieces, hs⟩ := List.exists_cons_of_ne_nil (split_ne_nil cs)
    rw [split, hs] at h
    rw [hs] at ih
    split at h
    · rcases List.mem_cons.mp h with rfl | h
      · simp
      · exact ih h
    · next hc =>
      rcases List.mem_cons.mp h with rfl | h
      · simp [Ne.symm hc, ih (List.mem_cons_self)]
      · exact ih (List.mem_cons_of_mem _ h)

/-- The first pieces of a path make up a path with the same start. -/
theorem parts_ofParts (p : Path) {pieces : List (List Char)} (h : pieces <+: p.parts.pieces)
    (hne : pieces ≠ []) : (ofParts ⟨p.parts.start, pieces⟩).parts = ⟨p.parts.start, pieces⟩ := by
  -- The pieces are found again in the text, since none of them has a slash.
  have hsplit : ∀ cs, pieces <+: split cs → split (joined pieces) = pieces :=
    fun cs hp => split_joined hne fun piece hm => slash_notMem_of_mem_split (hp.subset hm)
  have htoList : ∀ start, (ofParts ⟨start, pieces⟩).text.toList = start.text ++ joined pieces :=
    fun start => String.toList_ofList
  obtain ⟨piece, rest, rfl⟩ := List.exists_cons_of_ne_nil hne
  cases starts p with
  | root body ht hp =>
    rw [hp] at h ⊢
    rw [parts_root (htoList .root), List.append_eq, List.nil_append, hsplit body h]
  | dot ht hp =>
    rw [hp] at h ⊢
    obtain ⟨rfl, hrest⟩ := List.cons_prefix_cons.mp h
    obtain rfl := List.prefix_nil.mp hrest
    rw [parts_dot (htoList .here)]
  | here body ht hp =>
    rw [hp] at h ⊢
    obtain ⟨rfl, hrest⟩ := List.cons_prefix_cons.mp h
    cases rest with
    | nil => rw [parts_dot (htoList .here)]
    | cons next rest =>
      have ht' := htoList .here
      rw [joined_cons_cons] at ht'
      have hs' : split (joined (next :: rest)) = next :: rest :=
        split_joined (by simp) fun piece hm => slash_notMem_of_mem_split (hrest.subset hm)
      rw [parts_here ht', hs']
  | empty ht hp =>
    rw [hp] at h ⊢
    obtain ⟨rfl, hrest⟩ := List.cons_prefix_cons.mp h
    obtain rfl := List.prefix_nil.mp hrest
    rw [parts_empty (htoList .bare)]
  | bare first others hs hfirst hp =>
    rw [hp] at h ⊢
    obtain ⟨rfl, -⟩ := List.cons_prefix_cons.mp h
    have hs' : split (ofParts ⟨.bare, piece :: rest⟩).text.toList = piece :: rest := by
      rw [htoList]
      exact hsplit p.text.toList (hs ▸ h)
    rw [parts_bare hs' hfirst]

theorem components_ofParts (p : Path) {pieces : List (List Char)} (h : pieces <+: p.parts.pieces) :
    (ofParts ⟨p.parts.start, pieces⟩).components =
      p.parts.start.components ++ (pieces.filter fun piece => !isNoise piece).map component := by
  by_cases hne : pieces = []
  · rw [hne]
    cases p.parts.start <;> rfl
  · rw [components, parts_ofParts p h hne]

theorem trimEnd_isPrefix (pieces : List (List Char)) : trimEnd pieces <+: pieces := by
  have h := List.reverse_prefix.mpr (List.dropWhile_suffix isNoise (l := pieces.reverse))
  rwa [List.reverse_reverse] at h

theorem filter_trimEnd (pieces : List (List Char)) :
    (trimEnd pieces).filter (fun piece => !isNoise piece) =
      pieces.filter fun piece => !isNoise piece := by
  have hdrop : ∀ l : List (List Char), (l.dropWhile isNoise).filter (fun piece => !isNoise piece) =
      l.filter fun piece => !isNoise piece := by
    intro l
    induction l with
    | nil => rfl
    | cons piece l ih => cases h : isNoise piece <;> simp [h, ih]
  rw [trimEnd, List.filter_reverse, hdrop, List.filter_reverse, List.reverse_reverse]

theorem isNoise_last_trimEnd {pieces above : List (List Char)} {last : List Char}
    (h : trimEnd pieces = above ++ [last]) : isNoise last = false := by
  have hhead : pieces.reverse.dropWhile isNoise = last :: above.reverse := by
    rw [← List.reverse_inj, ← trimEnd, h]
    simp
  have hfirst := List.head?_dropWhile_not isNoise pieces.reverse
  rw [hhead] at hfirst
  simpa using hfirst

/-- The parent of a path lacks its last component. -/
theorem components_parent? {p q : Path} (h : p.parent? = some q) :
    q.components = p.components.dropLast := by
  have hp : p.components = p.parts.start.components ++
      ((trimEnd p.parts.pieces).filter fun piece => !isNoise piece).map component := by
    rw [filter_trimEnd]
    rfl
  unfold parent? at h
  rcases List.eq_nil_or_concat (trimEnd p.parts.pieces) with htrim | ⟨above, last, hlast⟩
  · rw [htrim] at h hp
    cases hstart : p.parts.start with
    | here =>
      rw [hstart] at h hp
      obtain rfl := Option.some.inj h
      rw [hp]
      rfl
    | root | bare => simp [hstart] at h
  · rw [List.concat_eq_append] at hlast
    have hq : q = ofParts ⟨p.parts.start, trimEnd above⟩ := by simpa [hlast] using h.symm
    have hpre : trimEnd above <+: p.parts.pieces :=
      (trimEnd_isPrefix above).trans
        ((hlast ▸ List.prefix_append above [last]).trans (trimEnd_isPrefix p.parts.pieces))
    rw [hq, components_ofParts p hpre, filter_trimEnd, hp, hlast]
    simp [isNoise_last_trimEnd hlast]

theorem components_ancestorsFrom {fuel : Nat} {p q : Path} (h : q ∈ ancestorsFrom fuel p) :
    q.components <+: p.components ∧ q.components ≠ [] := by
  induction fuel generalizing p with
  | zero => cases h
  | succ fuel ih =>
    rw [ancestorsFrom] at h
    cases hparent : p.parent? with
    | none => simp [hparent] at h
    | some parent =>
      rw [hparent] at h
      rcases List.mem_cons.mp h with rfl | h
      · refine ⟨List.prefix_rfl, fun hnil => ?_⟩
        have hparts := parts_empty (text_of_components_nil hnil)
        simp [parent?, hparts, trimEnd, isNoise] at hparent
      · obtain ⟨hpre, hne⟩ := ih h
        rw [components_parent? hparent] at hpre
        exact ⟨hpre.trans (List.dropLast_prefix _), hne⟩

theorem root_notMem_components {p : Path} {first : Component} {rest : List Component}
    (h : p.components = first :: rest) : .root ∉ rest := by
  have hpieces : ∀ pieces : List (List Char), Component.root ∉ pieces.map component := by
    intro pieces hm
    obtain ⟨piece, -, hp⟩ := List.mem_map.mp hm
    unfold component at hp
    split at hp <;> cases hp
  unfold components at h
  cases hstart : p.parts.start with
  | root | here =>
    rw [hstart] at h
    obtain ⟨-, rfl⟩ := List.cons.inj h
    exact hpieces _
  | bare =>
    rw [hstart] at h
    intro hm
    exact hpieces _ (h ▸ List.mem_cons_of_mem _ hm)

/-- Without double dots, what comes after the first component leads further down. -/
theorem isPrefix_move {place : Place} {rest : List Component} (hroot : .root ∉ rest)
    (hup : .up ∉ rest) : place <+: rest.foldl Component.move place := by
  induction rest generalizing place with
  | nil => exact List.prefix_rfl
  | cons c rest ih =>
    have hrest := @ih (c.move place) (by grind) (by grind)
    cases c with
    | root => simp at hroot
    | up => simp at hup
    | here => exact hrest
    | name n => exact (List.prefix_append place [n]).trans hrest

theorem place_isPrefix {p q : Path} (h : q.components <+: p.components) (hne : q.components ≠ [])
    (hup : .up ∉ p.components) (workDir : Place) : q.place workDir <+: p.place workDir := by
  obtain ⟨rest, hrest⟩ := h
  obtain ⟨first, others, hq⟩ := List.exists_cons_of_ne_nil hne
  have hroot : .root ∉ rest := by
    have hp : p.components = first :: (others ++ rest) := by rw [← hrest, hq]; rfl
    have hall := root_notMem_components hp
    exact fun hm => hall (by simp [hm])
  rw [place, place, ← hrest, List.foldl_append]
  exact isPrefix_move hroot fun hm => hup (by simp [← hrest, hm])

/-- The paths above a path name places above its own. -/
theorem place_ancestors {p q : Path} (h : q ∈ p.ancestors) (hup : .up ∉ p.components)
    (workDir : Place) : q.place workDir <+: p.place workDir := by
  obtain ⟨hpre, hne⟩ := components_ancestorsFrom h
  exact place_isPrefix hpre hne hup workDir

/-- Slashes at the end of a path add no component. -/
theorem components_slashes {p q : Path} {slashes : List Char} (hne : q.text.toList ≠ [])
    (hall : ∀ c ∈ slashes, c = '/') (h : p.text.toList = q.text.toList ++ slashes) :
    p.components = q.components := by
  induction slashes generalizing q with
  | nil => rw [eq_of_toList (h.trans (List.append_nil _))]
  | cons c slashes ih =>
    have hc : c = '/' := hall c (by simp)
    let longer : Path := ⟨String.ofList (q.text.toList ++ '/' :: [])⟩
    have hlonger : longer.text.toList = q.text.toList ++ '/' :: [] := String.toList_ofList
    have hsame : longer.components = q.components := by
      simp [components, parts_slash hne hlonger, split, isNoise]
    rw [← hsame]
    refine ih (by simp [hlonger]) (fun c hm => hall c (by simp [hm])) ?_
    rw [h, hlonger, hc]
    simp

end Path

namespace Disk

/-- Only slashes are taken away from the end of a path, and all of them. -/
theorem toList_unslashed (p : Path) :
    ∃ slashes, (∀ c ∈ slashes, c = '/') ∧ p.text.toList = (unslashed p).text.toList ++ slashes ∧
      (unslashed p).text.toList.getLast? ≠ some '/' := by
  refine ⟨(p.text.toList.reverse.takeWhile (· = '/')).reverse, fun c hc => ?_, ?_, fun hlast => ?_⟩
  · have hall := List.all_takeWhile (l := p.text.toList.reverse) (p := fun c => decide (c = '/'))
    simpa using List.all_eq_true.mp hall c (List.mem_reverse.mp hc)
  · rw [unslashed, String.toList_ofList, ← List.reverse_append, List.takeWhile_append_dropWhile,
      List.reverse_reverse]
  · have hhead := List.head?_dropWhile_not (fun c => decide (c = '/')) p.text.toList.reverse
    rw [unslashed, String.toList_ofList, List.getLast?_reverse] at hlast
    simp [hlast] at hhead

theorem components_unslashed {p : Path} (h : (unslashed p).text.isEmpty = false) :
    (unslashed p).components = p.components := by
  obtain ⟨slashes, hall, hwhole, -⟩ := toList_unslashed p
  exact (Path.components_slashes (by simpa using h) hall hwhole).symm

theorem walk_append (start : Place) (path rest : List String) :
    walk start (path ++ rest) = walk (walk start path) rest := by
  induction path generalizing start with
  | nil => rfl
  | cons step path ih => grind [walk]

/-- Dots lead nowhere, and neither do empty texts between slashes. -/
theorem walk_pieces (start : Place) (pieces : List (List Char)) :
    walk start ((pieces.filter fun piece => !piece.isEmpty).map String.ofList) =
      ((pieces.filter fun piece => !Path.isNoise piece).map Path.component).foldl
        Path.Component.move start := by
  induction pieces generalizing start with
  | nil => rfl
  | cons piece pieces ih =>
    by_cases hnil : piece = []
    · simpa [hnil, Path.isNoise] using ih start
    by_cases hdot : piece = ['.']
    · have hstep : String.ofList ['.'] = "." := rfl
      simpa [hdot, Path.isNoise, walk, hstep] using ih start
    have hstep : String.ofList piece ≠ "." := by
      intro h
      exact hdot (by simpa using congrArg String.toList h)
    by_cases hup : piece = ['.', '.']
    · simpa [hup, Path.isNoise, walk, Path.component, Path.Component.move] using ih start.dropLast
    · have hstep' : String.ofList piece ≠ ".." := by
        intro h
        exact hup (by simpa using congrArg String.toList h)
      simpa [hnil, hdot, hup, Path.isNoise, walk, hstep, hstep', Path.component,
        Path.Component.move] using ih (start ++ [String.ofList piece])

theorem walk_steps (workDir : Place) (p : Path) :
    walk (startOf workDir p.text) (steps p.text) = p.place workDir := by
  have hend : ∀ start, walk start (steps p.text) =
      walk start (((Path.split p.text.toList).filter fun piece => !piece.isEmpty).map String.ofList) := by
    intro start
    rw [steps, List.map_append, walk_append]
    split <;> simp [walk]
  rw [hend, walk_pieces, Path.place, Path.components, List.foldl_append]
  cases Path.starts p with
  | root body ht hp =>
    simp [startOf, ht, hp, Path.split, Path.isNoise, Path.Start.components, Path.Component.move]
  | dot ht hp =>
    simp [startOf, ht, hp, Path.split, Path.isNoise, Path.Start.components, Path.Component.move]
  | here body ht hp =>
    simp [startOf, ht, hp, Path.split, Path.isNoise, Path.Start.components, Path.Component.move]
  | empty ht hp => simp [startOf, ht, hp, Path.split, Path.isNoise, Path.Start.components]
  | bare piece pieces hs hfirst hp =>
    have hhead : p.text.toList.head? ≠ some '/' := by
      intro hh
      obtain ⟨body, ht⟩ := List.head?_eq_some_iff.mp hh
      rw [ht, Path.split, if_pos rfl] at hs
      exact hfirst.1 (List.cons.inj hs).1.symm
    simp [startOf, hhead, hs, hp, Path.Start.components]

variable {d d' : Disk} {p : Path} {q : Place} {followLast : Bool}

/-- On a plain disk a path leads to no other place than the one it names. -/
theorem Plain.locate_place (h : d.Plain) (hl : d.locate followLast p = .ok q) :
    q = p.place d.workDir := by
  obtain ⟨-, hf⟩ := locate_eq_ok.mp hl
  rw [h.follow_walk hf, walk_steps]

/-- A directory is made at the place that its path names, where nothing stands. -/
theorem Plain.makeDir_place (h : d.Plain) (hm : d.makeDir p = .ok d') :
    d.HasParent (p.place d.workDir) ∧ d.get? (p.place d.workDir) = none ∧
      d' = d.put (p.place d.workDir) .dir := by
  unfold Disk.makeDir Disk.vacancy at hm
  obtain ⟨place, hv, hm⟩ := bind_eq_ok.mp hm
  obtain ⟨q, hl, hv⟩ := bind_eq_ok.mp hv
  have hq : q = p.place d.workDir := by
    rw [h.locate_place hl]
    split
    · rfl
    · next hne => rw [Path.place, components_unslashed (by simpa using hne), Path.place]
  dsimp only at hv
  split at hv
  · cases hv
  · next hno =>
    cases hv
    rw [← hq]
    exact ⟨h.locate_hasParent hl, by simpa using hno, (Except.ok.inj hm).symm⟩

end Disk

end Folio
