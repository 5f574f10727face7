import Folio.Proofs.LinkedPaths

/-! Making a directory with those above it, on any disk. If no double dot of the path comes after
something that is missing, the directory is there already, or it is made at a place where nothing was
before, and so is everything that is made on the way. -/

namespace Folio

namespace Path

variable {p q : Path}

theorem slash_notMem_of_mem_pieces {piece : List Char} (h : piece ∈ p.parts.pieces) : '/' ∉ piece := by
  cases starts p with
  | root body ht hp => exact slash_notMem_of_mem_split (hp ▸ h)
  | dot ht hp | empty ht hp =>
    rw [hp] at h
    rw [List.mem_singleton.mp h]
    simp
  | here body ht hp =>
    rw [hp] at h
    rcases List.mem_cons.mp h with rfl | h
    · simp
    · exact slash_notMem_of_mem_split h
  | bare piece pieces hs hfirst hp =>
    rw [hp] at h
    exact slash_notMem_of_mem_split (hs ▸ h)

/-- What is cut off at the end is noise. -/
theorem exists_noise (pieces : List (List Char)) :
    ∃ noise, pieces = trimEnd pieces ++ noise ∧ ∀ piece ∈ noise, isNoise piece = true := by
  refine ⟨(pieces.reverse.takeWhile isNoise).reverse, ?_, fun piece hpiece => ?_⟩
  · rw [trimEnd, ← List.reverse_append, List.takeWhile_append_dropWhile, List.reverse_reverse]
  · exact List.all_eq_true.mp List.all_takeWhile piece (List.mem_reverse.mp hpiece)

/-- The last piece of a path, which is no noise. -/
structure EndsIn (p : Path) (above : List (List Char)) (last : List Char) : Prop where
  pieces : p.parts.pieces = above ++ [last]
  notNoise : isNoise last = false

namespace EndsIn

variable {above : List (List Char)} {last : List Char}

theorem child (base : Path) {name : String} (h : IsPiece name) :
    (base.child name).EndsIn base.piecesAbove name.toList :=
  ⟨by rw [parts_child base h], h.isNoise⟩

theorem unended (h : p.EndsIn above last) : p.text.toList.getLast? ≠ some '/' := by
  have hslash : '/' ∉ last := slash_notMem_of_mem_pieces (p := p) (by simp [h.pieces])
  have hne : last ≠ [] := by
    rintro rfl
    simpa [isNoise] using h.notNoise
  obtain ⟨before, c, rfl⟩ := (List.eq_nil_or_concat last).resolve_left hne
  have htext : p.text.toList = p.parts.start.text ++ joined (above ++ [before.concat c]) := by
    rw [← h.pieces, ← String.toList_ofList (l := _ ++ _)]
    exact congrArg (fun p => p.text.toList) (ofParts_parts p).symm
  have hend : ∃ cs, p.text.toList = cs ++ [c] := by
    by_cases habove : above = []
    · exact ⟨p.parts.start.text ++ before, by simp [htext, habove, joined_singleton]⟩
    · exact ⟨_, by rw [htext, joined_concat habove, List.concat_eq_append, ← List.cons_append,
        ← List.append_assoc, ← List.append_assoc]⟩
  obtain ⟨cs, hcs⟩ := hend
  rw [hcs, List.getLast?_concat]
  rintro ⟨⟩
  exact hslash (by simp)

theorem nonempty (h : p.EndsIn above last) : p.text.toList ≠ [] := by
  intro hempty
  have hpieces := h.pieces
  rw [parts_empty hempty] at hpieces
  have hlast : last = [] := by
    cases above with
    | nil => exact (List.cons.inj hpieces).1.symm
    | cons => simp at hpieces
  simpa [hlast, isNoise] using h.notNoise

theorem parent?_eq (h : p.EndsIn above last) :
    p.parent? = some (ofParts ⟨p.parts.start, trimEnd above⟩) := by
  have htrim : trimEnd p.parts.pieces = above ++ [last] := by
    simp [trimEnd, h.pieces, h.notNoise]
  unfold parent?
  rw [htrim]
  split
  · simp_all
  · simp_all
  · simp

end EndsIn

end Path

namespace Disk

/-- The step that a start stands for. -/
def startSteps : Path.Start → List String
  | .here => ["."]
  | .root | .bare => []

theorem steps_parts {p : Path} (h : p.text.toList.getLast? ≠ some '/') :
    steps p.text = startSteps p.parts.start ++
      (p.parts.pieces.filter fun piece => !piece.isEmpty).map String.ofList := by
  rw [steps, if_neg h, List.append_nil]
  cases Path.starts p with
  | root body ht hp => simp [ht, hp, Path.split, startSteps]
  | dot ht hp => simp [ht, hp, Path.split, startSteps]
  | here body ht hp => simp [ht, hp, Path.split, startSteps]
  | empty ht hp => simp [ht, hp, Path.split, startSteps]
  | bare piece pieces hs hfirst hp => simp [hs, hp, startSteps]

theorem startOf_parts (workDir : Place) (p : Path) :
    startOf workDir p.text = if p.parts.start = .root then [] else workDir := by
  cases Path.starts p with
  | root body ht hp => simp [startOf, ht, hp]
  | dot ht hp => simp [startOf, ht, hp]
  | here body ht hp => simp [startOf, ht, hp]
  | empty ht hp => simp [startOf, ht, hp]
  | bare piece pieces hs hfirst hp =>
    have hhead : p.text.toList.head? ≠ some '/' := by
      intro hh
      obtain ⟨body, ht⟩ := List.head?_eq_some_iff.mp hh
      rw [ht, Path.split, if_pos rfl] at hs
      exact hfirst.1 (List.cons.inj hs).1.symm
    simp [startOf, hhead, hp]

/-- A path whose steps are those of another one, dots, and a last step. -/
structure StepBelow (p q : Path) : Prop where
  start : ∀ workDir, startOf workDir p.text = startOf workDir q.text
  nonempty : steps q.text ≠ []
  steps : ∃ dots piece, (∀ s ∈ dots, s = ".") ∧ (piece = ".." ∨ Path.IsName piece) ∧
    steps p.text = steps q.text ++ (dots ++ [piece])

/-- The last step of a path is a name or a double dot. -/
theorem step_of_endsIn {p : Path} {above : List (List Char)} {last : List Char}
    (h : p.EndsIn above last) : String.ofList last = ".." ∨ Path.IsName (String.ofList last) := by
  by_cases hup : String.ofList last = ".."
  · exact .inl hup
  · have hnoise := h.notNoise
    simp only [Path.isNoise, Bool.or_eq_false_iff, List.isEmpty_eq_false_iff, beq_eq_false_iff_ne] at hnoise
    refine .inr ⟨by simpa using hnoise.1, ?_, fun hdot => hnoise.2 ?_, hup⟩
    · simpa using Path.slash_notMem_of_mem_pieces (p := p) (show last ∈ _ by simp [h.pieces])
    · simpa using congrArg String.toList hdot

section Ancestors

variable {p q : Path} {above : List (List Char)} {last : List Char}

theorem stepBelow_of_pieces (h : p.EndsIn above last) (hq : q.text.toList.getLast? ≠ some '/')
    (hne : steps q.text ≠ []) (hstart : q.parts.start = p.parts.start)
    (hpieces : q.parts.pieces.filter (fun piece => !piece.isEmpty) =
      (Path.trimEnd above).filter fun piece => !piece.isEmpty) : StepBelow p q := by
  obtain ⟨noise, habove, hnoise⟩ := Path.exists_noise above
  refine ⟨fun workDir => by rw [startOf_parts, startOf_parts, hstart], hne,
    (noise.filter fun piece => !piece.isEmpty).map String.ofList, String.ofList last, ?_,
    step_of_endsIn h, ?_⟩
  · intro s hs
    obtain ⟨piece, hpiece, rfl⟩ := List.mem_map.mp hs
    obtain ⟨hmem, hempty⟩ := List.mem_filter.mp hpiece
    have hdot : piece = ['.'] := by
      have hpieceNoise := hnoise piece hmem
      simp only [Path.isNoise, Bool.or_eq_true, beq_iff_eq] at hpieceNoise
      exact hpieceNoise.resolve_left (by simpa using hempty)
    rw [hdot]
  · have hlast : last ≠ [] := by
      rintro rfl
      simpa [Path.isNoise] using h.notNoise
    rw [steps_parts h.unended, steps_parts hq, hstart, hpieces, h.pieces]
    conv_lhs => rw [habove]
    simp [hlast]

/-- Above a path is one that it is a step below, or none. -/
theorem parent_cases (h : p.EndsIn above last) (hq : p.parent? = some q) :
    q.parent? = none ∨
      StepBelow p q ∧ (q.text = "." ∨ ∃ above last, q.EndsIn above last) := by
  obtain rfl := Option.some.inj (h.parent?_eq.symm.trans hq)
  have hprefix : Path.trimEnd above <+: p.parts.pieces :=
    (Path.trimEnd_isPrefix above).trans (h.pieces ▸ List.prefix_append above [last])
  rcases List.eq_nil_or_concat (Path.trimEnd above) with htrim | ⟨init, next, htrim⟩
  · cases hstart : p.parts.start with
    | root | bare =>
      left
      rw [htrim]
      rfl
    | here =>
      right
      rw [htrim]
      refine ⟨stepBelow_of_pieces h ?_ ?_ ?_ ?_, .inl rfl⟩
      · decide
      · exact steps_ne_nil (by decide)
      · exact hstart.symm
      · rw [htrim]
        rfl
  · right
    rw [List.concat_eq_append] at htrim
    have hparts := Path.parts_ofParts p hprefix (by simp [htrim])
    have hends : (Path.ofParts ⟨p.parts.start, Path.trimEnd above⟩).EndsIn init next :=
      ⟨by rw [hparts, htrim], Path.isNoise_last_trimEnd htrim⟩
    exact ⟨stepBelow_of_pieces h hends.unended (steps_ne_nil hends.nonempty) (by rw [hparts])
      (by rw [hparts]), .inr ⟨_, _, hends⟩⟩

theorem ancestorsFrom_of_none (fuel : Nat) (h : p.parent? = none) : Path.ancestorsFrom fuel p = [] := by
  cases fuel with
  | zero => rfl
  | succ fuel => rw [Path.ancestorsFrom, h]

theorem eq_of_head?_ancestorsFrom {fuel : Nat} (h : q ∈ (Path.ancestorsFrom fuel p).head?) : q = p := by
  cases fuel with
  | zero => cases h
  | succ fuel =>
    rw [Path.ancestorsFrom] at h
    split at h
    · cases h
    · exact (Option.some.inj h).symm

/-- The paths above a name are each a step below the next one, and no slash is at the end of any. -/
theorem isChain_ancestorsFrom (fuel : Nat) (h : p.text = "." ∨ ∃ above last, p.EndsIn above last) :
    List.IsChain StepBelow (Path.ancestorsFrom fuel p) ∧
      ∀ r ∈ Path.ancestorsFrom fuel p, r.text.toList.getLast? ≠ some '/' ∧ r.text.toList ≠ [] := by
  induction fuel generalizing p with
  | zero => exact ⟨.nil, by simp [Path.ancestorsFrom]⟩
  | succ fuel ih =>
    rw [Path.ancestorsFrom]
    split
    · exact ⟨.nil, by simp⟩
    next q hq =>
      have hself : p.text.toList.getLast? ≠ some '/' ∧ p.text.toList ≠ [] := by
        rcases h with hdot | ⟨above, last, hends⟩
        · rw [hdot]
          decide
        · exact ⟨hends.unended, hends.nonempty⟩
      have hsingle : q.parent? = none → List.IsChain StepBelow (p :: Path.ancestorsFrom fuel q) ∧
          ∀ r ∈ p :: Path.ancestorsFrom fuel q,
            r.text.toList.getLast? ≠ some '/' ∧ r.text.toList ≠ [] := by
        intro hnone
        rw [ancestorsFrom_of_none fuel hnone]
        exact ⟨.singleton p, by simpa using hself⟩
      rcases h with hdot | ⟨above, last, hends⟩
      · apply hsingle
        obtain rfl : p = ⟨"."⟩ := congrArg Path.mk hdot
        obtain rfl : ⟨""⟩ = q := Option.some.inj hq
        rfl
      · rcases parent_cases hends hq with hnone | ⟨hbelow, hagain⟩
        · exact hsingle hnone
        · obtain ⟨hchain, hall⟩ := ih hagain
          refine ⟨List.isChain_cons.mpr ⟨fun r hr => ?_, hchain⟩, List.forall_mem_cons.mpr ⟨hself, hall⟩⟩
          rw [eq_of_head?_ancestorsFrom hr]
          exact hbelow

end Ancestors

/-- No double dot of a path comes after something that is missing. -/
def Unbroken (d : Disk) (p : Path) : Prop :=
  ∀ before after, steps p.text = before ++ ".." :: after →
    d.follow maxLinks true (startOf d.workDir p.text) (before ++ [".."]) ≠ .error .notFound

section Making

variable {d d' d'' : Disk} {p q : Path} {ps : List Path} {place : Place}

theorem Unbroken.above (h : d.Unbroken p) (hb : StepBelow p q) : d.Unbroken q := by
  obtain ⟨dots, piece, -, -, hsteps⟩ := hb.steps
  intro before after hq
  rw [← hb.start]
  exact h before (after ++ (dots ++ [piece])) (by rw [hsteps, hq]; simp)

/-- A name after a path makes no difference, since it is no double dot. -/
theorem Unbroken.child (h : d.Unbroken p) {name : String} (hname : Path.IsName name) :
    d.Unbroken (p.child name) := by
  obtain ⟨path, hchild, hsteps⟩ := steps_child_eq p hname.isPiece
  intro before after hup
  rw [startOf_child d.workDir p hname.isPiece]
  rw [hchild] at hup
  obtain ⟨after, rfl⟩ : ∃ rest, after = rest ++ [name] := by
    rcases List.eq_nil_or_concat after with rfl | ⟨rest, last, rfl⟩
    · exact absurd (List.cons.inj (List.append_inj' hup rfl).2).1 hname.notUp
    · rw [List.concat_eq_append, ← List.cons_append, ← List.append_assoc] at hup
      exact ⟨rest, by rw [List.concat_eq_append, (List.append_inj' hup rfl).2]⟩
  rw [← List.cons_append, ← List.append_assoc] at hup
  obtain rfl := (List.append_inj' hup rfl).1
  rcases hsteps with hsteps | hsteps
  · exact h before after hsteps
  · exact h before (after ++ ["."]) (by rw [hsteps]; simp)

/-- What is gained by making directories: each of them is where one of the paths leads to. -/
structure Gains (ps : List Path) (d d' : Disk) : Prop extends Extends d d' where
  rooted : d'.Rooted
  made : ∀ place, d.get? place = none → d'.get? place ≠ none →
    d'.get? place = some .dir ∧ ∃ p ∈ ps, d'.locate true p = .ok place

theorem Gains.refl (hd : d.Rooted) (ps : List Path) : Gains ps d d :=
  ⟨.refl d, hd, fun _ hnone hsome => absurd hnone hsome⟩

theorem Gains.mono {ps' : List Path} (h : Gains ps d d') (hsub : ps ⊆ ps') : Gains ps' d d' := by
  refine ⟨h.toExtends, h.rooted, fun place hnone hsome => ?_⟩
  obtain ⟨hdir, p, hp, hl⟩ := h.made place hnone hsome
  exact ⟨hdir, p, hsub hp, hl⟩

theorem Gains.trans {ps' : List Path} (h : Gains ps d d') (h' : Gains ps' d' d'') :
    Gains (ps' ++ ps) d d'' := by
  refine ⟨h.toExtends.trans h'.toExtends, h'.rooted, fun place hnone hsome => ?_⟩
  cases hg : d'.get? place with
  | none =>
    obtain ⟨hdir, p, hp, hl⟩ := h'.made place hg hsome
    exact ⟨hdir, p, List.mem_append_left _ hp, hl⟩
  | some entry =>
    obtain ⟨hdir, p, hp, hl⟩ := h.made place hnone (by simp [hg])
    exact ⟨h'.keeps place .dir hdir, p, List.mem_append_right _ hp, h'.locate hl⟩

/-- A path leads to a directory that is new and empty. -/
structure Fresh (d d' : Disk) (p : Path) (place : Place) : Prop where
  locate : d'.locate true p = .ok place
  missing : d.get? place = none
  dir : d'.get? place = some .dir
  empty : ∀ names, names ≠ [] → d'.get? (place ++ names) = none

theorem makeDir_unended (hend : p.text.toList.getLast? ≠ some '/') :
    d.makeDir p = match d.locate false p with
      | .error error => .error error
      | .ok q => if (d.get? q).isSome then .error .alreadyExists else .ok (d.put q .dir) := by
  unfold makeDir vacancy
  rw [unslashed_of_unended hend, ite_self]
  cases d.locate false p with
  | error error => rfl
  | ok q =>
    dsimp only [bind, Except.bind]
    generalize (d.get? q).isSome = taken
    cases taken <;> rfl

/-- One directory is made where nothing was. -/
theorem Rooted.makeDir_ok (hd : d.Rooted) (hend : p.text.toList.getLast? ≠ some '/')
    (h : d.makeDir p = .ok d') : Gains [p] d d' ∧ ∃ place, Fresh d d' p place := by
  rw [makeDir_unended hend] at h
  cases hd.ending_locate p with
  | fails error eq =>
    rw [eq false] at h
    cases h
  | stands q present eq =>
    rw [eq] at h
    simp [Option.isSome_iff_ne_none.mpr present] at h
  | misses above name dir missing eq =>
    rw [eq false] at h
    simp only [missing, Option.isSome_none, Bool.false_eq_true, if_false] at h
    obtain rfl := Except.ok.inj h
    have hne : above ++ [name] ≠ [] := by simp
    have hextends : Extends d (d.put (above ++ [name]) .dir) := .put missing (by simp)
    have hlocate := hextends.locate (eq true)
    refine ⟨⟨hextends, hd.put dir (by simp [missing]), fun place hnone hsome => ?_⟩,
      above ++ [name], hlocate, missing, by simp [get?_put hne], fun names hnames => ?_⟩
    · rw [get?_put hne] at hsome ⊢
      split at hsome
      · next heq => exact ⟨if_pos heq, p, List.mem_singleton_self p, heq ▸ hlocate⟩
      · exact absurd hnone hsome
    · rw [get?_put hne, if_neg (by simpa using hnames)]
      exact hd.none_below missing names

/-- If something is missing on the way to a directory, its path leads nowhere. -/
theorem Rooted.locate_of_notFound (hd : d.Rooted) (hend : p.text.toList.getLast? ≠ some '/')
    (h : d.makeDir p = .error .notFound) (followLast : Bool) :
    d.locate followLast p = .error .notFound := by
  rw [makeDir_unended hend] at h
  cases hd.ending_locate p with
  | fails error eq =>
    rw [eq false] at h
    rw [eq followLast, Except.error.inj h]
  | stands q present eq =>
    rw [eq] at h
    simp [Option.isSome_iff_ne_none.mpr present] at h
  | misses above name dir missing eq =>
    rw [eq false] at h
    simp [missing] at h

/-- A step to a name in an empty directory. -/
theorem follow_dots {links : Nat} {followLast : Bool} {dots : List String} {name : String}
    (hdir : d.get? place = some .dir) (hdots : ∀ s ∈ dots, s = ".") (hname : Path.IsName name)
    (hnone : d.get? (place ++ [name]) = none) :
    d.follow links followLast place (dots ++ [name]) = .error .nameTooLong ∨
      d.follow links followLast place (dots ++ [name]) = .ok (place ++ [name]) := by
  obtain ⟨jump, hjump⟩ := exists_jump d links followLast
  rw [hjump]
  induction dots with
  | nil =>
    by_cases hlong : maxName < name.utf8ByteSize
    · left
      rw [List.nil_append, followWith_cons hdir, if_neg hname.notHere, if_neg hname.notUp, if_pos hlong]
    · right
      rw [List.nil_append, followWith_name _ _ hdir hname.notHere hname.notUp hlong, hnone]
      rfl
  | cons dot dots ih =>
    rw [List.cons_append, followWith_cons hdir, if_pos (hdots dot (by simp))]
    exact ih fun s hs => hdots s (by simp [hs])

/-- Nothing is at a name in a directory that was just made. -/
theorem Rooted.not_isDir_below (hd : d'.Rooted) (hfresh : Fresh d d' q place) (hb : StepBelow p q)
    (hup : ∀ before, steps p.text ≠ before ++ [".."]) : d'.isDir p = false := by
  obtain ⟨dots, piece, hdots, hpiece, hsteps⟩ := hb.steps
  have hname : Path.IsName piece := by
    refine hpiece.resolve_left ?_
    rintro rfl
    exact hup (steps q.text ++ dots) (by rw [hsteps, List.append_assoc])
  have hnone := hfresh.empty [piece] (by simp)
  rw [Bool.eq_false_iff]
  intro hisDir
  obtain ⟨r, hr, hrdir⟩ := isDir_iff.mp hisDir
  obtain ⟨htakes, hf⟩ := locate_eq_ok.mp hfresh.locate
  obtain ⟨-, hr⟩ := locate_eq_ok.mp hr
  rw [hsteps, hb.start] at hr
  cases hd.outcome maxLinks (startOf d'.workDir q.text) hb.nonempty with
  | fails error here _ => cases here.symm.trans hf
  | misses above name _ missing here _ =>
    obtain rfl := Except.ok.inj (here.symm.trans hf)
    simp [hfresh.dir] at missing
  | arrives r' left _ here longer =>
    obtain rfl := Except.ok.inj (here.symm.trans hf)
    rw [longer true (dots ++ [piece]) (by simp)] at hr
    rcases follow_dots hfresh.dir hdots hname hnone with hlong | hok
    · cases hlong.symm.trans hr
    · obtain rfl := Except.ok.inj (hok.symm.trans hr)
      simp [hnone] at hrdir

/-- The last step of a path is no double dot if something is missing on the way there. -/
theorem Unbroken.last_ne (h : d.Unbroken p) (hne : p.text.toList ≠ [])
    (hl : d.locate true p = .error .notFound) (before : List String) :
    steps p.text ≠ before ++ [".."] := by
  intro hsteps
  have hfollow : d.follow maxLinks true (startOf d.workDir p.text) (steps p.text) =
      .error .notFound := by
    unfold locate at hl
    split at hl
    · cases hl
    · rw [if_neg (by simpa using hne)] at hl
      split at hl
      · cases hl
      · exact hl
  exact h before [] hsteps (hsteps ▸ hfollow)

theorem makeFirst_of_notFound {above : List Path} (h : d.makeDir p = .error .notFound) :
    d.makeFirst (p :: above) = match d.makeFirst above with
      | (.error error, d') => (.error error, d')
      | (.ok (), d') =>
        match d'.makeDir p with
        | .ok d'' => (.ok (), d'')
        | .error error => if d'.isDir p then (.ok (), d') else (.error error, d') := by
  generalize hmade : d.makeFirst above = made
  obtain ⟨_ | _, d'⟩ := made
  · unfold makeFirst
    simp only [h, hmade]
  · cases hagain : d'.makeDir p <;> unfold makeFirst <;> simp only [h, hmade, hagain]

/-- Whatever comes of it, directories are made only where nothing was. -/
theorem Rooted.makeFirst_gains (hd : d.Rooted)
    (hends : ∀ p ∈ ps, p.text.toList.getLast? ≠ some '/') : Gains ps d (d.makeFirst ps).2 := by
  induction ps with
  | nil => exact .refl hd []
  | cons p above ih =>
    have hend := hends p (by simp)
    have habove := ih fun r hr => hends r (by simp [hr])
    cases hmake : d.makeDir p with
    | ok d1 =>
      rw [makeFirst_of_ok hmake]
      exact (hd.makeDir_ok hend hmake).1.mono (by simp)
    | error error =>
      by_cases herror : error = .notFound
      · subst herror
        rw [makeFirst_of_notFound hmake]
        generalize d.makeFirst above = made at *
        obtain ⟨error | _, d1⟩ := made
        · exact habove.mono (by simp)
        · dsimp only
          split
          · next d2 hagain => exact habove.trans (habove.rooted.makeDir_ok hend hagain).1
          · rw [apply_ite Prod.snd, ite_self]
            exact habove.mono (by simp)
      · rw [makeFirst_of_error hmake herror, apply_ite Prod.snd, ite_self]
        exact .refl hd _

/-- How the first of some directories comes to be there. -/
def Settled (d d' : Disk) : List Path → Prop
  | [] => d' = d
  | p :: _ => (d' = d ∧ d.isDir p = true) ∨ ∃ place, Fresh d d' p place

/-- The first of the directories is there already, or it is made where nothing was, after those that
were missing above it. -/
theorem Rooted.makeFirst_settled (hd : d.Rooted) (hchain : ps.IsChain StepBelow)
    (hends : ∀ p ∈ ps, p.text.toList.getLast? ≠ some '/' ∧ p.text.toList ≠ [])
    (hunbroken : ∀ p ∈ ps.head?, d.Unbroken p) (hok : (d.makeFirst ps).1 = .ok ()) :
    Settled d (d.makeFirst ps).2 ps := by
  induction ps with
  | nil => rfl
  | cons p above ih =>
    obtain ⟨hend, hne⟩ := hends p (by simp)
    have hp := hunbroken p rfl
    obtain ⟨hbelow, hchain⟩ := List.isChain_cons.mp hchain
    have hgains := hd.makeFirst_gains fun r hr => (hends r (List.mem_cons_of_mem p hr)).1
    have hsettled := ih hchain (fun r hr => hends r (by simp [hr])) fun q hq => hp.above (hbelow q hq)
    cases hmake : d.makeDir p with
    | ok d1 =>
      rw [makeFirst_of_ok hmake]
      exact .inr (hd.makeDir_ok hend hmake).2
    | error error =>
      by_cases herror : error = .notFound
      · subst herror
        have hlocate := hd.locate_of_notFound hend hmake true
        rw [makeFirst_of_notFound hmake] at hok ⊢
        generalize d.makeFirst above = made at *
        obtain ⟨error | _, d1⟩ := made
        · cases hok
        -- What was made above is empty, so there is no directory yet.
        have hnotDir : d1.isDir p = false := by
          have hsame : d1 = d → d1.isDir p = false := fun h => h ▸ isDir_of_locate_error hlocate
          have hset := hsettled rfl
          cases above with
          | nil => exact hsame hset
          | cons q above =>
            rcases hset with ⟨heq, -⟩ | ⟨place, hfresh⟩
            · exact hsame heq
            · exact hgains.rooted.not_isDir_below hfresh (hbelow q rfl) (hp.last_ne hne hlocate)
        cases hagain : d1.makeDir p with
        | ok d2 =>
          obtain ⟨-, place, hfresh⟩ := hgains.rooted.makeDir_ok hend hagain
          simp only [hagain]
          exact .inr ⟨place, hfresh.locate, hgains.none_of_none hfresh.missing, hfresh.dir, hfresh.empty⟩
        | error error =>
          simp only [hagain, hnotDir, Bool.false_eq_true, if_false] at hok
          cases hok
      · rw [makeFirst_of_error hmake herror] at hok ⊢
        split at hok
        · next hisDir =>
          rw [if_pos hisDir]
          exact .inl ⟨rfl, hisDir⟩
        · cases hok

end Making

end Disk

end Folio
