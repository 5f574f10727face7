import Folio.Proofs.MakeDirs

/-! Paths on a disk with symbolic links. What comes of a path tells what comes of every longer one: the
error is the same, or something is missing, or the further steps are followed from where it leads to. -/

namespace Folio

namespace Disk

variable {d d' : Disk} {place start q : Place} {path rest : List String} {links : Nat}
  {followLast : Bool} {p : Path} {name step : String}

/-- Every entry is in a directory. -/
def Rooted (d : Disk) : Prop := ∀ place name, d.get? (place ++ [name]) ≠ none → d.get? place = some .dir

theorem Plain.rooted (h : d.Plain) : d.Rooted := h.inDir

/-- It is enough to look at the entries one by one. -/
theorem rooted_of_forall (h : ∀ e ∈ d.entries.entries, d.get? e.1.dropLast = some .dir) :
    d.Rooted := by
  intro place name hg
  obtain ⟨entry, hentry⟩ := Option.ne_none_iff_exists'.mp hg
  simpa using h _ (mem_entries_of_get? hentry (by simp))

theorem Rooted.dropLast (h : d.Rooted) (hp : d.get? place ≠ none) :
    d.get? place.dropLast = some .dir := by
  rcases List.eq_nil_or_concat place with rfl | ⟨above, name, rfl⟩
  · rfl
  · rw [List.concat_eq_append] at hp ⊢
    rw [List.dropLast_concat]
    exact h above name hp

/-- Nothing is below a place where nothing is. -/
theorem Rooted.none_below (h : d.Rooted) (hp : d.get? place = none) (names : List String) :
    d.get? (place ++ names) = none := by
  induction names using List.reverseRecOn with
  | nil => simpa using hp
  | append_singleton names name ih =>
    cases hg : d.get? (place ++ (names ++ [name])) with
    | none => rfl
    | some entry =>
      have hdir := h (place ++ names) name (by simp [hg])
      simp [ih] at hdir

/-- All that is above an entry are directories. -/
theorem Rooted.dir_above (h : d.Rooted) {below : List String}
    (hp : d.get? (place ++ name :: below) ≠ none) : d.get? place = some .dir := by
  refine h place name fun hnone => hp ?_
  simpa using h.none_below hnone below

section Outcomes

/-- A directory or a file, which no path leads through to something else. -/
def Solid (d : Disk) (place : Place) : Prop :=
  d.get? place ≠ none ∧ ∀ target, d.get? place ≠ some (.link target)

theorem solid_of_dir (h : d.get? place = some .dir) : d.Solid place := by simp [Solid, h]

/-- What comes of a path, and of every longer one. -/
inductive Outcome (d : Disk) (run : Bool → Place → List String → Except OsError Place) (start : Place)
    (path : List String) : Prop where
  | fails (error : OsError) (here : run true start path = .error error)
      (longer : ∀ followLast rest, rest ≠ [] → run followLast start (path ++ rest) = .error error)
  | misses (above : Place) (name : String) (dir : d.get? above = some .dir)
      (missing : d.get? (above ++ [name]) = none) (here : run true start path = .ok (above ++ [name]))
      (longer : ∀ followLast rest, rest ≠ [] → run followLast start (path ++ rest) = .error .notFound)
  | arrives (q : Place) (left : Nat) (solid : d.Solid q) (here : run true start path = .ok q)
      (longer : ∀ followLast rest, rest ≠ [] →
        run followLast start (path ++ rest) = d.follow left followLast q rest)

variable {run run' : Bool → Place → List String → Except OsError Place} {start' : Place}
  {path' : List String}

/-- The same comes of a path that is followed in the same way. -/
theorem Outcome.congr (h : d.Outcome run start path) (hhere : run' true start' path' = run true start path)
    (hlonger : ∀ followLast rest, rest ≠ [] →
      run' followLast start' (path' ++ rest) = run followLast start (path ++ rest)) :
    d.Outcome run' start' path' := by
  cases h with
  | fails error here longer =>
    exact .fails error (hhere.trans here) fun fl rest hne => (hlonger fl rest hne).trans (longer fl rest hne)
  | misses above name dir missing here longer =>
    exact .misses above name dir missing (hhere.trans here)
      fun fl rest hne => (hlonger fl rest hne).trans (longer fl rest hne)
  | arrives q left solid here longer =>
    exact .arrives q left solid (hhere.trans here)
      fun fl rest hne => (hlonger fl rest hne).trans (longer fl rest hne)

theorem followWith_of_not_dir {jump : Place → List String → Except OsError Place}
    (h : d.get? place ≠ some .dir) (step : String) (rest : List String) :
    d.followWith followLast jump place (step :: rest) = .error .notDirectory := by
  rw [followWith, if_pos h]

/-- One step from a directory. -/
theorem followWith_cons {jump : Place → List String → Except OsError Place}
    (h : d.get? place = some .dir) (step : String) (rest : List String) :
    d.followWith followLast jump place (step :: rest) =
      if step = "." then d.followWith followLast jump place rest
      else if step = ".." then d.followWith followLast jump place.dropLast rest
      else if maxName < step.utf8ByteSize then .error .nameTooLong
      else match d.get? (place ++ [step]) with
        | none => if rest.isEmpty then .ok (place ++ [step]) else .error .notFound
        | some (.link target) =>
          if rest.isEmpty && !followLast then .ok (place ++ [step])
          else jump (startOf place target) (steps target ++ rest)
        | some _ => d.followWith followLast jump (place ++ [step]) rest := by
  conv_lhs => unfold followWith
  exact if_neg (not_not.mpr h)

/-- A step to a name that is not too long. -/
theorem followWith_name (followLast : Bool) (jump : Place → List String → Except OsError Place)
    (h : d.get? place = some .dir) (hdot : step ≠ ".") (hup : step ≠ "..")
    (hshort : ¬maxName < step.utf8ByteSize) (rest : List String) :
    d.followWith followLast jump place (step :: rest) =
      match d.get? (place ++ [step]) with
        | none => if rest.isEmpty then .ok (place ++ [step]) else .error .notFound
        | some (.link target) =>
          if rest.isEmpty && !followLast then .ok (place ++ [step])
          else jump (startOf place target) (steps target ++ rest)
        | some _ => d.followWith followLast jump (place ++ [step]) rest := by
  rw [followWith_cons h, if_neg hdot, if_neg hup, if_neg hshort]

/-- Where a link starts is there. -/
theorem get?_startOf (h : d.get? place = some .dir) (target : String) :
    d.get? (startOf place target) = some .dir := by
  unfold startOf
  split
  · rfl
  · exact h

theorem Rooted.outcome_followWith (hd : d.Rooted)
    (jump : Bool → Place → List String → Except OsError Place) (links : Nat)
    (hself : ∀ followLast, d.followWith followLast (jump followLast) = d.follow links followLast)
    (hjump : ∀ start path, d.Solid start → d.Outcome jump start path) (hs : d.Solid start) :
    d.Outcome (fun followLast => d.followWith followLast (jump followLast)) start path := by
  induction path generalizing start with
  | nil => exact .arrives start links hs rfl fun followLast rest _ => congrFun₂ (hself followLast) start rest
  | cons step rest ih =>
    by_cases hdir : d.get? start = some .dir
    · by_cases hdot : step = "."
      · subst hdot
        exact (ih hs).congr (followWith_cons hdir _ _) fun _ _ _ => followWith_cons hdir _ _
      by_cases hup : step = ".."
      · subst hup
        have hparent := solid_of_dir (hd.dropLast hs.1)
        exact (ih hparent).congr (followWith_cons hdir _ _) fun _ _ _ => followWith_cons hdir _ _
      by_cases hlong : maxName < step.utf8ByteSize
      · have hfails : ∀ followLast rest,
            d.followWith followLast (jump followLast) start (step :: rest) = .error .nameTooLong := by
          intro followLast rest
          rw [followWith_cons hdir, if_neg hdot, if_neg hup, if_pos hlong]
        exact .fails .nameTooLong (hfails true rest) fun followLast more _ => hfails followLast _
      have hname := fun followLast => followWith_name followLast (jump followLast) hdir hdot hup hlong
      cases hg : d.get? (start ++ [step]) with
      | none =>
        simp only [hg] at hname
        cases rest with
        | nil =>
          refine .misses start step hdir hg (hname true []) fun followLast more hmore => ?_
          simpa [hmore] using hname followLast more
        | cons next rest => exact .fails .notFound (hname true _) fun followLast more _ => hname followLast _
      | some entry =>
        simp only [hg] at hname
        cases entry with
        | link target =>
          have hstart := solid_of_dir (get?_startOf hdir target)
          refine (hjump _ (steps target ++ rest) hstart).congr ?_ fun followLast more hmore => ?_
          · simpa using hname true rest
          · simpa [hmore] using hname followLast (rest ++ more)
        | dir | file =>
          have hnext : d.Solid (start ++ [step]) := by simp [Solid, hg]
          exact (ih hnext).congr (hname true rest) fun followLast more _ => hname followLast (rest ++ more)
    · exact .fails .notDirectory (followWith_of_not_dir hdir step rest)
        fun _ _ _ => followWith_of_not_dir hdir step _

/-- What comes of a path that starts at a directory or a file. -/
theorem Rooted.outcome_of_solid (hd : d.Rooted) (links : Nat) (path : List String)
    (hs : d.Solid start) : d.Outcome (d.follow links) start path := by
  induction links generalizing start path with
  | zero =>
    exact hd.outcome_followWith (fun _ _ _ => .error .tooManyLinks) 0 (fun _ => rfl)
      (fun start path _ => .fails .tooManyLinks rfl fun _ _ _ => rfl) hs
  | succ links ih =>
    exact hd.outcome_followWith (d.follow links) (links + 1) (fun _ => rfl)
      (fun start path hs => ih path hs) hs

theorem exists_jump (d : Disk) (links : Nat) (followLast : Bool) :
    ∃ jump, d.follow links followLast = d.followWith followLast jump := by
  cases links <;> exact ⟨_, rfl⟩

theorem Rooted.outcome (hd : d.Rooted) (links : Nat) (start : Place) (hne : path ≠ []) :
    d.Outcome (d.follow links) start path := by
  by_cases hs : d.get? start = some .dir
  · exact hd.outcome_of_solid links path (solid_of_dir hs)
  · obtain ⟨step, rest, rfl⟩ := List.exists_cons_of_ne_nil hne
    have hfails : ∀ followLast rest, d.follow links followLast start (step :: rest) =
        .error .notDirectory := by
      intro followLast rest
      obtain ⟨jump, hjump⟩ := exists_jump d links followLast
      rw [hjump, followWith_of_not_dir hs]
    exact .fails .notDirectory (hfails true rest) fun followLast more _ => hfails followLast _

end Outcomes

section Ends

/-- What comes of a path if its last step may be a link, and if links are followed in the last step. -/
inductive Ending (d : Disk) (run : Bool → Except OsError Place) : Prop where
  | fails (error : OsError) (eq : ∀ followLast, run followLast = .error error)
  | misses (above : Place) (name : String) (dir : d.get? above = some .dir)
      (missing : d.get? (above ++ [name]) = none)
      (eq : ∀ followLast, run followLast = .ok (above ++ [name]))
  | stands (q : Place) (present : d.get? q ≠ none) (eq : run false = .ok q)

theorem Rooted.ending_single (hd : d.Rooted) (links : Nat) (start : Place) (step : String) :
    d.Ending fun followLast => d.follow links followLast start [step] := by
  choose jump hjump using exists_jump d links
  simp only [hjump]
  by_cases hdir : d.get? start = some .dir
  · have hpresent : d.get? start ≠ none := by simp [hdir]
    by_cases hdot : step = "."
    · exact .stands start hpresent (by rw [followWith_cons hdir, if_pos hdot]; rfl)
    by_cases hup : step = ".."
    · refine .stands start.dropLast (by simp [hd.dropLast hpresent]) ?_
      rw [followWith_cons hdir, if_neg hdot, if_pos hup]
      rfl
    by_cases hlong : maxName < step.utf8ByteSize
    · refine .fails .nameTooLong fun followLast => ?_
      rw [followWith_cons hdir, if_neg hdot, if_neg hup, if_pos hlong]
    have hname := fun followLast => followWith_name followLast (jump followLast) hdir hdot hup hlong []
    cases hg : d.get? (start ++ [step]) with
    | none =>
      simp only [hg] at hname
      exact .misses start step hdir hg hname
    | some entry =>
      simp only [hg] at hname
      refine .stands (start ++ [step]) (by simp [hg]) ?_
      cases entry with
      | link target => exact hname false
      | dir | file => exact hname false
  · exact .fails .notDirectory fun _ => followWith_of_not_dir hdir step []

theorem Rooted.ending (hd : d.Rooted) (links : Nat) (start : Place) (hne : path ≠ []) :
    d.Ending fun followLast => d.follow links followLast start path := by
  obtain ⟨before, last, rfl⟩ := (List.eq_nil_or_concat path).resolve_left hne
  rw [List.concat_eq_append]
  by_cases hbefore : before = []
  · subst hbefore
    exact hd.ending_single links start last
  · cases hd.outcome links start hbefore with
    | fails error _ longer => exact .fails error fun followLast => longer followLast [last] (by simp)
    | misses above name _ _ _ longer =>
      exact .fails .notFound fun followLast => longer followLast [last] (by simp)
    | arrives q left _ _ longer =>
      simp only [longer _ [last] (by simp)]
      exact hd.ending_single left q last

/-- What comes of a path that a file call takes. -/
theorem Rooted.ending_locate (hd : d.Rooted) (p : Path) :
    d.Ending fun followLast => d.locate followLast p := by
  unfold locate
  split
  · exact .fails .zeroInPath fun _ => rfl
  split
  · exact .fails .notFound fun _ => rfl
  split
  · exact .fails .nameTooLong fun _ => rfl
  · next hempty _ => exact hd.ending maxLinks _ (steps_ne_nil (by simpa using hempty))

/-- If links are followed, a path leads to a directory or a file, or to a free name. -/
theorem Rooted.locate_cases (hd : d.Rooted) (h : d.locate true p = .ok q) :
    d.Solid q ∨ ∃ above name, q = above ++ [name] ∧ d.get? above = some .dir ∧ d.get? q = none := by
  obtain ⟨htakes, hf⟩ := locate_eq_ok.mp h
  cases hd.outcome maxLinks (startOf d.workDir p.text) (steps_ne_nil htakes.nonempty) with
  | fails error here _ => cases here.symm.trans hf
  | misses above name dir missing here _ =>
    obtain rfl := Except.ok.inj (here.symm.trans hf)
    exact .inr ⟨above, name, rfl, dir, missing⟩
  | arrives r left solid here _ =>
    obtain rfl := Except.ok.inj (here.symm.trans hf)
    exact .inl solid

end Ends

section Inside

variable {dirs : List String}

theorem locate_eq_refusal (d : Disk) (followLast : Bool) (p : Path) :
    d.locate followLast p = (refusal? p).elim
      (d.follow maxLinks followLast (startOf d.workDir p.text) (steps p.text)) .error := by
  unfold locate refusal?
  split
  · rfl
  split
  · rfl
  split <;> rfl

/-- Names are followed through directories. -/
theorem Rooted.follow_inside (hd : d.Rooted) (hdir : d.get? (start ++ dirs) = some .dir)
    (hnames : ∀ n ∈ dirs ++ [name], Fits n)
    (hlink : ∀ target, d.get? (start ++ (dirs ++ [name])) ≠ some (.link target)) :
    d.follow links followLast start (dirs ++ [name]) = .ok (start ++ (dirs ++ [name])) := by
  obtain ⟨jump, hjump⟩ := exists_jump d links followLast
  rw [hjump]
  induction dirs generalizing start with
  | nil =>
    have hname : Fits name := hnames name (by simp)
    rw [List.append_nil] at hdir
    rw [List.nil_append, followWith_name _ _ hdir hname.notHere hname.notUp
      (Nat.not_lt.mpr hname.short)]
    cases hg : d.get? (start ++ [name]) with
    | none => rfl
    | some entry =>
      cases entry with
      | link target => exact absurd hg (hlink target)
      | dir | file => rfl
  | cons first dirs ih =>
    have hfirst : Fits first := hnames first (by simp)
    have hstart : d.get? start = some .dir := hd.dir_above (by rw [hdir]; simp)
    have hnext : d.get? (start ++ [first]) = some .dir := by
      cases dirs with
      | nil => exact hdir
      | cons second dirs =>
        exact hd.dir_above (show d.get? (start ++ [first] ++ second :: dirs) ≠ none by simpa using
          (show d.get? (start ++ first :: second :: dirs) ≠ none by simp [hdir]))
    rw [List.cons_append, followWith_name _ _ hstart hfirst.notHere hfirst.notUp
      (Nat.not_lt.mpr hfirst.short), hnext]
    have hrest := ih (show d.get? (start ++ [first] ++ dirs) = _ by simpa using hdir)
      (fun n hn => hnames n (List.mem_cons_of_mem first hn)) (by simpa using hlink)
    simpa using hrest

/-- A path to a name leads nowhere if nothing is where the name should be. -/
theorem Rooted.locate_child_of_missing (hd : d.Rooted) {base : Path} {last : String}
    (hlast : Path.IsPiece last) (hname : Path.IsPiece name)
    (hmissing : ∀ q, d.locate true (base.child last) = .ok q → d.get? q = none) (followLast : Bool) :
    ∃ error, d.locate followLast ((base.child last).child name) = .error error := by
  have hsteps := steps_descend_child base hlast
    (show ∀ n ∈ [name], Path.IsPiece n by simpa using hname)
  rw [Path.descend_cons, Path.descend_nil] at hsteps
  rw [locate_eq_refusal, startOf_child d.workDir _ hname, hsteps]
  cases hrefusal : refusal? ((base.child last).child name) with
  | some error => exact ⟨error, rfl⟩
  | none =>
    have hroot : refusal? (base.child last) = none := refusal?_above base hlast hname hrefusal
    have hne : (base.child last).text.toList ≠ [] := by simpa using Path.text_child_ne base hlast
    simp only [locate_eq_refusal, hroot, Option.elim_none] at hmissing
    rw [Option.elim_none]
    cases hd.outcome maxLinks (startOf d.workDir (base.child last).text) (steps_ne_nil hne) with
    | fails error _ longer => exact ⟨error, longer followLast [name] (by simp)⟩
    | misses _ _ _ _ _ longer => exact ⟨.notFound, longer followLast [name] (by simp)⟩
    | arrives q left solid here _ => exact absurd (hmissing q here) solid.1

end Inside

section Growth

/-- A disk that came to be by making directories and files where nothing was. -/
structure Extends (d d' : Disk) : Prop where
  workDir : d'.workDir = d.workDir
  keeps : ∀ place entry, d.get? place = some entry → d'.get? place = some entry
  noLink : ∀ place target, d'.get? place = some (.link target) → d.get? place = some (.link target)

namespace Extends

theorem refl (d : Disk) : Extends d d := ⟨rfl, fun _ _ h => h, fun _ _ h => h⟩

theorem trans {d'' : Disk} (h : Extends d d') (h' : Extends d' d'') : Extends d d'' :=
  ⟨h'.workDir.trans h.workDir, fun place entry hg => h'.keeps place entry (h.keeps place entry hg),
    fun place target hg => h.noLink place target (h'.noLink place target hg)⟩

/-- A place that was free before is free if nothing was made there. -/
theorem none_of_none (h : Extends d d') (hnone : d'.get? place = none) : d.get? place = none := by
  cases hg : d.get? place with
  | none => rfl
  | some entry => simp [h.keeps place entry hg] at hnone

theorem put {entry : Entry} (hnone : d.get? place = none) (hlink : ∀ target, entry ≠ .link target) :
    Extends d (d.put place entry) := by
  have hne : place ≠ [] := by
    rintro rfl
    simp [get?] at hnone
  refine ⟨rfl, fun q e hq => ?_, fun q target hq => ?_⟩
  · rw [get?_put hne, if_neg, hq]
    rintro rfl
    simp [hnone] at hq
  · rw [get?_put hne] at hq
    split at hq
    · exact absurd (Option.some.inj hq) (hlink target)
    · exact hq

theorem followWith (h : Extends d d')
    {jump jump' : Place → List String → Except OsError Place}
    (hjump : ∀ start path, jump start path = .ok q → jump' start path = .ok q)
    (hf : d.followWith followLast jump start path = .ok q) :
    d'.followWith followLast jump' start path = .ok q := by
  induction path generalizing start with
  | nil => exact hf
  | cons step rest ih =>
    by_cases hdir : d.get? start = some .dir
    · have hdir' := h.keeps start .dir hdir
      by_cases hdot : step = "."
      · rw [followWith_cons hdir, if_pos hdot] at hf
        rw [followWith_cons hdir', if_pos hdot]
        exact ih hf
      by_cases hup : step = ".."
      · rw [followWith_cons hdir, if_neg hdot, if_pos hup] at hf
        rw [followWith_cons hdir', if_neg hdot, if_pos hup]
        exact ih hf
      by_cases hlong : maxName < step.utf8ByteSize
      · rw [followWith_cons hdir, if_neg hdot, if_neg hup, if_pos hlong] at hf
        cases hf
      rw [followWith_name _ _ hdir hdot hup hlong] at hf
      rw [followWith_name _ _ hdir' hdot hup hlong]
      cases hg : d.get? (start ++ [step]) with
      | some entry =>
        rw [h.keeps _ entry hg]
        rw [hg] at hf
        cases entry with
        | link target =>
          dsimp only at hf ⊢
          split
          · next hlast => rwa [if_pos hlast] at hf
          · next hlast => exact hjump _ _ (by rwa [if_neg hlast] at hf)
        | dir | file => exact ih hf
      | none =>
        -- The path ends where something may stand now, but that is no link.
        rw [hg] at hf
        cases rest with
        | cons next rest => cases hf
        | nil =>
          cases hg' : d'.get? (start ++ [step]) with
          | none => exact hf
          | some entry =>
            cases entry with
            | link target => simp [h.noLink _ target hg'] at hg
            | dir | file => exact hf
    · rw [followWith_of_not_dir hdir] at hf
      cases hf

/-- A path that leads to a place leads there still. -/
theorem follow (h : Extends d d') (hf : d.follow links followLast start path = .ok q) :
    d'.follow links followLast start path = .ok q := by
  induction links generalizing start path with
  | zero => exact h.followWith (fun _ _ hj => by cases hj) hf
  | succ links ih => exact h.followWith (fun _ _ hj => ih hj) hf

theorem locate (h : Extends d d') (hl : d.locate followLast p = .ok q) :
    d'.locate followLast p = .ok q := by
  obtain ⟨htakes, hf⟩ := locate_eq_ok.mp hl
  exact locate_eq_ok.mpr ⟨htakes, h.workDir ▸ h.follow hf⟩

end Extends

theorem Rooted.put {entry : Entry} (hd : d.Rooted) (hdir : d.get? place = some .dir)
    (hfree : d.get? (place ++ [name]) ≠ some .dir) : (d.put (place ++ [name]) entry).Rooted := by
  have hne : place ++ [name] ≠ [] := by simp
  intro above last hlast
  rw [get?_put hne] at hlast ⊢
  split at hlast
  · next heq =>
    obtain ⟨rfl, -⟩ := List.append_inj' heq rfl
    rwa [if_neg (by simp)]
  · have habove := hd above last hlast
    rw [if_neg, habove]
    rintro rfl
    exact hfree habove

end Growth

end Disk

end Folio
