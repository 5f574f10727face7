import Folio.Proofs.ProjectTree
import Folio.Scaffold

/-! Making a new project. Nothing that was there is touched, and all that is new is the project and the
directories on the way to it, whatever goes wrong. But a parent with a double dot after a directory that
is missing may lead to a project that is there, and that one is overwritten. -/

namespace Folio

namespace Scaffold

open Disk (Rooted Extends Unbroken Fits Gains Takes)

variable {d e : Disk} {root : Path} {base : Place} {name : String}

theorem isName_of_valid (h : isValidName name = true) : Path.IsName name := by
  simp only [isValidName, Bool.and_eq_true, Bool.not_eq_true', String.isEmpty_eq_false_iff] at h
  obtain ⟨⟨hne, -⟩, hall⟩ := h
  have hchar : ∀ c ∈ name.toList, c ≠ '/' ∧ c ≠ '.' := by
    intro c hc
    have hvalid := List.all_eq_true.mp hall c hc
    constructor <;> rintro rfl <;> exact absurd hvalid (by decide)
  refine ⟨by simpa using hne, fun hslash => (hchar _ hslash).1 rfl, ?_, ?_⟩ <;> rintro rfl
  · exact (hchar '.' (by decide)).2 rfl
  · exact (hchar '.' (by decide)).2 rfl

section Root

variable {parent : Path} (hd : d.Rooted) (hname : Path.IsName name)

include hd hname

/-- The root of a project comes to be at a place where nothing was, or it does not. -/
theorem makeFirst_root (hunbroken : d.Unbroken (parent.child name))
    (hfree : d.isPresent (parent.child name) = false) (fuel : Nat) :
    Confined (parent.child name) d
        (d.makeFirst (Path.ancestorsFrom (fuel + 1) (parent.child name))).2 ∧
      ((d.makeFirst (Path.ancestorsFrom (fuel + 1) (parent.child name))).1 = .ok () →
        ∃ base, Layout (parent.child name) base [] d
          (d.makeFirst (Path.ancestorsFrom (fuel + 1) (parent.child name))).2) := by
  have hends := Path.EndsIn.child parent hname.isPiece
  obtain ⟨hchain, hunended⟩ := Disk.isChain_ancestorsFrom (fuel + 1) (.inr ⟨_, _, hends⟩)
  have hgains := hd.makeFirst_gains fun p hp => (hunended p hp).1
  refine ⟨.of_gains hgains, fun hok => ?_⟩
  have hset := hd.makeFirst_settled hchain hunended
    (fun p hp => Disk.eq_of_head?_ancestorsFrom hp ▸ hunbroken) hok
  obtain ⟨q, hq, -⟩ := Disk.ancestorsFrom_child fuel parent hname.isPiece
  generalize hmade : d.makeFirst (Path.ancestorsFrom (fuel + 1) (parent.child name)) = made at *
  rw [hq] at hset
  rcases hset with ⟨-, hisDir⟩ | ⟨base, hfresh⟩
  · obtain ⟨place, hl, hdir⟩ := Disk.isDir_iff.mp hisDir
    have hpresent := Disk.isPresent_iff.mpr ⟨place, hl, by simp [hdir]⟩
    rw [hfree] at hpresent
    cases hpresent
  · exact ⟨base, .of_fresh ⟨parent, name, hname.isPiece, rfl⟩ hgains hfresh⟩

/-- The root of a project is made with the first directory in it. -/
theorem makeRoot_cases (hunbroken : d.Unbroken (parent.child name))
    (hfree : d.isPresent (parent.child name) = false) {first : String} (hfirst : Fits first) :
    (∃ error d', d.makeDirs ((parent.child name).descend [first]) = (.error error, d') ∧
      Confined (parent.child name) d d') ∨
    ∃ base d', d.makeDirs ((parent.child name).descend [first]) = (.ok (), d') ∧
      Layout (parent.child name) base [([first], .dir)] d d' := by
  have hmissing : ∀ q, d.locate true (parent.child name) = .ok q → d.get? q = none := by
    intro q hq
    by_contra hsome
    rw [Disk.isPresent_iff.mpr ⟨q, hq, hsome⟩] at hfree
    cases hfree
  obtain ⟨error, hlocate⟩ := hd.locate_child_of_missing hname.isPiece hfirst.isPiece hmissing false
  obtain ⟨error', hlocate'⟩ := hd.locate_child_of_missing hname.isPiece hfirst.isPiece hmissing true
  have hmake := Disk.makeDir_child_of_error _ hfirst.isPiece hlocate
  have hisDir := Disk.isDir_of_locate_error hlocate'
  -- Above the first directory is the root, with the directories that lead there.
  obtain ⟨above, habove, hroot⟩ := Disk.ancestorsFrom_child
    ((parent.child name).child first).text.length (parent.child name) hfirst.isPiece
  obtain rfl := hroot parent name hname.isPiece rfl
  obtain ⟨fuel, hfuel⟩ : ∃ fuel, ((parent.child name).child first).text.length = fuel + 1 := by
    refine Nat.exists_eq_succ_of_ne_zero fun hzero => ?_
    exact Path.text_child_ne _ hfirst.isPiece (String.length_eq_zero_iff.mp hzero)
  rw [Path.descend_cons, Path.descend_nil, Disk.makeDirs, Path.ancestors, habove, hfuel]
  by_cases hnotFound : error = .notFound
  · subst hnotFound
    obtain ⟨hconfined, hlayout⟩ := makeFirst_root hd hname hunbroken hfree fuel
    rw [Disk.makeFirst_of_notFound hmake]
    generalize d.makeFirst (Path.ancestorsFrom (fuel + 1) (parent.child name)) = made at *
    obtain ⟨error | _, d1⟩ := made
    · exact .inl ⟨error, d1, rfl, hconfined⟩
    · obtain ⟨base, hnew⟩ := hlayout rfl
      have hnames : ∀ n ∈ [] ++ [first], Fits n := by simpa using hfirst
      have hagain := hnew.makeDir_inside (.inl rfl) hnames rfl
      have hisDir := hnew.isDir_inside (.inl rfl) hnames
      have hmade := hnew.put (.inl rfl) (show entryFor [] ([] ++ [first]) = none from rfl)
        (show ∀ target, Entry.dir ≠ .link target by simp)
      rw [List.nil_append, Path.descend_cons, Path.descend_nil] at hagain hisDir
      rw [← Disk.refusal?_eq_none] at hisDir
      cases hrefusal : Disk.refusal? ((parent.child name).child first) with
      | some error =>
        rw [hrefusal] at hagain hisDir
        have hno : d1.isDir ((parent.child name).child first) = false := by simpa using hisDir
        exact .inl ⟨error, d1, by simp [hagain, hno], hconfined⟩
      | none =>
        rw [hrefusal] at hagain
        exact .inr ⟨base, _, by simp [hagain], hmade⟩
  · rw [Disk.makeFirst_of_error hmake hnotFound, hisDir]
    exact .inl ⟨error, d, rfl, .refl _ hd⟩

end Root

/-- The text of the configuration of a new project. -/
def configText : String := ({} : Config).toJson.pretty ++ "\n"

/-- All that is in a new project. -/
def contents (name : String) : List (List String × Entry) :=
  [(["README.md"], .file (Text.utf8 (readme name))),
    (["src", "index.ema"], .file (Text.utf8 (starterPage name))),
    ([configFile], .file (Text.utf8 configText)), (["dist"], .dir), (["src"], .dir)]

/-- What comes of filling a project: all of it is there, or a path was not taken and the rest was left
out. -/
def Ends (root : Path) (name : String) (d : Disk) (made : Except Error Path × Disk) : Prop :=
  (∃ names ∈ (contents name).map Prod.fst, ∃ error, ¬Takes (root.descend names) ∧
      made.1 = .error (.write (root.descend names) error) ∧ Confined root d made.2) ∨
    ∃ base, made.1 = .ok root ∧ Layout root base (contents name) d made.2

theorem Ends.confined {made : Except Error Path × Disk} (h : Ends root name d made) :
    Confined root d made.2 := by
  rcases h with ⟨_, _, _, _, _, hconfined⟩ | ⟨base, -, hlayout⟩
  · exact hconfined
  · exact hlayout.toConfined

theorem Ends.bind {names : List String} {x : ExceptT Error (StateM Disk) Unit}
    {f : Unit → ExceptT Error (StateM Disk) Path} {next : Disk → Prop}
    (hx : Advances (root.descend names) x e next) (hnames : names ∈ (contents name).map Prod.fst)
    (h : Confined root d e) (hf : ∀ e', next e' → Ends root name d ((f ()).run e')) :
    Ends root name d ((x >>= f).run e) := by
  rw [History.run_bind]
  rcases hx with ⟨hrefused, error, hrun⟩ | ⟨-, e', hrun, hnext⟩
  · rw [hrun]
    exact .inl ⟨names, hnames, error, hrefused, rfl, h⟩
  · rw [hrun]
    exact hf e' hnext

/-- The calls that fill a project after its root was made. -/
def fill (root : Path) (name : String) : ExceptT Error (StateM Disk) Path := do
  Site.makeDirs (root.join ({} : Config).outDir)
  Site.writeText (root.child configFile) configText
  Site.writeText ((root.join ({} : Config).srcDir).child "index.ema") (starterPage name)
  Site.writeText (root.child "README.md") (readme name)
  return root

/-- All calls that make a project. -/
def layOut (root : Path) (name : String) : ExceptT Error (StateM Disk) Path := do
  Site.makeDirs (root.join ({} : Config).srcDir)
  fill root name

theorem run_create (parent : Path) (name : String) (d : Disk) :
    (create parent name : ExceptT Error (StateM Disk) Path).run d =
      if isValidName name then
        if d.isPresent (parent.child name) then (.error (.projectExists (parent.child name)), d)
        else (layOut (parent.child name) name).run d
      else (.error (.invalidProjectName name), d) := by
  unfold create
  cases hvalid : isValidName name with
  | false => rfl
  | true =>
    have hpresent : (FileSystem.isPresent (parent.child name) : StateM Disk Bool) d =
        (d.isPresent (parent.child name), d) := rfl
    simp only [Bool.not_true, Bool.false_eq_true, if_false, if_true]
    rw [History.run_lift_bind, hpresent]
    cases d.isPresent (parent.child name) <;> rfl

theorem Layout.ends_fill (h : Layout root base [(["src"], .dir)] d e) (name : String) :
    Ends root name d ((fill root name).run e) := by
  have hdist := h.advances_makeDirs (.inl rfl) (show ∀ n ∈ [] ++ ["dist"], Fits n by decide)
    (by simp [entryFor])
  refine Ends.bind hdist (by simp [contents]) h.toConfined fun d2 h2 => ?_
  have hconfig := h2.advances_writeText (.inl rfl)
    (show ∀ n ∈ [] ++ [configFile], Fits n by decide) (by simp [entryFor, configFile]) configText
  refine Ends.bind hconfig (by simp [contents]) h2.toConfined fun d3 h3 => ?_
  have hpage := h3.advances_writeText (.inr (by simp [entryFor, configFile]))
    (show ∀ n ∈ ["src"] ++ ["index.ema"], Fits n by decide) (by simp [entryFor, configFile])
    (starterPage name)
  refine Ends.bind hpage (by simp [contents]) h3.toConfined fun d4 h4 => ?_
  have hreadme := h4.advances_writeText (.inl rfl)
    (show ∀ n ∈ [] ++ ["README.md"], Fits n by decide) (by simp [entryFor, configFile]) (readme name)
  exact Ends.bind hreadme (by simp [contents]) h4.toConfined fun d5 h5 => .inr ⟨base, rfl, h5⟩

/-- The directories on the way to a new project cannot be made, or the project is filled. -/
theorem ends_layOut {parent : Path} (hd : d.Rooted) (hname : Path.IsName name)
    (hunbroken : d.Unbroken (parent.child name)) (hfree : d.isPresent (parent.child name) = false) :
    (∃ error d', d.makeDirs ((parent.child name).descend ["src"]) = (.error error, d') ∧
      (layOut (parent.child name) name).run d =
        (.error (.write ((parent.child name).descend ["src"]) error), d') ∧
      Confined (parent.child name) d d') ∨
    Ends (parent.child name) name d ((layOut (parent.child name) name).run d) := by
  have hsrc : (parent.child name).join ({} : Config).srcDir = (parent.child name).descend ["src"] := rfl
  rw [layOut, History.run_bind, Site.makeDirs, FileSystem.orElse_run, FileSystem.makeDirs_eq, hsrc]
  rcases makeRoot_cases hd hname hunbroken hfree (show Fits "src" by decide) with
    ⟨error, d1, hmake, hconfined⟩ | ⟨base, d1, hmake, hsrc⟩
  · refine .inl ⟨error, d1, hmake, ?_, hconfined⟩
    rw [hmake]
    rfl
  · rw [hmake]
    exact .inr (hsrc.ends_fill name)

section Anywhere

/-- Nothing is removed, and nothing changes but the content of files. -/
def Retains (d e : Disk) : Prop :=
  ∀ place entry, d.get? place = some entry → e.get? place = some entry ∨
    ∃ before after, entry = .file before ∧ e.get? place = some (.file after)

theorem Retains.trans {d' : Disk} (h : Retains d d') (h' : Retains d' e) : Retains d e := by
  intro place entry hentry
  rcases h place entry hentry with hsame | ⟨before, middle, rfl, hmiddle⟩
  · exact h' place entry hsame
  · rcases h' place _ hmiddle with hsame | ⟨_, after, -, hafter⟩
    · exact .inr ⟨before, middle, rfl, hsame⟩
    · exact .inr ⟨before, after, rfl, hafter⟩

theorem Retains.of_extends (h : Extends d e) : Retains d e :=
  fun place entry hentry => .inl (h.keeps place entry hentry)

/-- A program that keeps to that on every disk, and fails only if a call does. -/
structure Careful {α : Type} (x : ExceptT Error (StateM Disk) α) : Prop where
  rooted : ∀ d : Disk, d.Rooted → (x.run d).2.Rooted
  retains : ∀ d : Disk, d.Rooted → Retains d (x.run d).2
  fails : ∀ d error, (x.run d).1 = .error error → ∃ p os, error = .write p os

namespace Careful

variable {α β : Type}

theorem pure (a : α) : Careful (pure a) :=
  ⟨fun _ hd => hd, fun d _ => .of_extends (.refl d), fun _ _ h => by cases h⟩

theorem bind {x : ExceptT Error (StateM Disk) α} {f : α → ExceptT Error (StateM Disk) β}
    (hx : Careful x) (hf : ∀ a, Careful (f a)) : Careful (x >>= f) := by
  refine ⟨fun d hd => ?_, fun d hd => ?_, fun d error herror => ?_⟩
  · have hrooted := hx.rooted d hd
    rw [History.run_bind]
    generalize x.run d = r at hrooted
    obtain ⟨_ | a, d'⟩ := r
    · exact hrooted
    · exact (hf a).rooted d' hrooted
  · have hrooted := hx.rooted d hd
    have hretains := hx.retains d hd
    rw [History.run_bind]
    generalize x.run d = r at hrooted hretains
    obtain ⟨_ | a, d'⟩ := r
    · exact hretains
    · exact hretains.trans ((hf a).retains d' hrooted)
  · have hfails := hx.fails d
    rw [History.run_bind] at herror
    generalize x.run d = r at hfails herror
    obtain ⟨_ | a, d'⟩ := r
    · exact Except.error.inj herror ▸ hfails _ rfl
    · exact (hf a).fails d' error herror

/-- A file call fails with its own error. -/
theorem fails_orElse {call : StateM Disk (Except OsError α)} {p : Path} {d : Disk} {error : Error}
    (h : ((FileSystem.orElse call (.write p)).run d).1 = .error error) :
    ∃ p os, error = .write p os := by
  rw [FileSystem.orElse_run] at h
  generalize (call d).1 = result at h
  cases result with
  | error os => exact ⟨p, os, (Except.error.inj h).symm⟩
  | ok _ => cases h

theorem makeDirs (base : Path) (hname : Path.IsPiece name) :
    Careful (Site.makeDirs (base.child name)) := by
  have hgains : ∀ d : Disk, d.Rooted → Gains (base.child name).ancestors d
      ((Site.makeDirs (base.child name) : ExceptT Error (StateM Disk) Unit).run d).2 := by
    intro d hd
    rw [Site.makeDirs, FileSystem.orElse_run, FileSystem.makeDirs_eq, Disk.makeDirs]
    obtain ⟨-, hunended⟩ := Disk.isChain_ancestorsFrom ((base.child name).text.length + 1)
      (.inr ⟨_, _, Path.EndsIn.child base hname⟩)
    exact hd.makeFirst_gains fun p hp => (hunended p hp).1
  exact ⟨fun d hd => (hgains d hd).rooted, fun d hd => .of_extends (hgains d hd).toExtends,
    fun _ _ h => fails_orElse h⟩

theorem writeBytes {d d' : Disk} {p : Path} {bytes : List UInt8} (hd : d.Rooted)
    (h : d.writeBytes p bytes = .ok d') : d'.Rooted ∧ Retains d d' := by
  obtain ⟨place, hl, hdir, rfl⟩ := Disk.writeBytes_eq_ok h
  have hne := Disk.ne_nil_of_get?_ne_dir hdir
  obtain ⟨above, last, rfl⟩ : ∃ above last, place = above ++ [last] :=
    ⟨_, _, (List.dropLast_append_getLast hne).symm⟩
  rcases hd.locate_cases hl with hsolid | ⟨above', last', heq, hparent, hnone⟩
  · refine ⟨hd.put (hd above last hsolid.1) hdir, fun q entry hentry => ?_⟩
    rw [Disk.get?_put hne]
    split
    · next heq =>
      subst heq
      cases entry with
      | dir => exact absurd hentry hdir
      | link target => exact absurd hentry (hsolid.2 target)
      | file before => exact .inr ⟨before, _, rfl, rfl⟩
    · exact .inl hentry
  · obtain ⟨rfl, -⟩ := List.append_inj' heq rfl
    exact ⟨hd.put hparent hdir, .of_extends (.put hnone (by simp))⟩

theorem writeText (p : Path) (text : String) : Careful (Site.writeText p text) := by
  have hcases : ∀ d : Disk, d.Rooted →
      ((Site.writeText p text : ExceptT Error (StateM Disk) Unit).run d).2.Rooted ∧
        Retains d ((Site.writeText p text : ExceptT Error (StateM Disk) Unit).run d).2 := by
    intro d hd
    rw [Site.writeText, FileSystem.orElse_run, FileSystem.writeBytes_eq, Disk.attempt]
    cases hwrite : d.writeBytes p (Text.utf8 text) with
    | error error => exact ⟨hd, .of_extends (.refl d)⟩
    | ok d' => exact writeBytes hd hwrite
  exact ⟨fun d hd => (hcases d hd).1, fun d hd => (hcases d hd).2, fun _ _ h => fails_orElse h⟩

theorem layOut (root : Path) (name : String) : Careful (layOut root name) :=
  bind (makeDirs root (show Path.IsPiece "src" by constructor <;> decide)) fun _ =>
    bind (makeDirs root (show Path.IsPiece "dist" by constructor <;> decide)) fun _ =>
      bind (writeText _ _) fun _ => bind (writeText _ _) fun _ => bind (writeText _ _) fun _ => pure root

end Careful

end Anywhere

/-- Making a project, whatever comes of it, removes nothing and changes nothing but the content of
files. The name is a single component, and with an invalid name or an existing root nothing is done at
all. If no double dot of the parent comes after something that is missing, all that was there stays as
it was, and all that is new is the root, what is in it, and directories on the way to it. -/
theorem create_damages_nothing {d : Disk} (hd : d.Rooted) (parent : Path) (name : String) :
    let root := parent.child name
    let made := (create parent name : ExceptT Error (StateM Disk) Path).run d
    (made = (.error (.invalidProjectName name), d) ∨
      Path.IsName name ∧ root.components = parent.components ++ [.name name]) ∧
    (made.1 = .error (.invalidProjectName name) ∨ made.1 = .error (.projectExists root) → made.2 = d) ∧
    (∀ place entry, d.get? place = some entry → made.2.get? place = some entry ∨
      ∃ before after, entry = .file before ∧ made.2.get? place = some (.file after)) ∧
    (d.Unbroken parent →
      (∀ place entry, d.get? place = some entry → made.2.get? place = some entry) ∧
      ∀ place, d.get? place = none → made.2.get? place ≠ none →
        (made.2.get? place = some .dir ∧ ∃ p : Path, p.components <+: root.components ∧
          made.2.locate true p = .ok place) ∨
        ∃ base, made.2.locate true root = .ok base ∧ base <+: place) := by
  dsimp only
  rw [run_create]
  split
  · next hvalid =>
    have hname := isName_of_valid hvalid
    have hcomponents : (parent.child name).components = parent.components ++ [.name name] := by
      rw [Path.components_child parent hname.isPiece, Path.component_name hname]
    refine ⟨.inr ⟨hname, hcomponents⟩, ?_⟩
    split
    · exact ⟨fun _ => rfl, fun place entry h => .inl h, fun _ => ⟨fun place entry h => h,
        fun place hnone hsome => absurd hnone hsome⟩⟩
    · next hfree =>
      have hcareful := Careful.layOut (parent.child name) name
      refine ⟨fun herror => ?_, hcareful.retains d hd, fun hunbroken => ?_⟩
      · rcases herror with herror | herror <;> obtain ⟨_, _, ⟨⟩⟩ := hcareful.fails d _ herror
      · rcases ends_layOut hd hname (hunbroken.child hname) (by simpa using hfree) with
          ⟨error, d1, -, hrun, hconfined⟩ | hends
        · rw [hrun]
          exact ⟨hconfined.keeps, hconfined.inside⟩
        · exact ⟨hends.confined.keeps, hends.confined.inside⟩
  · exact ⟨.inl rfl, fun _ => rfl, fun place entry h => .inl h, fun _ => ⟨fun place entry h => h,
      fun place hnone hsome => absurd hnone hsome⟩⟩

section Sample

/-- The entries of a disk with a link to a directory. -/
def sampleLinkedEntries : List (Place × Entry) :=
  [(["work"], .dir), (["work", "l"], .link "t"), (["work", "t"], .dir),
    (["work", "t", "old"], .file [1])]

def sampleLinked : Disk := ⟨.ofList sampleLinkedEntries, ["work"]⟩

theorem sampleLinked_rooted : sampleLinked.Rooted := by
  refine Disk.rooted_of_forall ?_
  rw [show sampleLinked.entries.entries = sampleLinkedEntries from rfl]
  simp only [sampleLinkedEntries, List.forall_mem_cons]
  exact ⟨rfl, rfl, rfl, rfl, by simp⟩

/-- A project is made behind the link, and the file that is there stays. -/
theorem create_damages_nothing_linked :
    sampleLinked.Rooted ∧ sampleLinked.Unbroken ⟨"t/../l"⟩ ∧
      ((create ⟨"t/../l"⟩ "p" : ExceptT Error (StateM Disk) Path).run sampleLinked).2.get?
        ["work", "t", "p", "src"] = some .dir ∧
      ((create ⟨"t/../l"⟩ "p" : ExceptT Error (StateM Disk) Path).run sampleLinked).2.get?
        ["work", "t", "old"] = some (.file [1]) := by
  have hunbroken : sampleLinked.Unbroken ⟨"t/../l"⟩ := by
    intro before after hsteps
    rw [show Disk.steps "t/../l" = ["t", "..", "l"] by decide +kernel] at hsteps
    obtain rfl : before = ["t"] := by
      rcases before with _ | ⟨first, _ | ⟨second, _ | ⟨third, rest⟩⟩⟩ <;> simp_all
    decide +kernel
  have hmade := create_damages_nothing sampleLinked_rooted ⟨"t/../l"⟩ "p"
  exact ⟨sampleLinked_rooted, hunbroken, by decide +kernel, (hmade.2.2.2 hunbroken).1 _ _ rfl⟩

/-- The entries of a disk with a project. -/
def sampleTakenEntries : List (Place × Entry) :=
  [(["work"], .dir), (["work", "y"], .dir), (["work", "y", "p"], .dir),
    (["work", "y", "p", "README.md"], .file (Text.utf8 "mine"))]

def sampleTaken : Disk := ⟨.ofList sampleTakenEntries, ["work"]⟩

theorem sampleTaken_rooted : sampleTaken.Rooted := by
  refine Disk.rooted_of_forall ?_
  rw [show sampleTaken.entries.entries = sampleTakenEntries from rfl]
  simp only [sampleTakenEntries, List.forall_mem_cons]
  exact ⟨rfl, rfl, rfl, rfl, by simp⟩

/-- The root of a project seems to be free while a directory before a double dot is missing. That one is
made, and the project that is there is overwritten. -/
theorem create_overwrites_project :
    sampleTaken.Rooted ∧
      sampleTaken.get? ["work", "y", "p", "README.md"] = some (.file (Text.utf8 "mine")) ∧
      ((create ⟨"x/../y"⟩ "p" : ExceptT Error (StateM Disk) Path).run sampleTaken).1.toOption =
        some ⟨"x/../y/p"⟩ ∧
      ((create ⟨"x/../y"⟩ "p" : ExceptT Error (StateM Disk) Path).run sampleTaken).2.get?
        ["work", "y", "p", "README.md"] ≠ some (.file (Text.utf8 "mine")) := by
  exact ⟨sampleTaken_rooted, rfl, by decide +kernel⟩

end Sample

end Scaffold

end Folio
