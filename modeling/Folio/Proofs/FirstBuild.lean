import Folio.Proofs.DamagedEntries
import Folio.Proofs.NewProjects
import Folio.Proofs.Rebuild
import Folio.Proofs.StarterPage

/-! The first build of a new project. Its configuration reads as the defaults, its one document is found
and compiled, and the page is written, whatever becomes of the kept results. But a path that is almost
too long has room for the project and not for the page. -/

namespace Folio

namespace Scaffold

open Disk (Rooted Unbroken Fits Takes)

variable {d e : Disk} {root : Path} {base : Place} {name : String} {dirs names names' : List String}
  {entries : List (List String × Entry)}

/-- A name that a path can hold. -/
def IsSpelled (name : String) : Prop := Fits name ∧ '\x00' ∉ name.toList

instance (name : String) : Decidable (IsSpelled name) := inferInstanceAs (Decidable (_ ∧ _))

theorem Layout.takes_iff (h : Layout root base entries d e) (hnames : ∀ n ∈ names, IsSpelled n) :
    Takes (root.descend names) ↔ (root.descend names).text.utf8ByteSize ≤ Disk.maxPath := by
  obtain ⟨parent, last, hlast, rfl⟩ := h.named
  exact Disk.takes_descend_child hlast (Disk.locate_eq_ok.mp h.locate).1
    (fun n hn => (hnames n hn).1.isPiece) fun n hn => (hnames n hn).2

/-- A path in a project is taken if one that is not shorter is. -/
theorem Layout.takes_of_shorter (h : Layout root base entries d e)
    (hnames : (∀ n ∈ names, IsSpelled n) ∧ (∀ n ∈ names', IsSpelled n) ∧
      (names.map fun n => n.utf8ByteSize + 1).sum ≤ (names'.map fun n => n.utf8ByteSize + 1).sum)
    (htakes : Takes (root.descend names')) : Takes (root.descend names) := by
  obtain ⟨hspelled, hspelled', hle⟩ := hnames
  rw [h.takes_iff hspelled]
  rw [h.takes_iff hspelled'] at htakes
  obtain ⟨parent, last, hlast, rfl⟩ := h.named
  rw [Path.utf8ByteSize_descend_child parent hlast fun n hn => (hspelled n hn).1.isPiece]
  rw [Path.utf8ByteSize_descend_child parent hlast fun n hn => (hspelled' n hn).1.isPiece] at htakes
  omega

/-- A text that is listed is read. -/
theorem Layout.readText_inside (h : Layout root base entries d e) (hdir : Layout.IsDirOf entries dirs)
    (hnames : ∀ n ∈ dirs ++ [name], Fits n) (htakes : Takes (root.descend (dirs ++ [name])))
    {text : String} (hentry : entryFor entries (dirs ++ [name]) = some (.file (Text.utf8 text))) :
    e.readText (root.descend (dirs ++ [name])) = .ok text := by
  have hbytes := (h.readBytes_inside hdir hnames).mpr ⟨htakes, hentry⟩
  rw [Disk.readText, hbytes]
  simp only [Text.ofUtf8_utf8]
  rfl

section Discovery

variable (h : Layout root base (contents name) d e) (htakes : Takes (root.descend ["src", "index.ema"]))

include h htakes

/-- Nothing but the first document is found. -/
theorem Layout.filesBelow_src :
    e.filesBelow (root.descend ["src"]) = [root.descend ["src", "index.ema"]] := by
  have hsrc : Takes (root.descend ["src"]) := h.takes_of_shorter (by decide) htakes
  have hat : e.entryAt true (root.descend ["src"]) = .ok (base ++ ["src"], .dir) :=
    Disk.entryAt_eq_ok.mpr ⟨h.locate_of_takes (.inl rfl)
      (show ∀ n ∈ [] ++ ["src"], Fits n by decide) hsrc true, h.get?_dir (.inr rfl)⟩
  have hbelow : ∀ n, e.get? (base ++ ["src"] ++ [n]) =
      if n = "index.ema" then some (.file (Text.utf8 (starterPage name))) else none := by
    intro n
    rw [List.append_assoc, h.below _ (by simp)]
    by_cases heq : n = "index.ema"
    · subst heq
      rfl
    · simp [contents, entryFor, configFile, heq, Ne.symm heq]
  have hnames : e.names (base ++ ["src"]) = ["index.ema"] := by
    refine List.perm_singleton.mp ((List.perm_ext_iff_of_nodup (Disk.nodup_names e _) (by simp)).mpr ?_)
    intro n
    rw [Disk.mem_names, hbelow]
    simp
  have hisFile : e.isFile (root.descend ["src", "index.ema"]) = true := by
    refine Disk.isFile_iff.mpr ⟨_, Text.utf8 (starterPage name), h.locate_of_takes (.inr rfl)
      (show ∀ n ∈ ["src"] ++ ["index.ema"], Fits n by decide) htakes true, ?_⟩
    rw [h.below _ (by simp)]
    rfl
  have hfiles : ∀ fuel, e.filesFrom (fuel + 1) [base ++ ["src"]] (base ++ ["src"]) (root.descend ["src"]) =
      [root.descend ["src", "index.ema"]] := by
    intro fuel
    rw [Disk.filesFrom, hnames, List.flatMap_singleton]
    dsimp only
    rw [hbelow]
    rfl
  obtain ⟨fuel, hfuel⟩ : ∃ fuel, (e.entries.entries.length + 1) * (e.entries.entries.length + 1) =
      fuel + 1 := ⟨_, rfl⟩
  rw [Disk.filesBelow, hat]
  dsimp only
  rw [hfuel, hfiles, List.filter_singleton, hisFile]
  rfl

theorem Layout.targets :
    assign (({} : Config).relativeTo root)
        (documentsAmong (e.filesBelow (({} : Config).relativeTo root).srcDir)) =
      [.build (root.descend ["src", "index.ema"]) (root.descend ["dist"])] := by
  have hdocument : isDocument (root.descend ["src", "index.ema"]) = true :=
    (isDocument_descend root (by simp) (by decide)).mpr ⟨["src"], "index", rfl, by decide⟩
  have hfound : documentsAmong (e.filesBelow (root.descend ["src"])) =
      [root.descend ["src", "index.ema"]] := by
    rw [h.filesBelow_src htakes, documentsAmong, List.filter_singleton, hdocument]
    exact List.mergeSort_singleton _
  let doc : Document := ⟨[], "index", by simp, by decide, by decide⟩
  have hfile : doc.file (root.descend ["src"]) = root.descend ["src", "index.ema"] := by
    rw [Document.file, Document.names, show doc.stem ++ ".ema" = "index.ema" by decide]
    rfl
  have hdir : outputDir (root.descend ["src"]) (root.descend ["dist"]) (root.descend ["src", "index.ema"]) =
      root.descend ["dist"] := by
    rw [← hfile, doc.outputDir_file, show doc.words = [] by decide, Path.descend_nil]
  have hsrc : (({} : Config).relativeTo root).srcDir = root.descend ["src"] := rfl
  have hout : (({} : Config).relativeTo root).outDir = root.descend ["dist"] := rfl
  rw [hsrc, hfound, assign, assignFrom, hsrc, hout, hdir]
  rfl

end Discovery

section Shelf

/-- Entries in the directory of kept results, and that directory itself. -/
def IsShelf (added : List (List String × Entry)) : Prop :=
  ∀ listed ∈ added, ["dist", Cache.dirName] <+: listed.1

theorem IsShelf.entryFor_append {added : List (List String × Entry)} (h : IsShelf added)
    (hnames : ¬["dist", Cache.dirName] <+: names) :
    entryFor (added ++ entries) names = entryFor entries names :=
  Scaffold.entryFor_append fun listed hlisted heq => hnames (heq ▸ h listed hlisted)

/-- A file that may be written is there afterwards, or nothing has changed. -/
theorem Layout.tries_writeBytes (h : Layout root base entries d e) (hdir : Layout.IsDirOf entries dirs)
    (hnames : ∀ n ∈ dirs ++ [name], Fits n) (hnone : entryFor entries (dirs ++ [name]) = none)
    (bytes : List UInt8) : ∃ added, (∀ listed ∈ added, listed.1 = dirs ++ [name]) ∧
      Layout root base (added ++ entries) d
        ((e.writeBytes (root.descend (dirs ++ [name])) bytes).toOption.getD e) := by
  rw [h.writeBytes_inside hdir hnames hnone]
  cases Disk.refusal? (root.descend (dirs ++ [name])) with
  | some error => exact ⟨[], by simp, h⟩
  | none => exact ⟨[(dirs ++ [name], .file bytes)], by simp, h.put hdir hnone (by simp)⟩

/-- Nothing is found where no file can be read. -/
theorem lookup_of_unread {c : Cache} {key : String}
    (h : ∀ bytes, e.readBytes (c.entryPath key) ≠ .ok bytes) (source : String) (options : Options) :
    (c.lookup key source options : StateM Disk _) e = (.ok none, e) := by
  cases hread : e.readBytes (c.entryPath key) with
  | ok bytes => exact absurd hread (h bytes)
  | error error => exact Cache.lookup_unreadable hread

variable (h : Layout root base entries d e) (hdist : entryFor entries ["dist"] = some .dir)
  (hfree : ∀ names, ["dist", Cache.dirName] <+: names → entryFor entries names = none)

include h hdist hfree

/-- The directory of kept results is made if a call takes its path. -/
theorem Layout.create_cases :
    (Takes (root.descend ["dist", Cache.dirName]) ∧
      Layout root base ((["dist", Cache.dirName], .dir) :: entries) d
        ((Cache.create (root.descend ["dist"]) : StateM Disk Cache) e).2) ∨
    ¬Takes (root.descend ["dist", Cache.dirName]) ∧
      ((Cache.create (root.descend ["dist"]) : StateM Disk Cache) e).2 = e := by
  have hnames : ∀ n ∈ ["dist"] ++ [Cache.dirName], Fits n := by decide
  have hnone : entryFor entries (["dist"] ++ [Cache.dirName]) = none := hfree _ (List.prefix_refl _)
  have habsent : e.isPresent (root.descend (["dist"] ++ [Cache.dirName])) = false := by
    rw [Bool.eq_false_iff, ne_eq, h.isPresent_inside (.inr hdist) hnames, hnone]
    simp
  have hmake := h.makeDirs_inside (.inr hdist) hnames hnone
  have hnew := h.put (.inr hdist) hnone (show ∀ target, Entry.dir ≠ .link target by simp)
  have hchild : (root.descend ["dist"]).child Cache.dirName = root.descend ["dist", Cache.dirName] := rfl
  rw [List.singleton_append] at habsent hmake hnew
  rw [Prepared.create_snd, hchild, habsent, if_neg Bool.false_ne_true, hmake, ← Disk.refusal?_eq_none]
  cases Disk.refusal? (root.descend ["dist", Cache.dirName]) with
  | none => exact .inl ⟨rfl, hnew⟩
  | some error => exact .inr ⟨by simp, rfl⟩

/-- No result is kept in a project that is built for the first time. That of its document is kept
afterwards, if a call takes its path. -/
theorem Layout.shelve (key : String) (kept : Cache.Entry) :
    let shelf : Cache := ⟨root.descend ["dist", Cache.dirName]⟩
    let ready := ((Cache.create (root.descend ["dist"]) : StateM Disk Cache) e).2
    (∃ added, IsShelf added ∧ Layout root base (added ++ entries) d ready) ∧
      (∀ source options, (shelf.lookup key source options : StateM Disk _) ready = (.ok none, ready)) ∧
      ∃ added, IsShelf added ∧ Layout root base (added ++ entries) d (shelf.keep key kept ready) := by
  have hentry := Cache.fits_entryName key
  have hpath : Cache.entryPath ⟨root.descend ["dist", Cache.dirName]⟩ key =
      root.descend (["dist", Cache.dirName] ++ [Cache.entryName key]) := by
    rw [Cache.entryPath_eq, Path.descend_concat]
  dsimp only
  rw [Cache.keep, hpath]
  rcases h.create_cases hdist hfree with ⟨-, hready⟩ | ⟨hrefused, hready⟩
  · have hnames : ∀ n ∈ ["dist", Cache.dirName] ++ [Cache.entryName key], Fits n := by
      simpa [or_imp, forall_and] using ⟨by decide, by decide, hentry⟩
    have hnone : entryFor ((["dist", Cache.dirName], .dir) :: entries)
        (["dist", Cache.dirName] ++ [Cache.entryName key]) = none := by
      rw [entryFor_cons, if_neg (by simp)]
      exact hfree _ (List.prefix_append _ _)
    have hdir : Layout.IsDirOf ((["dist", Cache.dirName], .dir) :: entries) ["dist", Cache.dirName] :=
      .inr (by rw [entryFor_cons, if_pos rfl])
    obtain ⟨added, hadded, hkept⟩ := hready.tries_writeBytes hdir hnames hnone kept.bytes
    refine ⟨⟨[(["dist", Cache.dirName], .dir)], by simp [IsShelf], hready⟩,
      lookup_of_unread fun bytes hread => ?_,
      added ++ [(["dist", Cache.dirName], .dir)], fun listed hlisted => ?_, by simpa using hkept⟩
    · rw [hpath, hready.readBytes_inside hdir hnames, hnone] at hread
      cases hread.2
    · rcases List.mem_append.mp hlisted with hfile | hdir
      · rw [hadded listed hfile]
        exact List.prefix_append _ _
      · rw [List.mem_singleton.mp hdir]
  · have hlong : ¬Takes (root.descend (["dist", Cache.dirName] ++ [Cache.entryName key])) := by
      rw [Path.descend_concat]
      exact fun htakes => hrefused (Disk.takes_of_child Cache.fits_dirName.isPiece hentry.isPiece htakes)
    rw [hready]
    refine ⟨⟨[], by simp [IsShelf], h⟩, lookup_of_unread fun bytes hread => ?_, [], by simp [IsShelf],
      ?_⟩
    · rw [hpath] at hread
      obtain ⟨place, hl, -⟩ := Disk.readBytes_eq_ok.mp hread
      exact hlong (Disk.locate_eq_ok.mp hl).1
    · cases hwrite : e.writeBytes (root.descend (["dist", Cache.dirName] ++ [Cache.entryName key]))
        kept.bytes with
      | error error => exact h
      | ok e' =>
        obtain ⟨place, hl, -⟩ := Disk.writeBytes_eq_ok hwrite
        exact absurd (Disk.locate_eq_ok.mp hl).1 hlong

end Shelf

section Outputs

variable (h : Layout root base entries d e) (hdist : entryFor entries ["dist"] = some .dir)
  (hfree : ∀ file ∈ Site.outputNames, entryFor entries ["dist", file] = none)

include h hdist hfree

/-- The files of a document are written into the project. -/
theorem Layout.run_writeOutputs (htakes : Takes (root.descend ["dist", "index.html"])) (output : Output) :
    ∃ paths after, (Site.writeOutputs (root.descend ["dist"]) output :
        ExceptT Error (StateM Disk) Site.Paths).run e = (.ok paths, after) ∧
      after.readBytes (root.descend ["dist", "index.html"]) = .ok (Text.utf8 output.markup) := by
  have hmake := Site.run_makeDirs_eq_ok.mpr (h.makeDirs_again (.inl rfl)
    (show ∀ n ∈ [] ++ ["dist"], Fits n by decide) (h.takes_of_shorter (by decide) htakes) hdist)
  obtain ⟨e1, hmarkup, h1⟩ := (h.advances_writeText (.inr hdist)
    (show ∀ n ∈ ["dist"] ++ ["index.html"], Fits n by decide) (hfree _ (by decide))
    output.markup).taken htakes
  obtain ⟨e2, hstyle, h2⟩ := (h1.advances_writeText (.inr (by simpa using hdist))
    (show ∀ n ∈ ["dist"] ++ ["styles.css"], Fits n by decide)
    (by simpa using hfree "styles.css" (by decide))
    output.style).taken (h.takes_of_shorter (by decide) htakes)
  obtain ⟨e3, hscript, h3⟩ := (h2.advances_writeText (.inr (by simpa using hdist))
    (show ∀ n ∈ ["dist"] ++ ["script.js"], Fits n by decide)
    (by simpa using hfree "script.js" (by decide))
    output.script).taken (h.takes_of_shorter (by decide) htakes)
  refine ⟨.inside (root.descend ["dist"]), e3, ?_, ?_⟩
  · simp only [Path.descend_concat, List.nil_append] at hmake hmarkup hstyle hscript
    simp only [Site.writeOutputs, History.run_bind, Site.Paths.inside, hmake, hmarkup, hstyle, hscript]
    rfl
  · exact (h3.readBytes_inside (.inr (by simpa using hdist))
      (show ∀ n ∈ ["dist"] ++ ["index.html"], Fits n by decide)).mpr ⟨htakes, by simp⟩

/-- None of them is written if the page is not. -/
theorem Layout.run_writeOutputs_refused (hdir : Takes (root.descend ["dist"]))
    (hrefused : ¬Takes (root.descend ["dist", "index.html"])) (output : Output) :
    ∃ error, (Site.writeOutputs (root.descend ["dist"]) output :
      ExceptT Error (StateM Disk) Site.Paths).run e = (.error error, e) := by
  have hmake := Site.run_makeDirs_eq_ok.mpr (h.makeDirs_again (.inl rfl)
    (show ∀ n ∈ [] ++ ["dist"], Fits n by decide) hdir hdist)
  obtain ⟨error, hmarkup⟩ := (h.advances_writeText (.inr hdist)
    (show ∀ n ∈ ["dist"] ++ ["index.html"], Fits n by decide) (hfree _ (by decide))
    output.markup).refused hrefused
  refine ⟨.write (root.descend ["dist", "index.html"]) error, ?_⟩
  simp only [Path.descend_concat, List.nil_append] at hmake hmarkup
  simp only [Site.writeOutputs, History.run_bind, Site.Paths.inside, hmake, hmarkup]
  rfl

end Outputs

/-- All that is in a project when its document is about to be built, but for kept results. -/
def assets (name : String) : List (List String × Entry) :=
  (["dist", "js"], .dir) :: (["dist", "css"], .dir) :: contents name

theorem entryFor_assets {names : List String} (h : ["dist", Cache.dirName] <+: names) :
    entryFor (assets name) names = none := by
  obtain ⟨rest, rfl⟩ := h
  simp [assets, contents, configFile, Cache.dirName]

namespace IsShelf

variable {added : List (List String × Entry)} (h : IsShelf added)

include h

theorem dist : entryFor (added ++ assets name) ["dist"] = some .dir := by
  rw [h.entryFor_append (by simp)]
  rfl

theorem outputs : ∀ file ∈ Site.outputNames, entryFor (added ++ assets name) ["dist", file] = none := by
  intro file hfile
  have hname : file ≠ Cache.dirName := by
    rintro rfl
    exact absurd hfile (by decide)
  rw [h.entryFor_append (by simpa using hname.symm)]
  simp only [Site.outputNames, List.mem_cons, List.not_mem_nil, or_false] at hfile
  rcases hfile with rfl | rfl | rfl <;> simp [assets, contents, configFile]

end IsShelf

section Build

variable (h : Layout root base (contents name) d e) (htakes : Takes (root.descend ["src", "index.ema"]))

include h htakes

theorem Layout.run_prepareAssets : ∃ middle,
    (Site.prepareAssets (root.descend ["dist"]) : ExceptT Error (StateM Disk) Unit).run e =
      (.ok (), middle) ∧ Layout root base (assets name) d middle := by
  obtain ⟨e1, hcss, h1⟩ := (h.advances_makeDirs (.inr rfl)
    (show ∀ n ∈ ["dist"] ++ ["css"], Fits n by decide) rfl).taken (h.takes_of_shorter (by decide) htakes)
  obtain ⟨e2, hjs, h2⟩ := (h1.advances_makeDirs (.inr rfl)
    (show ∀ n ∈ ["dist"] ++ ["js"], Fits n by decide) rfl).taken (h.takes_of_shorter (by decide) htakes)
  refine ⟨e2, ?_, h2⟩
  rw [Path.descend_concat] at hcss hjs
  rw [Site.prepareAssets, History.run_bind, hcss]
  exact hjs

/-- A new project is built: its document is compiled, and only the files of the page are left to be
written. -/
theorem Layout.run_buildProject : ∃ added midway, IsShelf added ∧
    Layout root base (added ++ assets name) d midway ∧
    (buildProject (({} : Config).relativeTo root) : ExceptT Error (StateM Disk) Report).run e =
      let result := compile (starterPage name) {}
      let written := (Site.writeOutputs (root.descend ["dist"]) result.output :
        ExceptT Error (StateM Disk) Site.Paths).run midway
      (.ok { files := [(result.report (root.descend ["src", "index.ema"]) (root.descend ["dist"])
        false).afterWriting written.1], elapsedMs := 0 }, written.2) := by
  let config := ({} : Config).relativeTo root
  let file := root.descend ["src", "index.ema"]
  have hisDir := (h.isDir_inside (.inl rfl) (show ∀ n ∈ [] ++ ["src"], Fits n by decide)).mpr
    ⟨h.takes_of_shorter (by decide) htakes, rfl⟩
  obtain ⟨middle, hassets, hmiddle⟩ := h.run_prepareAssets htakes
  obtain ⟨⟨before, hbefore, hready⟩, hmiss, added, hadded, hmidway⟩ := hmiddle.shelve rfl
    (fun names => entryFor_assets) (cacheKey config file) (Cache.Entry.of (starterPage name) {})
  generalize hcreate : ((Cache.create (root.descend ["dist"]) : StateM Disk Cache) middle).2 = ready at *
  have hfile : entryFor (before ++ assets name) ["src", "index.ema"] =
      some (.file (Text.utf8 (starterPage name))) := by
    rw [hbefore.entryFor_append (by simp)]
    rfl
  have hsrc : Layout.IsDirOf (before ++ assets name) ["src"] := by
    refine .inr ?_
    rw [hbefore.entryFor_append (by simp)]
    rfl
  have hread : ready.readText file = .ok (starterPage name) :=
    hready.readText_inside hsrc (show ∀ n ∈ ["src"] ++ ["index.ema"], Fits n by decide) htakes hfile
  have hsuccess : (compile (starterPage name) {}).success = true := rfl
  have hresult : (resultFor config config.cache? (cacheKey config file) (starterPage name) :
      StateM Disk _) ready = (.ok (compile (starterPage name) {}, false),
        (⟨root.descend ["dist", Cache.dirName]⟩ : Cache).keep (cacheKey config file)
          (Cache.Entry.of (starterPage name) {}) ready) := resultFor_not_found (hmiss (starterPage name) {})
  generalize (⟨root.descend ["dist", Cache.dirName]⟩ : Cache).keep (cacheKey config file)
    (Cache.Entry.of (starterPage name) {}) ready = midway at hresult hmidway
  refine ⟨added, midway, hadded, hmidway, ?_⟩
  generalize compile (starterPage name) {} = result at hsuccess hresult
  have hbuild := buildFile_of_result hread (congrArg Prod.fst hresult) (root.descend ["dist"])
  rw [hresult, deliver_eq _ _ _ hsuccess] at hbuild
  have htargets : (buildTargets config config.cache? [.build file (root.descend ["dist"])] :
      StateM Disk _) ready = (.ok [_], _) := buildTargets_cons hbuild rfl
  have hprepared : Prepared config e ready := ⟨hisDir, middle, hassets, hcreate.symm⟩
  rw [hprepared.run_buildProject, h.targets htakes, htargets]
  rfl

end Build

/-- The configuration of a new project has nothing but defaults. -/
theorem read_configText : Config.read configText = .ok {} := by
  have hread : (Config.read configText).toOption = some {} := by decide +kernel
  generalize Config.read configText = result at hread
  cases result with
  | error fault => cases hread
  | ok config => rw [Option.some.inj hread]

theorem Layout.run_load (h : Layout root base (contents name) d e)
    (htakes : Takes (root.descend [configFile])) :
    (Config.load (root.child configFile) : ExceptT Error (StateM Disk) Config).run e = (.ok {}, e) := by
  have hentry : entryFor (contents name) ([] ++ [configFile]) = some (.file (Text.utf8 configText)) := by
    simp [contents, configFile]
  have hread := h.readText_inside (.inl rfl) (show ∀ n ∈ [] ++ [configFile], Fits n by decide) htakes
    hentry
  rw [List.nil_append, Path.descend_cons, Path.descend_nil] at hread
  rw [Config.load, History.run_lift_bind, FileSystem.readText_eq, hread]
  dsimp only
  rw [read_configText]
  rfl

/-- A project that was made is a new one with all that is in it. -/
theorem layout_of_create {parent : Path} (hd : d.Rooted) (hunbroken : d.Unbroken parent)
    (h : (create parent name : ExceptT Error (StateM Disk) Path).run d = (.ok root, e)) :
    isValidName name = true ∧ ∃ base, Layout root base (contents name) d e := by
  rw [run_create] at h
  split at h
  · next hvalid =>
    have hname := isName_of_valid hvalid
    split at h
    · cases h
    · next hfree =>
      rcases ends_layOut hd hname (hunbroken.child hname) (by simpa using hfree) with
        ⟨error, d1, -, hrun, -⟩ | ⟨names, -, error, -, herror, -⟩ | ⟨base, hok, hlayout⟩
      · cases hrun.symm.trans h
      · rw [h] at herror
        cases herror
      · rw [h] at hok hlayout
        exact ⟨hvalid, base, Except.ok.inj hok ▸ hlayout⟩
  · cases h

/-- A project is made in any directory, if nothing has its name there and all its paths are taken. -/
theorem create_in_dir {parent : Path} {q : Place} (hd : d.Plain) (hvalid : isValidName name = true)
    (hfits : Fits name) (hlead : d.lead parent = .ok q) (hdir : d.get? q = some .dir)
    (htaken : Disk.refusal? parent = none ∨ parent.text = "") (hfree : d.get? (q ++ [name]) = none)
    (hunbroken : d.Unbroken parent)
    (htakes : ∀ names ∈ (contents name).map Prod.fst, Takes ((parent.child name).descend names)) :
    ∃ e base, (create parent name : ExceptT Error (StateM Disk) Path).run d = (.ok (parent.child name), e) ∧
      Layout (parent.child name) base (contents name) d e := by
  have hpieces : ∀ n ∈ [name], Path.IsPiece n := by simpa using hfits.isPiece
  have habsent : d.isPresent (parent.child name) = false := by
    rw [Bool.eq_false_iff]
    intro hpresent
    obtain ⟨place, hl, hplace⟩ := Disk.isPresent_iff.mp hpresent
    have hleads := Disk.lead_descend hlead hdir hpieces
    rw [Disk.reach_name hfits hdir, if_neg (by simp), Disk.reach] at hleads
    obtain rfl := Except.ok.inj (hleads.symm.trans (hd.locate_iff.mp hl).2)
    exact hplace hfree
  have hbelow : ∀ names, d.get? (q ++ name :: names) = none := by
    intro names
    rw [List.append_cons]
    exact hd.rooted.none_below hfree names
  have hmade : ∃ d', d.makeDirs (parent.descend [name, "src"]) = (.ok (), d') ∧
      Disk.Made q [name, "src"] d d' := by
    refine hd.makeDirs_free hlead hdir htaken (by simpa using ⟨hfits, by decide⟩) (fun _ => ?_) ?_
    · rw [Path.descend_cons]
      exact Disk.refusal?_eq_none.mpr (htakes ["src"] (by simp [contents]))
    · intro above bytes habove
      rcases List.prefix_cons_iff.mp habove with rfl | ⟨rest, rfl, -⟩
      · simp [hdir]
      · simp [hbelow]
  obtain ⟨d', hmake, -⟩ := hmade
  rw [Path.descend_cons] at hmake
  rw [run_create, if_pos hvalid, habsent, if_neg Bool.false_ne_true]
  have hends := ends_layOut hd.rooted hfits.toIsName (hunbroken.child hfits.toIsName) habsent
  generalize (layOut (parent.child name) name).run d = made at hends
  obtain ⟨result, e⟩ := made
  rcases hends with ⟨error, d1, hfails, -⟩ | ⟨names, hmem, error, hrefused, -⟩ | ⟨base, hok, hlayout⟩
  · cases hfails.symm.trans hmake
  · exact absurd (htakes names hmem) hrefused
  · exact ⟨e, base, Prod.ext hok rfl, hlayout⟩

/-- A new project builds. Its configuration reads as the defaults, and a build with them reports its one
document without errors and warnings, and writes the page with the name of the project as its title. For
that no double dot of the parent may come after something that is missing, and the path of the page must
not be too long. -/
theorem new_project_builds {d e : Disk} {parent root : Path} {name : String} (hd : d.Rooted)
    (hunbroken : d.Unbroken parent)
    (hcreate : (create parent name : ExceptT Error (StateM Disk) Path).run d = (.ok root, e))
    (hshort : (root.descend ["dist", "index.html"]).text.utf8ByteSize ≤ Disk.maxPath) :
    let report : FileReport :=
      { source := root.descend ["src", "index.ema"]
        outDir := root.descend ["dist"]
        success := true
        cached := false
        errors := []
        warnings := [] }
    (Config.load (root.child configFile) : ExceptT Error (StateM Disk) Config).run e = (.ok {}, e) ∧
    ∃ after, (buildProject (({} : Config).relativeTo root) : ExceptT Error (StateM Disk) Report).run e =
        (.ok { files := [report], elapsedMs := 0 }, after) ∧
      after.readBytes (root.descend ["dist", "index.html"]) = .ok (Text.utf8 (starterMarkup name)) := by
  dsimp only
  obtain ⟨hvalid, base, h⟩ := layout_of_create hd hunbroken hcreate
  have hpage : Takes (root.descend ["dist", "index.html"]) := (h.takes_iff (by decide)).mpr hshort
  have hsource : Takes (root.descend ["src", "index.ema"]) := h.takes_of_shorter (by decide) hpage
  refine ⟨h.run_load (h.takes_of_shorter (by decide) hpage), ?_⟩
  obtain ⟨added, midway, hadded, hmidway, hrun⟩ := h.run_buildProject hsource
  obtain ⟨paths, after, hwritten, hread⟩ := hmidway.run_writeOutputs hadded.dist hadded.outputs hpage
    (compile (starterPage name) {}).output
  obtain ⟨hmarkup, hwarnings⟩ := compile_starterPage hvalid
  refine ⟨after, ?_, by rw [hread, hmarkup]⟩
  rw [hrun]
  dsimp only
  rw [hwritten, Result.report, FileReport.afterWriting, hwarnings]
  rfl

section Sample

theorem blank_plain : Disk.blank.Plain := by
  have hentries : Disk.blank.entries.entries = [(["work"], .dir)] := rfl
  refine Disk.plain_of_forall ?_ ?_
  · simp [hentries]
  · simp only [hentries, List.forall_mem_cons]
    exact ⟨rfl, by simp⟩

theorem unbroken_slashed (n : Nat) (d : Disk) : d.Unbroken (Path.slashed (n + 1)) := by
  intro before after hsteps
  have hup : ".." ∈ Disk.steps (Path.slashed (n + 1)).text := by simp [hsteps]
  rw [Disk.steps_slashed] at hup
  exact absurd hup (by decide)

/-- The root of a project with a short name in the current directory, however that is spelled. -/
def sampleRoot (n : Nat) : Path := (Path.slashed (n + 1)).child "p"

theorem utf8ByteSize_sampleRoot (n : Nat) (hnames : ∀ n ∈ names, IsSpelled n) :
    ((sampleRoot n).descend names).text.utf8ByteSize =
      n + 3 + (names.map fun n => n.utf8ByteSize + 1).sum := by
  have hp : Path.IsPiece "p" := (show Path.IsName "p" by decide).isPiece
  rw [sampleRoot, Path.utf8ByteSize_descend_child _ hp fun n hn => (hnames n hn).1.isPiece,
    Path.text_child_slashed n hp, String.utf8ByteSize_append, Path.utf8ByteSize_slashed]
  rfl

theorem takes_sampleRoot {n : Nat} (hn : n + 3 ≤ Disk.maxPath) (hnames : ∀ n ∈ names, IsSpelled n) :
    Takes ((sampleRoot n).descend names) ↔
      n + 3 + (names.map fun n => n.utf8ByteSize + 1).sum ≤ Disk.maxPath := by
  have hp : Path.IsPiece "p" := (show Path.IsName "p" by decide).isPiece
  have hroot : Takes (sampleRoot n) := by
    refine ⟨?_, (Path.EndsIn.child _ hp).nonempty, ?_⟩
    · rw [sampleRoot, Path.mem_child_toList _ hp (by decide), Path.toList_slashed]
      simp
    · have hsize := utf8ByteSize_sampleRoot n (show ∀ n ∈ [], IsSpelled n by simp)
      rw [Path.descend_nil] at hsize
      exact hsize.trans_le hn
  rw [← utf8ByteSize_sampleRoot n hnames]
  exact Disk.takes_descend_child hp hroot (fun n hn => (hnames n hn).1.isPiece)
    fun n hn => (hnames n hn).2

/-- The project is made as long as there is room for all of its paths. -/
theorem create_sample {n : Nat} (hn : n + 17 ≤ Disk.maxPath) : ∃ e base,
    (create (Path.slashed (n + 1)) "p" : ExceptT Error (StateM Disk) Path).run Disk.blank =
      (.ok (sampleRoot n), e) ∧ Layout (sampleRoot n) base (contents "p") Disk.blank e := by
  refine create_in_dir blank_plain (by decide) (by decide) (Disk.lead_slashed Disk.blank n rfl) rfl
    (.inl (Disk.refusal?_eq_none.mpr (Disk.takes_slashed (by omega)))) rfl (unbroken_slashed n _) ?_
  intro names hmem
  have hall : ∀ names ∈ (contents "p").map Prod.fst,
      (∀ n ∈ names, IsSpelled n) ∧ (names.map fun n => n.utf8ByteSize + 1).sum ≤ 14 := by decide
  obtain ⟨hspelled, hsize⟩ := hall names hmem
  exact (takes_sampleRoot (by omega) hspelled).mpr (by omega)

/-- A project is made in the current directory and built. -/
theorem new_project_builds_sample : ∃ e after,
    Disk.blank.Rooted ∧ Disk.blank.Unbroken (Path.slashed 1) ∧
      (create (Path.slashed 1) "p" : ExceptT Error (StateM Disk) Path).run Disk.blank =
        (.ok (sampleRoot 0), e) ∧
      ((sampleRoot 0).descend ["dist", "index.html"]).text.utf8ByteSize ≤ Disk.maxPath ∧
      (Config.load ((sampleRoot 0).child configFile) : ExceptT Error (StateM Disk) Config).run e =
        (.ok {}, e) ∧
      (buildProject (({} : Config).relativeTo (sampleRoot 0)) : ExceptT Error (StateM Disk) Report).run e =
        (.ok ⟨[⟨(sampleRoot 0).descend ["src", "index.ema"], (sampleRoot 0).descend ["dist"], true, false,
          [], []⟩], 0⟩, after) ∧
      after.readBytes ((sampleRoot 0).descend ["dist", "index.html"]) =
        .ok (Text.utf8 (starterMarkup "p")) := by
  obtain ⟨e, -, hcreate, -⟩ := create_sample (show 0 + 17 ≤ Disk.maxPath by decide)
  have hunbroken := unbroken_slashed 0 Disk.blank
  have hshort : ((sampleRoot 0).descend ["dist", "index.html"]).text.utf8ByteSize ≤ Disk.maxPath := by
    rw [utf8ByteSize_sampleRoot 0 (by decide)]
    decide
  obtain ⟨hload, after, hbuild, hread⟩ := new_project_builds blank_plain.rooted hunbroken hcreate hshort
  exact ⟨e, after, blank_plain.rooted, hunbroken, hcreate, hshort, hload, hbuild, hread⟩

/-- The root is so long that there is room for the project and none for its page. -/
theorem long_root_leaves_no_page : ∃ e after file,
    (create (Path.slashed 4078) "p" : ExceptT Error (StateM Disk) Path).run Disk.blank =
        (.ok (sampleRoot 4077), e) ∧
      (buildProject (({} : Config).relativeTo (sampleRoot 4077)) :
        ExceptT Error (StateM Disk) Report).run e = (.ok { files := [file], elapsedMs := 0 }, after) ∧
      file.success = false := by
  obtain ⟨e, base, hcreate, h⟩ := create_sample (show 4077 + 17 ≤ Disk.maxPath by decide)
  have htakes : Takes ((sampleRoot 4077).descend ["src", "index.ema"]) :=
    (takes_sampleRoot (by decide) (by decide)).mpr (by decide)
  have hrefused : ¬Takes ((sampleRoot 4077).descend ["dist", "index.html"]) :=
    (takes_sampleRoot (by decide) (by decide)).not.mpr (by decide)
  obtain ⟨added, midway, hadded, hmidway, hrun⟩ := h.run_buildProject htakes
  obtain ⟨error, hwritten⟩ := hmidway.run_writeOutputs_refused hadded.dist hadded.outputs
    (h.takes_of_shorter (by decide) htakes) hrefused (compile (starterPage "p") {}).output
  dsimp only at hrun
  rw [hwritten] at hrun
  exact ⟨e, midway, _, hcreate, hrun, rfl⟩

end Sample

end Scaffold

end Folio
