import Folio.Proofs.OutputRoot

/-! Documents in each other's way. No two documents are built into the same directory, so none
overwrites a file of another. But the directory of a document can be at the place of a file of another
one, or below it, and then only one of the two is written. -/

namespace Folio

namespace Site

/-- The three files of a document. -/
def Paths.all (paths : Paths) : List Path := [paths.markup, paths.style, paths.script]

theorem mem_all_inside {dir p : Path} :
    p ∈ (Paths.inside dir).all ↔ ∃ name ∈ outputNames, p = dir.child name := by
  simp [Paths.inside, Paths.all, outputNames]

/-- The disk after the files of a document were written, if all of them could be. -/
def written? (dir : Path) (output : Output) (d : Disk) : Option Disk :=
  match (writeOutputs dir output : ExceptT Error (StateM Disk) Paths).run d with
  | (.ok _, d') => some d'
  | (.error _, _) => none

end Site

/-- One of some paths is among others, or above one of them. -/
def Path.Blocks (ps qs : List Path) : Prop :=
  ∃ p ∈ ps, ∃ q ∈ qs, p.components <+: q.components

instance (ps qs : List Path) : Decidable (Path.Blocks ps qs) :=
  inferInstanceAs (Decidable (∃ p ∈ ps, ∃ q ∈ qs, p.components <+: q.components))

/-- What is given to a document: its own directory, which none of the owners has. -/
theorem mem_assignFrom {config : Config} {owners : List (Path × Path)} {files : List Path}
    {file dir : Path} (h : .build file dir ∈ assignFrom config owners files) :
    file ∈ files ∧ dir = outputDir config.srcDir config.outDir file ∧
      ∀ owner ∈ owners, owner.1.components ≠ dir.components := by
  fun_induction assignFrom config owners files with
  | case1 => cases h
  | case2 owners first files dir' taken owner hfind ih =>
    rcases List.mem_cons.mp h with heq | h
    · cases heq
    · obtain ⟨hmem, hrest⟩ := ih h
      exact ⟨List.mem_cons_of_mem _ hmem, hrest⟩
  | case3 owners first files dir' hfind ih =>
    rcases List.mem_cons.mp h with heq | h
    · obtain ⟨hfile, hdir⟩ := Target.build.inj heq
      rw [hfile, hdir]
      refine ⟨List.mem_cons_self, rfl, fun owner howner => ?_⟩
      simpa [Path.same] using List.find?_eq_none.mp hfind owner howner
    · obtain ⟨hmem, heq, howners⟩ := ih h
      exact ⟨List.mem_cons_of_mem _ hmem, heq, fun owner ho => howners owner (by simp [ho])⟩

/-- No two documents are given the same directory. -/
theorem assignFrom_pairwise (config : Config) (owners : List (Path × Path)) (files : List Path) :
    (assignFrom config owners files).Pairwise fun t u => ∀ file other dir dir',
      t = .build file dir → u = .build other dir' → dir.components ≠ dir'.components := by
  fun_induction assignFrom config owners files with
  | case1 => exact .nil
  | case2 owners first files dir' taken owner hfind ih =>
    refine List.pairwise_cons.mpr ⟨fun u hu file other dir dir' ht => ?_, ih⟩
    cases ht
  | case3 owners first files given hfind ih =>
    refine List.pairwise_cons.mpr ⟨fun u hu file other dir dir' ht hu' => ?_, ih⟩
    subst hu'
    obtain ⟨-, -, howners⟩ := mem_assignFrom hu
    have hne := howners (given, first) List.mem_cons_self
    rwa [(Target.build.inj ht).2] at hne

theorem components_ne_of_assign {config : Config} {files : List Path} {i j : Nat} (hij : i ≠ j)
    {file other dir dir' : Path} (hi : (assign config files)[i]? = some (.build file dir))
    (hj : (assign config files)[j]? = some (.build other dir')) : dir.components ≠ dir'.components := by
  obtain ⟨hi, hget⟩ := List.getElem?_eq_some_iff.mp hi
  obtain ⟨hj, hget'⟩ := List.getElem?_eq_some_iff.mp hj
  have hpairwise := List.pairwise_iff_getElem.mp (assignFrom_pairwise config [] files)
  rcases Nat.lt_or_gt_of_ne hij with hlt | hgt
  · exact hpairwise i j hi hj hlt _ _ _ _ hget hget'
  · exact (hpairwise j i hj hi hgt _ _ _ _ hget' hget).symm

section Clash

variable {dir dir' : Path}

theorem components_output {name : String} (h : name ∈ Site.outputNames) (dir : Path) :
    (dir.child name).components = dir.components ++ [.name name] := by
  have hname := Site.isName_of_mem_outputNames h
  rw [Path.components_child dir hname.isPiece, Path.component_name hname]

/-- Files in different directories are different. -/
theorem output_ne (hne : dir.components ≠ dir'.components) :
    ∀ p ∈ (Site.Paths.inside dir).all, ∀ q ∈ (Site.Paths.inside dir').all,
      p.components ≠ q.components := by
  intro p hp q hq heq
  obtain ⟨name, hname, rfl⟩ := Site.mem_all_inside.mp hp
  obtain ⟨other, hother, rfl⟩ := Site.mem_all_inside.mp hq
  rw [components_output hname, components_output hother] at heq
  exact hne (List.append_inj' heq rfl).1

/-- A file of a document is in the way of another document if the directory of that one leads through
it. -/
theorem blocks_iff (hne : dir.components ≠ dir'.components) :
    Path.Blocks (Site.Paths.inside dir).all (dir' :: (Site.Paths.inside dir').all) ↔
      ∃ name ∈ Site.outputNames, dir.components ++ [.name name] <+: dir'.components := by
  constructor
  · rintro ⟨p, hp, q, hq, hpre⟩
    obtain ⟨name, hname, rfl⟩ := Site.mem_all_inside.mp hp
    refine ⟨name, hname, ?_⟩
    rw [← components_output hname]
    rcases List.mem_cons.mp hq with rfl | hq
    · exact hpre
    · obtain ⟨other, hother, rfl⟩ := Site.mem_all_inside.mp hq
      rw [components_output hother] at hpre
      rcases List.prefix_concat_iff.mp hpre with heq | hpre
      · rw [← components_output hother] at heq
        exact absurd heq (output_ne hne _ hp _ hq)
      · exact hpre
  · rintro ⟨name, hname, hpre⟩
    refine ⟨dir.child name, Site.mem_all_inside.mpr ⟨name, hname, rfl⟩, dir', List.mem_cons_self, ?_⟩
    rwa [components_output hname]

theorem run_bind_eq_ok {α β : Type} {x : ExceptT Error (StateM Disk) α}
    {f : α → ExceptT Error (StateM Disk) β} {d d' : Disk} {b : β}
    (h : (x >>= f).run d = (.ok b, d')) :
    ∃ a middle, x.run d = (.ok a, middle) ∧ (f a).run middle = (.ok b, d') := by
  rw [History.run_bind] at h
  generalize x.run d = r at h
  obtain ⟨_ | a, middle⟩ := r
  · cases h
  · exact ⟨a, middle, rfl, h⟩

/-- A file that was written stands in its directory, and nothing else has changed. -/
theorem writeText_eq_ok {d d' : Disk} {name text : String} (hname : Path.IsName name) (hd : d.Plain)
    (h : (Site.writeText (dir.child name) text : ExceptT Error (StateM Disk) Unit).run d =
      (.ok (), d')) :
    d'.Plain ∧ d' = d.put (dir.place d.workDir ++ [name]) (.file (Text.utf8 text)) := by
  rw [Site.writeText, FileSystem.orElse_run, FileSystem.writeBytes_eq, Disk.attempt] at h
  cases hw : d.writeBytes (dir.child name) (Text.utf8 text) with
  | error error =>
    simp only [hw] at h
    cases (Prod.mk.inj h).1
  | ok written =>
    simp only [hw] at h
    obtain rfl : written = d' := (Prod.mk.inj h).2
    refine ⟨hd.writeBytes hw, ?_⟩
    obtain ⟨place, hl, -, hput⟩ := Disk.writeBytes_eq_ok hw
    rw [hput, hd.locate_place hl, Path.place_child dir hname]

/-- All files of a document are there after they were written. -/
theorem isFile_of_written {d d' : Disk} {output : Output} (hd : d.Plain)
    (h : Site.written? dir output d = some d') :
    ∀ name ∈ Site.outputNames, ∃ bytes, d'.get? (dir.place d.workDir ++ [name]) =
      some (.file bytes) := by
  have hrun : ∃ paths, (Site.writeOutputs dir output : ExceptT Error (StateM Disk) _).run d =
      (.ok paths, d') := by
    unfold Site.written? at h
    split at h
    · next paths made hmade => exact ⟨paths, by rw [hmade, Option.some.inj h]⟩
    · cases h
  obtain ⟨paths, hrun⟩ := hrun
  unfold Site.writeOutputs at hrun
  obtain ⟨_, d1, hmake, hrun⟩ := run_bind_eq_ok hrun
  obtain ⟨_, d2, hmarkup, hrun⟩ := run_bind_eq_ok hrun
  obtain ⟨_, d3, hstyle, hrun⟩ := run_bind_eq_ok hrun
  obtain ⟨_, d4, hscript, hrun⟩ := run_bind_eq_ok hrun
  obtain rfl : d4 = d' := (Prod.mk.inj hrun).2
  have hframe : d.Leaves "" d1 := by
    have h : Spares "" (Site.makeDirs dir) := Spares.makeDirs dir
    simpa [hmake] using h d hd
  have hname : ∀ name ∈ Site.outputNames, Path.IsName name := fun _ => Site.isName_of_mem_outputNames
  obtain ⟨hd2, h2⟩ := writeText_eq_ok (hname "index.html" (by decide)) hframe.plain hmarkup
  obtain ⟨hd3, h3⟩ := writeText_eq_ok (hname "styles.css" (by decide)) hd2 hstyle
  obtain ⟨-, h4⟩ := writeText_eq_ok (hname "script.js" (by decide)) hd3 hscript
  have hwork2 : d2.workDir = d.workDir := by rw [h2, ← hframe.workDir]; rfl
  have hwork3 : d3.workDir = d.workDir := by rw [h3, ← hwork2]; rfl
  rw [hframe.workDir] at h2
  rw [hwork2] at h3
  rw [hwork3] at h4
  intro name hmem
  have hget : ∀ name, d4.get? (dir.place d.workDir ++ [name]) =
      if name = "script.js" then some (.file (Text.utf8 output.script))
      else if name = "styles.css" then some (.file (Text.utf8 output.style))
      else if name = "index.html" then some (.file (Text.utf8 output.markup))
      else d1.get? (dir.place d.workDir ++ [name]) := by
    intro name
    rw [h4, Disk.get?_put (by simp), h3, Disk.get?_put (by simp), h2, Disk.get?_put (by simp)]
    simp
  rw [hget]
  simp only [Site.outputNames, List.mem_cons, List.not_mem_nil, or_false] at hmem
  rcases hmem with rfl | rfl | rfl <;> simp

theorem changes_of_written {d d' : Disk} {output : Output} (hup : .up ∉ dir.components)
    (hd : d.Plain) (h : Site.written? dir output d = some d') :
    d.Changes (fun place => ∃ name ∈ Site.outputNames, place = dir.place d.workDir ++ [name])
      (fun _ => True) d' := by
  have haffects : Affects d.workDir
      (fun place => ∃ name ∈ Site.outputNames, place = dir.place d.workDir ++ [name]) (fun _ => True)
      (Site.writeOutputs dir output : ExceptT Error (StateM Disk) Site.Paths).run :=
    .writeOutputs output hup (fun name hname => ⟨name, hname, rfl⟩) fun _ _ => trivial
  have hchanges := haffects d hd rfl
  unfold Site.written? at h
  split at h
  · next hrun =>
    rw [hrun] at hchanges
    exact Option.some.inj h ▸ hchanges
  · cases h

/-- Of two documents with a file of one in the way of the other, only one is written. -/
theorem not_both_written {name : String} (hname : name ∈ Site.outputNames)
    (hup : .up ∉ dir.components) (hup' : .up ∉ dir'.components)
    (hway : dir.components ++ [.name name] <+: dir'.components) {d : Disk} (hd : d.Plain)
    (output output' : Output) :
    (Site.written? dir output d).bind (Site.written? dir' output') = none ∧
      (Site.written? dir' output' d).bind (Site.written? dir output) = none := by
  -- After both were written, the file of the one would be on the way to a file of the other.
  have hplace : ∀ workDir, dir.place workDir ++ [name] <+: dir'.place workDir := by
    intro workDir
    rw [← Path.place_child dir (Site.isName_of_mem_outputNames hname)]
    rw [← components_output hname] at hway
    refine Path.place_isPrefix hway ?_ hup' workDir
    simp [components_output hname]
  have hlen : ∀ other, dir.place d.workDir ++ [name] ≠ dir'.place d.workDir ++ [other] := by
    intro other heq
    have hle := (hplace d.workDir).length_le
    simp [List.append_inj_left' heq rfl] at hle
  have hdir : ∀ d' : Disk, d'.Plain → (∀ name ∈ Site.outputNames, ∃ bytes,
      d'.get? (dir'.place d.workDir ++ [name]) = some (.file bytes)) →
      d'.get? (dir.place d.workDir ++ [name]) = some .dir := by
    intro d' hd' hfiles
    obtain ⟨bytes, hfile⟩ := hfiles name hname
    exact hd'.dir_of_isPrefix ((hplace d.workDir).trans (List.prefix_append _ _)) (hlen name)
      (by simp [hfile])
  constructor
  · cases hfirst : Site.written? dir output d with
    | none => rfl
    | some d1 =>
      rw [Option.bind_some, Option.eq_none_iff_forall_not_mem]
      intro d2 hsecond
      have hchanges := changes_of_written hup hd hfirst
      have hchanges' := changes_of_written hup' hchanges.plain hsecond
      have hfiles := isFile_of_written hchanges.plain hsecond
      obtain ⟨bytes, hfile⟩ := isFile_of_written hd hfirst name hname
      rw [hchanges.workDir] at hchanges' hfiles
      have hstays := hchanges'.present (fun ⟨other, _, heq⟩ => hlen other heq) hfile
      simp [hdir d2 hchanges'.plain hfiles] at hstays
  · cases hfirst : Site.written? dir' output' d with
    | none => rfl
    | some d1 =>
      rw [Option.bind_some, Option.eq_none_iff_forall_not_mem]
      intro d2 hsecond
      have hchanges := changes_of_written hup' hd hfirst
      have hchanges' := changes_of_written hup hchanges.plain hsecond
      obtain ⟨bytes, hfile⟩ := isFile_of_written hchanges.plain hsecond name hname
      rw [hchanges.workDir] at hfile
      have hstays := hchanges'.dir (hdir d1 hchanges.plain (isFile_of_written hd hfirst))
      simp [hfile] at hstays

/-- Then the document, or a directory on the way to it, is named after the file. -/
theorem named_of_way {srcDir outDir file other : Path} {name : String}
    (hfile : FoundBelow srcDir file) (hother : FoundBelow srcDir other)
    (hname : name ∈ Site.outputNames)
    (hway : (outputDir srcDir outDir file).components ++ [.name name] <+:
      (outputDir srcDir outDir other).components) :
    .name name ∈ other.components ∨ .name (name ++ ".ema") ∈ other.components := by
  obtain ⟨doc, rfl, -⟩ := hfile.exists_document
  obtain ⟨doc', rfl, -⟩ := hother.exists_document
  have hisName := Site.isName_of_mem_outputNames hname
  rw [doc.outputDir_file, doc'.outputDir_file, Path.components_descend outDir doc.words_isPiece,
    Path.components_descend outDir doc'.words_isPiece, List.append_assoc,
    List.prefix_append_right_inj] at hway
  have hmem : .name name ∈ doc'.words.map fun n => Path.component n.toList :=
    hway.subset (by simp)
  obtain ⟨word, hword, hcomponent⟩ := List.mem_map.mp hmem
  have hsame : word = name := by
    rw [Path.component_toList] at hcomponent
    split at hcomponent
    · cases hcomponent
    · exact Path.Component.name.inj hcomponent
  have hcomponents : ∀ n ∈ doc'.names, Path.IsName n → .name n ∈ (doc'.file srcDir).components := by
    intro n hn hisName
    rw [Document.file, Path.components_descend srcDir doc'.names_isPiece]
    exact List.mem_append_right _ (List.mem_map.mpr ⟨n, hn, Path.component_name hisName⟩)
  have hdirs : name ∈ doc'.dirs → .name name ∈ (doc'.file srcDir).components :=
    fun hn => hcomponents name (by simp [Document.names, hn]) hisName
  rw [hsame] at hword
  unfold Document.words at hword
  split at hword
  · exact .inl (hdirs hword)
  · rcases List.mem_append.mp hword with hword | hword
    · exact .inl (hdirs hword)
    · right
      have hstem : name = doc'.stem := by
        rw [List.mem_singleton.mp hword, Path.cutStem] at hisName ⊢
        split
        · next hdot =>
          rw [if_pos hdot] at hisName
          exact absurd rfl hisName.notUp
        · rfl
      rw [hstem]
      exact hcomponents _ (by simp [Document.names]) doc'.isName_name

end Clash

/-- No two documents that were found share an output file, so none is overwritten. A file of one of them
is in the way of the other exactly if the output directory of that one leads through it. Then that
document, or a directory on the way to it, is named after an output file, and only one of the two can be
written, whichever comes first. -/
theorem outputs_in_the_way_iff {config : Config} {files : List Path}
    (hfiles : ∀ f ∈ files, FoundBelow config.srcDir f) {i j : Nat} (hij : i ≠ j)
    {file other dir dir' : Path} (hi : (assign config files)[i]? = some (.build file dir))
    (hj : (assign config files)[j]? = some (.build other dir')) :
    (∀ p ∈ (Site.Paths.inside dir).all, ∀ q ∈ (Site.Paths.inside dir').all,
      p.components ≠ q.components) ∧
    (Path.Blocks (Site.Paths.inside dir).all (dir' :: (Site.Paths.inside dir').all) ↔
      ∃ name ∈ Site.outputNames, dir.components ++ [.name name] <+: dir'.components) ∧
    (Path.Blocks (Site.Paths.inside dir).all (dir' :: (Site.Paths.inside dir').all) →
      (∃ name ∈ Site.outputNames,
        .name name ∈ other.components ∨ .name (name ++ ".ema") ∈ other.components) ∧
      (.up ∉ dir.components → .up ∉ dir'.components → ∀ d : Disk, d.Plain → ∀ output output',
        (Site.written? dir output d).bind (Site.written? dir' output') = none ∧
          (Site.written? dir' output' d).bind (Site.written? dir output) = none)) := by
  have hne := components_ne_of_assign hij hi hj
  refine ⟨output_ne hne, blocks_iff hne, fun hblocks => ?_⟩
  obtain ⟨name, hname, hway⟩ := (blocks_iff hne).mp hblocks
  obtain ⟨hfile, hdir, -⟩ := mem_assignFrom (List.mem_of_getElem? hi)
  obtain ⟨hother, hdir', -⟩ := mem_assignFrom (List.mem_of_getElem? hj)
  refine ⟨⟨name, hname, ?_⟩, fun hup hup' d hd output output' =>
    not_both_written hname hup hup' hway hd output output'⟩
  rw [hdir, hdir'] at hway
  exact named_of_way (hfiles _ hfile) (hfiles _ hother) hname hway

/-- Two documents, of which the second is named after an output file of the first. -/
def sampleClash : List Path := [⟨"src/index.ema"⟩, ⟨"src/index.html.ema"⟩]

theorem sampleClash_foundBelow : ∀ f ∈ sampleClash, FoundBelow ⟨"src"⟩ f := by
  simp only [sampleClash, List.forall_mem_cons]
  exact ⟨foundBelow_child ⟨"src"⟩ "index.ema" (by decide) (by decide +kernel),
    foundBelow_child ⟨"src"⟩ "index.html.ema" (by decide) (by decide +kernel), by simp⟩

theorem assign_sampleClash : assign {} sampleClash =
    [.build ⟨"src/index.ema"⟩ ⟨"dist"⟩, .build ⟨"src/index.html.ema"⟩ ⟨"dist/index.html"⟩] := by
  decide +kernel

theorem blocks_sampleClash : Path.Blocks (Site.Paths.inside ⟨"dist"⟩).all
    (⟨"dist/index.html"⟩ :: (Site.Paths.inside ⟨"dist/index.html"⟩).all) :=
  ⟨_, List.mem_cons_self, _, List.mem_cons_self, List.prefix_rfl⟩

theorem Disk.blank_plain : Disk.blank.Plain := by
  have hentries : Disk.blank.entries.entries = [(["work"], .dir)] := rfl
  refine Disk.plain_of_forall ?_ ?_
  · simp [hentries]
  · simp only [hentries, List.forall_mem_cons]
    exact ⟨rfl, by simp⟩

/-- Only one of the two documents is written. -/
theorem outputs_in_the_way_sample :
    Path.Blocks (Site.Paths.inside ⟨"dist"⟩).all
      (⟨"dist/index.html"⟩ :: (Site.Paths.inside ⟨"dist/index.html"⟩).all) ∧
    ∀ output output',
      (Site.written? ⟨"dist"⟩ output .blank).bind (Site.written? ⟨"dist/index.html"⟩ output') = none ∧
        (Site.written? ⟨"dist/index.html"⟩ output' .blank).bind (Site.written? ⟨"dist"⟩ output) =
          none := by
  have hi : (assign {} sampleClash)[0]? = some (.build ⟨"src/index.ema"⟩ ⟨"dist"⟩) := by
    rw [assign_sampleClash]
    rfl
  have hj : (assign {} sampleClash)[1]? =
      some (.build ⟨"src/index.html.ema"⟩ ⟨"dist/index.html"⟩) := by
    rw [assign_sampleClash]
    rfl
  have hclash := outputs_in_the_way_iff sampleClash_foundBelow (by decide) hi hj
  exact ⟨blocks_sampleClash,
    (hclash.2.2 blocks_sampleClash).2 (by decide) (by decide) .blank Disk.blank_plain⟩

/-- The output file of a document can be the output directory of another one. -/
theorem output_file_is_output_dir :
    (∀ f ∈ sampleClash, FoundBelow ⟨"src"⟩ f) ∧
    assign {} sampleClash =
      [.build ⟨"src/index.ema"⟩ ⟨"dist"⟩, .build ⟨"src/index.html.ema"⟩ ⟨"dist/index.html"⟩] ∧
    (Site.Paths.inside ⟨"dist"⟩).markup = ⟨"dist/index.html"⟩ :=
  ⟨sampleClash_foundBelow, assign_sampleClash, rfl⟩

end Folio
