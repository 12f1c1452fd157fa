import FlowAtlas.Disk.Memory
import FlowAtlas.Proofs.Path.Below
import FlowAtlas.Proofs.Run.Steps

/-!
# Opening a directory of snapshots

The search of a directory yields its files in whatever order the disk has them.
They are sorted before anything is read, by names and not by characters. That
order is total, and it tells any two files apart, so it is all that is left of
the order of the search (`snapshotFiles_congr`).

Every file that was found is read, and what reading it came to is a `Finding`. A
finding always gives a project: the one in the file, or one that stands in for
it. Nothing that is wrong with one file is of any account for another one, or
for the directory.
-/

namespace FlowAtlas

open FlowAtlas.Path (Plain)

namespace Path

/-! ## The order of paths -/

/-- Names are compared one after the other, as the entries of lists are. -/
theorem compareNames_eq_compare (as bs : List String) :
    compareNames as bs = compare as bs := by
  fun_induction compareNames as bs with
  | case1 => rfl
  | case2 => rfl
  | case3 => rfl
  | case4 a as b bs ih => rw [List.compare_cons_cons, ih]

variable {as bs cs : List String}

theorem compareNames_ne_gt_iff :
    compareNames as bs ≠ .gt ↔ (compare as bs).isLE = true := by
  rw [compareNames_eq_compare]
  exact Ordering.isLE_iff_ne_gt.symm

theorem compareNames_trans (h : compareNames as bs ≠ .gt)
    (h' : compareNames bs cs ≠ .gt) :
    compareNames as cs ≠ .gt := by
  rw [compareNames_ne_gt_iff] at h h' ⊢
  exact Std.TransOrd.isLE_trans h h'

theorem compareNames_total (as bs : List String) :
    compareNames as bs ≠ .gt ∨ compareNames bs as ≠ .gt := by
  rw [compareNames_ne_gt_iff, compareNames_ne_gt_iff]
  by_cases h : (compare as bs).isLE
  · exact .inl h
  · exact .inr (by rw [Std.OrientedCmp.lt_of_not_isLE h]; rfl)

/-- No two lists of names have the same place in the order. -/
theorem compareNames_antisymm (h : compareNames as bs ≠ .gt)
    (h' : compareNames bs as ≠ .gt) :
    as = bs := by
  rw [compareNames_ne_gt_iff] at h h'
  exact Std.LawfulEqOrd.eq_of_compare (Std.OrientedCmp.isLE_antisymm h h')

theorem compareNames_append_left (front as bs : List String) :
    compareNames (front ++ as) (front ++ bs) = compareNames as bs := by
  induction front with
  | nil => rfl
  | cons n front ih =>
      rw [List.cons_append, List.cons_append, compareNames, ih,
        Std.ReflOrd.compare_self]
      rfl

end Path

/-! ## The files of a search -/

theorem Survey.ne_nil_of_mem_filesOf {enters : String → Bool}
    {layers : Ignore.Layers} {name : String} {item : Item} {ns : List String}
    (h : ns ∈ Survey.filesOf enters layers name item) : ns ≠ [] := by
  cases item with
  | file =>
      rw [filesOf] at h
      split at h
      · exact absurd h List.not_mem_nil
      · rw [List.mem_singleton.1 h]
        exact List.cons_ne_nil _ _
  | other =>
      rw [filesOf] at h
      exact absurd h List.not_mem_nil
  | folder layer items =>
      rw [filesOf] at h
      split at h
      · exact absurd h List.not_mem_nil
      · obtain ⟨below, -, rfl⟩ := List.mem_map.1 h
        exact List.cons_ne_nil _ _

/-- The search of a directory yields what stands below it, and not the
directory. -/
theorem Survey.ne_nil_of_mem_files {enters : String → Bool} {a : Survey}
    {ns : List String} (h : ns ∈ a.files enters) : ns ≠ [] := by
  have hitems : ∀ {layers : Ignore.Layers} {items : List (String × Item)},
      ns ∈ Survey.filesIn enters layers items → ns ≠ [] := by
    intro layers items h
    induction items with
    | nil =>
        rw [filesIn] at h
        exact absurd h List.not_mem_nil
    | cons entry items ih =>
        rw [filesIn] at h
        rcases List.mem_append.1 h with h | h
        · exact ne_nil_of_mem_filesOf h
        · exact ih h
  exact hitems h

namespace Snapshot

/-- Below one directory, paths are ordered as the names that lead to them. -/
theorem le_pathTo_iff (root : Path) {ns ms : List String}
    (hns : ∀ n ∈ ns, Plain n) (hms : ∀ n ∈ ms, Plain n) :
    Path.le (pathTo root ns) (pathTo root ms) = true
      ↔ Path.compareNames ns ms ≠ .gt := by
  rw [Path.le, Path.names_pathTo hns, Path.names_pathTo hms,
    Path.compareNames_append_left, decide_eq_true_iff]

/-- The names lead to a snapshot file. -/
def isSnapshot (ns : List String) : Bool :=
  (ns.getLast?.bind Path.extension?) = some extension

theorem snapshotFiles_perm (files : List (List String)) :
    (snapshotFiles files).Perm (files.filter isSnapshot) :=
  List.mergeSort_perm _ _

theorem pairwise_snapshotFiles (files : List (List String)) :
    (snapshotFiles files).Pairwise fun as bs =>
      Path.compareNames as bs ≠ .gt := by
  have htrans : ∀ as bs cs, decide (Path.compareNames as bs ≠ .gt) = true →
      decide (Path.compareNames bs cs ≠ .gt) = true →
      decide (Path.compareNames as cs ≠ .gt) = true := by
    simp only [decide_eq_true_iff]
    exact fun _ _ _ => Path.compareNames_trans
  have htotal : ∀ as bs, (decide (Path.compareNames as bs ≠ .gt)
      || decide (Path.compareNames bs as ≠ .gt)) = true := by
    simp only [Bool.or_eq_true, decide_eq_true_iff]
    exact Path.compareNames_total
  exact (List.pairwise_mergeSort htrans htotal _).imp of_decide_eq_true

/-- The order of the search is of no account. -/
theorem snapshotFiles_congr {files files' : List (List String)}
    (h : files'.Perm files) :
    snapshotFiles files' = snapshotFiles files := by
  have hperm : (snapshotFiles files').Perm (snapshotFiles files) :=
    (snapshotFiles_perm files').trans
      ((h.filter _).trans (snapshotFiles_perm files).symm)
  -- Both are in order, and no two files can change places in it.
  exact hperm.eq_of_pairwise (fun _ _ _ _ => Path.compareNames_antisymm)
    (pairwise_snapshotFiles files') (pairwise_snapshotFiles files)

/-! ## What is found in the files -/

/-- What reading a snapshot file came to. -/
abbrev Finding := Path × Except SystemError String

/-- The project of a file that was read. -/
def Finding.project (f : Finding) : Project := projectOf f.1 f.2

/-- There is no project in the file: it could not be read, or not be parsed. -/
def Finding.Unreadable (f : Finding) : Prop :=
  ∀ text, f.2 = .ok text → ∀ project, Project.ofText text ≠ .ok project

theorem Finding.Unreadable.project_eq {f : Finding} (h : f.Unreadable) :
    ∃ complaint, f.project = brokenProject f.1 complaint := by
  obtain ⟨path, outcome⟩ := f
  cases outcome with
  | error e => exact ⟨_, rfl⟩
  | ok text =>
      cases htext : Project.ofText text with
      | ok project => exact absurd htext (h text rfl project)
      | error refusal =>
          refine ⟨refusal.render text, ?_⟩
          rw [Finding.project, projectOf, htext]

theorem prepare_brokenProject (path : Path) (complaint : String) :
    ∃ fault, prepare (brokenProject path complaint) = .error fault :=
  ⟨_, rfl⟩

/-- What stands for a file in a solution: the project in it, and if there is
none in it, one that is called after the file, has nothing but one complaint,
and cannot be used. -/
structure Finding.Represented (f : Finding) : Prop where
  readable :
    ∀ text project, f.2 = .ok text → Project.ofText text = .ok project →
      f.project = project
  unreadable : f.Unreadable → f.1.fileStem? = some f.project.name
    ∧ f.project.documents = []
    ∧ (∃ complaint, f.project.diagnostics = [f.1 ++ ": " ++ complaint])
    ∧ ∃ fault, prepare f.project = .error fault

theorem Finding.represented {f : Finding} {ext : String}
    (hext : f.1.extension? = some ext) :
    f.Represented where
  readable text project htext hproject := by
    rw [Finding.project, htext, projectOf, hproject]
  unreadable h := by
    obtain ⟨stem, hstem⟩ := Path.exists_fileStem?_of_extension? hext
    obtain ⟨complaint, hproject⟩ := h.project_eq
    rw [hproject]
    refine ⟨?_, rfl, ⟨_, rfl⟩, prepare_brokenProject _ _⟩
    rw [brokenProject, nameFromPath, hstem]
    rfl

section

variable {m : Type → Type} [Monad m]

/-- Reads some files below a directory. -/
def readFindings (disk : Disk m)
    (root : Path) : List (List String) → m (List Finding)
  | [] => pure []
  | names :: files => do
    let outcome ← disk.readText (pathTo root names)
    pure ((pathTo root names, outcome) :: (← readFindings disk root files))

end

/-- The solution of a directory. -/
def solutionIn (root : Path) (findings : List Finding) : Solution where
  name := nameFromPath root
  projects := findings.map Finding.project

variable {σ : Type} {disk : Disk (StateM σ)}

/-- A directory was searched, and the snapshot files in it were read. -/
def Opens (disk : Disk (StateM σ)) (root : Path) (s : σ)
    (findings : List Finding) (t : σ) : Prop :=
  ∃ s₁ s₂ survey, (disk.isDirectory root).run s = (.ok true, s₁)
    ∧ (disk.survey root).run s₁ = (.ok survey, s₂)
    ∧ (readFindings disk root (snapshotFiles (survey.files enters))).run s₂
      = (findings, t)

theorem readFindings_cons {root : Path} {names : List String}
    {files : List (List String)} {findings : List Finding} {s t : σ}
    (h : (readFindings disk root (names :: files)).run s = (findings, t)) :
    ∃ outcome s₁ rest, (disk.readText (pathTo root names)).run s = (outcome, s₁)
      ∧ (readFindings disk root files).run s₁ = (rest, t)
      ∧ findings = (pathTo root names, outcome) :: rest := by
  rw [readFindings, run_bind] at h
  obtain ⟨outcome, s₁, hread, h⟩ := h
  rw [run_bind] at h
  obtain ⟨rest, s₂, hrest, h⟩ := h
  obtain ⟨rfl, rfl⟩ := run_pure.1 h
  exact ⟨outcome, s₁, rest, hread, hrest, rfl⟩

theorem readProjects_run {root : Path} {files : List (List String)}
    {findings : List Finding} {s t : σ}
    (h : (readFindings disk root files).run s = (findings, t)) :
    (readProjects disk root files).run s
      = (findings.map Finding.project, t) := by
  induction files generalizing s findings with
  | nil =>
      obtain ⟨rfl, rfl⟩ := run_pure.1 h
      rfl
  | cons names files ih =>
      obtain ⟨outcome, s₁, rest, hread, hrest, rfl⟩ := readFindings_cons h
      rw [readProjects, run_bind]
      refine ⟨outcome, s₁, hread, ?_⟩
      dsimp only
      rw [run_bind]
      exact ⟨_, _, ih hrest, rfl⟩

theorem Opens.openSnapshot {root : Path} {findings : List Finding} {s t : σ}
    (h : Opens disk root s findings t) :
    (openSnapshot disk root).run s = (.ok (solutionIn root findings), t) := by
  obtain ⟨s₁, s₂, survey, hdirectory, hsurvey, hread⟩ := h
  rw [Snapshot.openSnapshot, run_bind]
  refine ⟨_, _, hdirectory, ?_⟩
  dsimp only
  rw [readDirectory, run_bind]
  refine ⟨_, _, hsurvey, ?_⟩
  dsimp only
  rw [run_bind]
  exact ⟨_, _, readProjects_run hread, rfl⟩

theorem readFindings_congr {disk' : Disk (StateM σ)}
    (h : ∀ p, disk'.readText p = disk.readText p) (root : Path)
    (files : List (List String)) :
    readFindings disk' root files = readFindings disk root files := by
  induction files with
  | nil => rfl
  | cons names files ih => rw [readFindings, readFindings, ih, h]

/-- In a file tree, files are read as they are. -/
theorem readFindings_tree (t : FileTree) (root : Path)
    (files : List (List String)) :
    (readFindings FileTree.disk root files).run t
      = (files.map fun names =>
        (pathTo root names, t.readText (pathTo root names)), t) := by
  induction files with
  | nil => rfl
  | cons names files ih =>
      rw [readFindings, run_bind]
      refine ⟨t.readText (pathTo root names), t, rfl, ?_⟩
      rw [run_bind]
      exact ⟨_, _, ih, rfl⟩

/-- There is one finding for each file, in the same order. -/
theorem map_fst_of_readFindings {root : Path} {files : List (List String)}
    {findings : List Finding} {s t : σ}
    (h : (readFindings disk root files).run s = (findings, t)) :
    findings.map Prod.fst = files.map (pathTo root) := by
  induction files generalizing s t findings with
  | nil =>
      obtain ⟨rfl, -⟩ := run_pure.1 h
      rfl
  | cons names files ih =>
      obtain ⟨outcome, s₁, rest, -, hrest, rfl⟩ := readFindings_cons h
      rw [List.map_cons, List.map_cons, ih hrest]

/-! ## All files, in the order of their paths -/

/-- In a directory that can be searched, every file with the extension of
snapshots is read and is represented by one project, and the projects stand in
the order of the paths. The search may yield the files in any order: it is the
same solution. What a search yields are the names of entries in directories,
which are plain. -/
theorem directory_opens_in_full {root : Path} {s s₁ s₂ : σ} {a : Survey}
    (hdirectory : (disk.isDirectory root).run s = (.ok true, s₁))
    (hsurvey : (disk.survey root).run s₁ = (.ok a, s₂))
    (hplain : ∀ ns ∈ a.files enters, ∀ n ∈ ns, Plain n) :
    ∃ files findings t, (readFindings disk root files).run s₂ = (findings, t)
      ∧ (findings.map Prod.fst).Perm
          (((a.files enters).map (pathTo root)).filter fun p =>
            p.extension? = some extension)
      ∧ (findings.map Prod.fst).Pairwise (fun p q => Path.le p q = true)
      ∧ (∀ f ∈ findings, f.Represented)
      ∧ (openSnapshot disk root).run s = (.ok (solutionIn root findings), t)
      ∧ ∀ (search : Path → StateM σ (Except SystemError Survey)) (b : Survey),
          (search root).run s₁ = (.ok b, s₂) →
            (b.files enters).Perm (a.files enters) →
            (openSnapshot { disk with survey := search } root).run s
              = (.ok (solutionIn root findings), t) := by
  generalize hread :
    (readFindings disk root (snapshotFiles (a.files enters))).run s₂ = result
  obtain ⟨findings, t⟩ := result
  have hpaths := map_fst_of_readFindings hread
  have hfound := snapshotFiles_perm (a.files enters)
  have hfiles : ∀ ns ∈ snapshotFiles (a.files enters), ns ∈ a.files enters :=
    fun ns hns =>
      (List.mem_filter.1 (hfound.mem_iff.1 hns)).1
  have hperm : (findings.map Prod.fst).Perm
      (((a.files enters).map (pathTo root)).filter fun p =>
        p.extension? = some extension) := by
    -- A path has the extension of the last name that leads to it.
    rw [hpaths, List.filter_map]
    refine (hfound.map _).trans
      (.of_eq (congrArg _ (List.filter_congr fun ns hns => ?_)))
    rw [Function.comp,
      Path.extension?_pathTo root (Survey.ne_nil_of_mem_files hns)
      (hplain ns hns)]
    rfl
  refine ⟨_, findings, t, hread, hperm, ?_, fun f hf => ?_, ?_,
    fun search b hsearch hsame => ?_⟩
  · rw [hpaths, List.pairwise_map]
    refine (pairwise_snapshotFiles _).imp_of_mem fun hns hms hle => ?_
    exact (le_pathTo_iff root (hplain _ (hfiles _ hns))
      (hplain _ (hfiles _ hms))).2 hle
  · have hmem := hperm.mem_iff.1 (List.mem_map_of_mem hf)
    exact Finding.represented (of_decide_eq_true (List.mem_filter.1 hmem).2)
  · exact Opens.openSnapshot ⟨s₁, s₂, a, hdirectory, hsurvey, hread⟩
  · refine Opens.openSnapshot ⟨s₁, s₂, b, hdirectory, hsearch, ?_⟩
    have hreads :=
      @readFindings_congr σ disk { disk with survey := search }
        (fun _ => rfl) root
    rw [hreads, snapshotFiles_congr hsame]
    exact hread

/-- A directory with a snapshot, one that is cut off, and one that is no
text. -/
def mixedTree : FileTree where
  entries := [(["in"], .directory), (["in", "sub"], .directory),
    (["in", "sub", "c.json"], .file (ByteArray.mk #[255]) false),
    (["in", "b.json"], .file "\x7b\"name\": \"P\"\x7d".toUTF8 false),
    (["in", "a.json"], .file "\x7b".toUTF8 false)]

/-- What a search of that directory meets. -/
def mixedItems : List (String × Item) :=
  [("b.json", .file), ("target", .folder {} [("d.json", .file)]),
    ("notes.txt", .file), ("sub", .folder {} [("c.json", .file)]),
    ("a.json", .file)]

/-- File trees with a search that meets these entries in this order. -/
def searching (items : List (String × Item)) : Disk (StateM FileTree) :=
  { FileTree.disk with survey := fun _ t => (.ok ⟨[], {}, items⟩, t) }

/-- Two of the files are stood in for, and the other way round it is the same
solution. -/
theorem mixed_directory_opens :
    ∃ findings, findings.map Prod.fst
        = ["in/a.json", "in/b.json", "in/sub/c.json"]
      ∧ (solutionIn "in" findings).projects.map Project.name = ["a", "P", "c"]
      ∧ (openSnapshot (searching mixedItems) "in").run mixedTree
        = (.ok (solutionIn "in" findings), mixedTree)
      ∧ (openSnapshot (searching mixedItems.reverse) "in").run mixedTree
        = (.ok (solutionIn "in" findings), mixedTree) := by
  have hdirectory : mixedTree.isDirectory "in" = .ok true := by decide
  have hplain :
      ∀ ns ∈ (Survey.mk [] {} mixedItems).files enters, ∀ n ∈ ns, Plain n := by
    have hnames : ∀ ns ∈ (Survey.mk [] {} mixedItems).files enters, ∀ n ∈ ns,
        n ≠ "" ∧ '/' ∉ n.toList ∧ n ≠ "." ∧ n ≠ ".." := by
      decide +kernel
    intro ns hns n hn
    obtain ⟨hempty, hslash, hhere, habove⟩ := hnames ns hns n hn
    exact ⟨hempty, hslash, hhere, habove⟩
  obtain ⟨files, findings, t, hread, hperm, hsorted, -, hopen, hany⟩ :=
    @directory_opens_in_full
      FileTree (searching mixedItems) "in" mixedTree mixedTree mixedTree _
      (congrArg (·, mixedTree) hdirectory) rfl hplain
  have hreads :=
    @readFindings_congr FileTree FileTree.disk (searching mixedItems)
      (fun _ => rfl) "in" files
  rw [hreads, readFindings_tree] at hread
  obtain ⟨rfl, rfl⟩ := Prod.mk.inj hread
  have hfound :
      (((Survey.mk [] {} mixedItems).files enters).map (pathTo "in")).filter
        (fun p => p.extension? = some extension)
          = ["in/b.json", "in/sub/c.json", "in/a.json"] := by
    decide +kernel
  have hdistinct : ∀ p ∈ ["in/b.json", "in/sub/c.json", "in/a.json"],
      ∀ q ∈ ["in/a.json", "in/b.json", "in/sub/c.json"],
        Path.le p q = true → Path.le q p = true → p = q := by
    decide
  have hordered : ["in/a.json", "in/b.json", "in/sub/c.json"].Pairwise
      (fun p q => Path.le p q = true) := by
    decide
  rw [hfound] at hperm
  have hpaths := (hperm.trans (by decide : List.Perm _ _)).eq_of_pairwise
    (fun p q hp hq => hdistinct p (hperm.mem_iff.1 hp) q hq) hsorted hordered
  refine ⟨_, hpaths, ?_, hopen,
    hany _ ⟨[], {}, mixedItems.reverse⟩ rfl (by decide +kernel)⟩
  have hnames : (["in/a.json", "in/b.json", "in/sub/c.json"].map fun p =>
      (projectOf p (mixedTree.readText p)).name) = ["a", "P", "c"] := by
    decide +kernel
  rw [← hnames, ← hpaths, solutionIn, List.map_map, List.map_map,
    List.map_map, List.map_map]
  rfl

end Snapshot

end FlowAtlas
