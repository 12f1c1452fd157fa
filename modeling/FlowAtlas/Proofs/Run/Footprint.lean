import FlowAtlas.Proofs.Disk.Footprint
import FlowAtlas.Proofs.Run.Unreadable
import FlowAtlas.Proofs.Run.Within

/-!
# The footprint of a run

A run works on one directory, and this says what it may change, in any file
tree, with whatever links are in it and whatever is refused on the way. The
files are those that the paths of the run lead to: the manifest, the files of
the architecture, and the files of a stem that is either charted in this run or
on the record that the run has read (`Owned`). No directory is deleted, and one
is created: the directory of the architecture.

A run is a sequence of operations on owned paths (`Chronicle`), and this takes
no law of the disk. The laws say what an operation changes, and where a path
leads is a question about the tree in which the operation is carried out, not
about the first one, since a run may delete a link. If the link is on the path
of the output directory itself, that path leads nowhere any more, and the
directory that is then created for the architecture takes the missing
directories above it with it.
-/

namespace FlowAtlas.Run

open OutputDirectory FileTree

variable {σ : Type} {shop : Workshop (StateM σ)} {owned : Path → Prop}
  {s t u : σ}

/-! ## The operations of a run -/

/-- A single operation of a run: the manifest is read, an owned file is written,
deleted or rendered, or the directory of the architecture is created. -/
inductive Deed (shop : Workshop (StateM σ)) (owned : Path → Prop) (s t : σ) :
    Prop where
  | read {r : Except SystemError String}
      (h : (shop.disk.readText shop.output.manifestFile).run s = (r, t))
  | write {p : Path} {text : String} {r : Except SystemError Unit}
      (howned : owned p) (h : (shop.disk.writeText p text).run s = (r, t))
  | remove {p : Path} {r : Except SystemError Unit} (howned : owned p)
      (h : (shop.disk.removeFile p).run s = (r, t))
  | render {input output : Path} {r : Except Fault Unit} (howned : owned output)
      (h : (shop.renderer input output).run s = (r, t))
  | create {r : Except SystemError Unit}
      (h : (shop.disk.createDirectories shop.output.architectureRoot).run
        s = (r, t))

/-- Operations one after the other, with the states in which they were carried
out. -/
inductive Chronicle (shop : Workshop (StateM σ)) (owned : Path → Prop) :
    σ → List σ → σ → Prop where
  | done {s : σ} : Chronicle shop owned s [] s
  | next {s t u : σ} {moments : List σ} (hdeed : Deed shop owned s t)
      (h : Chronicle shop owned t moments u) :
      Chronicle shop owned s (s :: moments) u

/-- Some operations lead from one state to another. -/
def Acts (shop : Workshop (StateM σ)) (owned : Path → Prop) (s u : σ) : Prop :=
  ∃ moments, Chronicle shop owned s moments u

theorem Chronicle.append {moments more : List σ}
    (h : Chronicle shop owned s moments t)
    (h' : Chronicle shop owned t more u) :
    Chronicle shop owned s (moments ++ more) u := by
  induction h with
  | done => exact h'
  | next hdeed _ ih => exact .next hdeed (ih h')

namespace Acts

theorem refl (s : σ) : Acts shop owned s s := ⟨[], .done⟩

theorem single (h : Deed shop owned s t) : Acts shop owned s t :=
  ⟨[s], .next h .done⟩

theorem trans (h : Acts shop owned s t) (h' : Acts shop owned t u) :
    Acts shop owned s u := by
  obtain ⟨moments, hmoments⟩ := h
  obtain ⟨more, hmore⟩ := h'
  exact ⟨moments ++ more, hmoments.append hmore⟩

instance :
    Trans (Acts shop owned) (Acts shop owned) (Acts shop owned) := ⟨trans⟩

end Acts

/-- Operations on owned paths lead from one state to another, and so every stage
of a run does. -/
theorem acts_within : shop.Within owned (Acts shop owned) where
  refl := .refl
  trans h h' := h.trans h'
  remove howned h := .single (.remove howned h)
  write howned h := .single (.write howned h)
  render howned h := .single (.render howned h)

/-! ## The whole run, operation by operation -/

/-- A stem on record, under a project that the filter lets through and that was
not found to be unusable. -/
def Recalled (source : GraphSource) (filter : Option String)
    (previous : Manifest) (stem : String) : Prop :=
  ∃ project, stem ∈ previous.stemsOf project ∧ selects filter project = true
    ∧ ∀ p ∈ source.solution.matching filter, p.name = project →
      ∀ fault, source.prepare p ≠ .error fault

/-- The files of a run, given the manifest that it has read. -/
inductive Owned (out : OutputDirectory) (source : GraphSource)
    (filter : Option String) (previous : Manifest) : Path → Prop where
  | manifest : Owned out source filter previous out.manifestFile
  | architecture {p : Path} (hp : p ∈ out.architecturePaths) :
      Owned out source filter previous p
  | artifact {p : Path} {stem : String}
      (hstem : Charted source filter stem
        ∨ Recalled source filter previous stem)
      (hp : p ∈ artifactPaths (out.markupFile stem)) :
      Owned out source filter previous p

theorem recalled_of_not_retains {source : GraphSource} {filter : Option String}
    {previous : Manifest} {project stem : String}
    (hretains : ¬ retains filter (skippedProjects (plan source filter))
      project = true)
    (hstem : stem ∈ previous.stemsOf project) :
    Recalled source filter previous stem := by
  rw [retains, Bool.or_eq_true, not_or, List.contains_iff_mem,
    mem_skippedProjects_plan, Bool.not_eq_true', Bool.not_eq_false] at hretains
  obtain ⟨hskipped, hselects⟩ := hretains
  refine ⟨project, hstem, hselects, fun p hp hname fault hfault => ?_⟩
  exact hskipped ⟨p, hp, hname, fault, hfault⟩

/-- A run is a sequence of operations on owned paths, whatever they come to. -/
theorem run_acts {source : GraphSource} {filter : Option String}
    {bounds : Architecture.Bounds} {report : Report}
    (h : (run shop source filter bounds).run s = (report, u)) :
    ∃ previous loaded a, shop.loadPrevious.run s = ((previous, loaded), a)
      ∧ Acts shop (Owned shop.output source filter previous) s u := by
  obtain ⟨previous, loaded, a, p, b, q, c, saved, d, hload, hperform, hprune,
      hstore, hdraw⟩ :=
    run_run h
  obtain ⟨r, hmanifest, -⟩ := Workshop.loadPrevious_run hload
  obtain ⟨read, hread, -⟩ := readManifest_turn hmanifest
  obtain ⟨w, hwrite, -⟩ := Workshop.storeManifest_run hstore
  refine ⟨previous, loaded, a, hload, ?_⟩
  calc Acts shop (Owned shop.output source filter previous) s a :=
        .single (.read hread)
      Acts shop (Owned shop.output source filter previous) _ b := by
        refine Workshop.performAll_within acts_within
          (fun task htask path hpath => ?_) hperform
        obtain ⟨drawing, hdrawing, hpath⟩ := hpath
        exact .artifact (.inl (charted_of_mem_plan htask hdrawing)) hpath
      Acts shop (Owned shop.output source filter previous) _ c := by
        refine Workshop.pruneProjects_within acts_within.toWithin
          (fun project hretains stem hstem _ path hpath => ?_) hprune
        exact .artifact (.inr (recalled_of_not_retains hretains hstem)) hpath
      Acts shop (Owned shop.output source filter previous) _ d :=
        .single (.write .manifest hwrite)
      Acts shop (Owned shop.output source filter previous) _ u :=
        Workshop.drawArchitecture_within acts_within
          (fun path hpath => .architecture hpath)
          (fun hcreate => .single (.create hcreate)) hdraw

/-! ## What the operations leave of a tree -/

/-- At some moment an owned path led to a location. -/
def Reached (owned : Path → Prop) (tree : σ → FileTree) (moments : List σ)
    (l : Location) : Prop :=
  ∃ m ∈ moments, ∃ p follow, owned p ∧ (tree m).Leads follow p l

/-- At some moment a location was free, and a path led to it at which a run
creates a directory: the path of the directory for the architecture, or one
above it if the output directory did not stand at that moment. -/
def Founded (out : OutputDirectory) (tree : σ → FileTree) (moments : List σ)
    (l : Location) : Prop :=
  ∃ m ∈ moments, ∃ t, Builds out.architectureRoot (tree m) t ∧ t.at? l = none
    ∧ (t.Leads false out.architectureRoot l
      ∨ (tree m).isDirectory out.root ≠ .ok true
        ∧ ∃ q ∈ ancestry out.architectureRoot, t.Leads false q l)

/-- How the locations at which two trees differ came to differ. -/
structure Footprint (out : OutputDirectory) (owned : Path → Prop)
    (tree : σ → FileTree) (s : σ) (moments : List σ) (u : σ) : Prop where
  /-- What stood there was changed, or what stands there now is no directory. -/
  file : ∀ l, (tree u).at? l ≠ (tree s).at? l →
    (tree s).at? l ≠ none
      ∨ (tree u).at? l ≠ some .directory → Reached owned tree moments l
  kept :
    ∀ l, (tree s).at? l = some .directory → (tree u).at? l = some .directory
  founded :
    ∀ l, (tree u).at? l = some .directory → (tree s).at? l ≠ some .directory →
      Founded out tree moments l
  /-- The output directory stands until a link is changed as an owned file. -/
  lost : ∀ m ∈ moments, (tree s).isDirectory out.root = .ok true →
    (tree m).isDirectory out.root ≠ .ok true →
      ∃ l target, (tree s).at? l = some (.link target)
        ∧ (tree m).at? l ≠ some (.link target)
        ∧ Reached owned tree moments l

theorem Reached.mono {tree : σ → FileTree} {moments more : List σ}
    {l : Location} (h : Reached owned tree moments l) (hmore : moments ⊆ more) :
    Reached owned tree more l := by
  obtain ⟨m, hm, hreached⟩ := h
  exact ⟨m, hmore hm, hreached⟩

section

variable {tree : σ → FileTree} (hdisk : shop.disk.Pathwise tree)
  (hrenderer : shop.renderer.Pathwise tree)
include hdisk hrenderer

/-- An operation changes what an owned path leads to, or it creates directories
on the way to the one for the architecture. -/
theorem Deed.alters_or_builds (h : Deed shop owned s t) :
    (∃ p, owned p ∧ Alters true p (tree s) (tree t))
      ∨ Builds shop.output.architectureRoot (tree s) (tree t) := by
  cases h with
  | read h =>
      rw [hdisk.read h]
      exact .inr .refl
  | write howned h => exact .inl ⟨_, howned, hdisk.write h⟩
  | remove howned h => exact .inl ⟨_, howned, (hdisk.remove h).mono⟩
  | render howned h => exact .inl ⟨_, howned, hrenderer h⟩
  | create h => exact .inr (hdisk.create h)

theorem Deed.workingDirectory (h : Deed shop owned s t) :
    (tree t).workingDirectory = (tree s).workingDirectory := by
  rcases h.alters_or_builds hdisk hrenderer with ⟨p, -, halters⟩ | hbuilds
  · exact halters.workingDirectory
  · exact hbuilds.workingDirectory

theorem Deed.keeps (h : Deed shop owned s t) {l : Location}
    (hl : (tree s).at? l = some .directory) :
    (tree t).at? l = some .directory := by
  rcases h.alters_or_builds hdisk hrenderer with ⟨p, -, halters⟩ | hbuilds
  · exact halters.keeps hl
  · exact hbuilds.passes.directory l hl

namespace Chronicle

variable {moments : List σ}

omit hdisk hrenderer in
/-- A chronicle up to one of its moments. -/
theorem exists_until (h : Chronicle shop owned s moments u) {m : σ}
    (hm : m ∈ moments) :
    ∃ before, before ⊆ moments ∧ Chronicle shop owned s before m := by
  induction h with
  | done => exact absurd hm List.not_mem_nil
  | @next s t u moments hdeed _ ih =>
      rcases List.mem_cons.1 hm with rfl | hm
      · exact ⟨[], List.nil_subset _, .done⟩
      · obtain ⟨before, hbefore, hchronicle⟩ := ih hm
        exact ⟨s :: before, List.cons_subset_cons s hbefore,
          .next hdeed hchronicle⟩

theorem workingDirectory (h : Chronicle shop owned s moments u) :
    (tree u).workingDirectory = (tree s).workingDirectory := by
  induction h with
  | done => rfl
  | next hdeed _ ih => exact ih.trans (hdeed.workingDirectory hdisk hrenderer)

theorem keeps (h : Chronicle shop owned s moments u) {l : Location}
    (hl : (tree s).at? l = some .directory) :
    (tree u).at? l = some .directory := by
  induction h with
  | done => exact hl
  | next hdeed _ ih => exact ih (hdeed.keeps hdisk hrenderer hl)

theorem reached (h : Chronicle shop owned s moments u) {l : Location}
    (hl : (tree u).at? l ≠ (tree s).at? l)
    (hfile : (tree s).at? l ≠ none ∨ (tree u).at? l ≠ some .directory) :
    Reached owned tree moments l := by
  induction h with
  | done => exact absurd rfl hl
  | @next s t u moments hdeed hrest ih =>
      by_cases hsame : (tree t).at? l = (tree s).at? l
      · rw [← hsame] at hl hfile
        exact (ih hl hfile).mono (List.subset_cons_self _ _)
      · rcases hdeed.alters_or_builds hdisk hrenderer with
          ⟨p, howned, halters⟩ | hbuilds
        · rcases halters.leads l hsame with hleads | ⟨-, hleads⟩
          · exact ⟨s, List.mem_cons_self, p, false, howned, hleads⟩
          · exact ⟨s, List.mem_cons_self, p, true, howned, hleads⟩
        · -- Directories are created where nothing stands, and stay.
          obtain ⟨hnone, hdirectory, -⟩ := hbuilds.location hsame
          rcases hfile with hstood | hne
          · exact absurd hnone hstood
          · exact absurd (hrest.keeps hdisk hrenderer hdirectory) hne

theorem founded (h : Chronicle shop owned s moments u) {l : Location}
    (hl : (tree u).at? l = some .directory)
    (hnew : (tree s).at? l ≠ some .directory) :
    Founded shop.output tree moments l := by
  induction h with
  | done => exact absurd hl hnew
  | @next s t u moments hdeed hrest ih =>
      by_cases hstands : (tree t).at? l = some .directory
      · have hchanged : (tree t).at? l ≠ (tree s).at? l :=
          fun heq => hnew (heq.symm.trans hstands)
        rcases hdeed.alters_or_builds hdisk hrenderer with
          ⟨p, -, halters⟩ | hbuilds
        · exact absurd hstands (halters.after l hchanged)
        · obtain ⟨-, -, q, hq, a, b, hbefore, hmakes, hnone, hleads⟩ :=
            hbuilds.location hchanged
          rw [dropSeparators_of_mem_ancestry single_architectureDirectory hq]
            at hleads
          refine ⟨s, List.mem_cons_self, a, hbefore, hnone, ?_⟩
          by_cases hroot : (tree s).isDirectory shop.output.root = .ok true
          · have hroot' := hbefore.passes.isDirectory hroot
            obtain rfl :=
              hmakes.eq_of_isDirectory single_architectureDirectory hroot' hq
            exact .inl hleads
          · exact .inr ⟨hroot, q, hq, hleads⟩
      · obtain ⟨m, hm, hfounded⟩ := ih hl hstands
        exact ⟨m, List.mem_cons_of_mem _ hm, hfounded⟩

theorem lost (h : Chronicle shop owned s moments u) {m : σ} (hm : m ∈ moments)
    (hroot : (tree s).isDirectory shop.output.root = .ok true)
    (hroot' : (tree m).isDirectory shop.output.root ≠ .ok true) :
    ∃ l target, (tree s).at? l = some (.link target)
      ∧ (tree m).at? l ≠ some (.link target)
      ∧ Reached owned tree moments l := by
  obtain ⟨before, hbefore, hchronicle⟩ := h.exists_until hm
  by_contra hnone
  refine hroot'
    (Passes.isDirectory ⟨hchronicle.workingDirectory hdisk hrenderer,
      fun l => hchronicle.keeps hdisk hrenderer, fun l target hlink =>
        ?_⟩ hroot)
  by_contra hlost
  have hreached :=
    hchronicle.reached hdisk hrenderer (fun heq => hlost (heq.trans hlink))
      (.inl (by rw [hlink]; exact Option.some_ne_none _))
  exact hnone ⟨l, target, hlink, hlost, hreached.mono hbefore⟩

theorem footprint (h : Chronicle shop owned s moments u) :
    Footprint shop.output owned tree s moments u where
  file _ := h.reached hdisk hrenderer
  kept _ := h.keeps hdisk hrenderer
  founded _ := h.founded hdisk hrenderer
  lost _ := h.lost hdisk hrenderer

end Chronicle

/-- A run touches its own files only. What it changes or deletes, and what it
creates that is no directory, is what an owned path led to at a moment of the
run. Directories stay, and the only new one is that of the architecture, unless
the output directory itself got lost with a link. -/
theorem run_touches_own_files {source : GraphSource} {filter : Option String}
    {bounds : Architecture.Bounds} {report : Report}
    (h : (run shop source filter bounds).run s = (report, u)) :
    ∃ previous loaded a moments, shop.loadPrevious.run s
        = ((previous, loaded), a)
      ∧ Chronicle shop (Owned shop.output source filter previous) s moments u
      ∧ Footprint shop.output (Owned shop.output source filter previous) tree
        s moments u := by
  obtain ⟨previous, loaded, a, hload, moments, hchronicle⟩ := run_acts h
  exact ⟨previous, loaded, a, moments, hload, hchronicle,
    hchronicle.footprint hdisk hrenderer⟩

end

/-! ## An output directory behind a link -/

/-- The output directory is a link, and the manifest in it records a stem whose
markup file is that link. -/
def linkedRoot : FileTree where
  entries := [(["real"], .directory), (["L.mmd"], .link "real"),
    (["real", ".cfgflow-artifacts.json"],
      .file (Manifest.empty.add "A" "../L").toText.toUTF8 false)]

/-- A workshop on the link, with a renderer that makes nothing. -/
def linkedShop : Workshop (StateM FileTree) :=
  ⟨FileTree.disk, fun _ _ => pure (.ok ()), ⟨"L.mmd"⟩⟩

/-- The tree after a run without projects. -/
def linkedEnd :
    FileTree := ((run linkedShop (Snapshot.source {}) none {}).run linkedRoot).2

theorem linkedShop_renderer : linkedShop.renderer.Pathwise id := by
  intro input output s r t h
  obtain ⟨-, rfl⟩ := run_pure.1 h
  exact .refl _ _ _

theorem at?_linkedEnd : linkedEnd.at? ["L.mmd"] = some .directory := by
  have hdirectory :
      (linkedEnd.at? ["L.mmd"]).map Entry.isDirectory = some true := by
    decide +kernel
  obtain ⟨entry, hentry, htrue⟩ := Option.map_eq_some_iff.1 hdirectory
  cases entry with
  | directory => exact hentry
  | file content executable => exact nomatch htrue
  | link target => exact nomatch htrue

/-- The link is deleted as a file of the stem, and a directory is created in its
place. -/
theorem linked_output_founded :
    linkedRoot.at? ["L.mmd"] = some (.link "real")
      ∧ linkedEnd.at? ["L.mmd"] = some .directory
      ∧ ∃ previous loaded a moments,
        linkedShop.loadPrevious.run linkedRoot = ((previous, loaded), a)
          ∧ Chronicle linkedShop
            (Owned ⟨"L.mmd"⟩ (Snapshot.source {}) none previous) linkedRoot
            moments linkedEnd
          ∧ Reached (Owned ⟨"L.mmd"⟩ (Snapshot.source {}) none previous) id
            moments ["L.mmd"]
          ∧ Founded ⟨"L.mmd"⟩ id moments ["L.mmd"] := by
  have hlink : linkedRoot.at? ["L.mmd"] = some (.link "real") := rfl
  obtain ⟨report, hrun⟩ : ∃ report,
        (run linkedShop (Snapshot.source {}) none {}).run linkedRoot
          = (report, linkedEnd) := by
    unfold linkedEnd
    exact ⟨_, (Prod.eta _).symm⟩
  obtain ⟨previous, loaded, a, moments, hload, hchronicle, hfootprint⟩ :=
    run_touches_own_files FileTree.disk_pathwise linkedShop_renderer hrun
  have hend := at?_linkedEnd
  generalize linkedEnd = u at hend hchronicle hfootprint
  refine ⟨hlink, hend, previous, loaded, a, moments, hload, hchronicle, ?_, ?_⟩
  · refine hfootprint.file _ (fun heq => ?_) (.inl fun hnone => ?_)
    · exact nomatch (hlink.symm.trans heq.symm).trans hend
    · exact nomatch hlink.symm.trans hnone
  · refine hfootprint.founded _ hend fun heq => ?_
    exact nomatch hlink.symm.trans heq

/-- So the directory of the architecture is not the only one that a run creates,
though the output directory was there. -/
theorem output_link_becomes_directory :
    (OutputDirectory.create FileTree.disk "L.mmd").run linkedRoot
        = (.ok ⟨"L.mmd"⟩, linkedRoot)
      ∧ ¬ ∀ l, linkedEnd.at? l = some .directory →
        linkedRoot.at? l ≠ some .directory →
        l.getLast? = some architectureDirectory := by
  refine ⟨rfl, fun hall => ?_⟩
  have hname := hall ["L.mmd"] at?_linkedEnd fun heq => nomatch heq
  exact absurd hname (by decide)

end FlowAtlas.Run
