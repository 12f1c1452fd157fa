import FlowAtlas.CommandLine.Run
import FlowAtlas.Disk.Launch
import FlowAtlas.Proofs.Disk.Footprint
import FlowAtlas.Proofs.Run.Warnings

/-!
# How a run starts

A run fails for three reasons: its configuration cannot be loaded, its output
directory cannot be created, or its hierarchy cannot be opened. All of them come
up before the first file is touched. Until then the disk is only looked at,
except that directories are created on the way to the output directory. So a run
that has failed has changed no file, and a run that has got past these three
steps succeeds, whatever the disk and the renderer refuse after that.

The faults that end a run are fatal and those that it reports are not
(`run_fails_only_at_the_start`). Which disk it is does not matter, as long as
looking changes nothing (`Disk.Steadfast`).
-/

namespace FlowAtlas

open FileTree OutputDirectory

variable {σ : Type}

/-- A disk on which looking changes nothing, and creating directories creates
directories only. -/
structure Disk.Steadfast (disk : Disk (StateM σ)) (tree : σ → FileTree) :
    Prop where
  isDirectory :
    ∀ {p s r t}, (disk.isDirectory p).run s = (r, t) → tree t = tree s
  read : ∀ {p s r t}, (disk.readText p).run s = (r, t) → tree t = tree s
  survey : ∀ {p s r t}, (disk.survey p).run s = (r, t) → tree t = tree s
  create : ∀ {p s r t},
    (disk.createDirectories p).run s = (r, t) → Builds p (tree s) (tree t)

theorem FileTree.disk_steadfast : FileTree.disk.Steadfast id where
  isDirectory h := (Prod.mk.inj h).2.symm
  read h := (Prod.mk.inj h).2.symm
  survey h := (Prod.mk.inj h).2.symm
  create h := disk_pathwise.create h

variable {disk : Disk (StateM σ)} {tree : σ → FileTree} {s t : σ}

/-! ## The configuration -/

theorem Settings.status_parse {text : String} {fault : Fault}
    (h : Settings.parse text = .error fault) : fault.status = .fatal := by
  obtain ⟨refusal, -, rfl⟩ := mapError_eq_error.1 h
  rw [Refusal.fault, Fault.status_addOperation]
  rfl

theorem Settings.status_load {path : Path} {required : Bool} {fault : Fault}
    (h : (Settings.load disk path required).run s = (.error fault, t)) :
    fault.status = .fatal := by
  obtain ⟨read, a, -, h⟩ := run_bind.1 h
  cases read with
  | ok text =>
      obtain ⟨hparse, -⟩ := run_pure.1 h
      obtain ⟨refused, hrefused, rfl⟩ := mapError_eq_error.1 hparse.symm
      rw [Fault.status_addContext, status_parse hrefused]
  | error e =>
      dsimp only at h
      split_ifs at h
      · exact nomatch (run_pure.1 h).1
      · obtain rfl := Except.error.inj (run_pure.1 h).1
        rw [Fault.status_withSource, Fault.status_addContext,
          Fault.status_addOperation]
        rfl

theorem Settings.tree_load (hdisk : disk.Steadfast tree) {path : Path}
    {required : Bool} {r : Except Fault Settings}
    (h : (Settings.load disk path required).run s = (r, t)) :
    tree t = tree s := by
  obtain ⟨read, a, hread, h⟩ := run_bind.1 h
  rw [← hdisk.read hread]
  cases read with
  | ok text => rw [(run_pure.1 h).2]
  | error e =>
      dsimp only at h
      split_ifs at h <;> rw [(run_pure.1 h).2]

/-- Options come from one file of settings. -/
theorem Options.load_turn {a : Arguments} {r : Except Fault Options}
    (h : (Options.load disk a).run s = (r, t)) :
    ∃ path required settings,
        (Settings.load disk path required).run s = (settings, t)
          ∧ r = settings.map (Options.of a) := by
  rw [Options.load] at h
  cases hconfig : a.config with
  | none =>
      rw [hconfig] at h
      obtain ⟨settings, b, hload, h⟩ := run_bind.1 h
      obtain ⟨rfl, rfl⟩ := run_pure.1 h
      exact ⟨_, _, settings, hload, rfl⟩
  | some path =>
      rw [hconfig] at h
      obtain ⟨settings, b, hload, h⟩ := run_bind.1 h
      obtain ⟨rfl, rfl⟩ := run_pure.1 h
      exact ⟨_, _, settings, hload, rfl⟩

theorem Options.status_load {a : Arguments} {fault : Fault}
    (h : (Options.load disk a).run s = (.error fault, t)) :
    fault.status = .fatal := by
  obtain ⟨path, required, settings, hload, hfault⟩ := Options.load_turn h
  cases settings with
  | ok settings => exact nomatch hfault
  | error refused =>
      obtain rfl := Except.error.inj hfault
      exact Settings.status_load hload

theorem Options.tree_load (hdisk : disk.Steadfast tree) {a : Arguments}
    {r : Except Fault Options} (h : (Options.load disk a).run s = (r, t)) :
    tree t = tree s := by
  obtain ⟨path, required, settings, hload, -⟩ := Options.load_turn h
  exact Settings.tree_load hdisk hload

/-- The places of a run are those on the command line. -/
theorem Options.places_of_load {a : Arguments} {o : Options}
    (h : (Options.load disk a).run s = (.ok o, t)) :
    o.outputDir = a.outputDir ∧ o.hierarchyRoot = a.hierarchyRoot := by
  obtain ⟨path, required, settings, -, ho⟩ := Options.load_turn h
  cases settings with
  | error refused => exact nomatch ho
  | ok settings =>
      obtain rfl := Except.ok.inj ho
      exact ⟨rfl, rfl⟩

/-! ## The output directory -/

theorem OutputDirectory.create_turn {root : Path}
    {r : Except Fault OutputDirectory}
    (h : (OutputDirectory.create disk root).run s = (r, t)) :
    ∃ c, (disk.createDirectories root).run s = (c, t)
      ∧ ∀ fault, r = .error fault → fault.status = .fatal := by
  obtain ⟨c, a, hcreate, h⟩ := run_bind.1 h
  refine ⟨c, ?_⟩
  cases c with
  | ok u =>
      obtain ⟨rfl, rfl⟩ := run_pure.1 h
      exact ⟨hcreate, fun fault hfault => nomatch hfault⟩
  | error e =>
      obtain ⟨rfl, rfl⟩ := run_pure.1 h
      refine ⟨hcreate, fun fault hfault => ?_⟩
      obtain rfl := Except.error.inj hfault
      rfl

/-! ## The hierarchy -/

namespace Snapshot

theorem status_hierarchyOpenFailed (root message operation : String) :
    ((Fault.hierarchyOpenFailed root message).addOperation operation).status
      = .fatal := by
  rw [Fault.status_addOperation]
  rfl

theorem tree_readProjects (hdisk : disk.Steadfast tree) {root : Path}
    {files : List (List String)} {projects : List Project}
    (h : (readProjects disk root files).run s = (projects, t)) :
    tree t = tree s := by
  induction files generalizing s projects with
  | nil => rw [(run_pure.1 h).2]
  | cons names files ih =>
      obtain ⟨read, a, hread, h⟩ := run_bind.1 h
      obtain ⟨rest, b, hrest, h⟩ := run_bind.1 h
      obtain ⟨-, rfl⟩ := run_pure.1 h
      rw [ih hrest, hdisk.read hread]

theorem readDirectory_run (hdisk : disk.Steadfast tree) {root : Path}
    {r : Except Fault Solution} (h : (readDirectory disk root).run s = (r, t)) :
    tree t = tree s ∧ ∀ fault, r = .error fault → fault.status = .fatal := by
  obtain ⟨survey, a, hsurvey, h⟩ := run_bind.1 h
  rw [← hdisk.survey hsurvey]
  cases survey with
  | error e =>
      obtain ⟨rfl, rfl⟩ := run_pure.1 h
      refine ⟨rfl, fun fault hfault => ?_⟩
      obtain rfl := Except.error.inj hfault
      exact status_hierarchyOpenFailed _ _ _
  | ok survey =>
      obtain ⟨projects, b, hread, h⟩ := run_bind.1 h
      obtain ⟨rfl, rfl⟩ := run_pure.1 h
      exact ⟨tree_readProjects hdisk hread, fun fault hfault => nomatch hfault⟩

theorem status_solutionOf {root : Path} {text : String} {fault : Fault}
    (h : solutionOf root text = .error fault) : fault.status = .fatal := by
  rw [solutionOf] at h
  split at h
  · exact nomatch h
  · obtain rfl := Except.error.inj h
    rw [Fault.status_addContext]
    exact status_hierarchyOpenFailed _ _ _

theorem readSolution_run (hdisk : disk.Steadfast tree) {root : Path}
    {r : Except Fault Solution} (h : (readSolution disk root).run s = (r, t)) :
    tree t = tree s ∧ ∀ fault, r = .error fault → fault.status = .fatal := by
  obtain ⟨read, a, hread, h⟩ := run_bind.1 h
  rw [← hdisk.read hread]
  cases read with
  | error e =>
      obtain ⟨rfl, rfl⟩ := run_pure.1 h
      refine ⟨rfl, fun fault hfault => ?_⟩
      obtain rfl := Except.error.inj hfault
      rw [Fault.status_withSource]
      exact status_hierarchyOpenFailed _ _ _
  | ok text =>
      obtain ⟨rfl, rfl⟩ := run_pure.1 h
      exact ⟨rfl, fun fault hfault => status_solutionOf hfault⟩

/-- Opening a hierarchy is looking, and its faults are fatal. -/
theorem openSnapshot_run (hdisk : disk.Steadfast tree) {root : Path}
    {r : Except Fault Solution} (h : (openSnapshot disk root).run s = (r, t)) :
    tree t = tree s ∧ ∀ fault, r = .error fault → fault.status = .fatal := by
  obtain ⟨kind, a, hkind, h⟩ := run_bind.1 h
  rw [← hdisk.isDirectory hkind]
  cases kind with
  | error e =>
      obtain ⟨rfl, rfl⟩ := run_pure.1 h
      refine ⟨rfl, fun fault hfault => ?_⟩
      obtain rfl := Except.error.inj hfault
      rw [Fault.status_withSource]
      exact status_hierarchyOpenFailed _ _ _
  | ok isDirectory =>
      cases isDirectory with
      | true => exact readDirectory_run hdisk h
      | false => exact readSolution_run hdisk h

end Snapshot

/-! ## The whole program -/

namespace Host

/-- What keeps a run from starting, with the fault that it ends in and the state
that it leaves. -/
inductive FailsToStart (host : Host (StateM σ)) (a : Arguments)
    (s : σ) : Fault → σ → Prop
  | configuration {fault : Fault} {t : σ}
      (load : (Options.load host.disk a).run s = (.error fault, t)) :
      FailsToStart host a s fault t
  | output {o : Options} {fault : Fault} {t u : σ}
      (load : (Options.load host.disk a).run s = (.ok o, t))
      (create : (OutputDirectory.create host.disk a.outputDir).run t
        = (.error fault, u)) :
      FailsToStart host a s fault u
  | hierarchy {o : Options} {out : OutputDirectory} {fault : Fault} {t t' u : σ}
      (load : (Options.load host.disk a).run s = (.ok o, t))
      (create : (OutputDirectory.create host.disk a.outputDir).run t
        = (.ok out, t'))
      (opens : (Snapshot.openSnapshot host.disk a.hierarchyRoot).run t'
        = (.error fault, u)) :
      FailsToStart host a s fault u

variable {host : Host (StateM σ)} {a : Arguments} {u : σ}

theorem runArguments_turn {result : Except Fault Run.Report}
    (h : (host.runArguments a).run s = (result, u)) :
    (∃ fault, host.FailsToStart a s fault u ∧ result = .error fault)
      ∨ ∃ report, result = .ok report ∧ report.Mild := by
  obtain ⟨options, t, hload, h⟩ := run_bind.1 h
  cases options with
  | error fault =>
      obtain ⟨rfl, rfl⟩ := run_pure.1 h
      exact .inl ⟨fault, .configuration hload, rfl⟩
  | ok o =>
      obtain ⟨houtput, hroot⟩ := Options.places_of_load hload
      obtain ⟨created, t', hcreate, h⟩ := run_bind.1 h
      rw [houtput] at hcreate
      cases created with
      | error fault =>
          obtain ⟨rfl, rfl⟩ := run_pure.1 h
          exact .inl ⟨fault, .output hload hcreate, rfl⟩
      | ok out =>
          obtain ⟨opened, t'', hopen, h⟩ := run_bind.1 h
          rw [hroot] at hopen
          cases opened with
          | error fault =>
              obtain ⟨rfl, rfl⟩ := run_pure.1 h
              exact .inl ⟨fault, .hierarchy hload hcreate hopen, rfl⟩
          | ok solution =>
              obtain ⟨report, t₃, hrun, h⟩ := run_bind.1 h
              obtain ⟨rfl, rfl⟩ := run_pure.1 h
              refine .inr ⟨report, rfl, ?_⟩
              exact Run.run_mild (Snapshot.source_mild solution)
                (Renderer.ofProgram_mild _ _) hrun

/-- What keeps a run from starting ends it. -/
theorem FailsToStart.run_eq {fault : Fault}
    (h : host.FailsToStart a s fault t) :
    (host.runArguments a).run s = (.error fault, t) := by
  rw [runArguments, run_bind]
  cases h with
  | configuration load => exact ⟨_, _, load, rfl⟩
  | output load create =>
      refine ⟨_, _, load, ?_⟩
      rw [← (Options.places_of_load load).1] at create
      exact run_bind.2 ⟨_, _, create, rfl⟩
  | hierarchy load create opens =>
      refine ⟨_, _, load, ?_⟩
      obtain ⟨houtput, hroot⟩ := Options.places_of_load load
      rw [← houtput] at create
      rw [← hroot] at opens
      exact run_bind.2 ⟨_, _, create, run_bind.2 ⟨_, _, opens, rfl⟩⟩

theorem FailsToStart.status {fault : Fault} (hdisk : host.disk.Steadfast tree)
    (h : host.FailsToStart a s fault t) : fault.status = .fatal := by
  cases h with
  | configuration load => exact Options.status_load load
  | output load create =>
      obtain ⟨c, -, hfatal⟩ := create_turn create
      exact hfatal fault rfl
  | hierarchy load create opens =>
      exact (Snapshot.openSnapshot_run hdisk opens).2 fault rfl

/-- A run that does not start creates directories of the output path and does
nothing else. -/
theorem FailsToStart.builds {fault : Fault} (hdisk : host.disk.Steadfast tree)
    (h : host.FailsToStart a s fault t) :
    Builds a.outputDir (tree s) (tree t) := by
  cases h with
  | configuration load =>
      rw [Options.tree_load hdisk load]
      exact .refl
  | output load create =>
      obtain ⟨c, hcreate, -⟩ := create_turn create
      rw [← Options.tree_load hdisk load]
      exact hdisk.create hcreate
  | hierarchy load create opens =>
      obtain ⟨c, hcreate, -⟩ := create_turn create
      rw [← Options.tree_load hdisk load,
        (Snapshot.openSnapshot_run hdisk opens).1]
      exact hdisk.create hcreate

/-- A run fails exactly when it cannot start. It then ends in a fatal fault and
has changed no file: what differs is directories on the way to the output
directory, where nothing was, and not even those if the configuration was at
fault. Otherwise it succeeds, and what it warns of are recoverable faults. -/
theorem run_fails_only_at_the_start (hdisk : host.disk.Steadfast tree)
    {result : Except Fault Run.Report}
    (h : (host.runArguments a).run s = (result, u)) :
    (statusOf result = .failure ↔ ∃ fault t, host.FailsToStart a s fault t)
      ∧ (∀ fault t, host.FailsToStart a s fault t →
          result = .error fault ∧ fault.isFatal = true
            ∧ Builds a.outputDir (tree s) (tree u)
            ∧ ∀ l, (tree u).at? l ≠ (tree s).at? l →
              (tree s).at? l = none ∧ (tree u).at? l = some .directory)
      ∧ (∀ fault t, (Options.load host.disk a).run s = (.error fault, t) →
        tree u = tree s)
      ∧ ((¬ ∃ fault t, host.FailsToStart a s fault t) →
          statusOf result = .success ∧ ∃ report, result = .ok report
            ∧ ∀ w ∈ report.warnings, (∃ fault : Fault, w.message = fault.render)
              ∧ ∀ fault : Fault, w.message = fault.render →
                fault.status = .recoverable) := by
  -- A run has one course only, so what keeps it from starting is what it ends
  -- in.
  have hends : ∀ {fault t},
      host.FailsToStart a s fault t → result = .error fault ∧ u = t :=
    fun hfails => Prod.mk.inj (h.symm.trans hfails.run_eq)
  refine ⟨⟨fun hstatus => ?_, ?_⟩, ?_, ?_, fun hstarts => ?_⟩
  · rcases runArguments_turn h with ⟨fault, hfails, -⟩ | ⟨report, rfl, -⟩
    · exact ⟨fault, u, hfails⟩
    · exact nomatch hstatus
  · rintro ⟨fault, t, hfails⟩
    rw [(hends hfails).1]
    rfl
  · intro fault t hfails
    obtain ⟨hresult, rfl⟩ := hends hfails
    have hbuilds := hfails.builds hdisk
    refine ⟨hresult, decide_eq_true (hfails.status hdisk),
      hbuilds, fun l hl => ?_⟩
    obtain ⟨hnone, hdirectory, -⟩ := hbuilds.location hl
    exact ⟨hnone, hdirectory⟩
  · intro fault t hload
    obtain ⟨-, rfl⟩ := hends (.configuration hload)
    exact Options.tree_load hdisk hload
  · rcases runArguments_turn h with ⟨fault, hfails, -⟩ | ⟨report, rfl, hmild⟩
    · exact absurd ⟨fault, u, hfails⟩ hstarts
    · refine ⟨rfl, report, rfl,
        fun w hw => ⟨?_, fun fault => hmild.status_eq hw⟩⟩
      obtain ⟨fault, -, hmessage⟩ := hmild w hw
      exact ⟨fault, hmessage⟩

/-- Arguments for an empty tree: nothing is there to be opened. -/
def strandedArguments : Arguments where
  hierarchyRoot := "in"
  outputDir := "gen/out"

/-- The output directory has been created by then, and it is all that is left of
the run. -/
theorem missing_hierarchy_leaves_directories :
    ∃ fault t, (FileTree.host.runArguments strandedArguments).run {}
        = (.error fault, t)
      ∧ fault.isFatal = true
      ∧ (t.at? ["gen", "out"]).map Entry.isDirectory = some true
      ∧ ∀ l, t.at? l ≠ FileTree.at? {} l → t.at? l = some .directory := by
  have hfailure :
      statusOf ((FileTree.host.runArguments strandedArguments).run {}).1
        = .failure := by
    decide +kernel
  have hfounded : (((FileTree.host.runArguments strandedArguments).run {}).2.at?
      ["gen", "out"]).map Entry.isDirectory = some true := by
    decide +kernel
  generalize hrun :
    (FileTree.host.runArguments strandedArguments).run {} = ended
      at hfailure hfounded ⊢
  obtain ⟨result, t⟩ := ended
  obtain ⟨hiff, hfails, -, -⟩ :=
    run_fails_only_at_the_start FileTree.disk_steadfast hrun
  obtain ⟨fault, t', hstranded⟩ := hiff.1 hfailure
  obtain ⟨hresult, hfatal, -, hat⟩ := hfails fault t' hstranded
  obtain rfl : result = .error fault := hresult
  exact ⟨fault, t, rfl, hfatal, hfounded, fun l hl => (hat l hl).2⟩

end Host

end FlowAtlas
