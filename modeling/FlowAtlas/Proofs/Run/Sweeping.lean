import FlowAtlas.Proofs.Disk.Absence
import FlowAtlas.Proofs.Run.Tracking

/-!
# The deleting, stem by stem

The deleting asks the manifest that it is filling whether a stem is in use, so
what becomes of one stem depends on all the ones before it. To get hold of that,
the walk over projects and stems is laid out as one list of errands, and the
deleting becomes a relation between the list and a log of the removals that were
tried (`Sweep`), each with its faults and with the state in which it left the
disk.

What the deleting does to the report and to the manifest can be read off the log
(`Sweep.pruned`, `Sweep.warnings`, `Sweep.mem_stemsOf`), and the log off the
list of errands: every removal is on an errand (`Sweep.of_mem`), and every
errand is settled, by a removal or by the manifest (`Sweep.settles`). Together
this says that no stem is lost (`pruning_conserves_stems`). Nothing is assumed
about the paths that stems stand for, so the absence of files is that of
`Disk.Deletes`.
-/

namespace FlowAtlas

open OutputDirectory

namespace OutputDirectory

variable {σ : Type} {disk : Disk (StateM σ)} {absent : σ → Path → Prop}

theorem deleteEach_lasting (hdisk : disk.Deletes absent) {paths : List Path}
    {s t : σ} {faults : List Fault}
    (h : (deleteEach disk paths).run s = (faults, t)) {p : Path}
    (hp : absent s p) : absent t p := by
  induction paths generalizing s faults with
  | nil =>
      obtain ⟨rfl, rfl⟩ := run_pure.1 h
      exact hp
  | cons path paths ih =>
      obtain ⟨r, t', more, hremove, hmore, rfl⟩ := deleteEach_turn h
      exact ih hmore (hdisk.lasting hremove hp)

/-- Files that were deleted without a fault are not there, whatever paths they
have. -/
theorem deleteEach_absent (hdisk : disk.Deletes absent) {paths : List Path}
    {s t : σ} (h : (deleteEach disk paths).run s = ([], t)) {p : Path}
    (hp : p ∈ paths) : absent t p := by
  induction paths generalizing s with
  | nil => exact absurd hp List.not_mem_nil
  | cons path paths ih =>
      obtain ⟨r, t', more, hremove, hmore, hfaults⟩ := deleteEach_turn h
      obtain ⟨hfirst, rfl⟩ := List.append_eq_nil_iff.1 hfaults.symm
      rcases List.mem_cons.1 hp with rfl | hp
      · refine deleteEach_lasting hdisk hmore ?_
        cases r with
        | ok a => exact hdisk.removed hremove
        | error e =>
            exact hdisk.missing hremove (staleFaults_eq_nil.1 hfirst e rfl)
      · exact ih hmore hp

end OutputDirectory

namespace Run

theorem Report.pruned_noteAll (r : Report) (category : Category) (unit : String)
    (faults : List Fault) :
    (r.noteAll category unit faults).pruned = r.pruned := by
  induction faults generalizing r with
  | nil => rfl
  | cons fault faults ih => exact ih _

/-! ## Errands -/

/-- What the deleting has to see to: the entry of a project that is kept, or a
stem of one that is not. -/
inductive Errand where
  | keep (project : String)
  | clear (project stem : String)

/-- The errands at a project of the old manifest. -/
def errandsAt (previous : Manifest) (retained : String → Bool)
    (project : String) : List Errand :=
  if retained project then [.keep project]
  else (previous.stemsOf project).map (.clear project)

/-- All errands, in the order of the old manifest. -/
def errands (previous : Manifest) (retained : String → Bool) : List Errand :=
  previous.projects.flatMap (errandsAt previous retained)

/-- A try to delete the files of a stem. -/
structure Removal (σ : Type) where
  project : String
  stem : String
  /-- What could not be deleted. -/
  faults : List Fault
  /-- The state after the try. -/
  after : σ

/-- The warnings about a removal. -/
def Removal.warnings {σ : Type} (r : Removal σ) : List Warning :=
  r.faults.map fun fault => ⟨.cleanup, r.stem, fault.render⟩

/-- The stems of the removals that came to their end. -/
def deleted {σ : Type} (removals : List (Removal σ)) : List String :=
  (removals.filter fun r => r.faults.isEmpty).map Removal.stem

/-- The deleting goes on its errands in turn: where it starts, what it tries to
remove, and where it ends. -/
inductive Sweep {σ : Type} (shop : Workshop (StateM σ)) (previous : Manifest) :
    List Errand → Progress → σ → List (Removal σ) → Progress → σ → Prop
  | done {p : Progress} {s : σ} : Sweep shop previous [] p s [] p s
  | keep {project : String} {rest : List Errand} {p p' : Progress} {s u : σ}
      {removals : List (Removal σ)}
      (h : Sweep shop previous rest
        { p with manifest := p.manifest.takeOver previous project } s removals
        p' u) :
      Sweep shop previous (.keep project :: rest) p s removals p' u
  | inUse {project stem : String} {rest : List Errand} {p p' : Progress}
      {s u : σ} {removals : List (Removal σ)}
      (htracks : p.manifest.tracks stem = true)
      (h : Sweep shop previous rest p s removals p' u) :
      Sweep shop previous (.clear project stem :: rest) p s removals p' u
  | removed {project stem : String} {rest : List Errand} {p p' : Progress}
      {s t u : σ} {removals : List (Removal σ)}
      (htracks : ¬ p.manifest.tracks stem = true)
      (hclear : (shop.output.clearStem shop.disk stem).run s = ([], t))
      (h : Sweep shop previous rest
        { p with report := p.report.addPruned stem } t removals p' u) :
      Sweep shop previous (.clear project stem :: rest) p s
        (⟨project, stem, [], t⟩ :: removals) p' u
  | failed {project stem : String} {rest : List Errand} {p p' : Progress}
      {s t u : σ} {faults : List Fault} {removals : List (Removal σ)}
      (htracks : ¬ p.manifest.tracks stem = true)
      (hclear : (shop.output.clearStem shop.disk stem).run s = (faults, t))
      (hfaults : faults ≠ [])
      (h : Sweep shop previous rest
        ⟨p.report.noteAll .cleanup stem faults, p.manifest.add project stem⟩ t
        removals p' u) :
      Sweep shop previous (.clear project stem :: rest) p s
        (⟨project, stem, faults, t⟩ :: removals) p' u

namespace Sweep

variable {σ : Type} {shop : Workshop (StateM σ)} {previous : Manifest}
  {todo rest : List Errand} {p q p' : Progress} {s t u : σ}
  {removals more : List (Removal σ)}

theorem append (h : Sweep shop previous todo p s removals q t)
    (hrest : Sweep shop previous rest q t more p' u) :
    Sweep shop previous (todo ++ rest) p s (removals ++ more) p' u := by
  induction h with
  | done => exact hrest
  | keep _ ih => exact .keep (ih hrest)
  | inUse htracks _ ih => exact .inUse htracks (ih hrest)
  | removed htracks hclear _ ih => exact .removed htracks hclear (ih hrest)
  | failed htracks hclear hfaults _ ih =>
      exact .failed htracks hclear hfaults (ih hrest)

theorem of_pruneStems {project : String} {stems : List String}
    (h : (shop.pruneStems project stems p).run s = (p', u)) :
    ∃ removals,
      Sweep shop previous (stems.map (.clear project)) p s removals p' u := by
  induction stems generalizing p s with
  | nil =>
      obtain ⟨rfl, rfl⟩ := run_pure.1 h
      exact ⟨[], .done⟩
  | cons stem stems ih =>
      rcases Workshop.pruneStems_cons h with
        ⟨htracks, hrest⟩ | ⟨htracks, faults, t, q, hclear, hrest, hq⟩
      · obtain ⟨removals, hsweep⟩ := ih hrest
        exact ⟨removals, .inUse htracks hsweep⟩
      · obtain ⟨removals, hsweep⟩ := ih hrest
        rcases hq with ⟨rfl, rfl⟩ | ⟨hfaults, rfl⟩
        · exact ⟨_, .removed htracks hclear hsweep⟩
        · exact ⟨_, .failed htracks hclear hfaults hsweep⟩

theorem of_pruneProjects {retained : String → Bool} {projects : List String}
    (h : (shop.pruneProjects previous retained projects p).run s = (p', u)) :
    ∃ removals,
      Sweep shop previous (projects.flatMap (errandsAt previous retained)) p s
        removals p' u := by
  induction projects generalizing p s with
  | nil =>
      obtain ⟨rfl, rfl⟩ := run_pure.1 h
      exact ⟨[], .done⟩
  | cons project projects ih =>
      rw [List.flatMap_cons, errandsAt]
      rcases Workshop.pruneProjects_cons h with
        ⟨hretained, hrest⟩ | ⟨hretained, q, t, hturn, hrest⟩
      · obtain ⟨removals, hsweep⟩ := ih hrest
        rw [if_pos hretained]
        exact ⟨removals, .keep hsweep⟩
      · obtain ⟨removals, hsweep⟩ := of_pruneStems hturn
        obtain ⟨more, hmore⟩ := ih hrest
        rw [if_neg hretained]
        exact ⟨removals ++ more, hsweep.append hmore⟩

/-- The deleting of a run goes on all its errands. -/
theorem of_prune {retained : String → Bool}
    (h : (shop.prune previous retained p).run s = (p', u)) :
    ∃ removals, Sweep shop previous (errands previous retained) p s
      removals p' u :=
  of_pruneProjects h

/-! ## What the log says -/

theorem deleted_cons_removed {project stem : String} :
    deleted (⟨project, stem, [], t⟩ :: removals) = stem :: deleted removals :=
  rfl

theorem deleted_cons_failed {project stem : String} {faults : List Fault}
    (h : faults ≠ []) :
    deleted (⟨project, stem, faults, t⟩ :: removals) = deleted removals := by
  rw [deleted, List.filter_cons_of_neg (by simpa using h)]
  rfl

theorem mem_deleted {stem : String} :
    stem ∈ deleted removals
      ↔ ∃ r ∈ removals, r.stem = stem ∧ r.faults = [] := by
  simp only [deleted, List.mem_map, List.mem_filter, List.isEmpty_iff]
  constructor
  · rintro ⟨r, ⟨hr, hfaults⟩, rfl⟩
    exact ⟨r, hr, rfl, hfaults⟩
  · rintro ⟨r, hr, rfl, hfaults⟩
    exact ⟨r, ⟨hr, hfaults⟩, rfl⟩

theorem pruned (h : Sweep shop previous todo p s removals p' u) :
    p'.report.pruned = p.report.pruned ++ deleted removals := by
  induction h with
  | done => exact (List.append_nil _).symm
  | keep _ ih => exact ih
  | inUse _ _ ih => exact ih
  | removed _ _ _ ih => exact ih.trans (List.append_assoc _ _ _)
  | failed _ _ hfaults _ ih =>
      rw [ih, deleted_cons_failed hfaults, Report.pruned_noteAll]

theorem warnings (h : Sweep shop previous todo p s removals p' u) :
    p'.report.warnings
      = p.report.warnings ++ removals.flatMap Removal.warnings := by
  induction h with
  | done => exact (List.append_nil _).symm
  | keep _ ih => exact ih
  | inUse _ _ ih => exact ih
  | removed _ _ _ ih => exact ih
  | failed _ _ _ _ ih =>
      rw [ih, Report.warnings_noteAll, List.append_assoc]
      rfl

/-- What is on record in the end: what was before, the entries that were taken
over, and what could not be removed. -/
theorem mem_stemsOf (h : Sweep shop previous todo p s removals p' u)
    {project stem : String} :
    stem ∈ p'.manifest.stemsOf project ↔ stem ∈ p.manifest.stemsOf project
      ∨ (.keep project ∈ todo ∧ stem ∈ previous.stemsOf project)
      ∨ ∃ r ∈ removals, r.project = project ∧ r.stem = stem
        ∧ r.faults ≠ [] := by
  induction h with
  | done => simp
  | keep _ ih =>
      rw [ih, Manifest.mem_stemsOf_takeOver, List.mem_cons, Errand.keep.injEq]
      constructor
      · rintro ((⟨rfl, hstem⟩ | hstem) | ⟨hkeep, hstem⟩ | hfailed)
        · exact .inr (.inl ⟨.inl rfl, hstem⟩)
        · exact .inl hstem
        · exact .inr (.inl ⟨.inr hkeep, hstem⟩)
        · exact .inr (.inr hfailed)
      · rintro (hstem | ⟨rfl | hkeep, hstem⟩ | hfailed)
        · exact .inl (.inr hstem)
        · exact .inl (.inl ⟨rfl, hstem⟩)
        · exact .inr (.inl ⟨hkeep, hstem⟩)
        · exact .inr (.inr hfailed)
  | inUse _ _ ih => simp [ih]
  | removed _ _ _ ih => simp [ih]
  | failed _ _ hfaults _ ih =>
      rw [ih, Manifest.mem_stemsOf_add]
      simp only [List.mem_cons, reduceCtorEq, false_or, exists_eq_or_imp]
      constructor
      · rintro ((⟨rfl, rfl⟩ | hstem) | hkept | hfailed)
        · exact .inr (.inr (.inl ⟨rfl, rfl, hfaults⟩))
        · exact .inl hstem
        · exact .inr (.inl hkept)
        · exact .inr (.inr (.inr hfailed))
      · rintro (hstem | hkept | ⟨rfl, rfl, -⟩ | hfailed)
        · exact .inl (.inr hstem)
        · exact .inr (.inl hkept)
        · exact .inl (.inl ⟨rfl, rfl⟩)
        · exact .inr (.inr hfailed)

theorem tracks (h : Sweep shop previous todo p s removals p' u) {stem : String}
    (hstem : p.manifest.tracks stem = true) :
    p'.manifest.tracks stem = true := by
  obtain ⟨project, hproject⟩ := Manifest.tracks_eq_true_iff.1 hstem
  exact Manifest.tracks_of_mem_stemsOf (h.mem_stemsOf.2 (.inl hproject))

/-- A removal is tried on an errand, for a stem that was not in use at the
beginning. -/
theorem of_mem (h : Sweep shop previous todo p s removals p' u) {r : Removal σ}
    (hr : r ∈ removals) :
    .clear r.project r.stem ∈ todo ∧ ¬ p.manifest.tracks r.stem = true
      ∧ ∃ t, (shop.output.clearStem shop.disk r.stem).run t
        = (r.faults, r.after) := by
  induction h with
  | done => exact absurd hr List.not_mem_nil
  | keep _ ih =>
      obtain ⟨htodo, htracks, hclear⟩ := ih hr
      exact ⟨List.mem_cons_of_mem _ htodo,
        fun hstem => htracks (Manifest.tracks_takeOver.2 (.inr hstem)), hclear⟩
  | inUse _ _ ih =>
      obtain ⟨htodo, hrest⟩ := ih hr
      exact ⟨List.mem_cons_of_mem _ htodo, hrest⟩
  | removed htracks hclear _ ih =>
      rcases List.mem_cons.1 hr with rfl | hr
      · exact ⟨List.mem_cons_self, htracks, _, hclear⟩
      · obtain ⟨htodo, hrest⟩ := ih hr
        exact ⟨List.mem_cons_of_mem _ htodo, hrest⟩
  | failed htracks hclear _ _ ih =>
      rcases List.mem_cons.1 hr with rfl | hr
      · exact ⟨List.mem_cons_self, htracks, _, hclear⟩
      · obtain ⟨htodo, hnot, hclear⟩ := ih hr
        exact ⟨List.mem_cons_of_mem _ htodo,
          fun hstem => hnot (Manifest.tracks_add.2 (.inr hstem)), hclear⟩

/-- No errand is forgotten. -/
theorem settles (h : Sweep shop previous todo p s removals p' u)
    {project stem : String} (hmem : .clear project stem ∈ todo) :
    p'.manifest.tracks stem = true ∨ stem ∈ deleted removals := by
  induction h with
  | done => exact absurd hmem List.not_mem_nil
  | keep _ ih =>
      exact ih ((List.mem_cons.1 hmem).resolve_left fun h => nomatch h)
  | inUse htracks hrest ih =>
      rcases List.mem_cons.1 hmem with heq | hmem
      · obtain ⟨-, rfl⟩ := Errand.clear.inj heq
        exact .inl (hrest.tracks htracks)
      · exact ih hmem
  | removed _ _ _ ih =>
      rw [deleted_cons_removed]
      rcases List.mem_cons.1 hmem with heq | hmem
      · obtain ⟨-, rfl⟩ := Errand.clear.inj heq
        exact .inr List.mem_cons_self
      · exact (ih hmem).imp_right (List.mem_cons_of_mem _)
  | failed _ _ hfaults hrest ih =>
      rw [deleted_cons_failed hfaults]
      rcases List.mem_cons.1 hmem with heq | hmem
      · obtain ⟨-, rfl⟩ := Errand.clear.inj heq
        exact .inl (hrest.tracks (Manifest.tracks_add.2 (.inl rfl)))
      · exact ih hmem

end Sweep

variable {σ : Type} {shop : Workshop (StateM σ)} {previous : Manifest}
  {retained : String → Bool}

theorem mem_errands_keep {project : String} :
    .keep project ∈ errands previous retained
      ↔ project ∈ previous.projects ∧ retained project = true := by
  simp only [errands, List.mem_flatMap]
  constructor
  · rintro ⟨other, hother, hmem⟩
    rw [errandsAt] at hmem
    split_ifs at hmem with hretained
    · obtain rfl := Errand.keep.inj (List.mem_singleton.1 hmem)
      exact ⟨hother, hretained⟩
    · obtain ⟨stem, -, heq⟩ := List.mem_map.1 hmem
      exact nomatch heq
  · rintro ⟨hproject, hretained⟩
    exact ⟨project,
      hproject, by rw [errandsAt, if_pos hretained]; exact List.mem_cons_self⟩

theorem mem_errands_clear {project stem : String} :
    .clear project stem ∈ errands previous retained
      ↔ stem ∈ previous.stemsOf project ∧ ¬ retained project = true := by
  simp only [errands, List.mem_flatMap]
  constructor
  · rintro ⟨other, hother, hmem⟩
    rw [errandsAt] at hmem
    split_ifs at hmem with hretained
    · exact nomatch List.mem_singleton.1 hmem
    · obtain ⟨stem', hstem, heq⟩ := List.mem_map.1 hmem
      obtain ⟨rfl, rfl⟩ := Errand.clear.inj heq
      exact ⟨hstem, hretained⟩
  · rintro ⟨hstem, hretained⟩
    refine ⟨project, Manifest.mem_projects_of_mem_stemsOf hstem, ?_⟩
    rw [errandsAt, if_neg hretained]
    exact List.mem_map_of_mem hstem

/-! ## No stem is lost -/

/-- Whatever was on the old record is on the new one, or was deleted with all
its files. What was on the new record stays there and is not touched. What comes
to it is taken over from the old record, for a project that is retained or
because it could not be deleted, and then a warning says so. -/
theorem pruning_conserves_stems {absent : σ → Path → Prop}
    (hdisk : shop.disk.Deletes absent) {p p' : Progress} {s u : σ}
    (h : (shop.prune previous retained p).run s = (p', u)) :
    ∃ removals, Sweep shop previous (errands previous retained)
        p s removals p' u
      ∧ p'.report.pruned = p.report.pruned ++ deleted removals
      ∧ (∀ stem, previous.tracks stem = true → p'.manifest.tracks stem = true
          ∨ ∃ r ∈ removals, r.stem = stem ∧ stem ∈ deleted removals
            ∧ ∀ path ∈ artifactPaths (shop.output.markupFile stem),
              absent r.after path)
      ∧ (∀ project stem, stem ∈ p.manifest.stemsOf project →
          stem ∈ p'.manifest.stemsOf project)
      ∧ (∀ project stem, stem ∈ p'.manifest.stemsOf project →
          stem ∉ p.manifest.stemsOf project → stem ∈ previous.stemsOf project
            ∧ (retained project = true
              ∨ ∃ r ∈ removals, r.project = project ∧ r.stem = stem
              ∧ r.faults ≠ [] ∧ r.warnings ⊆ p'.report.warnings))
      ∧ ∀ r ∈ removals, ¬ p.manifest.tracks r.stem = true := by
  obtain ⟨removals, hsweep⟩ := Sweep.of_prune h
  refine ⟨removals, hsweep, hsweep.pruned, fun stem hstem => ?_,
    fun project stem hstem =>
    hsweep.mem_stemsOf.2 (.inl hstem), fun project stem hstem hnew =>
      ?_, fun r hr =>
    (hsweep.of_mem hr).2.1⟩
  · obtain ⟨project, hproject⟩ := Manifest.tracks_eq_true_iff.1 hstem
    by_cases hretained : retained project = true
    · have hkeep := mem_errands_keep.2
        ⟨Manifest.mem_projects_of_mem_stemsOf hproject, hretained⟩
      exact .inl (Manifest.tracks_of_mem_stemsOf
        (hsweep.mem_stemsOf.2 (.inr (.inl ⟨hkeep, hproject⟩))))
    · rcases hsweep.settles (mem_errands_clear.2 ⟨hproject, hretained⟩) with
        htracks | hdeleted
      · exact .inl htracks
      · obtain ⟨r, hr, rfl, hfaults⟩ := Sweep.mem_deleted.1 hdeleted
        obtain ⟨-, -, t, hclear⟩ := hsweep.of_mem hr
        rw [hfaults] at hclear
        exact .inr
          ⟨r, hr, rfl, hdeleted, fun path => deleteEach_absent hdisk hclear⟩
  · rcases hsweep.mem_stemsOf.1 hstem with
      hold | ⟨hkeep, hstem⟩ | ⟨r, hr, rfl, rfl, hfaults⟩
    · exact absurd hold hnew
    · exact ⟨hstem, .inl (mem_errands_keep.1 hkeep).2⟩
    · refine ⟨(mem_errands_clear.1 (hsweep.of_mem hr).1).1,
        .inr ⟨r, hr, rfl, rfl, hfaults, fun w hw => ?_⟩⟩
      rw [hsweep.warnings]
      exact List.mem_append_right _ (List.mem_flatMap.2 ⟨r, hr, hw⟩)

/-! ## A stem that cannot be deleted -/

/-- An output directory with the files of two stems, where a directory is in the
way of a raster of the second one. -/
def blockedTree : FileTree :=
  ((sampleTree.put ["out", "A_C_M.mmd"]
    (.file "flowchart TD\n".toUTF8 false)).put
    ["out", "B_C_M.mmd"] (.file "flowchart TD\n".toUTF8 false)).put
    ["out", "B_C_M.svg"] .directory

/-- The record of three projects. -/
def blockedRecord : Manifest :=
  ((Manifest.empty.add "A" "A_C_M").add "B" "B_C_M").add "C" "C_C_M"

/-- What the sample runs work with. -/
def blockedShop : Workshop (StateM FileTree) :=
  ⟨FileTree.disk, FileTree.painter [] ⟨"out"⟩ samplePaint, ⟨"out"⟩⟩

/-- The third project is retained. -/
def retainsThird (project : String) : Bool := project = "C"

/-- The deleting in that directory. -/
def blockedPrune : Progress × FileTree :=
  (blockedShop.prune blockedRecord retainsThird {}).run blockedTree

/-- The first stem is deleted. The second one stays on record with a warning,
and so does that of the third project. -/
theorem blocked_stem_stays_on_record :
    blockedPrune.1.report.pruned = ["A_C_M"]
      ∧ "C_C_M" ∈ blockedPrune.1.manifest.stemsOf "C"
      ∧ "B_C_M" ∈ blockedPrune.1.manifest.stemsOf "B"
      ∧ ∃ removals,
          Sweep blockedShop blockedRecord
            (errands blockedRecord retainsThird) {} blockedTree removals
            blockedPrune.1 blockedPrune.2
          ∧ (∃ r ∈ removals, r.stem = "A_C_M"
            ∧ ∀ path ∈ artifactPaths
                (OutputDirectory.markupFile ⟨"out"⟩ "A_C_M"),
                r.after.Absent path)
          ∧ ∃ r ∈ removals, r.stem = "B_C_M" ∧ r.faults ≠ []
            ∧ r.warnings ⊆ blockedPrune.1.report.warnings := by
  have hend : blockedPrune.1.report.pruned = ["A_C_M"]
      ∧ blockedPrune.1.manifest.tracks "A_C_M" = false
      ∧ "C_C_M" ∈ blockedPrune.1.manifest.stemsOf "C"
      ∧ "B_C_M" ∈ blockedPrune.1.manifest.stemsOf "B" := by
    decide +kernel
  generalize hresult : blockedPrune = result at hend ⊢
  obtain ⟨p', u⟩ := result
  obtain ⟨hpruned, huntracked, hretained, hstuck⟩ := hend
  obtain ⟨removals, hsweep, -, hconserved, -, hadded, -⟩ :=
    @pruning_conserves_stems FileTree _ _ _
      FileTree.Absent FileTree.disk_deletes _ _ _ _ hresult
  refine ⟨hpruned, hretained, hstuck, removals, hsweep, ?_, ?_⟩
  · rcases hconserved "A_C_M" (by decide) with
      htracks | ⟨r, hr, hstem, -, habsent⟩
    · exact absurd (huntracked.symm.trans htracks) Bool.false_ne_true
    · exact ⟨r, hr, hstem, habsent⟩
  · obtain ⟨-, hkept | ⟨r, hr, -, hfailed⟩⟩ :=
      hadded "B" "B_C_M" hstuck List.not_mem_nil
    · exact absurd hkept (by decide)
    · exact ⟨r, hr, hfailed⟩

end Run

end FlowAtlas
