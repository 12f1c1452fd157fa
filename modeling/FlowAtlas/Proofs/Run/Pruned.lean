import FlowAtlas.Proofs.Artifacts.Settling
import FlowAtlas.Proofs.Run.Retention
import FlowAtlas.Proofs.Run.Sweeping

/-!
# The list of deleted stems and the manifest

The report lists the stems whose files were deleted, the manifest those that a
run knows about. One would expect that no stem is listed twice, and that none is
listed and still on record. That is so for every stem that one project had on
record. With several projects it is not: a project that is not retained has the
stem deleted once more, since deleting files that are not there succeeds, and a
project that is retained takes the stem over after it was deleted.

So the two agree exactly if each deleted stem was on record for one project
(`pruned_agrees_iff`). The proof counts. Each errand about a stem either deletes
it or ends all that is done about it, by putting it on record; a stem that is
off the record in the end was deleted on each of its errands
(`Sweep.count_of_not_tracks`), and one that has come to be on record was deleted
on fewer (`Sweep.count_lt`).
-/

namespace FlowAtlas

open OutputDirectory

namespace Manifest

variable {m : Manifest} {stem project : String}

/-- One project has a stem on record, or none has, or several have. -/
theorem countP_records_eq_one_iff :
    m.projects.countP (m.records stem) = 1
      ↔ ∃! project, stem ∈ m.stemsOf project := by
  have hmem : ∀ project, project ∈ m.projects.filter (m.records stem)
      ↔ stem ∈ m.stemsOf project := by
    intro project
    rw [List.mem_filter, records_iff]
    exact ⟨And.right, fun h => ⟨mem_projects_of_mem_stemsOf h, h⟩⟩
  have hnodup : (m.projects.filter (m.records stem)).Nodup :=
    (m.ascending_projects.imp fun hlt => String.ne_of_lt hlt).filter _
  rw [List.countP_eq_length_filter, List.length_eq_one_iff]
  constructor
  · rintro ⟨project, heq⟩
    refine ⟨project, (hmem project).1 (heq ▸ List.mem_singleton_self _),
      fun other hother => ?_⟩
    exact List.mem_singleton.1 (heq ▸ (hmem other).2 hother)
  · rintro ⟨project, hproject, hunique⟩
    refine ⟨project, List.perm_singleton.1 ?_⟩
    refine (List.perm_ext_iff_of_nodup hnodup (List.nodup_singleton _)).2
      fun other => ?_
    rw [hmem, List.mem_singleton]
    exact ⟨hunique other, fun heq => heq ▸ hproject⟩

end Manifest

namespace Run

variable {σ : Type} {shop : Workshop (StateM σ)} {previous : Manifest}
  {retained : String → Bool}

/-! ## The errands about a stem -/

/-- Whether an errand is about a stem. -/
def Errand.concerns (previous : Manifest) (stem : String) : Errand → Bool
  | .keep project => previous.records stem project
  | .clear _ other => other == stem

theorem countP_errandsAt (stem project : String) :
    (errandsAt previous retained project).countP (Errand.concerns previous stem)
      = if previous.records stem project then 1 else 0 := by
  rw [errandsAt]
  by_cases hretained : retained project = true
  · rw [if_pos hretained, List.countP_singleton]
    rfl
  · rw [if_neg hretained, List.countP_map]
    have hnodup : (previous.stemsOf project).Nodup :=
      (previous.ascending_stemsOf project).imp fun hlt => String.ne_of_lt hlt
    show (previous.stemsOf project).count stem = _
    by_cases hrecords : previous.records stem project = true
    · rw [if_pos hrecords]
      exact List.count_eq_one_of_mem hnodup (Manifest.records_iff.1 hrecords)
    · rw [if_neg hrecords]
      exact List.count_eq_zero.2 fun hmem =>
        hrecords (Manifest.records_iff.2 hmem)

/-- There is one errand about a stem for each project that has it on record. -/
theorem countP_errands (stem : String) :
    (errands previous retained).countP (Errand.concerns previous stem)
      = previous.projects.countP (previous.records stem) := by
  rw [errands]
  induction previous.projects with
  | nil => rfl
  | cons project projects ih =>
      rw [List.flatMap_cons, List.countP_append, ih, countP_errandsAt,
        List.countP_cons, Nat.add_comm]

namespace Sweep

variable {todo : List Errand} {p p' : Progress} {s u : σ}
  {removals : List (Removal σ)} {stem : String}

theorem count_of_tracks (h : Sweep shop previous todo p s removals p' u)
    (hstart : p.manifest.tracks stem = true) :
    (deleted removals).count stem = 0 := by
  refine List.count_eq_zero.2 fun hmem => ?_
  obtain ⟨r, hr, rfl, -⟩ := mem_deleted.1 hmem
  exact (h.of_mem hr).2.1 hstart

theorem count_of_not_tracks (h : Sweep shop previous todo p s removals p' u)
    (hend : ¬ p'.manifest.tracks stem = true) :
    (deleted removals).count stem
      = todo.countP (Errand.concerns previous stem) := by
  induction h with
  | done => rfl
  | @keep project _ _ _ _ _ _ hrest ih =>
      have hother : ¬ Errand.concerns previous stem (.keep project) = true :=
        fun hrecords =>
          hend (hrest.tracks
            (Manifest.tracks_takeOver.2 (.inl
              (Manifest.records_iff.1 hrecords))))
      rw [List.countP_cons_of_neg hother, ih hend]
  | @inUse project other _ _ _ _ _ _ htracks hrest ih =>
      have hother :
          ¬ Errand.concerns previous stem (.clear project other) = true := by
        intro heq
        obtain rfl := eq_of_beq heq
        exact hend (hrest.tracks htracks)
      rw [List.countP_cons_of_neg hother, ih hend]
  | removed _ _ _ ih =>
      rw [deleted_cons_removed, List.count_cons, List.countP_cons, ih hend]
      rfl
  | @failed project other _ _ _ _ _ _ _ _ _ _ hfaults hrest ih =>
      have hother :
          ¬ Errand.concerns previous stem (.clear project other) = true := by
        intro heq
        obtain rfl := eq_of_beq heq
        exact hend (hrest.tracks (Manifest.tracks_add.2 (.inl rfl)))
      rw [deleted_cons_failed hfaults, List.countP_cons_of_neg hother, ih hend]

theorem count_lt (h : Sweep shop previous todo p s removals p' u)
    (hstart : ¬ p.manifest.tracks stem = true)
    (hend : p'.manifest.tracks stem = true) :
    (deleted removals).count stem
      < todo.countP (Errand.concerns previous stem) := by
  induction h with
  | done => exact absurd hend hstart
  | @keep project _ p _ _ _ _ hrest ih =>
      by_cases hrecords : Errand.concerns previous stem (.keep project) = true
      · -- Taken over, the stem is in use, and nothing more is deleted of it.
        have htaken :
            (p.manifest.takeOver previous project).tracks stem = true :=
          Manifest.tracks_takeOver.2 (.inl (Manifest.records_iff.1 hrecords))
        rw [List.countP_cons_of_pos hrecords, hrest.count_of_tracks htaken]
        exact Nat.succ_pos _
      · rw [List.countP_cons_of_neg hrecords]
        refine ih (fun htaken => ?_) hend
        rcases Manifest.tracks_takeOver.1 htaken with hmem | hmem
        · exact hrecords (Manifest.records_iff.2 hmem)
        · exact hstart hmem
  | @inUse project other _ _ _ _ _ _ htracks _ ih =>
      have hother :
          ¬ Errand.concerns previous stem (.clear project other) = true := by
        intro heq
        obtain rfl := eq_of_beq heq
        exact hstart htracks
      rw [List.countP_cons_of_neg hother]
      exact ih hstart hend
  | removed _ _ _ ih =>
      rw [deleted_cons_removed, List.count_cons, List.countP_cons]
      exact Nat.add_lt_add_right (ih hstart hend) _
  | @failed project other _ _ _ _ _ _ _ _ _ _ hfaults hrest ih =>
      rw [deleted_cons_failed hfaults]
      by_cases hsame :
        Errand.concerns previous stem (.clear project other) = true
      · obtain rfl := eq_of_beq hsame
        rw [List.countP_cons_of_pos hsame,
          hrest.count_of_tracks (Manifest.tracks_add.2 (.inl rfl))]
        exact Nat.succ_pos _
      · rw [List.countP_cons_of_neg hsame]
        refine ih (fun hadded => ?_) hend
        rcases Manifest.tracks_add.1 hadded with rfl | hmem
        · exact hsame (beq_self_eq_true _)
        · exact hstart hmem

/-- The stems that were deleted differ from each other and are off the record,
exactly if each of them has one errand. -/
theorem agrees_iff (h : Sweep shop previous todo p s removals p' u) :
    ((deleted removals).Nodup
        ∧ ∀ stem ∈ deleted removals, ¬ p'.manifest.tracks stem = true)
      ↔ ∀ stem ∈ deleted removals,
        todo.countP (Errand.concerns previous stem) = 1 := by
  constructor
  · rintro ⟨hnodup, hoff⟩ stem hstem
    rw [← h.count_of_not_tracks (hoff stem hstem)]
    exact List.count_eq_one_of_mem hnodup hstem
  · intro hone
    have hoff :
        ∀ stem ∈ deleted removals, ¬ p'.manifest.tracks stem = true := by
      intro stem hstem hend
      have hpos := List.count_pos_iff.2 hstem
      by_cases hstart : p.manifest.tracks stem = true
      · rw [h.count_of_tracks hstart] at hpos
        exact Nat.lt_irrefl _ hpos
      · have hlt := h.count_lt hstart hend
        rw [hone stem hstem] at hlt
        omega
    refine ⟨List.nodup_iff_count_le_one.2 fun stem => ?_, hoff⟩
    by_cases hstem : stem ∈ deleted removals
    · rw [h.count_of_not_tracks (hoff stem hstem), hone stem hstem]
    · rw [List.count_eq_zero.2 hstem]
      exact Nat.zero_le 1

end Sweep

/-! ## The other stages delete no stems -/

namespace Workshop

theorem renderEach_pruned {markup : Path} {formats : List Raster}
    {report report' : Report} {s u : σ}
    (h : (shop.renderEach markup formats report).run s = (report', u)) :
    report'.pruned = report.pruned := by
  induction formats generalizing report s with
  | nil =>
      obtain ⟨rfl, rfl⟩ := run_pure.1 h
      rfl
  | cons format formats ih =>
      obtain ⟨r, t, -, hrest⟩ := renderEach_turn h
      rw [ih hrest]
      cases r <;> rfl

theorem perform_pruned {task : Task} {p p' : Progress} {s u : σ}
    (h : (shop.perform p task).run s = (p', u)) :
    p'.report.pruned = p.report.pruned := by
  cases task with
  | skip project fault =>
      obtain ⟨rfl, rfl⟩ := run_pure.1 h
      rfl
  | miss unit fault =>
      obtain ⟨rfl, rfl⟩ := run_pure.1 h
      rfl
  | draw d =>
      obtain ⟨stale, t, r, t', -, -,
          ⟨fault, -, -, rfl⟩ | ⟨-, report, hrender, rfl⟩⟩ := draw_run h
      · exact Report.pruned_noteAll _ _ _ _
      · exact (renderEach_pruned hrender).trans (Report.pruned_noteAll _ _ _ _)

theorem performAll_pruned {tasks : List Task} {p p' : Progress} {s u : σ}
    (h : (shop.performAll tasks p).run s = (p', u)) :
    p'.report.pruned = p.report.pruned := by
  induction tasks generalizing p s with
  | nil =>
      obtain ⟨rfl, rfl⟩ := run_pure.1 h
      rfl
  | cons task tasks ih =>
      obtain ⟨q, t, hperform, hrest⟩ := performAll_cons h
      exact (ih hrest).trans (perform_pruned hperform)

theorem loadPrevious_pruned {report : Report} {s u : σ}
    (h : shop.loadPrevious.run s = ((previous, report), u)) :
    report.pruned = [] := by
  obtain ⟨r, -, ⟨-, rfl⟩ | ⟨fault, -, -, rfl⟩⟩ := loadPrevious_run h
  · rfl
  · rfl

theorem storeManifest_pruned {p : Progress} {report : Report} {s u : σ}
    (h : (shop.storeManifest p).run s = (report, u)) :
    report.pruned = p.report.pruned := by
  obtain ⟨r, -, ⟨-, rfl⟩ | ⟨-, fault, rfl⟩⟩ := storeManifest_run h
  · rfl
  · rfl

theorem drawArchitecture_pruned {texts : Architecture.Texts}
    {report report' : Report} {s u : σ}
    (h : (shop.drawArchitecture texts report).run s = (report', u)) :
    report'.pruned = report.pruned := by
  obtain ⟨stale, t, r, t', -, -, ⟨fault, -, -, rfl⟩ | ⟨-, hrender⟩⟩ :=
    drawArchitecture_run h
  · exact Report.pruned_noteAll _ _ _ _
  · exact (renderEach_pruned hrender).trans (Report.pruned_noteAll _ _ _ _)

end Workshop

/-! ## A run -/

/-- The stems that a run reports are those that its sweep deleted. -/
theorem pruned_eq {tasks : List Task} {todo : List Errand} {p q : Progress}
    {texts : Architecture.Texts} {loaded saved report : Report}
    {s t₁ t₂ t₃ t₄ u : σ} {removals : List (Removal σ)}
    (hload : shop.loadPrevious.run s = ((previous, loaded), t₁))
    (hperform : (shop.performAll tasks { report := loaded }).run t₁ = (p, t₂))
    (hsweep : Sweep shop previous todo p t₂ removals q t₃)
    (hstore : (shop.storeManifest q).run t₃ = (saved, t₄))
    (hdraw : (shop.drawArchitecture texts saved).run t₄ = (report, u)) :
    report.pruned = deleted removals := by
  rw [Workshop.drawArchitecture_pruned hdraw,
    Workshop.storeManifest_pruned hstore, hsweep.pruned,
    Workshop.performAll_pruned hperform, Workshop.loadPrevious_pruned hload]
  rfl

/-- The deleted stems that a run reports differ from each other and are off the
record in the manifest that it saves, exactly if each of them was on record for
one project. -/
theorem pruned_agrees_iff (shop : Workshop (StateM σ)) (source : GraphSource)
    (filter : Option String) (bounds : Architecture.Bounds) (s : σ) :
    let previous := (shop.loadPrevious.run s).1.1
    let saved := ((shop.prepare source filter).run s).1.manifest
    let report := ((run shop source filter bounds).run s).1
    (report.pruned.Nodup ∧ ∀ stem ∈ report.pruned, ¬ saved.tracks stem = true)
      ↔ ∀ stem ∈ report.pruned, ∃! project,
        stem ∈ previous.stemsOf project := by
  generalize hrun : (run shop source filter bounds).run s = result
  obtain ⟨report, u⟩ := result
  obtain ⟨previous, loaded, t₁, p, t₂, q, t₃, stored, t₄, hload, hperform,
    hprune, hstore, hdraw⟩ := run_run hrun
  have hprepare : (shop.prepare source filter).run s = (q, t₃) :=
    run_bind.2 ⟨_, _, hload, run_bind.2 ⟨_, _, hperform, hprune⟩⟩
  obtain ⟨removals, hsweep⟩ := Sweep.of_prune hprune
  dsimp only
  rw [hprepare, hload, pruned_eq hload hperform hsweep hstore hdraw,
    hsweep.agrees_iff]
  simp only [countP_errands, Manifest.countP_records_eq_one_iff]

/-! ## Three projects with one stem -/

/-- The record of three projects that share a stem. -/
def threefoldRecord : Manifest :=
  ((Manifest.empty.add "A" "A_B_C_D_M").add "A B" "A_B_C_D_M").add
    "A B C" "A_B_C_D_M"

/-- An output directory with that record, and with the markup of the stem. -/
def threefoldTree : FileTree :=
  (sampleTree.put ["out", ".cfgflow-artifacts.json"]
    (.file threefoldRecord.toText.toUTF8 false)).put ["out", "A_B_C_D_M.mmd"]
      (.file "flowchart TD\n".toUTF8 false)

/-- What a later run finds: the third project cannot be used, and the others are
gone. -/
def threefoldSource : GraphSource :=
  Snapshot.source { projects :=
    [{ name := "A B C", diagnostics := ["broken"] }] }

/-- The stem is deleted for each of the two projects that are gone, and the
manifest that is saved has it on record for the third one. -/
theorem shared_stem_deleted_twice :
    let saved :=
      ((blockedShop.prepare threefoldSource none).run threefoldTree).1.manifest
    let report :=
      ((run blockedShop threefoldSource none {}).run threefoldTree).1
    report.pruned = ["A_B_C_D_M", "A_B_C_D_M"] ∧ ¬ report.pruned.Nodup
      ∧ ¬ ∀ stem ∈ report.pruned, ¬ saved.tracks stem = true := by
  decide +kernel

end Run

end FlowAtlas
