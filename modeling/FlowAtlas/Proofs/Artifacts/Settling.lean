import FlowAtlas.Proofs.Artifacts.Manifest
import Mathlib.Data.List.Sort

/-!
# The record settles

What deleting makes of a manifest depends on the manifest of the run before, on
which projects are retained, and on which stems are stuck, that is, have files
that cannot be deleted. Here it is said without any files (`settle`).

A stem that is stuck goes on record for the first project that asks for it, and
for no project if it is in use. So the result depends on the order of the
projects, and a run hands it to the next one as the manifest of the run before.
That changes nothing (`settle_settle`): what is on record for a project is
described by what is on record for the projects in front of it (`mem_settle`),
and the description holds for the old manifest and for the new one alike.
-/

namespace FlowAtlas.Manifest

/-! ## Manifests with the same entries -/

instance : Std.Irrefl (α := String) (· < ·) := ⟨fun s => String.lt_irrefl s⟩

instance : Std.Antisymm (α := String) (· < ·) :=
  ⟨fun _ _ h h' => absurd h' (Text.not_lt_of_lt h)⟩

theorem lookup_of_mem_projects {m : Manifest} {q : String}
    (h : q ∈ m.projects) :
    m.entries.lookup q = some (m.stemsOf q) := by
  obtain ⟨⟨q', stems⟩, hmem, rfl⟩ := List.mem_map.1 h
  rw [stemsOf, Text.lookup_eq_some_of_mem m.projects_ascending hmem]
  rfl

theorem ascending_projects (m : Manifest) : Text.Ascending m.projects :=
  List.pairwise_map.2 m.projects_ascending

theorem ascending_stemsOf (m : Manifest) (q : String) :
    Text.Ascending (m.stemsOf q) := by
  unfold stemsOf
  cases hlookup : m.entries.lookup q with
  | none => exact List.Pairwise.nil
  | some stems => exact m.stems_ascending _ (Text.mem_of_lookup_eq_some hlookup)

theorem entries_eq
    (m : Manifest) : m.entries = m.projects.map fun q => (q, m.stemsOf q) := by
  rw [projects, List.map_map]
  refine (List.map_id _).symm.trans (List.map_congr_left fun e he => ?_)
  have hlookup := Text.lookup_eq_some_of_mem m.projects_ascending
    (show (e.1, e.2) ∈ m.entries from he)
  show e = (e.1, m.stemsOf e.1)
  rw [stemsOf, hlookup]
  rfl

/-- A manifest is told by its projects and their stems. -/
theorem eq_of_mem_iff {m n : Manifest}
    (hprojects : ∀ q, q ∈ m.projects ↔ q ∈ n.projects)
    (hstems : ∀ q s, s ∈ m.stemsOf q ↔ s ∈ n.stemsOf q) : m = n := by
  have hsame : m.projects = n.projects :=
    m.ascending_projects.eq_of_mem_iff n.ascending_projects hprojects
  have hlists : m.stemsOf = n.stemsOf := funext fun q =>
    (m.ascending_stemsOf q).eq_of_mem_iff (n.ascending_stemsOf q) (hstems q)
  refine eq_of_entries ?_
  rw [entries_eq, entries_eq, hsame, hlists]

theorem mem_projects_iff {m : Manifest} {q : String} :
    q ∈ m.projects ↔ m.entries.lookup q ≠ none := by
  constructor
  · intro h
    rw [lookup_of_mem_projects h]
    exact Option.some_ne_none _
  · intro h
    obtain ⟨stems, hlookup⟩ := Option.ne_none_iff_exists'.1 h
    exact List.mem_map.2 ⟨(q, stems), Text.mem_of_lookup_eq_some hlookup, rfl⟩

theorem mem_projects_change {m : Manifest} {project : String}
    {f : List String → List String}
    {hf : ∀ ts, Text.Ascending ts → Text.Ascending (f ts)} {q : String} :
    q ∈ (m.change project f hf).projects ↔ q = project ∨ q ∈ m.projects := by
  rw [mem_projects_iff, mem_projects_iff]
  show (Text.update project [] f m.entries).lookup q ≠ none ↔ _
  rw [Text.lookup_update m.projects_ascending]
  by_cases hq : q = project
  · simp [hq]
  · simp [hq]

theorem mem_projects_add {m : Manifest} {project stem q : String} :
    q ∈ (m.add project stem).projects ↔ q = project ∨ q ∈ m.projects :=
  mem_projects_change

theorem mem_projects_takeOver {m other : Manifest} {project q : String} :
    q ∈ (m.takeOver other project).projects
      ↔ (q = project ∧ project ∈ other.projects) ∨ q ∈ m.projects := by
  unfold takeOver
  split
  · next hnone =>
      have hnot : project ∉ other.projects :=
        fun h => mem_projects_iff.1 h hnone
      simp [hnot]
  · next stems hsome =>
      have hmem : project ∈ other.projects :=
        mem_projects_iff.2 (by rw [hsome]; exact Option.some_ne_none _)
      rw [mem_projects_change]
      simp [hmem]

/-! ## Settling -/

/-- Puts the stems that are stuck on record for a project, but for those that
are in use. -/
def settleStems (stuck : String → Bool)
    (project : String) : List String → Manifest → Manifest
  | [], m => m
  | stem :: stems, m =>
    settleStems stuck project stems
      (if !m.tracks stem && stuck stem then m.add project stem else m)

/-- What a project has on record in the end: what is retained keeps its entry,
and the others keep the stems that are stuck. -/
def settleProject (stuck retained : String → Bool) (previous : Manifest)
    (project : String) (m : Manifest) : Manifest :=
  if retained project then m.takeOver previous project
  else settleStems stuck project (previous.stemsOf project) m

/-- Goes through the projects of the earlier manifest. -/
def settle (stuck retained : String → Bool) (previous : Manifest) :
    List String → Manifest → Manifest
  | [], m => m
  | project :: projects, m =>
    settle stuck retained previous projects
      (settleProject stuck retained previous project m)

variable {stuck retained : String → Bool} {previous m : Manifest}
  {project q s : String}

theorem mem_settleStems {stems : List String} :
    s ∈ (settleStems stuck project stems m).stemsOf q ↔ s ∈ m.stemsOf q
      ∨ q = project ∧ s ∈ stems ∧ stuck s = true ∧ ¬ m.tracks s = true := by
  induction stems generalizing m with
  | nil => simp [settleStems]
  | cons stem stems ih =>
      rw [settleStems, ih, List.mem_cons]
      by_cases hfresh : ¬ m.tracks stem = true ∧ stuck stem = true
      · rw [if_pos (by simpa using hfresh), mem_stemsOf_add, tracks_add]
        by_cases hs : s = stem
        · subst hs
          simp only [hfresh.1, hfresh.2]
          simp [or_comm]
        · simp [hs]
      · rw [if_neg (by simpa using hfresh)]
        by_cases hs : s = stem
        · subst hs
          have hnot : ¬ (stuck s = true ∧ ¬ m.tracks s = true) :=
            fun h => hfresh ⟨h.2, h.1⟩
          simp only [hnot, and_false]
        · simp [hs]

theorem mem_projects_settleStems {stems : List String} :
    q ∈ (settleStems stuck project stems m).projects ↔ q ∈ m.projects
      ∨ ∃ s, s ∈ (settleStems stuck project stems m).stemsOf q := by
  induction stems generalizing m with
  | nil =>
      exact ⟨.inl, fun h => h.elim (fun h => h) fun ⟨_, hs⟩ =>
        mem_projects_of_mem_stemsOf hs⟩
  | cons stem stems ih =>
      rw [settleStems, ih]
      split
      · rw [mem_projects_add]
        constructor
        · rintro ((rfl | h) | h)
          · exact .inr
              ⟨stem, mem_settleStems.2
                (.inl (mem_stemsOf_add.2 (.inl ⟨rfl, rfl⟩)))⟩
          · exact .inl h
          · exact .inr h
        · exact Or.imp_left .inr
      · exact Iff.rfl

/-! ### One project -/

theorem mem_settleProject :
    s ∈ (settleProject stuck retained previous project m).stemsOf q ↔
    s ∈ m.stemsOf q ∨ q = project ∧ s ∈ previous.stemsOf project
      ∧ (retained project = true ∨ stuck s = true ∧ ¬ m.tracks s = true) := by
  unfold settleProject
  split
  · next hretained =>
      rw [mem_stemsOf_takeOver]
      simp [hretained, or_comm]
  · next hretained =>
      rw [mem_settleStems]
      simp [hretained]

theorem mem_projects_settleProject :
    q ∈ (settleProject stuck retained previous project m).projects
      ↔ q ∈ m.projects
      ∨ (q = project ∧ retained project = true ∧ project ∈ previous.projects)
      ∨ ∃ s, s
        ∈ (settleProject stuck retained previous project m).stemsOf q := by
  unfold settleProject
  split
  · next hretained =>
      rw [mem_projects_takeOver]
      constructor
      · rintro (⟨hq, hmem⟩ | h)
        · exact .inr (.inl ⟨hq, hretained, hmem⟩)
        · exact .inl h
      · rintro (h | ⟨hq, -, hmem⟩ | ⟨s, hs⟩)
        · exact .inr h
        · exact .inl ⟨hq, hmem⟩
        · rcases mem_stemsOf_takeOver.1 hs with ⟨hq, hs⟩ | hs
          · exact .inl ⟨hq, mem_projects_of_mem_stemsOf hs⟩
          · exact .inr (mem_projects_of_mem_stemsOf hs)
  · next hretained =>
      rw [mem_projects_settleStems]
      simp [hretained]

theorem tracks_settleProject :
    (settleProject stuck retained previous project m).tracks s = true
      ↔ m.tracks s = true
      ∨ s ∈ (settleProject stuck retained previous project m).stemsOf
        project := by
  rw [tracks_eq_true_iff, tracks_eq_true_iff]
  constructor
  · rintro ⟨q, hq⟩
    rcases mem_settleProject.1 hq with hm | ⟨rfl, -⟩
    · exact .inl ⟨q, hm⟩
    · exact .inr hq
  · rintro (⟨q, hq⟩ | hs)
    · exact ⟨q, mem_settleProject.2 (.inl hq)⟩
    · exact ⟨project, hs⟩

/-! ### All projects -/

/-- What is on record for a project depends on the projects in front of it: a
stem that is stuck is on record unless it is in use or on record for one of
these. -/
theorem mem_settle {projects : List String}
    (hascending : Text.Ascending projects) :
    s ∈ (settle stuck retained previous projects m).stemsOf q ↔ s ∈ m.stemsOf q
      ∨ q ∈ projects ∧ s ∈ previous.stemsOf q
        ∧ (retained q = true ∨ stuck s = true
          ∧ ¬ m.tracks s = true ∧ ∀ other ∈ projects, other < q →
            s ∉ (settle stuck retained previous projects m).stemsOf other) := by
  induction projects generalizing m q with
  | nil => simp [settle]
  | cons first projects ih =>
      obtain ⟨hfirst, hascending⟩ := List.pairwise_cons.1 hascending
      have hnot : first ∉ projects :=
        fun hmem => String.lt_irrefl _ (hfirst first hmem)
      -- The first project has all that it will have after its own turn.
      have hturn : s
            ∈ (settle stuck retained previous (first :: projects) m).stemsOf
              first
          ↔ s ∈ (settleProject stuck retained previous first m).stemsOf
            first := by
        rw [settle, ih hascending]
        simp [hnot]
      by_cases hq : q = first
      · subst hq
        have hfront : ∀ other ∈ q :: projects, ¬ other < q := by
          intro other hother hlt
          rcases List.mem_cons.1 hother with rfl | hother
          · exact String.lt_irrefl _ hlt
          · exact Text.not_lt_of_lt hlt (hfirst other hother)
        rw [hturn, mem_settleProject]
        constructor
        · rintro (hs | ⟨-, hs, hretained | ⟨hstuck, htracks⟩⟩)
          · exact .inl hs
          · exact .inr ⟨List.mem_cons_self, hs, .inl hretained⟩
          · exact .inr ⟨List.mem_cons_self, hs, .inr ⟨hstuck, htracks,
              fun other hother hlt => absurd hlt (hfront other hother)⟩⟩
        · rintro (hs | ⟨-, hs, hretained | ⟨hstuck, htracks, -⟩⟩)
          · exact .inl hs
          · exact .inr ⟨rfl, hs, .inl hretained⟩
          · exact .inr ⟨rfl, hs, .inr ⟨hstuck, htracks⟩⟩
      · have hbefore :
            s ∈ (settleProject stuck retained previous first m).stemsOf q
              ↔ s ∈ m.stemsOf q := by
          rw [mem_settleProject]
          simp [hq]
        have hfree :
            ¬ (settleProject stuck retained previous first m).tracks s = true
              ↔ ¬ m.tracks s = true
                ∧ s ∉ (settle stuck retained previous (first :: projects)
                  m).stemsOf first := by
          rw [tracks_settleProject, hturn, not_or]
        rw [settle, ih hascending, hbefore, hfree, List.mem_cons]
        refine or_congr_right ?_
        constructor
        · rintro ⟨hmem, hs, hretained | ⟨hstuck, ⟨htracks, hother⟩, hothers⟩⟩
          · exact ⟨.inr hmem, hs, .inl hretained⟩
          · exact ⟨.inr hmem, hs, .inr ⟨hstuck, htracks,
              List.forall_mem_cons.2 ⟨fun _ => hother, hothers⟩⟩⟩
        · rintro ⟨hmem, hs, hcondition⟩
          have hmem := hmem.resolve_left hq
          refine ⟨hmem, hs, hcondition.imp_right ?_⟩
          rintro ⟨hstuck, htracks, hothers⟩
          obtain ⟨hother, hothers⟩ := List.forall_mem_cons.1 hothers
          exact ⟨hstuck, ⟨htracks, hother (hfirst q hmem)⟩, hothers⟩

theorem mem_projects_settle {projects : List String}
    (hascending : Text.Ascending projects) :
    q ∈ (settle stuck retained previous projects m).projects ↔ q ∈ m.projects
      ∨ (q ∈ projects ∧ retained q = true ∧ q ∈ previous.projects)
      ∨ ∃ s, s ∈ (settle stuck retained previous projects m).stemsOf q := by
  induction projects generalizing m with
  | nil =>
      refine ⟨.inl, ?_⟩
      rintro (h | ⟨h, -⟩ | ⟨s, hs⟩)
      · exact h
      · exact absurd h List.not_mem_nil
      · exact mem_projects_of_mem_stemsOf hs
  | cons first projects ih =>
      obtain ⟨-, hrest⟩ := List.pairwise_cons.1 hascending
      rw [settle, ih hrest, mem_projects_settleProject]
      constructor
      · rintro ((h | ⟨rfl, hretained, hmem⟩ | ⟨s, hs⟩) | ⟨hmem, hretained⟩ | hs)
        · exact .inl h
        · exact .inr (.inl ⟨List.mem_cons_self, hretained, hmem⟩)
        · exact .inr (.inr ⟨s, (mem_settle hrest).2 (.inl hs)⟩)
        · exact .inr (.inl ⟨List.mem_cons_of_mem _ hmem, hretained⟩)
        · exact .inr (.inr hs)
      · rintro (h | ⟨hmem, hretained, hprevious⟩ | hs)
        · exact .inl (.inl h)
        · rcases List.mem_cons.1 hmem with rfl | hmem
          · exact .inl (.inr (.inl ⟨rfl, hretained, hprevious⟩))
          · exact .inr (.inl ⟨hmem, hretained, hprevious⟩)
        · exact .inr (.inr hs)

/-- A manifest that has settled once has settled for good. -/
theorem settle_settle (stuck retained : String → Bool) (previous m : Manifest) :
    settle stuck retained (settle stuck retained previous previous.projects m)
        (settle stuck retained previous previous.projects m).projects m
      = settle stuck retained previous previous.projects m := by
  generalize hsettled : settle stuck retained previous previous.projects m = n
  have hmem : ∀ {q s}, s ∈ n.stemsOf q ↔ s ∈ m.stemsOf q
      ∨ q ∈ previous.projects ∧ s ∈ previous.stemsOf q
        ∧ (retained q = true ∨ stuck s = true
          ∧ ¬ m.tracks s = true ∧ ∀ other ∈ previous.projects, other < q →
            s ∉ n.stemsOf other) := by
    intro q s
    rw [← hsettled]
    exact mem_settle previous.ascending_projects
  have hprojects : ∀ {q}, q ∈ n.projects ↔ q ∈ m.projects
      ∨ (q ∈ previous.projects ∧ retained q = true ∧ q ∈ previous.projects)
      ∨ ∃ s, s ∈ n.stemsOf q := by
    intro q
    rw [← hsettled]
    exact mem_projects_settle previous.ascending_projects
  -- Nothing comes on record anew.
  have hless : ∀ {q s}, s ∈ (settle stuck retained n n.projects m).stemsOf q →
      s ∈ n.stemsOf q := by
    intro q s hs
    rcases (mem_settle n.ascending_projects).1 hs with hs | ⟨-, hs, -⟩
    · exact hmem.2 (.inl hs)
    · exact hs
  have hstems : ∀ q s, s ∈ (settle stuck retained n n.projects m).stemsOf q
      ↔ s ∈ n.stemsOf q := by
    refine fun q s => ⟨hless, fun hs => (mem_settle n.ascending_projects).2 ?_⟩
    rcases hmem.1 hs with hm | ⟨-, -, hcondition⟩
    · exact .inl hm
    · refine .inr ⟨mem_projects_of_mem_stemsOf hs, hs, hcondition.imp_right ?_⟩
      rintro ⟨hstuck, htracks, hothers⟩
      refine ⟨hstuck, htracks, fun other _ hlt hother => ?_⟩
      rcases hmem.1 (hless hother) with hm | ⟨hfront, -⟩
      · exact htracks (tracks_of_mem_stemsOf hm)
      · exact hothers other hfront hlt (hless hother)
  refine eq_of_mem_iff (fun q => ?_) hstems
  rw [mem_projects_settle n.ascending_projects]
  constructor
  · rintro (h | ⟨h, -⟩ | ⟨s, hs⟩)
    · exact hprojects.2 (.inl h)
    · exact h
    · exact mem_projects_of_mem_stemsOf (hless hs)
  · intro h
    rcases hprojects.1 h with hm | ⟨-, hretained, -⟩ | ⟨s, hs⟩
    · exact .inl hm
    · exact .inr (.inl ⟨h, hretained, h⟩)
    · exact .inr (.inr ⟨s, (hstems q s).2 hs⟩)

end FlowAtlas.Manifest
