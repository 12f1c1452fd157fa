import FlowAtlas.Proofs.Artifacts.Settling
import FlowAtlas.Proofs.Disk.Recall
import FlowAtlas.Proofs.Run.Steps

/-!
# What is put on record, and kept

A manifest is put together by calls, in the order in which the work of a run
happens to come up: a project has produced a stem, or the entry of a project is
taken over from an earlier manifest. The order is of no account, and neither is
a call that comes twice. A call asks for stems, and a manifest has the stems
that some call asked for (`mem_stemsOf_ofCalls`), so it depends on which calls
there are and on nothing else.

Between two runs a manifest is a file. Whatever strings its projects and stems
are, the file is read back as the manifest that was saved, on every disk that
recalls what is written to it.
-/

namespace FlowAtlas

namespace Manifest

/-! ## Calls -/

/-- A call that puts stems on record. -/
inductive Call where
  /-- A project has produced a stem. -/
  | add (project stem : String)
  /-- The entry of a project is taken over from another manifest. -/
  | takeOver (other : Manifest) (project : String)
  deriving DecidableEq

namespace Call

/-- Carries out a call. -/
def apply (m : Manifest) : Call → Manifest
  | .add project stem => m.add project stem
  | .takeOver other project => m.takeOver other project

/-- A call asks for a stem to be on record for a project. -/
def Asks (project stem : String) : Call → Prop
  | .add p s => p = project ∧ s = stem
  | .takeOver other p => p = project ∧ stem ∈ other.stemsOf project

/-- A call gives an entry to a project. -/
def Enters (project : String) : Call → Prop
  | .add p _ => p = project
  | .takeOver other p => p = project ∧ project ∈ other.projects

end Call

/-- The manifest that calls make of an empty one, in their order. -/
def ofCalls (calls : List Call) : Manifest := calls.foldl Call.apply empty

variable {m : Manifest} {calls : List Call} {p s : String}

/-! ### One call -/

theorem mem_stemsOf_apply {c : Call} :
    s ∈ (c.apply m).stemsOf p ↔ c.Asks p s ∨ s ∈ m.stemsOf p := by
  cases c with
  | add project stem =>
      rw [Call.apply, mem_stemsOf_add, Call.Asks, eq_comm, @eq_comm _ s]
  | takeOver other project =>
      rw [Call.apply, mem_stemsOf_takeOver, Call.Asks, eq_comm]
      refine or_congr_left (and_congr_right ?_)
      rintro rfl
      exact Iff.rfl

theorem mem_projects_apply {c : Call} :
    p ∈ (c.apply m).projects ↔ c.Enters p ∨ p ∈ m.projects := by
  cases c with
  | add project stem => rw [Call.apply, mem_projects_add, Call.Enters, eq_comm]
  | takeOver other project =>
      rw [Call.apply, mem_projects_takeOver, Call.Enters, eq_comm]
      refine or_congr_left (and_congr_right ?_)
      rintro rfl
      exact Iff.rfl

/-! ### All calls -/

/-- What a call brings about or leaves standing holds in the end if it held
before or some call brings it about. -/
theorem foldl_apply_iff (holds : Manifest → Prop) {brings : Call → Prop}
    (hcall : ∀ m (c : Call), holds (c.apply m) ↔ brings c ∨ holds m) :
    holds (calls.foldl Call.apply m) ↔ (∃ c ∈ calls, brings c) ∨ holds m := by
  induction calls generalizing m with
  | nil => simp
  | cons c calls ih =>
      -- What the first call brings about is there before the others come.
      rw [List.foldl_cons, ih, hcall, List.exists_mem_cons_iff, ← or_assoc]
      exact or_congr_left or_comm

/-- What is on record is what some call asked for. -/
theorem mem_stemsOf_ofCalls :
    s ∈ (ofCalls calls).stemsOf p ↔ ∃ c ∈ calls, c.Asks p s :=
  (foldl_apply_iff (s ∈ ·.stemsOf p) fun _ _ => mem_stemsOf_apply).trans
    (or_iff_left List.not_mem_nil)

theorem mem_projects_ofCalls :
    p ∈ (ofCalls calls).projects ↔ ∃ c ∈ calls, c.Enters p :=
  (foldl_apply_iff (p ∈ ·.projects) fun _ _ => mem_projects_apply).trans
    (or_iff_left List.not_mem_nil)

/-- What the calls are decides, not in which order or how often they come. -/
theorem ofCalls_congr {others : List Call} (h : ∀ c, c ∈ others ↔ c ∈ calls) :
    ofCalls others = ofCalls calls := by
  refine eq_of_mem_iff (fun p => ?_) fun p s => ?_
  · simp only [mem_projects_ofCalls, h]
  · simp only [mem_stemsOf_ofCalls, h]

theorem exists_asks_iff : (∃ c ∈ calls, c.Asks p s) ↔
    .add p s ∈ calls
      ∨ ∃ other, .takeOver other p ∈ calls ∧ s ∈ other.stemsOf p := by
  constructor
  · rintro ⟨c | c, hc, hasks⟩
    · obtain ⟨rfl, rfl⟩ := hasks
      exact .inl hc
    · obtain ⟨rfl, hs⟩ := hasks
      exact .inr ⟨_, hc, hs⟩
  · rintro (hc | ⟨other, hc, hs⟩)
    · exact ⟨_, hc, rfl, rfl⟩
    · exact ⟨_, hc, rfl, hs⟩

theorem tracks_iff_mem_projects :
    m.tracks s = true ↔ ∃ p ∈ m.projects, s ∈ m.stemsOf p := by
  rw [tracks_eq_true_iff]
  exact exists_congr fun p =>
    ⟨fun hs => ⟨mem_projects_of_mem_stemsOf hs, hs⟩, And.right⟩

end Manifest

/-! ## Saving -/

namespace OutputDirectory

variable {σ : Type} {disk : Disk (StateM σ)} {out : OutputDirectory}

/-- A manifest that was saved is the one that is loaded, and it is saved unless
the disk refuses to write it. -/
theorem putManifest_readManifest (hdisk : disk.Recalls) {m : Manifest} {s t : σ}
    {r : Except Fault Unit} (h : (out.putManifest disk m).run s = (r, t)) :
    (r = .ok () ∧ ∃ u, (out.readManifest disk).run t = (.ok m, u))
      ∨ ∃ e, (disk.writeText out.manifestFile m.toText).run s = (.error e, t)
        ∧ r = .error
          ((faultAt "output::write_text" out.manifestFile e).addOperation
            "output::save_manifest") := by
  obtain ⟨written, hwrite, rfl⟩ := putManifest_turn h
  cases written with
  | error e => exact .inr ⟨e, hwrite, rfl⟩
  | ok a =>
      obtain ⟨u, hread⟩ := hdisk hwrite
      refine .inl ⟨rfl, u, ?_⟩
      rw [readManifest, run_bind]
      refine ⟨_, u, hread, run_pure.2 ⟨?_, rfl⟩⟩
      rw [manifestOf, m.ofText_toText]
      rfl

/-- A manifest has, for each project and in order, the stems that calls have
asked for, in whatever order the calls came and however often; and it is the
same manifest after it was saved. -/
theorem called_stems_survive (hdisk : disk.Recalls) (out : OutputDirectory)
    (calls : List Manifest.Call) :
    (∀ p, Text.Ascending ((Manifest.ofCalls calls).stemsOf p)
        ∧ ∀ s, s ∈ (Manifest.ofCalls calls).stemsOf p ↔
          .add p s ∈ calls
            ∨ ∃ other, .takeOver other p ∈ calls ∧ s ∈ other.stemsOf p)
      ∧ (∀ s, (Manifest.ofCalls calls).tracks s = true ↔
          ∃ p ∈ (Manifest.ofCalls calls).projects,
            s ∈ (Manifest.ofCalls calls).stemsOf p)
      ∧ (∀ others : List Manifest.Call, (∀ c, c ∈ others ↔ c ∈ calls) →
          Manifest.ofCalls others = Manifest.ofCalls calls)
      ∧ ∀ (m : Manifest) (s t : σ) (r : Except Fault Unit),
          (out.putManifest disk m).run s = (r, t) →
            (r = .ok () ∧ ∃ u, (out.readManifest disk).run t = (.ok m, u))
              ∨ ∃ e, (disk.writeText out.manifestFile m.toText).run s
                  = (.error e, t)
                ∧ r = .error
                  ((faultAt "output::write_text" out.manifestFile
                    e).addOperation "output::save_manifest") := by
  refine ⟨fun p => ⟨Manifest.ascending_stemsOf _ p, fun s => ?_⟩,
    fun s => ?_, ?_, ?_⟩
  · rw [Manifest.mem_stemsOf_ofCalls, Manifest.exists_asks_iff]
  · exact Manifest.tracks_iff_mem_projects
  · exact fun others => Manifest.ofCalls_congr
  · exact fun m s t r => putManifest_readManifest hdisk

/-- The record of an earlier run, with strings that need care in a file. -/
def earlierRecord : Manifest := (Manifest.empty.add "B" "q\"\\\n").add "C" "C_é"

/-- What a run might call. -/
def someCalls : List Manifest.Call :=
  [.takeOver earlierRecord "B", .add "A" "A_y", .add "A" "A_x",
    .takeOver earlierRecord "D"]

/-- The same backwards, and one of them twice. -/
def sameCalls : List Manifest.Call :=
  [.takeOver earlierRecord "D", .add "A" "A_x", .add "A" "A_y",
    .takeOver earlierRecord "B", .add "A" "A_x"]

/-- An output directory whose manifest is a link to a file that is not there
yet. -/
def linkedTree : FileTree where
  entries :=
    [(["out"], .directory),
      (["out", ".cfgflow-artifacts.json"], .link "../kept.json")]

/-- The calls come to the same manifest, and it is loaded from where the link
leads. -/
theorem some_calls_survive :
    Manifest.ofCalls sameCalls = Manifest.ofCalls someCalls
      ∧ (Manifest.ofCalls someCalls).stemsOf "A" = ["A_x", "A_y"]
      ∧ "q\"\\\n" ∈ (Manifest.ofCalls someCalls).stemsOf "B"
      ∧ (Manifest.ofCalls someCalls).tracks "C_é" = false
      ∧ ∃ t u,
            (putManifest ⟨"out"⟩ FileTree.disk (Manifest.ofCalls someCalls)).run
                linkedTree
              = (.ok (), t)
            ∧ t.bytesAt ["kept.json"] ≠ none
            ∧ (readManifest ⟨"out"⟩ FileTree.disk).run t
              = (.ok (Manifest.ofCalls someCalls), u) := by
  obtain ⟨hstems, -, hsame, hsaved⟩ :=
    called_stems_survive FileTree.disk_recalls ⟨"out"⟩ someCalls
  have hasked : "q\"\\\n" ∈ earlierRecord.stemsOf "B" := by decide
  have hstored :
        ((putManifest ⟨"out"⟩ FileTree.disk (Manifest.ofCalls someCalls)).run
          linkedTree).1 = .ok ()
      ∧ ((putManifest ⟨"out"⟩ FileTree.disk (Manifest.ofCalls someCalls)).run
        linkedTree).2.bytesAt ["kept.json"] ≠ none := by
    decide
  generalize hput :
    (putManifest ⟨"out"⟩ FileTree.disk (Manifest.ofCalls someCalls)).run
      linkedTree = result at hstored ⊢
  obtain ⟨r, t⟩ := result
  obtain ⟨rfl, hbytes⟩ := hstored
  refine ⟨hsame sameCalls fun c => ?_, by decide, ?_, by decide, ?_⟩
  · simp only [sameCalls, someCalls, List.mem_cons, List.not_mem_nil, or_false]
    tauto
  · exact ((hstems "B").2 _).2 (.inr ⟨_, List.mem_cons_self, hasked⟩)
  · rcases hsaved _ _ _ _ hput with ⟨-, u, hread⟩ | ⟨e, -, herror⟩
    · exact ⟨t, u, rfl, hbytes, hread⟩
    · exact nomatch herror

end OutputDirectory

end FlowAtlas
