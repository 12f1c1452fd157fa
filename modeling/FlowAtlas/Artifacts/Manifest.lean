import FlowAtlas.Hierarchy.Codec
import FlowAtlas.Text.Ascending

/-!
# The artifact manifest

Which artifact stems each project has produced. It is what a later run knows
about an earlier one, and so decides which files that run may delete.
-/

namespace FlowAtlas

open Json

/-- Projects with their stems, both in ascending order. -/
structure Manifest where
  entries : List (String × List String)
  projects_ascending : entries.Pairwise (·.1 < ·.1)
  stems_ascending : ∀ e ∈ entries, Text.Ascending e.2
  deriving DecidableEq

namespace Manifest

/-- The manifest of a directory without artifacts. -/
def empty : Manifest := ⟨[], by simp, by simp⟩

/-- Changes the stems of a project in a way that keeps them in order. -/
def change (m : Manifest) (project : String) (f : List String → List String)
    (hf : ∀ ts, Text.Ascending ts → Text.Ascending (f ts)) : Manifest where
  entries := Text.update project [] f m.entries
  projects_ascending := Text.pairwise_update m.projects_ascending
  stems_ascending := by
    intro e he
    rcases Text.mem_update he with he | ⟨_, h | ⟨a, ha, h⟩⟩
    · exact m.stems_ascending e he
    · rw [h]; exact hf [] List.Pairwise.nil
    · rw [h]; exact hf a (m.stems_ascending _ ha)

/-- Notes that a project has produced a stem. -/
def add (m : Manifest) (project stem : String) : Manifest :=
  m.change project (Text.insert stem) fun _ h => h.insert stem

/-- The stems of a project. -/
def stemsOf (m : Manifest) (project : String) : List String :=
  (m.entries.lookup project).getD []

/-- Whether any project has produced a stem. -/
def tracks (m : Manifest) (stem : String) : Bool :=
  m.entries.any fun e => e.2.contains stem

/-- The projects that have an entry. -/
def projects (m : Manifest) : List String := m.entries.map Prod.fst

/-- Takes over the entry of a project from another manifest, if it has one. -/
def takeOver (m other : Manifest) (project : String) : Manifest :=
  match other.entries.lookup project with
  | none => m
  | some stems => m.change project (Text.insertAll stems) fun _ h =>
    h.insertAll stems

/-- Sets the stems of a project. -/
def set (m : Manifest) (project : String) (stems : List String) : Manifest :=
  m.change project (fun _ => Text.insertAll stems []) fun _ _ =>
    Text.Ascending.insertAll List.Pairwise.nil stems

/-- The manifest with these entries; of several entries of a project the last
one counts. -/
def ofEntries (entries : List (String × List String)) : Manifest :=
  entries.foldl (fun m e => m.set e.1 e.2) empty

/-! ## What the operations do to the stems -/

theorem stemsOf_change (m : Manifest) (project : String)
    (f : List String → List String)
    (hf : ∀ ts, Text.Ascending ts → Text.Ascending (f ts)) (q : String) :
    (m.change project f hf).stemsOf q
      = if q = project then f (m.stemsOf project) else m.stemsOf q := by
  unfold stemsOf change
  rw [Text.lookup_update m.projects_ascending]
  split <;> rfl

theorem mem_stemsOf_add {m : Manifest} {project stem q s : String} :
    s ∈ (m.add project stem).stemsOf q
      ↔ (q = project ∧ s = stem) ∨ s ∈ m.stemsOf q := by
  unfold add
  rw [stemsOf_change]
  split
  · rename_i h; subst h; simp
  · rename_i h; simp [h]

theorem mem_stemsOf_takeOver {m other : Manifest} {project q s : String} :
    s ∈ (m.takeOver other project).stemsOf q
      ↔ (q = project ∧ s ∈ other.stemsOf project) ∨ s ∈ m.stemsOf q := by
  unfold takeOver
  split
  · rename_i h
    simp [stemsOf, h]
  · rename_i stems h
    rw [stemsOf_change]
    split
    · rename_i hq; subst hq; simp [stemsOf, h]
    · rename_i hq; simp [hq]

theorem tracks_eq_true_iff {m : Manifest} {stem : String} :
    m.tracks stem = true ↔ ∃ project, stem ∈ m.stemsOf project := by
  unfold tracks stemsOf
  simp only [List.any_eq_true, List.contains_iff_mem]
  constructor
  · rintro ⟨⟨p, ts⟩, he, hs⟩
    exact ⟨p,
      by rw [Text.lookup_eq_some_of_mem m.projects_ascending he]; exact hs⟩
  · rintro ⟨p, hs⟩
    cases h : m.entries.lookup p with
    | none => simp [h] at hs
    | some ts =>
        exact ⟨(p, ts), Text.mem_of_lookup_eq_some h, by simpa [h] using hs⟩

/-! ## In JSON -/

/-- The written form of a manifest. -/
def toJson (m : Manifest) : Json :=
  .object [("projects",
    .object (m.entries.map fun e => (e.1, .array (e.2.map .string))))]

/-- The fields of a manifest. -/
def fields : Record Manifest where
  name := "ArtifactManifest"
  fields := [("projects", false)]
  blank := empty
  put key source node m :=
    match key with
    | "projects" =>
      (decodeTable (decodeList fun _ => decodeString) source node).map ofEntries
    | _ => .ok m

/-- Reads a manifest from a text. -/
def ofText (text : String) : Decoded Manifest := decodeText fields.decode text

/-- The text of a manifest. -/
def toText (m : Manifest) : String := m.toJson.indented

end Manifest

end FlowAtlas
