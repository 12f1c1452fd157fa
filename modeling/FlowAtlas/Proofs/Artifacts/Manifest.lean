import FlowAtlas.Artifacts.Manifest
import FlowAtlas.Proofs.Json.Decoding

/-!
# The manifest as a record of an earlier run

What a run saves is what the next run loads: the text of a manifest is read back
as that very manifest. The entries of a text may stand in any order and may
repeat, so reading goes through `set`; entries that are in order already come
out as they went in, because each of them is put behind the ones before it.

The rest is about membership, the only thing that a run asks a manifest for.
-/

namespace FlowAtlas

open Json

/-! ## Putting entries in order that are in order -/

namespace Manifest

theorem entries_set {m : Manifest} {project : String} {stems : List String}
    (hlt : ∀ e ∈ m.entries, e.1 < project) (hstems : Text.Ascending stems) :
    (m.set project stems).entries = m.entries ++ [(project, stems)] := by
  have hall : Text.insertAll stems [] = stems :=
    Text.insertAll_of_ascending hstems
  show Text.update project [] (fun _ => Text.insertAll stems []) m.entries = _
  rw [Text.update_of_forall_lt hlt, hall]

theorem entries_foldl_set {es : List (String × List String)} {m : Manifest}
    (horder : (m.entries ++ es).Pairwise (·.1 < ·.1))
    (hstems : ∀ e ∈ es, Text.Ascending e.2) :
    (es.foldl (fun m e => m.set e.1 e.2) m).entries = m.entries ++ es := by
  induction es generalizing m with
  | nil => simp
  | cons e es ih =>
      have hlt : ∀ x ∈ m.entries, x.1 < e.1 := fun x hx =>
        (List.pairwise_append.1 horder).2.2 x hx e List.mem_cons_self
      have hset := entries_set hlt (hstems e List.mem_cons_self)
      rw [List.foldl_cons, ih (by simpa [hset] using horder)
        fun x hx => hstems x (List.mem_cons_of_mem _ hx), hset]
      simp

theorem eq_of_entries {m n : Manifest} (h : m.entries = n.entries) : m = n := by
  cases m; cases n; cases h; rfl

theorem ofEntries_entries (m : Manifest) : ofEntries m.entries = m :=
  eq_of_entries (entries_foldl_set (m := empty) m.projects_ascending
    m.stems_ascending)

/-! ## The round trip -/

/-- The stems of a project as they are written. -/
def stemsToJson (stems : List String) : Json := .array (stems.map .string)

theorem exact_toJson (m : Manifest) : Exact m.toJson :=
  ⟨exactMembers_map stemsToJson fun e _ => exactItems_strings e.2, trivial⟩

theorem restores (m : Manifest) : Restores fields.decode 3 m.toJson m := by
  have htable := restores_table stemsToJson fun e (_ : e ∈ m.entries) =>
    restores_strings e.2
  refine Record.restores_of_putMembers ["projects"] rfl fun inner hinner => ?_
  have hput := htable.map_eq hinner (Nat.le_refl 2) ofEntries
  rw [ofEntries_entries] at hput
  rw [Record.putMembers_field rfl rfl hput]
  rfl

/-- A saved manifest is loaded as it was. -/
theorem ofText_toText (m : Manifest) : ofText m.toText = .ok m :=
  m.restores.decodeText_indented m.exact_toJson (by decide)

theorem toText_injective : Function.Injective toText := by
  intro m m' h
  have hread := m.ofText_toText
  rw [h, ofText_toText] at hread
  exact (Except.ok.inj hread).symm

/-! ## What is on record -/

theorem tracks_of_mem_stemsOf {m : Manifest} {project stem : String}
    (h : stem ∈ m.stemsOf project) : m.tracks stem = true :=
  tracks_eq_true_iff.2 ⟨project, h⟩

/-- What is put on record for one project is on record, and nothing else is
new. -/
theorem tracks_iff_of_mem {m n : Manifest} {project s : String} {added : Prop}
    (h : ∀ {q}, s ∈ n.stemsOf q ↔ (q = project ∧ added) ∨ s ∈ m.stemsOf q) :
    n.tracks s = true ↔ added ∨ m.tracks s = true := by
  simp only [tracks_eq_true_iff, h]
  constructor
  · rintro ⟨q, ⟨-, hadded⟩ | hs⟩
    · exact .inl hadded
    · exact .inr ⟨q, hs⟩
  · rintro (hadded | ⟨q, hs⟩)
    · exact ⟨project, .inl ⟨rfl, hadded⟩⟩
    · exact ⟨q, .inr hs⟩

theorem tracks_add {m : Manifest} {project stem s : String} :
    (m.add project stem).tracks s = true ↔ s = stem ∨ m.tracks s = true :=
  tracks_iff_of_mem mem_stemsOf_add

theorem tracks_takeOver {m other : Manifest} {project s : String} :
    (m.takeOver other project).tracks s = true
      ↔ s ∈ other.stemsOf project ∨ m.tracks s = true :=
  tracks_iff_of_mem mem_stemsOf_takeOver

theorem not_tracks_empty {stem : String} : ¬ empty.tracks stem = true :=
  Bool.false_ne_true

theorem mem_projects_of_mem_stemsOf {m : Manifest} {project stem : String}
    (h : stem ∈ m.stemsOf project) : project ∈ m.projects := by
  unfold stemsOf at h
  cases hlookup : m.entries.lookup project with
  | none => rw [hlookup] at h; exact absurd h List.not_mem_nil
  | some stems =>
      exact List.mem_map.2
        ⟨(project, stems), Text.mem_of_lookup_eq_some hlookup, rfl⟩

end Manifest

end FlowAtlas
