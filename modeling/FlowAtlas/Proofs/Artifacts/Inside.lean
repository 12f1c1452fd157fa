import FlowAtlas.Proofs.Artifacts.Directory
import FlowAtlas.Proofs.Path.Below

/-!
# When the files of a method stand in the output directory

The stem of a method is made of three names, and names are free text. Blanks and
periods are replaced in it, so a stem never leads upwards. Separators are not
replaced. So the files of a method stand in the output directory itself exactly
if none of the three names holds a separator (`files_stand_in_root_iff`). With
one they stand further down; and if the name of the project begins with one, the
stem is a path from the top, and the output directory has no say in where they
stand.

Being in a directory is a fact about texts here (`Path.DirectlyIn`).
-/

namespace FlowAtlas

open FlowAtlas.Path (Plain Leads)

namespace Text

theorem slash_mem_identifier {first second third : String} :
    '/' ∈ (identifier [first, second, third]).toList
      ↔ '/' ∈ first.toList ∨ '/' ∈ second.toList ∨ '/' ∈ third.toList := by
  constructor
  · intro hslash
    by_contra hnone
    rw [not_or, not_or] at hnone
    refine identifier_unslashed (fun part hpart => ?_) hslash
    simp only [List.mem_cons, List.not_mem_nil, or_false] at hpart
    rcases hpart with rfl | rfl | rfl
    · exact hnone.1
    · exact hnone.2.1
    · exact hnone.2.2
  · intro hslash
    rw [identifier, String.toList_map]
    refine List.mem_map.2 ⟨'/', ?_, by decide⟩
    simp only [String.toList_intercalate, List.map_cons, List.map_nil]
    rcases hslash with h | h | h <;> simp [h]

/-- Nothing is put in front of the first part of an identifier. -/
theorem head?_identifier (first second : String) (rest : List String) :
    (identifier (first :: second :: rest)).toList.head? = some '/'
      ↔ first.toList.head? = some '/' := by
  rw [identifier, String.toList_map, String.toList_intercalate, List.head?_map]
  simp only [List.map_cons, List.intercalate_cons_cons]
  cases hfirst : first.toList with
  | nil =>
      refine iff_of_false (fun h => ?_) fun h => Option.some_ne_none _ h.symm
      exact absurd (Option.some.inj h)
        (show identifierChar joint ≠ '/' by decide)
  | cons c cs =>
      constructor
      · intro h
        exact congrArg some (eq_slash_of_identifierChar (Option.some.inj h))
      · intro h
        obtain rfl := Option.some.inj h
        rfl

end Text

namespace Run

theorem isAbsolute_stemOf (p : Project) (d : Document) (method : Method) :
    Path.isAbsolute (stemOf p d method) = Path.isAbsolute p.name := by
  rw [Path.isAbsolute, Path.isAbsolute, stemOf, decide_eq_decide]
  exact Text.head?_identifier _ _ _

end Run

namespace OutputDirectory

variable {out : OutputDirectory}

/-- The files of a stem stand in the output directory itself, and are named
after the stem. -/
structure HoldsFilesOf (out : OutputDirectory) (stem : String) : Prop where
  markup :
    (out.markupFile stem).DirectlyIn out.root (fileName stem markupExtension)
  raster : ∀ format : Raster,
    (format.path (out.markupFile stem)).DirectlyIn out.root
      (fileName stem format.extension)

theorem holdsFilesOf_of_flat {stem : String} (h : Flat stem) :
    out.HoldsFilesOf stem where
  markup := Path.directlyIn_join (plain_fileName h List.mem_cons_self)
  raster format := by
    rw [raster_path_flat h]
    exact Path.directlyIn_join
      (plain_fileName h (extension_mem_extensions format))

/-- A file that is named after its stem has no separator in it. -/
theorem HoldsFilesOf.unslashed {stem : String} (h : out.HoldsFilesOf stem) :
    '/' ∉ stem.toList := by
  intro hslash
  refine Path.unslashed_of_fileName? h.markup.fileName ?_
  simp [fileName, hslash]

/-- With a separator in the stem its files stand below the output directory,
further down. -/
theorem parent_of_slashed {stem : String} (hdots : '.' ∉ stem.toList)
    (hslash : '/' ∈ stem.toList) (hrel : ¬ Path.isAbsolute stem = true)
    {path : Path} (hpath : path ∈ artifactPaths (out.markupFile stem)) :
    ∃ above below, Path.parent? path = some above ∧ below ≠ []
      ∧ Path.isAbsolute above = Path.isAbsolute out.root
      ∧ Path.names above = Path.names out.root ++ below := by
  obtain ⟨dir, name, file, hsplit, hdir, hundotted, hsubset, hfile,
      ⟨hne, hhere, -⟩, rfl⟩ :=
    exists_leads_of_mem_artifactPaths hdots hpath
  -- The last name holds no separator, so the one in the stem is in the
  -- directory part.
  have hslashdir : '/' ∈ dir := by
    rw [hsplit, List.mem_append] at hslash
    exact hslash.resolve_right fun h => hfile (hsubset h)
  obtain ⟨c, cs, rfl⟩ :=
    List.exists_cons_of_ne_nil (List.ne_nil_of_mem hslashdir)
  have hc : c ≠ '/' := by
    rintro rfl
    exact hrel (by rw [Path.isAbsolute, hsplit]; rfl)
  have hjoined :
      ¬ Path.isAbsolute (String.ofList (c :: cs ++ file)) = true := by
    rw [Path.isAbsolute, String.toList_ofList]
    simpa using hc
  obtain ⟨lead, hlead, hsame, hjoin⟩ := Path.exists_join_same out.root
  have htext : (out.root.join (String.ofList (c :: cs ++ file))).toList
      = (lead.toList ++ c :: cs) ++ file := by
    rw [hjoin _ hjoined, String.toList_append, String.toList_ofList,
      List.append_assoc]
  obtain ⟨above, hparent, hleads⟩ :=
    Path.parent?_of_leads htext (hlead.append hdir) hfile hne hhere
  obtain ⟨below, hnames, hbelow⟩ :=
    Path.exists_names_leads_append hlead (c :: cs)
  have hfirst : c ∈ c :: cs := List.mem_cons_self
  obtain ⟨piece, hpiece, hmem⟩ := Text.exists_mem_splitAtChar hfirst hc
  refine ⟨above, below, hparent, ?_, ?_, ?_⟩
  · -- A piece of the directory part is a name, being neither empty nor a dot.
    refine List.ne_nil_of_mem (hbelow piece hpiece (List.ne_nil_of_mem hmem) ?_)
    rintro rfl
    exact hundotted (List.mem_singleton.1 hmem ▸ List.mem_cons_self)
  · rw [hleads.isAbsolute, ← hsame.isAbsolute]
    cases hcs : lead.toList with
    | nil =>
        rw [Path.isAbsolute, Path.isAbsolute, hcs, String.toList_ofList]
        simpa using hc
    | cons d ds =>
        rw [Path.isAbsolute_append (List.cons_ne_nil _ _), ← hcs,
          String.ofList_toList]
  · rw [hleads.names, hnames, String.ofList_toList, hsame.names]

/-- A stem that begins with a separator is a path from the top, whatever the
output directory. -/
theorem markupFile_of_isAbsolute {stem : String}
    (h : Path.isAbsolute stem = true) :
    out.markupFile stem = fileName stem markupExtension := by
  have habs : Path.isAbsolute (stem ++ "." ++ markupExtension) = true := by
    rw [Path.isAbsolute, decide_eq_true_eq] at h ⊢
    obtain ⟨cs, hcs⟩ := List.head?_eq_some_iff.1 h
    simp [hcs]
  rw [markupFile, Path.join, if_pos habs, fileName]

end OutputDirectory

namespace Run

open OutputDirectory

theorem flat_stemOf {p : Project} {d : Document} {method : Method}
    (h : '/' ∉ (stemOf p d method).toList) : Flat (stemOf p d method) where
  ne_empty hempty := by
    have hjoint := Text.joint_mem_identifier p.name d.stem [method.name]
    rw [show Text.identifier _ = stemOf p d method from rfl, hempty] at hjoint
    exact List.not_mem_nil hjoint
  unslashed := h
  undotted := not_mem_stemOf p d method

/-- The files of a method stand in the output directory itself exactly if no
name in its stem holds a separator. Otherwise they stand in a directory below
it, unless the name of the project begins with a separator: then they stand at
the same place for every output directory. -/
theorem files_stand_in_root_iff (out : OutputDirectory) (p : Project)
    (d : Document) (method : Method) :
    (out.HoldsFilesOf (stemOf p d method)
        ↔ '/' ∉ p.name.toList ∧ '/' ∉ d.stem.toList ∧ '/' ∉ method.name.toList)
      ∧ (¬ Path.isAbsolute p.name = true →
          '/' ∈ p.name.toList ∨ '/' ∈ d.stem.toList ∨ '/' ∈ method.name.toList →
          ∀ path ∈ artifactPaths (out.markupFile (stemOf p d method)),
            ∃ above below, Path.parent? path = some above ∧ below ≠ []
              ∧ Path.isAbsolute above = Path.isAbsolute out.root
              ∧ Path.names above = Path.names out.root ++ below)
      ∧ (Path.isAbsolute p.name = true → ∀ other : OutputDirectory,
          artifactPaths (other.markupFile (stemOf p d method))
            = artifactPaths (out.markupFile (stemOf p d method))) := by
  have hslashed : '/' ∈ (stemOf p d method).toList
      ↔ '/' ∈ p.name.toList ∨ '/' ∈ d.stem.toList ∨ '/' ∈ method.name.toList :=
    Text.slash_mem_identifier
  refine ⟨⟨fun hholds => ?_, fun hnames => ?_⟩,
    fun hrel hslash path hpath => ?_, fun habs other => ?_⟩
  · have hunslashed := mt hslashed.2 hholds.unslashed
    rwa [not_or, not_or] at hunslashed
  · rw [← not_or, ← not_or, ← hslashed] at hnames
    exact holdsFilesOf_of_flat (flat_stemOf hnames)
  · rw [← isAbsolute_stemOf p d method] at hrel
    exact parent_of_slashed (not_mem_stemOf p d method)
      (hslashed.2 hslash) hrel hpath
  · rw [← isAbsolute_stemOf p d method] at habs
    rw [markupFile_of_isAbsolute habs, markupFile_of_isAbsolute habs]

/-- A project called `sub/A` has its files in the directory `sub`. -/
theorem slashed_project_leaves_root :
    (OutputDirectory.mk "out").markupFile
        (stemOf { name := "sub/A" } { name := "C.cs" } { name := "M" })
          = "out/sub/A_C_M.mmd"
      ∧ ¬ ∀ (out : OutputDirectory) (p : Project) (d : Document)
        (method : Method),
        out.HoldsFilesOf (stemOf p d method) := by
  refine ⟨by decide +kernel, fun hall => ?_⟩
  have hholds :=
    hall ⟨"out"⟩ { name := "sub/A" } { name := "C.cs" } { name := "M" }
  exact absurd hholds.unslashed (by decide +kernel)

end Run

end FlowAtlas
