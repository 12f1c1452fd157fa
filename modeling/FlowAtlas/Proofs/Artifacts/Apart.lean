import FlowAtlas.Proofs.Artifacts.Inside

/-!
# Different stems own different files

A stem has three files, and everything that a run deletes for a stem is one of
them. So a method loses no file to another method as long as the stems differ,
and the files that the output directory keeps for itself are lost to no method.

The paths of the rasters are computed from the path of the markup, by replacing
what follows the last period of the file name. A stem that is composed from
three names has no period, and it has the joints between the names, so it is not
empty: the last period is the one in front of the extension. What is compared
then is names. All files of all stems have the names of the output directory in
front (`names_pathTo`), and behind them one name that tells the stem and the
extension. The manifest and the files of the architecture have no joint in
theirs.

That two paths are not the same is meant in the sense of `Path.Same`, which
overlooks how a path is written; paths that differ only as texts would not do.
-/

namespace FlowAtlas

open FlowAtlas.Path (Plain Same)

namespace OutputDirectory

variable {out : OutputDirectory}

theorem names_of_leadTo {ns : List String} {p : Path} (h : out.LeadTo ns p) :
    Path.names p = Path.names out.root ++ ns := by
  rw [h.2, Path.names_pathTo h.1]

/-- Paths in the output directory are told apart by the names behind it. -/
theorem names_eq_of_same {ns ms : List String} {p q : Path}
    (hp : out.LeadTo ns p) (hq : out.LeadTo ms q) (h : p.Same q) : ns = ms := by
  have hnames := h.names
  rw [names_of_leadTo hp, names_of_leadTo hq] at hnames
  exact List.append_cancel_left hnames

/-! ## The files of a stem -/

/-- The files of a stem are three different files in the output directory, and
none of them is a file that the directory keeps for itself. -/
structure Owns (out : OutputDirectory) (stem : String) : Prop where
  markup : out.markupFile stem = out.root.join (stem ++ ".mmd")
  svg : Raster.svg.path (out.markupFile stem) = out.root.join (stem ++ ".svg")
  png : Raster.png.path (out.markupFile stem) = out.root.join (stem ++ ".png")
  different :
    (artifactPaths (out.markupFile stem)).Pairwise fun p q => ¬ p.Same q
  not_manifest :
    ∀ p ∈ artifactPaths (out.markupFile stem), ¬ p.Same out.manifestFile
  not_architecture : ∀ p ∈ artifactPaths (out.markupFile stem),
    ∀ q ∈ out.summaryFile :: artifactPaths out.architectureFile, ¬ p.Same q

theorem artifactPaths_flat {stem : String} (h : Flat stem) :
    artifactPaths (out.markupFile stem)
      = extensions.map fun ext => out.root.join (fileName stem ext) := by
  rw [artifactPaths, extensions, List.map_cons, List.map_map]
  exact congrArg _
    (List.map_congr_left fun format _ => raster_path_flat h format)

theorem fileName_eq_of_same {stem stem' ext ext' : String} (h : Flat stem)
    (h' : Flat stem') (hext : ext ∈ extensions) (hext' : ext' ∈ extensions)
    (hsame : (out.root.join (fileName stem ext)).Same
      (out.root.join (fileName stem' ext'))) :
    stem = stem' ∧ ext = ext' :=
  fileName_injective hext hext'
    (List.cons.inj (names_eq_of_same (leadTo_of_flat h hext)
      (leadTo_of_flat h' hext') hsame)).1

/-- The name of a file of a stem holds the joint if the stem does, and no name
of the directory's own files does. -/
theorem not_same_of_mem_ownPaths {stem : String} (h : Flat stem)
    (hjoint : Text.joint ∈ stem.toList) {p q : Path}
    (hp : p ∈ artifactPaths (out.markupFile stem)) (hq : q ∈ out.ownPaths) :
    ¬ p.Same q := by
  intro hsame
  obtain ⟨ext, hext, rfl⟩ := (mem_artifactPaths_flat h).1 hp
  obtain ⟨ns, hns, hfree⟩ := exists_leadTo_of_mem_ownPaths hq
  obtain rfl := names_eq_of_same (leadTo_of_flat h hext) hns hsame
  refine hfree _ List.mem_cons_self ?_
  simp [fileName, hjoint]

theorem owns_of_flat {stem : String} (h : Flat stem)
    (hjoint : Text.joint ∈ stem.toList) :
    out.Owns stem where
  markup := congrArg out.root.join String.append_assoc
  svg :=
    (raster_path_flat h .svg).trans (congrArg out.root.join String.append_assoc)
  png :=
    (raster_path_flat h .png).trans (congrArg out.root.join String.append_assoc)
  different := by
    have hnodup : extensions.Nodup := by decide
    rw [artifactPaths_flat h, List.pairwise_map]
    refine hnodup.imp_of_mem fun hext hext' hne hsame => ?_
    exact hne (fileName_eq_of_same h h hext hext' hsame).2
  not_manifest _ hp := not_same_of_mem_ownPaths h hjoint hp List.mem_cons_self
  not_architecture _ hp _ hq :=
    not_same_of_mem_ownPaths h hjoint hp (List.mem_cons_of_mem _ hq)

theorem not_same_of_ne {stem stem' : String} (h : Flat stem) (h' : Flat stem')
    (hne : stem ≠ stem') {p q : Path}
    (hp : p ∈ artifactPaths (out.markupFile stem))
    (hq : q ∈ artifactPaths (out.markupFile stem')) : ¬ p.Same q := by
  intro hsame
  obtain ⟨ext, hext, rfl⟩ := (mem_artifactPaths_flat h).1 hp
  obtain ⟨ext', hext', rfl⟩ := (mem_artifactPaths_flat h').1 hq
  exact hne (fileName_eq_of_same h h' hext hext' hsame).1

end OutputDirectory

namespace Run

open OutputDirectory

/-- None of the three names in the stem of a method holds a separator. -/
structure FlatNames (p : Project) (d : Document) (method : Method) : Prop where
  project : '/' ∉ p.name.toList
  document : '/' ∉ d.stem.toList
  method : '/' ∉ method.name.toList

theorem FlatNames.flat_stemOf {p : Project} {d : Document} {method : Method}
    (h : FlatNames p d method) : Flat (stemOf p d method) :=
  Run.flat_stemOf fun hslash => by
    rcases Text.slash_mem_identifier.1 hslash with hmem | hmem | hmem
    · exact h.project hmem
    · exact h.document hmem
    · exact h.method hmem

theorem joint_mem_stemOf (p : Project) (d : Document) (method : Method) :
    Text.joint ∈ (stemOf p d method).toList :=
  Text.joint_mem_identifier _ _ _

/-- Two methods whose stems differ have no file in common. Each of them has
three files in the output directory, named after its stem, which are not the
manifest and not the architecture. -/
theorem stems_own_disjoint_files (out : OutputDirectory) {p p' : Project}
    {d d' : Document} {method method' : Method} (h : FlatNames p d method)
    (h' : FlatNames p' d' method') :
    out.Owns (stemOf p d method) ∧ out.Owns (stemOf p' d' method')
      ∧ (stemOf p d method ≠ stemOf p' d' method' →
          ∀ path ∈ artifactPaths (out.markupFile (stemOf p d method)),
            ∀ path' ∈ artifactPaths (out.markupFile (stemOf p' d' method')),
              ¬ path.Same path') :=
  ⟨owns_of_flat h.flat_stemOf (joint_mem_stemOf p d method),
    owns_of_flat h'.flat_stemOf (joint_mem_stemOf p' d' method'),
    fun hne _ hp _ hq => not_same_of_ne h.flat_stemOf h'.flat_stemOf hne hp hq⟩

/-- Names that are periods, blanks and extensions make stems with files of their
own. -/
theorem dotted_names_own_files :
    FlatNames { name := ".. ." } { name := "" } { name := "." }
      ∧ FlatNames { name := "" } { name := ".mmd" } { name := "M.svg" }
      ∧ (OutputDirectory.mk "out/.").Owns "_______"
      ∧ (OutputDirectory.mk "out/.").Owns "__mmd_M_svg"
      ∧ ∀ path ∈ artifactPaths
            ((OutputDirectory.mk "out/.").markupFile "_______"),
          ∀ path' ∈ artifactPaths
              ((OutputDirectory.mk "out/.").markupFile "__mmd_M_svg"),
            ¬ path.Same path' := by
  have hdots : FlatNames { name := ".. ." } { name := "" } { name := "." } := by
    constructor <;> decide
  have hnames :
      FlatNames { name := "" } { name := ".mmd" } { name := "M.svg" } := by
    constructor <;> decide
  have hstem :
      stemOf { name := ".. ." } { name := "" } { name := "." } = "_______" := by
    decide +kernel
  have hstem' : stemOf { name := "" } { name := ".mmd" } { name := "M.svg" }
      = "__mmd_M_svg" := by
    decide +kernel
  obtain ⟨howns, howns', hapart⟩ :=
    stems_own_disjoint_files ⟨"out/."⟩ hdots hnames
  rw [hstem] at howns hapart
  rw [hstem'] at howns' hapart
  exact ⟨hdots, hnames, howns, howns', hapart (by decide)⟩

end Run

end FlowAtlas
