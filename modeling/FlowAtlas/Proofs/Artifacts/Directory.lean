import FlowAtlas.Artifacts.Directory
import FlowAtlas.Proofs.Path
import FlowAtlas.Run.Plan
import FlowAtlas.Snapshot.Open

/-!
# Which files belong to a stem

A stem stands for three paths, a markup file and its rasters. Stems that a run
composes hold no period (`not_mem_stemOf`), and that is all that keeps the paths
of a stem below the output directory: no name of theirs can be `..`.

Where a stem holds no separator either, its files stand in the output directory
itself and are told apart by their names, so two stems share no file, and no
stem has a file of the architecture or the manifest among its own.
-/

namespace FlowAtlas

open FlowAtlas.Path (Plain Leads)

/-! ## Stems -/

namespace Text

theorem identifierChar_ne_period (c : Char) : identifierChar c ≠ '.' := by
  unfold identifierChar
  split
  · decide
  · next h => exact fun hc => h (.inr hc)

theorem eq_slash_of_identifierChar {c : Char} (h : identifierChar c = '/') :
    c = '/' := by
  unfold identifierChar at h
  split at h
  · exact absurd h (by decide)
  · exact h

theorem not_mem_identifier (parts : List String) :
    '.' ∉ (identifier parts).toList := by
  rw [identifier, String.toList_map]
  intro h
  obtain ⟨c, -, hc⟩ := List.mem_map.1 h
  exact identifierChar_ne_period c hc

theorem not_mem_intercalate {c : Char} {sep : List Char}
    {parts : List (List Char)} (hsep : c ∉ sep)
    (hparts : ∀ part ∈ parts, c ∉ part) : c ∉ sep.intercalate parts := by
  induction parts with
  | nil => exact List.not_mem_nil
  | cons part parts ih =>
      have hrest := ih fun p hp => hparts p (List.mem_cons_of_mem _ hp)
      have hpart := hparts part List.mem_cons_self
      cases parts with
      | nil => simpa using hpart
      | cons q qs => simp_all

theorem identifier_unslashed {parts : List String}
    (h : ∀ part ∈ parts, '/' ∉ part.toList) :
    '/' ∉ (identifier parts).toList := by
  rw [identifier, String.toList_map, String.toList_intercalate]
  intro hmem
  obtain ⟨c, hc, hslash⟩ := List.mem_map.1 hmem
  obtain rfl := eq_slash_of_identifierChar hslash
  refine not_mem_intercalate (by decide) ?_ hc
  intro part hpart
  obtain ⟨p, hp, rfl⟩ := List.mem_map.1 hpart
  exact h p hp

theorem joint_mem_identifier (first second : String) (rest : List String) :
    joint ∈ (identifier (first :: second :: rest)).toList := by
  rw [identifier, String.toList_map, String.toList_intercalate]
  exact List.mem_map.2 ⟨joint, by simp, rfl⟩

end Text

namespace Run

theorem not_mem_stemOf (p : Project) (d : Document) (method : Method) :
    '.' ∉ (stemOf p d method).toList :=
  Text.not_mem_identifier _

end Run

namespace OutputDirectory

variable {out : OutputDirectory}

/-! ## Paths of a stem -/

/-- A path that does not lead back out of the output directory. -/
def Below (out : OutputDirectory) (p : Path) : Prop :=
  ∃ n : String, p = out.root.join n ∧ ".." ∉ Path.names n

theorem mem_artifactPaths {p markup : Path} :
    p ∈ artifactPaths markup
      ↔ p = markup ∨ ∃ format : Raster, p = format.path markup := by
  rw [artifactPaths, List.mem_cons, List.mem_map]
  constructor
  · rintro (h | ⟨format, -, rfl⟩)
    · exact .inl h
    · exact .inr ⟨format, rfl⟩
  · rintro (h | ⟨format, rfl⟩)
    · exact .inl h
    · refine .inr ⟨format, ?_, rfl⟩
      cases format <;> simp [Raster.all]

/-- The extensions of the files of a stem. -/
def extensions : List String :=
  markupExtension :: Raster.all.map Raster.extension

theorem extension_mem_extensions (format : Raster) :
    format.extension ∈ extensions := by
  cases format <;> decide

theorem length_of_mem_extensions :
    ∀ ext ∈ extensions, ext.toList.length = 3 := by
  decide

theorem unslashed_of_mem_extensions : ∀ ext ∈ extensions, '/' ∉ ext.toList := by
  decide

theorem markupFile_eq {stem : String} {dir name : List Char}
    (h : stem.toList = dir ++ name) :
    out.markupFile stem
      = out.root.join
        (String.ofList (dir ++ (name ++ '.' :: markupExtension.toList))) := by
  rw [markupFile]
  congr 1
  apply String.toList_inj.1
  simp [h]

theorem raster_path_eq {stem : String} {dir name : List Char}
    (h : stem.toList = dir ++ name) (hdir : Leads dir)
    (hname : '/' ∉ name ∧ name ≠ ['.']) (format : Raster) :
    format.path (out.markupFile stem)
      = out.root.join
        (String.ofList (dir ++ (Path.swapped name markupExtension.toList
          ++ '.' :: format.extension.toList))) := by
  rw [markupFile_eq h, Raster.path]
  exact Path.withExtension_join hdir hname (by decide) (by decide)
    (unslashed_of_mem_extensions _ (extension_mem_extensions format))

/-- A path of a stem without periods: a directory part without periods, and the
name of a file that holds what was the name in the stem. -/
theorem exists_leads_of_mem_artifactPaths {stem : String}
    (hstem : '.' ∉ stem.toList) {p : Path}
    (hp : p ∈ artifactPaths (out.markupFile stem)) :
    ∃ dir name file : List Char, stem.toList = dir ++ name ∧ Leads dir
      ∧ '.' ∉ dir ∧ name ⊆ file
      ∧ '/' ∉ file ∧ (file ≠ [] ∧ file ≠ ['.'] ∧ file ≠ ['.', '.'])
      ∧ p = out.root.join (String.ofList (dir ++ file)) := by
  obtain ⟨dir, name, hsplit, hdir, hname⟩ :=
    Path.exists_leads_append stem.toList
  rw [hsplit, List.mem_append, not_or] at hstem
  have hlast : ∀ (front : List Char), ∀ ext ∈ extensions, '/' ∉ front →
      '/' ∉ front ++ '.' :: ext.toList
        ∧ (front ++ '.' :: ext.toList ≠ [] ∧ front ++ '.' :: ext.toList ≠ ['.']
          ∧ front ++ '.' :: ext.toList ≠ ['.', '.']) := by
    intro front ext hext hfront
    refine ⟨?_, fun h => ?_, fun h => ?_, fun h => ?_⟩
    · rw [List.mem_append, List.mem_cons, not_or, not_or]
      exact ⟨hfront, by decide, unslashed_of_mem_extensions ext hext⟩
    all_goals
      have hlength := congrArg List.length h
      simp [length_of_mem_extensions ext hext] at hlength
  rcases mem_artifactPaths.1 hp with rfl | ⟨format, rfl⟩
  · obtain ⟨hslash, hdots⟩ :=
      hlast name markupExtension List.mem_cons_self hname
    exact ⟨dir, name, _, hsplit, hdir, hstem.1, List.subset_append_left _ _,
      hslash, hdots, markupFile_eq hsplit⟩
  · have hswapped : name ⊆ Path.swapped name markupExtension.toList
        ∧ '/' ∉ Path.swapped name markupExtension.toList := by
      unfold Path.swapped
      split
      · next hnil => exact ⟨hnil ▸ List.nil_subset _, by decide⟩
      · exact ⟨fun _ h => h, hname⟩
    obtain ⟨hslash, hdots⟩ :=
      hlast _ format.extension (extension_mem_extensions format) hswapped.2
    exact ⟨dir, name, _, hsplit, hdir, hstem.1,
      fun _ h => List.mem_append_left _ (hswapped.1 h), hslash, hdots,
      raster_path_eq hsplit hdir
      ⟨hname, fun hhere => hstem.2 (by simp [hhere])⟩ format⟩

/-- No path of a stem without periods leads back out of the output directory. -/
theorem below_artifactPaths {stem : String} (hstem : '.' ∉ stem.toList)
    {p : Path} (hp : p ∈ artifactPaths (out.markupFile stem)) :
    out.Below p := by
  obtain ⟨dir, name, file, -, hdir, hdots, -, hfile, ⟨-, -, hlast⟩, rfl⟩ :=
    exists_leads_of_mem_artifactPaths hstem hp
  refine ⟨_, rfl, fun h => ?_⟩
  have hmem := Path.mem_pieces_of_mem_names h
  rw [String.toList_ofList] at hmem
  exact Path.not_mem_pieces_of_leads hdir hfile hdots
    List.mem_cons_self hlast hmem

/-- The names of a path of a stem that holds the joint and is no path from the
top: one of them holds the joint, too. -/
theorem exists_names_of_mem_artifactPaths {stem : String}
    (hstem : '.' ∉ stem.toList) (hjoint : Text.joint ∈ stem.toList)
    (hrel : ¬ Path.isAbsolute stem = true) {p : Path}
    (hp : p ∈ artifactPaths (out.markupFile stem)) :
    ∃ n, p = out.root.join n ∧ ¬ Path.isAbsolute n = true
      ∧ (∀ m ∈ Path.names n, Plain m)
      ∧ ∃ m ∈ Path.names n, Text.joint ∈ m.toList := by
  obtain ⟨dir, name, file, hsplit, hdir, hdots, hsubset, hfile,
      ⟨-, hhere, habove⟩, rfl⟩ :=
    exists_leads_of_mem_artifactPaths hstem hp
  have hpieces : ∀ m ∈ Path.names (String.ofList (dir ++ file)),
      m.toList ∈ Text.splitAtChar '/' (dir ++ file) := by
    intro m hm
    rw [← @String.toList_ofList (dir ++ file)]
    exact Path.mem_pieces_of_mem_names hm
  refine ⟨_, rfl, fun habs => ?_, fun m hm => ⟨Path.ne_empty_of_mem_names hm,
    Text.not_mem_of_mem_splitAtChar (hpieces m hm), ?_, ?_⟩, ?_⟩
  · simp only [Path.isAbsolute, String.toList_ofList, hsplit, decide_eq_true_eq]
      at habs hrel
    cases dir with
    | nil =>
        exact hfile
          (List.mem_of_mem_head?
            (by rw [List.nil_append] at habs; rw [habs]; rfl))
    | cons c cs => exact hrel habs
  · rintro rfl
    exact Path.not_mem_pieces_of_leads hdir hfile hdots List.mem_cons_self
      hhere (hpieces _ hm)
  · rintro rfl
    exact Path.not_mem_pieces_of_leads hdir hfile hdots List.mem_cons_self
      habove (hpieces _ hm)
  · have hmem : Text.joint ∈ dir ++ file := by
      rw [hsplit] at hjoint
      rcases List.mem_append.1 hjoint with hmem | hmem
      · exact List.mem_append_left _ hmem
      · exact List.mem_append_right _ (hsubset hmem)
    have hne : Text.joint ≠ '/' := by decide
    obtain ⟨cs, hcs, hc⟩ := Text.exists_mem_splitAtChar hmem hne
    refine ⟨String.ofList cs, Path.mem_names_of_mem_pieces ?_ ?_ ?_, ?_⟩
    · rwa [String.toList_ofList]
    · rintro rfl
      exact List.not_mem_nil hc
    · rintro rfl
      exact absurd hc (by decide)
    · rwa [String.toList_ofList]

/-! ## Stems without separators -/

/-- A stem whose files stand in the output directory itself. -/
structure Flat (stem : String) : Prop where
  ne_empty : stem ≠ ""
  unslashed : '/' ∉ stem.toList
  undotted : '.' ∉ stem.toList

/-- The name of a file of a stem. -/
def fileName (stem extension : String) : String := stem ++ "." ++ extension

theorem raster_path_flat {stem : String} (h : Flat stem) (format : Raster) :
    format.path (out.markupFile stem)
      = out.root.join (fileName stem format.extension) := by
  have hne : stem.toList ≠ [] :=
    fun hnil => h.ne_empty (String.toList_eq_nil_iff.1 hnil)
  rw [raster_path_eq (List.nil_append _).symm (.inl rfl)
    ⟨h.unslashed, fun hhere => h.undotted (by simp [hhere])⟩]
  congr 1
  apply String.toList_inj.1
  simp [Path.swapped, hne, fileName]

theorem mem_artifactPaths_flat {stem : String} (h : Flat stem) {p : Path} :
    p ∈ artifactPaths (out.markupFile stem)
      ↔ ∃ ext ∈ extensions, p = out.root.join (fileName stem ext) := by
  rw [mem_artifactPaths]
  constructor
  · rintro (rfl | ⟨format, rfl⟩)
    · exact ⟨markupExtension, List.mem_cons_self, rfl⟩
    · exact ⟨format.extension, extension_mem_extensions format,
        raster_path_flat h format⟩
  · rintro ⟨ext, hext, rfl⟩
    rcases List.mem_cons.1 hext with rfl | hext
    · exact .inl rfl
    · obtain ⟨format, -, rfl⟩ := List.mem_map.1 hext
      exact .inr ⟨format, (raster_path_flat h format).symm⟩

theorem plain_fileName_of_unslashed {stem ext : String} (h : '/' ∉ stem.toList)
    (hext : ext ∈ extensions) : Plain (fileName stem ext) := by
  have hlength : 4 ≤ (fileName stem ext).toList.length := by
    simp [fileName, length_of_mem_extensions ext hext]
  refine ⟨?_, ?_, ?_, ?_⟩
  · intro he
    rw [he] at hlength
    exact absurd hlength (by decide)
  · simp [fileName, h, unslashed_of_mem_extensions ext hext]
  · intro he
    rw [he] at hlength
    exact absurd hlength (by decide)
  · intro he
    rw [he] at hlength
    exact absurd hlength (by decide)

theorem plain_fileName {stem ext : String} (h : Flat stem)
    (hext : ext ∈ extensions) :
    Plain (fileName stem ext) :=
  plain_fileName_of_unslashed h.unslashed hext

theorem fileName_injective {stem stem' ext ext' : String}
    (hext : ext ∈ extensions) (hext' : ext' ∈ extensions)
    (h : fileName stem ext = fileName stem' ext') :
    stem = stem' ∧ ext = ext' := by
  have hlist := congrArg String.toList h
  simp only [fileName, String.toList_append] at hlist
  obtain ⟨hleft, hright⟩ := List.append_inj' hlist
    (by rw [length_of_mem_extensions ext hext,
      length_of_mem_extensions ext' hext'])
  exact ⟨String.toList_inj.1 (List.append_inj' hleft rfl).1,
    String.toList_inj.1 hright⟩

/-- The raster that belongs to the stem `.` is the place above. -/
theorem raster_path_here (format : Raster) :
    format.path (out.markupFile ".") = out.root.join ".." := by
  obtain ⟨above, habove, hjoin⟩ :=
    Path.toList_join out.root (.inl rfl : Leads [])
  have hmarkup : (out.markupFile ".").toList
      = above ++ ('.' :: '.' :: markupExtension.toList) :=
    hjoin ['.', '.', 'm', 'm', 'd'] (by decide)
  apply String.toList_inj.1
  rw [Raster.path, Path.withExtension_here hmarkup habove
    (by decide) (by decide)]
  exact (hjoin ['.', '.'] (by decide)).symm

/-- A path of a stem without separators is that of a file in the output
directory itself, or the place above. -/
theorem exists_fileName_of_unslashed {stem : String} (hstem : '/' ∉ stem.toList)
    {p : Path} (hp : p ∈ artifactPaths (out.markupFile stem)) :
    p = out.root.join ".."
      ∨ ∃ front, ∃ ext ∈ extensions, p = out.root.join (fileName front ext)
      ∧ (front = stem ∨ front = "." ++ markupExtension) := by
  rcases mem_artifactPaths.1 hp with rfl | ⟨format, rfl⟩
  · exact .inr ⟨stem, markupExtension, List.mem_cons_self, rfl, .inl rfl⟩
  · by_cases hhere : stem = "."
    · rw [hhere]
      exact .inl (raster_path_here format)
    · have hname : '/' ∉ stem.toList ∧ stem.toList ≠ ['.'] :=
        ⟨hstem, fun h => hhere (String.toList_inj.1 h)⟩
      right
      rw [raster_path_eq (List.nil_append _).symm (.inl rfl) hname]
      by_cases hempty : stem = ""
      · refine ⟨_, format.extension, extension_mem_extensions format,
          ?_, .inr rfl⟩
        rw [hempty]
        cases format <;> rfl
      · have hne : stem.toList ≠ [] :=
          fun hnil => hempty (String.toList_eq_nil_iff.1 hnil)
        refine ⟨stem, format.extension, extension_mem_extensions format,
          ?_, .inl rfl⟩
        congr 1
        apply String.toList_inj.1
        simp [Path.swapped, hne, fileName]

theorem unslashed_front {stem front : String} (hstem : '/' ∉ stem.toList)
    (hfront : front = stem ∨ front = "." ++ markupExtension) :
    '/' ∉ front.toList := by
  rcases hfront with rfl | rfl
  · exact hstem
  · decide

/-- A stem that a run composes shares no name with another stem that holds no
separator. -/
theorem exists_names_ne {stem other : String} (hstem : Flat stem)
    (hjoint : Text.joint ∈ stem.toList) (hother : '/' ∉ other.toList)
    (hne : other ≠ stem) {p q : Path}
    (hp : p ∈ artifactPaths (out.markupFile stem))
    (hq : q ∈ artifactPaths (out.markupFile other)) :
    ∃ n, Plain n ∧ p = out.root.join n
      ∧ (q = out.root.join ".."
        ∨ ∃ m, Plain m ∧ q = out.root.join m ∧ m ≠ n) := by
  obtain ⟨ext, hext, rfl⟩ := (mem_artifactPaths_flat hstem).1 hp
  refine ⟨_, plain_fileName hstem hext, rfl, ?_⟩
  rcases exists_fileName_of_unslashed hother hq with
    rfl | ⟨front, ext', hext', rfl, hfront⟩
  · exact .inl rfl
  · refine .inr
      ⟨_, plain_fileName_of_unslashed (unslashed_front hother hfront) hext',
        rfl, ?_⟩
    intro heq
    obtain ⟨rfl, -⟩ := fileName_injective hext' hext heq
    rcases hfront with rfl | rfl
    · exact hne rfl
    · exact absurd hjoint (by decide)

/-! ## Where files stand -/

/-- The names that lead from the output directory to a path. -/
def LeadTo (out : OutputDirectory) (names : List String) (p : Path) : Prop :=
  (∀ n ∈ names, Plain n) ∧ p = Snapshot.pathTo out.root names

/-- The files of the architecture. -/
def architecturePaths (out : OutputDirectory) : List Path :=
  out.summaryFile :: artifactPaths out.architectureFile

/-- The files of a run that belong to no method. -/
def ownPaths (out : OutputDirectory) : List Path :=
  out.manifestFile :: out.architecturePaths

theorem leadTo_of_flat {stem ext : String} (h : Flat stem)
    (hext : ext ∈ extensions) :
    out.LeadTo [fileName stem ext] (out.root.join (fileName stem ext)) :=
  ⟨List.forall_mem_singleton.2 (plain_fileName h hext), rfl⟩

theorem leadTo_manifestFile : out.LeadTo [manifestName] out.manifestFile := by
  refine ⟨List.forall_mem_singleton.2 ?_, rfl⟩
  constructor <;> decide

theorem flat_architectureStem : Flat architectureStem := by
  constructor <;> decide

theorem mem_artifactPaths_architecture {p : Path} :
    p ∈ artifactPaths out.architectureFile
      ↔ ∃ ext ∈ extensions,
        p = out.architectureRoot.join (fileName architectureStem ext) :=
  @mem_artifactPaths_flat ⟨out.architectureRoot⟩ _ flat_architectureStem _

theorem leadTo_architecture {n : String} (hn : Plain n) :
    out.LeadTo [architectureDirectory, n] (out.architectureRoot.join n) := by
  refine ⟨List.forall_mem_cons.2 ⟨?_, List.forall_mem_singleton.2 hn⟩, rfl⟩
  constructor <;> decide

theorem leadTo_summaryFile :
    out.LeadTo [architectureDirectory, architectureStem ++ ".md"]
      out.summaryFile := by
  refine leadTo_architecture ?_
  constructor <;> decide

theorem exists_leadTo_of_mem_architecturePaths {p : Path}
    (h : p ∈ out.architecturePaths) :
    ∃ n, out.LeadTo [architectureDirectory, n] p := by
  rcases List.mem_cons.1 h with rfl | h
  · exact ⟨_, leadTo_summaryFile⟩
  · obtain ⟨ext, hext, rfl⟩ := mem_artifactPaths_architecture.1 h
    exact ⟨_, leadTo_architecture (plain_fileName flat_architectureStem hext)⟩

/-- No name that leads to a file of the directory itself holds the joint. -/
theorem exists_leadTo_of_mem_ownPaths {p : Path} (h : p ∈ out.ownPaths) :
    ∃ names, out.LeadTo names p ∧ ∀ n ∈ names, Text.joint ∉ n.toList := by
  rcases List.mem_cons.1 h with rfl | h
  · exact ⟨_, leadTo_manifestFile, by decide⟩
  · rcases List.mem_cons.1 h with rfl | h
    · exact ⟨_, leadTo_summaryFile, by decide⟩
    · obtain ⟨ext, hext, rfl⟩ := mem_artifactPaths_architecture.1 h
      have hnames :
          ∀ e ∈ extensions,
            ∀ n ∈ [architectureDirectory, fileName architectureStem e],
              Text.joint ∉ n.toList := by
        decide
      exact ⟨_, leadTo_architecture (plain_fileName flat_architectureStem hext),
        hnames ext hext⟩

theorem below_architecture {p : Path}
    (h : p ∈ artifactPaths out.architectureFile) :
    out.Below p := by
  obtain ⟨ext, hext, rfl⟩ := mem_artifactPaths_architecture.1 h
  have hdir : Plain architectureDirectory := by constructor <;> decide
  have hname := plain_fileName flat_architectureStem hext
  refine ⟨_, Path.join_join out.root hdir hname.unslashed, ?_⟩
  have hnames : ∀ e ∈ extensions,
      ".."
        ∉ Path.names (architectureDirectory ++ "/"
          ++ fileName architectureStem e) := by
    decide
  exact hnames ext hext

end OutputDirectory

end FlowAtlas
