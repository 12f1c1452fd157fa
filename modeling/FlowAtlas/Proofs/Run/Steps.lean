import FlowAtlas.Proofs.Artifacts.Manifest
import FlowAtlas.Proofs.Disk.Laws
import FlowAtlas.Run.Perform

/-!
# What the parts of a run can do

Every part of a run is taken apart once, into the operations on files that it
performs and what it puts down in the report and in the manifest. The two parts
that touch files in several places have a specification beside that:
`Clears` for deleting and `Draws` for making the files of a diagram. Everything
about runs goes by these and opens no definition again.

Reports only grow (`Report.Extends`). So what is missing from the last report
did not happen anywhere before, and that is how a statement about the faults of
a whole run reaches the single operation.
-/

namespace FlowAtlas

open OutputDirectory

/-- An action followed by another one: the states are passed on. -/
theorem run_bind {σ α β : Type} {x : StateM σ α} {f : α → StateM σ β} {s u : σ}
    {b : β} :
    (x >>= f).run s = (b, u)
      ↔ ∃ a t, x.run s = (a, t) ∧ (f a).run t = (b, u) := by
  constructor
  · intro h
    exact ⟨(x.run s).1, (x.run s).2, rfl, h⟩
  · rintro ⟨a, t, hx, hf⟩
    show (f (x.run s).1).run (x.run s).2 = (b, u)
    rw [hx]
    exact hf

theorem run_pure {σ α : Type} {a b : α} {s t : σ} :
    (pure a : StateM σ α).run s = (b, t) ↔ b = a ∧ t = s := by
  show (a, s) = (b, t) ↔ _
  rw [Prod.mk.injEq, eq_comm, @eq_comm _ t]

namespace OutputDirectory

variable {σ : Type} {disk : Disk (StateM σ)} {v : FileView σ}
  {out : OutputDirectory}

/-! ## Deleting -/

/-- What deleting some files has done, given the faults it has reported. -/
structure Clears (v : FileView σ) (out : OutputDirectory) (paths : List Path)
    (faults : List Fault) (s t : σ) : Prop where
  spares : v.Spares (· ∈ paths) s t
  shrinks : ∀ f, v.content s f = none → v.content t f = none
  gone : faults = [] → ∀ p ∈ paths, out.Below p → v.content t (v.place p) = none

/-- The faults that a try to delete a file comes to. -/
def staleFaults (path : Path) : Except SystemError Unit → List Fault
  | .ok _ => []
  | .error e =>
    if e.kindOf = .notFound then [] else [faultAt "output::remove_stale" path e]

theorem staleFaults_eq_nil {path : Path} {r : Except SystemError Unit} :
    staleFaults path r = [] ↔ ∀ e, r = .error e → e.kindOf = .notFound := by
  cases r with
  | ok a => exact iff_of_true rfl fun _ he => nomatch he
  | error e =>
      rw [staleFaults]
      split
      · next hkind =>
          refine iff_of_true rfl fun e' he' => ?_
          obtain rfl := Except.error.inj he'
          exact hkind
      · next hkind =>
          exact iff_of_false (List.cons_ne_nil _ _) fun h => hkind (h e rfl)

theorem exists_of_mem_staleFaults {path : Path} {r : Except SystemError Unit}
    {fault : Fault} (h : fault ∈ staleFaults path r) :
    ∃ e, fault = faultAt "output::remove_stale" path e := by
  cases r with
  | ok a => exact absurd h List.not_mem_nil
  | error e =>
      rw [staleFaults] at h
      split at h
      · exact absurd h List.not_mem_nil
      · exact ⟨e, List.mem_singleton.1 h⟩

theorem deleteEach_turn {path : Path} {paths : List Path} {s u : σ}
    {faults : List Fault}
    (h : (deleteEach disk (path :: paths)).run s = (faults, u)) :
    ∃ r t more, (disk.removeFile path).run s = (r, t)
      ∧ (deleteEach disk paths).run t = (more, u)
      ∧ faults = staleFaults path r ++ more := by
  rw [deleteEach, run_bind] at h
  obtain ⟨r, t, hremove, h⟩ := h
  refine ⟨r, t, ?_⟩
  cases r with
  | ok a =>
      dsimp only at h
      rw [run_bind] at h
      obtain ⟨first, t', hfirst, h⟩ := h
      obtain ⟨rfl, rfl⟩ := run_pure.1 hfirst
      rw [run_bind] at h
      obtain ⟨more, u', hmore, h⟩ := h
      obtain ⟨rfl, rfl⟩ := run_pure.1 h
      exact ⟨_, hremove, hmore, rfl⟩
  | error e =>
      dsimp only at h
      rw [run_bind] at h
      obtain ⟨first, t', hfirst, h⟩ := h
      obtain ⟨rfl, rfl⟩ := run_pure.1 hfirst
      rw [run_bind] at h
      obtain ⟨more, u', hmore, h⟩ := h
      obtain ⟨rfl, rfl⟩ := run_pure.1 h
      exact ⟨_, hremove, hmore, rfl⟩

/-- A fault names the path that could not be deleted. -/
theorem exists_of_mem_faults {paths : List Path} {s u : σ} {faults : List Fault}
    (h : (deleteEach disk paths).run s = (faults, u)) {fault : Fault}
    (hfault : fault ∈ faults) :
    ∃ path ∈ paths, ∃ e, fault = faultAt "output::remove_stale" path e := by
  induction paths generalizing s faults with
  | nil =>
      obtain ⟨rfl, rfl⟩ := run_pure.1 h
      exact absurd hfault List.not_mem_nil
  | cons path paths ih =>
      obtain ⟨r, t, more, -, hmore, rfl⟩ := deleteEach_turn h
      rcases List.mem_append.1 hfault with hfault | hfault
      · exact ⟨path, List.mem_cons_self, exists_of_mem_staleFaults hfault⟩
      · obtain ⟨p, hp, hnames⟩ := ih hmore hfault
        exact ⟨p, List.mem_cons_of_mem _ hp, hnames⟩

theorem remove_shrinks (hdisk : disk.Lawful v out) {p : Path} {s t : σ}
    {r : Except SystemError Unit} (hs : v.tidy s)
    (h : (disk.removeFile p).run s = (r, t)) (f : v.File)
    (hf : v.content s f = none) : v.content t f = none := by
  by_cases heq : v.place p = f
  · subst heq
    cases r with
    | ok u => exact hdisk.remove_ok hs h
    | error e => rw [hdisk.remove_error hs h, hf]
  · rw [(hdisk.remove_spares hs h).content f (by rintro q rfl; exact heq), hf]

theorem deleteEach_clears (hdisk : disk.Lawful v out) {paths : List Path}
    {s t : σ} {faults : List Fault} (hs : v.tidy s)
    (h : (deleteEach disk paths).run s = (faults, t)) :
    Clears v out paths faults s t := by
  induction paths generalizing s faults with
  | nil =>
      obtain ⟨rfl, rfl⟩ := run_pure.1 h
      exact ⟨.refl hs, fun _ hf => hf, fun _ p hp => absurd hp List.not_mem_nil⟩
  | cons path paths ih =>
      obtain ⟨r, t', more, hremove, hmore, rfl⟩ := deleteEach_turn h
      have hspares := hdisk.remove_spares hs hremove
      have hrest := ih hspares.tidy hmore
      refine ⟨?_, fun f hf =>
        hrest.shrinks f (remove_shrinks hdisk hs hremove f hf), ?_⟩
      · refine (hspares.mono ?_).trans
          (hrest.spares.mono fun p hp => List.mem_cons_of_mem _ hp)
        rintro p rfl
        exact List.mem_cons_self
      · intro hnil p hp hbelow
        obtain ⟨hfirstnil, hmorenil⟩ := List.append_eq_nil_iff.1 hnil
        have hkind := staleFaults_eq_nil.1 hfirstnil
        rcases List.mem_cons.1 hp with rfl | hp
        · refine hrest.shrinks _ ?_
          cases r with
          | ok u => exact hdisk.remove_ok hs hremove
          | error e =>
              rw [hdisk.remove_error hs hremove]
              exact hdisk.remove_notFound hs hremove (hkind e rfl) hbelow
        · exact hrest.gone hmorenil p hp hbelow

/-! ## Writing -/

theorem mapError_eq_ok {α ε ε' : Type} {x : Except ε α} {f : ε → ε'} {a : α} :
    x.mapError f = .ok a ↔ x = .ok a := by
  cases x with
  | ok b =>
      exact ⟨fun h => congrArg _ (Except.ok.inj h),
        fun h => congrArg _ (Except.ok.inj h)⟩
  | error e => exact iff_of_false (fun h => nomatch h) (fun h => nomatch h)

theorem putText_turn {path : Path} {text : String} {s t : σ}
    {r : Except Fault Unit} (h : (putText disk path text).run s = (r, t)) :
    ∃ w, (disk.writeText path text).run s = (w, t)
      ∧ r = w.mapError (faultAt "output::write_text" path) := by
  rw [putText, run_bind] at h
  obtain ⟨w, t', hwrite, h⟩ := h
  obtain ⟨rfl, rfl⟩ := run_pure.1 h
  exact ⟨w, hwrite, rfl⟩

/-- A text that is written for an operation, which a fault names then. -/
theorem putText_for_turn {operation text : String} {path : Path} {s t : σ}
    {r : Except Fault Unit}
    (h :
      (do pure ((← putText disk path text).mapError fun f =>
        f.addOperation operation) :
        StateM σ (Except Fault Unit)).run s = (r, t)) :
    ∃ w, (disk.writeText path text).run s = (w, t)
      ∧ r = w.mapError fun e =>
        (faultAt "output::write_text" path e).addOperation operation := by
  obtain ⟨w, t', hput, h⟩ := run_bind.1 h
  obtain ⟨rfl, rfl⟩ := run_pure.1 h
  obtain ⟨w', hwrite, rfl⟩ := putText_turn hput
  refine ⟨w', hwrite, ?_⟩
  cases w' <;> rfl

/-- The fault of a markup file that could not be written. -/
def markupFault (path : Path) (e : SystemError) : Fault :=
  (faultAt "output::write_text" path e).addOperation "output::write_markup"

theorem putMarkup_turn {path : Path} {markup : String} {s t : σ}
    {r : Except Fault Unit} (h : (putMarkup disk path markup).run s = (r, t)) :
    ∃ w, (disk.writeText path markup).run s = (w, t)
      ∧ r = w.mapError (markupFault path) :=
  putText_for_turn h

theorem putManifest_turn {m : Manifest} {s t : σ} {r : Except Fault Unit}
    (h : (out.putManifest disk m).run s = (r, t)) :
    ∃ w, (disk.writeText out.manifestFile m.toText).run s = (w, t)
      ∧ r = w.mapError fun e =>
          (faultAt "output::write_text" out.manifestFile e).addOperation
            "output::save_manifest" :=
  putText_for_turn h

/-- What writing the texts of the architecture comes to: the second one is
written if the first one was. -/
def PutsTexts (disk : Disk (StateM σ)) (out : OutputDirectory)
    (texts : Architecture.Texts) (s : σ) (r : Except Fault Unit) (u : σ) :
    Prop :=
  ∃ first t, (disk.writeText out.summaryFile texts.summary).run s = (first, t)
    ∧ ((∃ e, first = .error e ∧ t = u
          ∧ r = .error (faultAt "output::write_text" out.summaryFile e))
      ∨ first = .ok () ∧ ∃ second,
          (disk.writeText out.architectureFile texts.markup).run t = (second, u)
            ∧ r = second.mapError
              (faultAt "output::write_text" out.architectureFile))

/-- The texts are written if their directory was created. -/
theorem putArchitecture_turn {texts : Architecture.Texts} {s u : σ}
    {r : Except Fault Unit}
    (h : (out.putArchitecture disk texts).run s = (r, u)) :
    ∃ c t, (disk.createDirectories out.architectureRoot).run s = (c, t)
      ∧ ((∃ e, c = .error e ∧ t = u
            ∧ r = .error
              (faultAt "output::write_architecture" out.architectureRoot e))
        ∨ c = .ok () ∧ PutsTexts disk out texts t r u) := by
  rw [putArchitecture, run_bind] at h
  obtain ⟨c, t, hcreate, h⟩ := h
  refine ⟨c, t, hcreate, ?_⟩
  cases c with
  | error e =>
      obtain ⟨rfl, rfl⟩ := run_pure.1 h
      exact .inl ⟨e, rfl, rfl, rfl⟩
  | ok a =>
      dsimp only at h
      rw [run_bind] at h
      obtain ⟨r', t', hput, h⟩ := h
      obtain ⟨first, hfirst, rfl⟩ := putText_turn hput
      refine .inr ⟨rfl, first, t', hfirst, ?_⟩
      cases first with
      | error e =>
          obtain ⟨rfl, rfl⟩ := run_pure.1 h
          exact .inl ⟨e, rfl, rfl, rfl⟩
      | ok b =>
          obtain ⟨second, hsecond, rfl⟩ := putText_turn h
          exact .inr ⟨rfl, second, hsecond, rfl⟩

/-! ## Reading the manifest -/

theorem below_manifestFile : out.Below out.manifestFile := by
  refine ⟨manifestName, rfl, ?_⟩
  decide

/-- What reading the file of the manifest comes to. -/
def manifestFrom (out : OutputDirectory) :
    Except SystemError String → Except Fault Manifest
  | .ok text => out.manifestOf text
  | .error e =>
    if e.kindOf = .notFound then .ok .empty
    else .error (faultAt loadOperation out.manifestFile e)

theorem readManifest_turn {s t : σ} {r : Except Fault Manifest}
    (h : (out.readManifest disk).run s = (r, t)) :
    ∃ read, (disk.readText out.manifestFile).run s = (read, t)
      ∧ r = out.manifestFrom read := by
  rw [readManifest, run_bind] at h
  obtain ⟨read, a, hread, h⟩ := h
  cases read with
  | ok text =>
      obtain ⟨rfl, rfl⟩ := run_pure.1 h
      exact ⟨_, hread, rfl⟩
  | error e =>
      obtain ⟨rfl, rfl⟩ := run_pure.1 h
      exact ⟨_, hread, rfl⟩

theorem readManifest_run (hdisk : disk.Lawful v out) {s t : σ}
    {r : Except Fault Manifest} (hs : v.tidy s)
    (h : (out.readManifest disk).run s = (r, t)) :
    v.Spares (fun _ => False) s t ∧ ∀ m, r = .ok m →
      (v.content s (v.place out.manifestFile) = none ∧ m = .empty)
        ∨ ∃ text, v.content s (v.place out.manifestFile) = some text.toUTF8
          ∧ Manifest.ofText text = .ok m := by
  obtain ⟨read, hread, rfl⟩ := readManifest_turn h
  refine ⟨hdisk.read_spares hs hread, fun m hm => ?_⟩
  cases read with
  | ok text =>
      refine .inr ⟨text, hdisk.read_ok hs hread, ?_⟩
      exact mapError_eq_ok.1 hm
  | error e =>
      rw [manifestFrom] at hm
      by_cases hkind : e.kindOf = .notFound
      · rw [if_pos hkind] at hm
        exact .inl ⟨hdisk.read_notFound hs hread hkind below_manifestFile,
          (Except.ok.inj hm).symm⟩
      · rw [if_neg hkind] at hm
        exact nomatch hm

/-- The manifest that the disk holds, or an empty one if it holds none. -/
def Holds (v : FileView σ) (out : OutputDirectory) (s : σ) (m : Manifest) :
    Prop :=
  v.content s (v.place out.manifestFile) = some m.toText.toUTF8
    ∨ v.content s (v.place out.manifestFile) = none ∧ m = .empty

/-- What was saved is read. -/
theorem eq_of_holds (hdisk : disk.Lawful v out) {s t : σ} {m m' : Manifest}
    (hs : v.tidy s) (hm : Holds v out s m)
    (h : (out.readManifest disk).run s = (.ok m', t)) : m' = m := by
  rcases (readManifest_run hdisk hs h).2 m' rfl with
    ⟨hnone, rfl⟩ | ⟨text, htext, hread⟩
  · rcases hm with hm | ⟨-, rfl⟩
    · rw [hnone] at hm; exact nomatch hm
    · rfl
  · rcases hm with hm | ⟨hm, -⟩
    · rw [htext, Option.some.injEq] at hm
      obtain rfl : text = m.toText := String.toByteArray_inj.1 hm
      rw [Manifest.ofText_toText] at hread
      exact (Except.ok.inj hread).symm
    · rw [htext] at hm; exact nomatch hm

end OutputDirectory

namespace Run

/-! ## Reports -/

/-- A later report of the same run: nothing that was noted is taken back. -/
structure Report.Extends (r r' : Report) : Prop where
  warnings : r.warnings ⊆ r'.warnings
  written : r.written ⊆ r'.written
  pruned : r.pruned ⊆ r'.pruned

namespace Report.Extends

variable {r r' r'' : Report}

theorem refl (r : Report) : r.Extends r :=
  ⟨List.Subset.refl _, List.Subset.refl _, List.Subset.refl _⟩

theorem trans (h : r.Extends r') (h' : r'.Extends r'') : r.Extends r'' :=
  ⟨List.Subset.trans h.warnings h'.warnings,
    List.Subset.trans h.written h'.written,
    List.Subset.trans h.pruned h'.pruned⟩

theorem note (r : Report) (category : Category) (unit : String)
    (fault : Fault) :
    r.Extends (r.note category unit fault) :=
  ⟨List.subset_append_left _ _, List.Subset.refl _, List.Subset.refl _⟩

theorem noteAll (r : Report) (category : Category) (unit : String)
    (faults : List Fault) :
    r.Extends (r.noteAll category unit faults) := by
  induction faults generalizing r with
  | nil => exact refl r
  | cons fault faults ih => exact (note r category unit fault).trans (ih _)

theorem addMarkup (r : Report) (path : Path) : r.Extends (r.addMarkup path) :=
  ⟨List.Subset.refl _, List.subset_append_left _ _, List.Subset.refl _⟩

theorem addRaster (r : Report) (path : Path) : r.Extends (r.addRaster path) :=
  ⟨List.Subset.refl _, List.Subset.refl _, List.Subset.refl _⟩

theorem addPruned (r : Report) (stem : String) : r.Extends (r.addPruned stem) :=
  ⟨List.Subset.refl _, List.Subset.refl _, List.subset_append_left _ _⟩

end Report.Extends

theorem Report.written_noteAll (r : Report) (category : Category)
    (unit : String) (faults : List Fault) :
    (r.noteAll category unit faults).written = r.written := by
  induction faults generalizing r with
  | nil => rfl
  | cons fault faults ih => exact ih _

/-- Faults that were noted are on the list of warnings. -/
theorem Report.exists_warning_noteAll (r : Report) (category : Category)
    (unit : String) {faults : List Fault} (h : faults ≠ []) :
    ∃ w ∈ (r.noteAll category unit faults).warnings, w.category = category
      ∧ w.unit = unit := by
  obtain ⟨fault, hfault⟩ := List.exists_mem_of_ne_nil faults h
  refine ⟨⟨category, unit, fault.render⟩, ?_, rfl, rfl⟩
  rw [Report.warnings_noteAll]
  exact List.mem_append_right _ (List.mem_map_of_mem hfault)

theorem Report.exists_warning_note (r : Report) (category : Category)
    (unit : String) (fault : Fault) :
    ∃ w ∈ (r.note category unit fault).warnings, w.category = category
      ∧ w.unit = unit :=
  ⟨⟨category, unit, fault.render⟩,
    List.mem_append_right _ List.mem_cons_self, rfl, rfl⟩

/-! ## Rendering -/

/-- A report after a try to render a format. -/
def Report.afterRender (report : Report) (markup : Path) (format : Raster) :
    Except Fault Unit → Report
  | .ok _ => report.addRaster (format.path markup)
  | .error fault =>
    report.note .render (format.name ++ " " ++ format.path markup) fault

namespace Workshop

variable {σ : Type} {shop : Workshop (StateM σ)} {v : FileView σ}

/-- What rendering some formats has done. -/
structure Renders (v : FileView σ) (markup : Path) (formats : List Raster)
    (report : Report) (s : σ) (report' : Report) (t : σ) : Prop where
  spares : v.Spares (fun p => ∃ format ∈ formats, p = format.path markup) s t
  extends_report : report.Extends report'
  written : report'.written = report.written

theorem renderEach_turn {markup : Path} {format : Raster}
    {formats : List Raster} {report report' : Report} {s t : σ}
    (h : (shop.renderEach markup (format :: formats) report).run s
      = (report', t)) :
    ∃ r a, (shop.renderer markup (format.path markup)).run s = (r, a)
      ∧ (shop.renderEach markup formats
          (report.afterRender markup format r)).run a
        = (report', t) := by
  rw [renderEach, run_bind] at h
  obtain ⟨r, a, hrender, h⟩ := h
  refine ⟨r, a, hrender, ?_⟩
  cases r with
  | ok a => exact h
  | error fault => exact h

theorem renderEach_cons {markup : Path} {format : Raster}
    {formats : List Raster} {report report' : Report} {s u : σ}
    (h : (shop.renderEach markup (format :: formats) report).run s
      = (report', u)) :
    ∃ r t next, (shop.renderer markup (format.path markup)).run s = (r, t)
      ∧ (shop.renderEach markup formats next).run t = (report', u)
      ∧ report.Extends next ∧ next.written = report.written := by
  obtain ⟨r, t, hrender, hrest⟩ := renderEach_turn h
  cases r with
  | ok a => exact ⟨_, t, _, hrender, hrest, .addRaster _ _, rfl⟩
  | error fault => exact ⟨_, t, _, hrender, hrest, .note _ _ _ _, rfl⟩

theorem renderEach_renders (hrenderer : shop.renderer.Confined v)
    {markup : Path} {formats : List Raster} {report report' : Report} {s t : σ}
    (hs : v.tidy s)
    (h : (shop.renderEach markup formats report).run s = (report', t)) :
    Renders v markup formats report s report' t := by
  induction formats generalizing s report with
  | nil =>
      obtain ⟨rfl, rfl⟩ := run_pure.1 h
      exact ⟨.refl hs, .refl _, rfl⟩
  | cons format formats ih =>
      obtain ⟨r, t', next, hrender, hrest, hextends, hwritten⟩ :=
        renderEach_cons h
      have hspares := hrenderer hs hrender
      have hafter := ih hspares.tidy hrest
      refine ⟨?_, hextends.trans hafter.extends_report,
        hafter.written.trans hwritten⟩
      refine (hspares.mono ?_).trans (hafter.spares.mono ?_)
      · rintro p rfl
        exact ⟨format, List.mem_cons_self, rfl⟩
      · rintro p ⟨other, hother, rfl⟩
        exact ⟨other, List.mem_cons_of_mem _ hother, rfl⟩

theorem renderFormats_renders (hrenderer : shop.renderer.Confined v)
    {markup : Path} {report report' : Report} {s t : σ} (hs : v.tidy s)
    (h : (shop.renderFormats markup report).run s = (report', t)) :
    Renders v markup Raster.all report s report' t :=
  renderEach_renders hrenderer hs h

theorem Renders.spares_artifacts {markup : Path} {formats : List Raster}
    {report report' : Report} {s t : σ}
    (h : Renders v markup formats report s report' t) :
    v.Spares (· ∈ artifactPaths markup) s t :=
  h.spares.mono fun _ ⟨format, _, hp⟩ => mem_artifactPaths.2 (.inr ⟨format, hp⟩)

end Workshop

end Run

end FlowAtlas
