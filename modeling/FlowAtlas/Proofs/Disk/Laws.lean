import FlowAtlas.Proofs.Artifacts.Directory
import FlowAtlas.Renderer.Basic

/-!
# What a run may rely on

A disk is a parameter of a run, and so is a renderer. What is known of them is
stated here, once, and everything about runs is derived from it.

A disk has states, and a view of the states tells which file a path stands for
and what is in it (`FileView`). A lawful disk refuses whatever it likes, in any
pattern: its states may hold the pattern. It keeps three promises. An operation
leaves every file alone but the one it was asked to change; an operation that is
carried out has done its work; and a deletion that is refused has done nothing.
That a file is not there is the one reason for a refusal that has to be true,
because a run treats such a file as deleted.

Of the file of a refused write nothing is promised. To write is to open and then
to put the text, so a part of the text may be left where no file was before.
Whether that happens is a property of its own (`NoFragments`), and only what is
said about files that nothing has on record needs it.

A path below the output directory stands for the file that its names lead to,
and other names lead to another file: nothing below the directory is a link. To
tell the files at two paths apart always rests on this. A name that steps back
is an exception, so the reason for a refusal is trusted on other paths only.
-/

namespace FlowAtlas

open FlowAtlas.Path (Plain)
open OutputDirectory

/-- A view of the states of a disk. -/
structure FileView (σ : Type) where
  File : Type
  /-- The file that a path stands for, whether it is there or not. -/
  place : Path → File
  content : σ → File → Option ByteArray
  /-- The states that the view is right about. -/
  tidy : σ → Prop

namespace FileView

variable {σ : Type}

/-- All the difference between two states is in the files at some paths. -/
structure Spares (v : FileView σ) (touched : Path → Prop) (s t : σ) : Prop where
  tidy : v.tidy t
  content :
    ∀ f, (∀ p, touched p → v.place p ≠ f) → v.content t f = v.content s f

variable {v : FileView σ} {touched more : Path → Prop} {s t u : σ}

theorem Spares.refl (hs : v.tidy s) : v.Spares touched s s :=
  ⟨hs, fun _ _ => rfl⟩

theorem Spares.trans (h : v.Spares touched s t) (h' : v.Spares touched t u) :
    v.Spares touched s u :=
  ⟨h'.tidy, fun f hf => (h'.content f hf).trans (h.content f hf)⟩

theorem Spares.mono (h : v.Spares touched s t)
    (hmore : ∀ p, touched p → more p) :
    v.Spares more s t :=
  ⟨h.tidy, fun f hf => h.content f fun p hp => hf p (hmore p hp)⟩

end FileView

/-- A disk that keeps its promises about the files in an output directory. -/
structure Disk.Lawful {σ : Type} (disk : Disk (StateM σ)) (v : FileView σ)
    (out : OutputDirectory) : Prop where
  read_spares : ∀ {p s r t}, v.tidy s → (disk.readText p).run s = (r, t) →
    v.Spares (fun _ => False) s t
  read_ok : ∀ {p s text t}, v.tidy s → (disk.readText p).run s = (.ok text, t) →
    v.content s (v.place p) = some text.toUTF8
  read_notFound :
    ∀ {p s e t}, v.tidy s → (disk.readText p).run s = (.error e, t) →
      e.kindOf = .notFound → out.Below p → v.content s (v.place p) = none
  write_spares :
    ∀ {p text s r t}, v.tidy s → (disk.writeText p text).run s = (r, t) →
      v.Spares (· = p) s t
  write_ok :
    ∀ {p text s u t}, v.tidy s → (disk.writeText p text).run s = (.ok u, t) →
      v.content t (v.place p) = some text.toUTF8
  remove_spares : ∀ {p s r t}, v.tidy s → (disk.removeFile p).run s = (r, t) →
    v.Spares (· = p) s t
  remove_ok : ∀ {p s u t}, v.tidy s → (disk.removeFile p).run s = (.ok u, t) →
    v.content t (v.place p) = none
  remove_error :
    ∀ {p s e t}, v.tidy s → (disk.removeFile p).run s = (.error e, t) →
      v.content t (v.place p) = v.content s (v.place p)
  remove_notFound :
    ∀ {p s e t}, v.tidy s → (disk.removeFile p).run s = (.error e, t) →
      e.kindOf = .notFound → out.Below p → v.content s (v.place p) = none
  create_spares : ∀ {s r t}, v.tidy s →
    (disk.createDirectories out.architectureRoot).run s = (r, t) →
      v.Spares (fun _ => False) s t
  place_names : ∀ {n : String}, ¬ Path.isAbsolute n = true →
    v.place (out.root.join n)
      = v.place (Snapshot.pathTo out.root (Path.names n))
  place_injective :
    ∀ {ns ms : List String}, (∀ n ∈ ns, Plain n) → (∀ n ∈ ms, Plain n) →
      v.place (Snapshot.pathTo out.root ns)
        = v.place (Snapshot.pathTo out.root ms) → ns = ms

/-- A write that is refused makes no file. A disk that runs full while it writes
breaks this, so it is no law: it is assumed where a claim about what exists
could not hold otherwise. -/
def Disk.NoFragments {σ : Type} (disk : Disk (StateM σ)) (v : FileView σ) :
    Prop :=
  ∀ ⦃p text s e t⦄, v.tidy s → (disk.writeText p text).run s = (.error e, t) →
    v.content s (v.place p) = none → v.content t (v.place p) = none

namespace Renderer

variable {σ : Type}

/-- A renderer that changes no file but the one it is to make. -/
def Confined (renderer : Renderer (StateM σ)) (v : FileView σ) : Prop :=
  ∀ ⦃input output s r t⦄, v.tidy s → (renderer input output).run s = (r, t) →
    v.Spares (· = output) s t

/-- A renderer whose work depends on the markup and on the path it is to write
to: it makes the file that `effect` tells, or it fails and leaves the file as it
was. -/
structure Follows (renderer : Renderer (StateM σ)) (v : FileView σ)
    (effect : String → Path → Option ByteArray) : Prop where
  confined : renderer.Confined v
  made : ∀ {input output s r t text bytes},
    v.tidy s → (renderer input output).run s = (r, t) →
      v.content s (v.place input) = some text.toUTF8 →
      effect text output = some bytes →
      v.content t (v.place output) = some bytes ∧ r = .ok ()
  left : ∀ {input output s r t text},
    v.tidy s → (renderer input output).run s = (r, t) →
      v.content s (v.place input) = some text.toUTF8 →
      effect text output = none →
      v.content t (v.place output) = v.content s (v.place output)
        ∧ ∃ fault, r = .error fault

end Renderer

/-! ## Files that differ -/

namespace Disk.Lawful

variable {σ : Type} {disk : Disk (StateM σ)} {v : FileView σ}
  {out : OutputDirectory}

theorem names_eq (h : disk.Lawful v out) {ns ms : List String} {p q : Path}
    (hp : out.LeadTo ns p) (hq : out.LeadTo ms q)
    (heq : v.place p = v.place q) : ns = ms := by
  obtain ⟨hns, rfl⟩ := hp
  obtain ⟨hms, rfl⟩ := hq
  exact h.place_injective hns hms heq

theorem eq_of_place_flat (h : disk.Lawful v out) {stem stem' : String}
    (hstem : Flat stem) (hstem' : Flat stem') {p q : Path}
    (hp : p ∈ artifactPaths (out.markupFile stem))
    (hq : q ∈ artifactPaths (out.markupFile stem'))
    (heq : v.place p = v.place q) :
    stem = stem' ∧ p = q := by
  obtain ⟨ext, hext, rfl⟩ := (mem_artifactPaths_flat hstem).1 hp
  obtain ⟨ext', hext', rfl⟩ := (mem_artifactPaths_flat hstem').1 hq
  have hnames :=
    h.names_eq (leadTo_of_flat hstem hext) (leadTo_of_flat hstem' hext') heq
  obtain ⟨rfl, rfl⟩ := fileName_injective hext hext' (List.cons.inj hnames).1
  exact ⟨rfl, rfl⟩

/-- A stem that a run composes has no file of the directory itself among its
own, unless it is a path from the top. -/
theorem place_own_ne (h : disk.Lawful v out) {stem : String}
    (hstem : '.' ∉ stem.toList) (hjoint : Text.joint ∈ stem.toList)
    (hrel : ¬ Path.isAbsolute stem = true) {p q : Path} (hp : p ∈ out.ownPaths)
    (hq : q ∈ artifactPaths (out.markupFile stem)) :
    v.place p ≠ v.place q := by
  intro heq
  obtain ⟨names, hnames, hnot⟩ := exists_leadTo_of_mem_ownPaths hp
  obtain ⟨n, rfl, hn, hplain, m, hm, hmem⟩ :=
    exists_names_of_mem_artifactPaths hstem hjoint hrel hq
  rw [h.place_names hn] at heq
  obtain rfl := h.names_eq hnames ⟨hplain, rfl⟩ heq
  exact hnot m hm hmem

theorem place_architecture_ne_manifest (h : disk.Lawful v out) {p : Path}
    (hp : p ∈ out.architecturePaths) :
    v.place p ≠ v.place out.manifestFile := by
  intro heq
  obtain ⟨n, hn⟩ := exists_leadTo_of_mem_architecturePaths hp
  have hnames := h.names_eq hn leadTo_manifestFile heq
  exact List.cons_ne_nil _ _ (List.cons.inj hnames).2

theorem place_summary_ne (h : disk.Lawful v out) {p : Path}
    (hp : p ∈ artifactPaths out.architectureFile) :
    v.place p ≠ v.place out.summaryFile := by
  intro heq
  obtain ⟨ext, hext, rfl⟩ := mem_artifactPaths_architecture.1 hp
  have hnames :=
    h.names_eq (leadTo_architecture (plain_fileName flat_architectureStem hext))
      leadTo_summaryFile heq
  have hne : ∀ e ∈ extensions, fileName architectureStem e
      ≠ architectureStem ++ ".md" := by
    decide
  exact hne ext hext (List.cons.inj (List.cons.inj hnames).2).1

/-- The files that belong to a markup file are told apart by their
extensions. -/
structure Distinct (v : FileView σ) (markup : Path) : Prop where
  raster_ne : ∀ format : Raster, v.place (format.path markup) ≠ v.place markup
  raster_injective : ∀ format other : Raster,
    v.place (format.path markup) = v.place (other.path markup) → format = other

theorem distinct_of_leadTo (h : disk.Lawful v out) (dir : List String)
    (stem : String) {markup : Path}
    (hmarkup : out.LeadTo (dir ++ [fileName stem markupExtension]) markup)
    (hraster : ∀ format : Raster,
      out.LeadTo (dir ++ [fileName stem format.extension])
      (format.path markup)) :
    Distinct v markup := by
  constructor
  · intro format heq
    have hnames :=
      List.append_cancel_left (h.names_eq (hraster format) hmarkup heq)
    have hext :=
      (fileName_injective (extension_mem_extensions format) List.mem_cons_self
        (List.cons.inj hnames).1).2
    cases format <;> exact absurd hext (by decide)
  · intro format other heq
    have hnames :=
      List.append_cancel_left (h.names_eq (hraster format) (hraster other) heq)
    have hext := (fileName_injective (extension_mem_extensions format)
      (extension_mem_extensions other) (List.cons.inj hnames).1).2
    cases format <;> cases other <;> first | rfl | exact absurd hext (by decide)

theorem distinct_markupFile (h : disk.Lawful v out) {stem : String}
    (hstem : Flat stem) :
    Distinct v (out.markupFile stem) := by
  refine h.distinct_of_leadTo [] stem (leadTo_of_flat hstem List.mem_cons_self)
    fun format => ?_
  rw [raster_path_flat hstem]
  exact leadTo_of_flat hstem (extension_mem_extensions format)

theorem distinct_architectureFile (h : disk.Lawful v out) :
    Distinct v out.architectureFile := by
  have hplain : ∀ ext ∈ extensions, Plain (fileName architectureStem ext) :=
    fun _ => plain_fileName flat_architectureStem
  refine h.distinct_of_leadTo [architectureDirectory] architectureStem
    (leadTo_architecture (hplain _ List.mem_cons_self)) fun format => ?_
  rw [show format.path out.architectureFile
      = out.architectureRoot.join
        (fileName architectureStem format.extension) from
    @raster_path_flat ⟨out.architectureRoot⟩ _ flat_architectureStem format]
  exact leadTo_architecture (hplain _ (extension_mem_extensions format))

end Disk.Lawful

end FlowAtlas
