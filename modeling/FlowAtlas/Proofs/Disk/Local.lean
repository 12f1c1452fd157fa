import FlowAtlas.Proofs.Run.Steps

/-!
# What a file operation depends on

A promise about what an operation does is enough for one run. Two runs can be
compared only if it is known what an operation depends on, and a local disk
promises that as well: the outcome of an operation on a path is settled by what
stands at that path, and in the directory of the architecture also by what
stands at this directory, which a run may have to create first.

What stands at a path is more than the content of a file (`Sight`). A directory
has no content, and yet it is in the way of a file.

Stems that come from a manifest may hold separators. Their paths may then lead
through files of other stems, and depend on these. So the promise is for the
paths of some stems only, and those without separators that a run composes are
always among them.

What a refused write leaves is once more a matter of its own. A local disk may
leave a part of the text, the same part in states that agree. Where two texts
are compared that were both refused, it has to leave what was there
(`WritesWhole`).
-/

namespace FlowAtlas

open OutputDirectory

/-- What stands at the places of files: nothing, or something that may be a file
or not. -/
structure Sight {σ : Type} (v : FileView σ) where
  Entry : Type
  look : σ → v.File → Option Entry
  /-- What is in a file can be told from what stands there. -/
  reveals : ∀ {s t f}, look s f = look t f → v.content s f = v.content t f

namespace Sight

variable {σ : Type} {v : FileView σ} (g : Sight v)

/-- The same stands everywhere but at some paths. -/
def SameOff (paths : List Path) (s t : σ) : Prop :=
  ∀ f, (∀ p ∈ paths, v.place p ≠ f) → g.look s f = g.look t f

/-- The same stands at all that an operation on a path may depend on. -/
structure AgreeAt (out : OutputDirectory) (p : Path) (s t : σ) : Prop where
  own : g.look s (v.place p) = g.look t (v.place p)
  above : p ∈ out.architecturePaths →
    g.look s (v.place out.architectureRoot)
      = g.look t (v.place out.architectureRoot)

variable {g} {paths more : List Path} {out : OutputDirectory} {p : Path}
  {s t u : σ}

theorem SameOff.refl (s : σ) : g.SameOff paths s s := fun _ _ => rfl

theorem SameOff.symm (h : g.SameOff paths s t) : g.SameOff paths t s :=
  fun f hf => (h f hf).symm

theorem SameOff.trans (h : g.SameOff paths s t) (h' : g.SameOff paths t u) :
    g.SameOff paths s u :=
  fun f hf => (h f hf).trans (h' f hf)

theorem SameOff.mono (h : g.SameOff paths s t) (hmore : paths ⊆ more) :
    g.SameOff more s t :=
  fun f hf => h f fun p hp => hf p (hmore hp)

theorem AgreeAt.symm (h : g.AgreeAt out p s t) : g.AgreeAt out p t s :=
  ⟨h.own.symm, fun hp => (h.above hp).symm⟩

theorem AgreeAt.trans (h : g.AgreeAt out p s t) (h' : g.AgreeAt out p t u) :
    g.AgreeAt out p s u :=
  ⟨h.own.trans h'.own, fun hp => (h.above hp).trans (h'.above hp)⟩

end Sight

/-- A path that a run works on: of the output directory itself, or of one of
some stems. -/
def OutputDirectory.Member (out : OutputDirectory) (known : String → Prop)
    (p : Path) : Prop :=
  p ∈ out.ownPaths
    ∨ ∃ stem, known stem ∧ p ∈ artifactPaths (out.markupFile stem)

theorem OutputDirectory.member_of_known {out : OutputDirectory}
    {known : String → Prop} {stem : String} (hstem : known stem) :
    ∀ p ∈ artifactPaths (out.markupFile stem), out.Member known p :=
  fun _ hp => .inr ⟨stem, hstem, hp⟩

theorem OutputDirectory.member_of_own {out : OutputDirectory}
    {known : String → Prop} {p : Path} (hp : p ∈ out.ownPaths) :
    out.Member known p :=
  .inl hp

/-- A lawful disk whose operations depend on what stands at their own paths
only. -/
structure Disk.Local {σ : Type} {v : FileView σ} (disk : Disk (StateM σ))
    (g : Sight v) (out : OutputDirectory) (known : String → Prop) :
    Prop extends Disk.Lawful disk v out where
  known_flat : ∀ {stem}, Flat stem → known stem
  apart : ∀ {stem other},
    Flat stem → Text.joint ∈ stem.toList → known other → other ≠ stem →
      ∀ p ∈ artifactPaths (out.markupFile stem),
        ∀ q ∈ artifactPaths (out.markupFile other),
          v.place p ≠ v.place q
  read_only : ∀ {p s r t},
    v.tidy s → (disk.readText p).run s = (r, t) → g.SameOff [] s t
  read_same : ∀ {p s r t s' r' t'}, out.Member known p → v.tidy s → v.tidy s' →
    g.AgreeAt out p s s' → (disk.readText p).run s = (r, t) →
    (disk.readText p).run s' = (r', t') → r = r'
  remove_only : ∀ {p s r t},
    v.tidy s → (disk.removeFile p).run s = (r, t) → g.SameOff [p] s t
  remove_same :
    ∀ {p s r t s' r' t'}, out.Member known p → v.tidy s → v.tidy s' →
      g.AgreeAt out p s s' → (disk.removeFile p).run s = (r, t) →
      (disk.removeFile p).run s' = (r', t') →
        r = r' ∧ g.look t (v.place p) = g.look t' (v.place p)
  write_only :
    ∀ {p text s r t}, v.tidy s → (disk.writeText p text).run s = (r, t) →
      g.SameOff [p] s t
  /-- Whether a text is written does not depend on the text. -/
  write_same : ∀ {p text s r t text' s' r' t'},
    out.Member known p → v.tidy s → v.tidy s' →
      g.AgreeAt out p s s' → (disk.writeText p text).run s = (r, t) →
      (disk.writeText p text').run s' = (r', t') →
        r = r' ∧ (text = text' → g.look t (v.place p) = g.look t' (v.place p))
  create_only : ∀ {s r t}, v.tidy s →
    (disk.createDirectories out.architectureRoot).run s = (r, t) →
      g.SameOff [out.architectureRoot] s t
  create_same : ∀ {s r t s' r' t'}, v.tidy s → v.tidy s' →
    g.look s (v.place out.architectureRoot)
      = g.look s' (v.place out.architectureRoot) →
    (disk.createDirectories out.architectureRoot).run s = (r, t) →
    (disk.createDirectories out.architectureRoot).run s' = (r', t') →
      r = r'
        ∧ g.look t (v.place out.architectureRoot)
          = g.look t' (v.place out.architectureRoot)

/-- A write that is refused leaves what stood there. A disk that runs full while
it writes breaks this, so it is no law of a local disk. -/
def Disk.WritesWhole {σ : Type} {v : FileView σ} (disk : Disk (StateM σ))
    (g : Sight v) : Prop :=
  ∀ ⦃p text s e t⦄, v.tidy s → (disk.writeText p text).run s = (.error e, t) →
    g.look t (v.place p) = g.look s (v.place p)

namespace Renderer

/-- A renderer that changes nothing but what it is to make, and that depends on
the markup and on what stands where it writes. -/
structure Local {σ : Type} {v : FileView σ} (renderer : Renderer (StateM σ))
    (g : Sight v) (out : OutputDirectory) (known : String → Prop) : Prop where
  confined : renderer.Confined v
  only : ∀ {input output s r t},
    v.tidy s → (renderer input output).run s = (r, t) →
      g.SameOff [output] s t
  same : ∀ {input output s r t s' r' t'},
    out.Member known input → out.Member known output →
      v.tidy s → v.tidy s' → g.AgreeAt out input s s' →
      g.AgreeAt out output s s' →
      (renderer input output).run s
        = (r, t) → (renderer input output).run s' = (r', t') →
        r = r' ∧ g.look t (v.place output) = g.look t' (v.place output)

end Renderer

/-! ## What lies apart -/

namespace Disk.Lawful

variable {σ : Type} {disk : Disk (StateM σ)} {v : FileView σ}
  {out : OutputDirectory}

theorem leadTo_architectureRoot :
    out.LeadTo [architectureDirectory] out.architectureRoot := by
  refine ⟨List.forall_mem_singleton.2 ?_, rfl⟩
  constructor <;> decide

/-- The directory of the architecture is no file of a composed stem. -/
theorem place_architectureRoot_ne (h : disk.Lawful v out) {stem : String}
    (hflat : Flat stem) (hjoint : Text.joint ∈ stem.toList) {p : Path}
    (hp : p ∈ artifactPaths (out.markupFile stem)) :
    v.place p ≠ v.place out.architectureRoot := by
  intro heq
  obtain ⟨ext, hext, rfl⟩ := (mem_artifactPaths_flat hflat).1 hp
  have hnames :=
    h.names_eq (leadTo_of_flat hflat hext) leadTo_architectureRoot heq
  have hmem : Text.joint ∈ (fileName stem ext).toList := by
    simp [fileName, hjoint]
  rw [(List.cons.inj hnames).1] at hmem
  exact absurd hmem (by decide)

/-- It is not the manifest, either. -/
theorem place_manifestFile_ne_root (h : disk.Lawful v out) :
    v.place out.manifestFile ≠ v.place out.architectureRoot := by
  intro heq
  have hnames := h.names_eq leadTo_manifestFile leadTo_architectureRoot heq
  exact absurd (List.cons.inj hnames).1 (by decide)

end Disk.Lawful

end FlowAtlas
