import FlowAtlas.Proofs.Disk.Tree

/-!
# A renderer that works in a file tree

A renderer as a function of trees, for results about all renderers to be tried
on. It reads the markup and puts a raster into the output directory; what the
raster holds is computed from the markup.

It can do so in a tree in which the output directory stands and no directory has
the name of a raster (`Ready`). A run does not change that: the one directory it
creates has another name.
-/

namespace FlowAtlas.FileTree

/-- Whether a location is that of a raster in a directory. -/
def isRaster (root l : Location) : Bool :=
  l.dropLast = root ∧ Raster.all.any fun format =>
    ('.' :: format.extension.toList).isSuffixOf ((l.getLast?.getD "").toList)

/-- A tree in which nothing is in the way of a raster in a directory. -/
structure Ready (root : Location) (t : FileTree) : Prop where
  stands : t.at? root = some .directory
  free : ∀ l, isRaster root l = true → t.at? l ≠ some .directory

theorem exists_of_isRaster {root l : Location} (h : isRaster root l = true) :
    ∃ name, l = root ++ [name] := by
  obtain ⟨hroot, hname⟩ := of_decide_eq_true h
  rcases List.eq_nil_or_concat l with rfl | ⟨above, name, rfl⟩
  · exact absurd hname (by decide)
  · rw [List.concat_eq_append, List.dropLast_concat] at hroot
    exact ⟨name, by rw [List.concat_eq_append, hroot]⟩

variable {dir : Location} {out : OutputDirectory}

theorem lasting_ready (hancestry : ∀ p ∈ ancestry out.architectureRoot,
    isRaster (spot dir out.root) (spot dir (dropSeparators p)) = false) :
    Lasting dir out (Ready (spot dir out.root)) where
  keep hsame h :=
    ⟨(hsame _).2 h.stands, fun l hl hdir => h.free l hl ((hsame l).1 hdir)⟩
  create hcreate h := by
    refine ⟨hcreate.kept _ h.stands, fun l hl hdir => ?_⟩
    rcases hcreate.created l hdir with hdir | ⟨p, hp, rfl⟩
    · exact h.free l hl hdir
    · rw [hancestry p hp] at hl
      exact nomatch hl

/-- The raster that a markup becomes at a path. -/
def painted (dir : Location) (out : OutputDirectory)
    (paint : ByteArray → ByteArray) (markup : ByteArray) (output : Path) :
    Option ByteArray :=
  if isRaster (spot dir out.root) (spot dir output) then
    some (paint markup) else none

/-- Renders the markup at one path into a raster at another one. -/
def painter (dir : Location) (out : OutputDirectory)
    (paint : ByteArray → ByteArray) :
    Renderer (StateM FileTree) := fun input output t =>
  match (t.bytesAt (spot dir input)).bind (painted dir out paint · output) with
  | some bytes => (.ok (), t.put (spot dir output) (.file bytes false))
  | none => (.error (Fault.renderFailed output "nothing to paint"), t)

variable {paint : ByteArray → ByteArray} {input output : Path} {s t : FileTree}
  {r : Except Fault Unit}

theorem painter_run (h : (painter dir out paint input output).run s = (r, t)) :
    (∃ markup bytes, s.bytesAt (spot dir input) = some markup
        ∧ painted dir out paint markup output = some bytes ∧ r = .ok ()
        ∧ t = s.put (spot dir output) (.file bytes false))
      ∨ (s.bytesAt (spot dir input)).bind (painted dir out paint · output)
          = none
        ∧ (∃ fault, r = .error fault) ∧ t = s := by
  change painter dir out paint input output s = (r, t) at h
  unfold painter at h
  split at h
  · next bytes hbytes =>
      obtain ⟨markup, hmarkup, hpainted⟩ := Option.bind_eq_some_iff.1 hbytes
      obtain ⟨rfl, rfl⟩ := Prod.mk.inj h
      exact .inl ⟨markup, bytes, hmarkup, hpainted, rfl, rfl⟩
  · next hnone =>
      obtain ⟨rfl, rfl⟩ := Prod.mk.inj h
      exact .inr ⟨hnone, ⟨_, rfl⟩, rfl⟩

theorem isRaster_of_painted {markup bytes : ByteArray}
    (h : painted dir out paint markup output = some bytes) :
    isRaster (spot dir out.root) (spot dir output) = true := by
  unfold painted at h
  split at h
  · assumption
  · exact nomatch h

/-- In a tree that is ready nothing is in the way. -/
theorem Ready.put_raster (hs : s.Tidy dir)
    (hready : Ready (spot dir out.root) s)
    (hraster : isRaster (spot dir out.root) (spot dir output) = true)
    (bytes : ByteArray) :
    Differs dir (spot dir output) s
      (s.put (spot dir output) (.file bytes false)) := by
  have hold := hready.free _ hraster
  obtain ⟨name, hspot⟩ := exists_of_isRaster hraster
  rw [hspot] at hold ⊢
  exact hs.put_file hready.stands hold

theorem painter_follows
    (hlasting : Lasting dir out (Ready (spot dir out.root))) :
    (painter dir out paint).Follows (view dir (Ready (spot dir out.root)))
      fun text output => painted dir out paint text.toUTF8 output where
  confined input output s r t hs h := by
    rcases painter_run h with ⟨markup, bytes, -, hpainted, -, rfl⟩ | ⟨-, -, rfl⟩
    · exact (Ready.put_raster hs.1 hs.2 (isRaster_of_painted hpainted)
        bytes).spares hlasting hs.2
    · exact .refl hs
  made {input output s r t text bytes} hs h htext hpainted := by
    change s.bytesAt (spot dir input) = some text.toUTF8 at htext
    rcases painter_run h with
      ⟨markup, bytes', hmarkup, hpainted', rfl, rfl⟩ | ⟨hnone, -, -⟩
    · obtain rfl := Option.some.inj (htext.symm.trans hmarkup)
      obtain rfl := Option.some.inj (hpainted.symm.trans hpainted')
      obtain ⟨name, hspot⟩ := exists_of_isRaster (isRaster_of_painted hpainted)
      refine ⟨bytesAt_put_file ?_, rfl⟩
      rw [hspot]
      exact List.concat_ne_nil _ _
    · rw [htext, Option.bind_some, hpainted] at hnone
      exact nomatch hnone
  left {input output s r t text} hs h htext hpainted := by
    change s.bytesAt (spot dir input) = some text.toUTF8 at htext
    rcases painter_run h with
      ⟨markup, bytes', hmarkup, hpainted', -, -⟩ | ⟨-, hfault, rfl⟩
    · obtain rfl := Option.some.inj (htext.symm.trans hmarkup)
      rw [hpainted] at hpainted'
      exact nomatch hpainted'
    · exact ⟨rfl, hfault⟩

end FlowAtlas.FileTree
