import FlowAtlas.Proofs.Disk.Local

/-!
# Doing the same again

A run that is repeated finds what the first one has left, not what the first one
found. Where a file can be deleted that makes no difference, because a run
clears the way before it writes. Where it cannot (`Blocked`), the run writes
over what is there, or is refused once more. So all that two runs of the same
plan have to agree on is what is in the way (`SameObstacle`), and no operation
changes that.

A steady disk promises no more than this needs. What cannot be deleted may well
be written, and the other way round; a text that was written may not be
readable. What it does promise is that an operation that is repeated comes to
the same: a text can be written over one that was just written, a directory can
be created once more, and a refusal leaves things as they are.

Of two pieces of work that come to the same at a path, each has made the same
there or neither has touched it (`SameEffect`). Taken up where the first has
ended, the second then changes nothing.
-/

namespace FlowAtlas

open OutputDirectory

variable {σ : Type} {v : FileView σ}

/-- Something is in the way of a file: to delete it is refused, and not because
it is missing. That may be a directory, or a file that cannot be taken out of
its directory but can be written. -/
def Disk.Blocked (disk : Disk (StateM σ)) (p : Path) (s : σ) : Prop :=
  ∃ e, ((disk.removeFile p).run s).1 = .error e ∧ e.kindOf ≠ .notFound

/-- The same is in the way of a path in two states. What stands there need not
be the same, since a run may have written it meanwhile, but to write there comes
to the same. -/
structure Disk.SameObstacle (disk : Disk (StateM σ)) (g : Sight v) (p : Path)
    (s t : σ) : Prop where
  blocked : disk.Blocked p s ↔ disk.Blocked p t
  write : ∀ {text r w r' w'},
    disk.Blocked p s → (disk.writeText p text).run s = (r, w) →
      (disk.writeText p text).run t = (r', w') →
        (r = .ok () ↔ r' = .ok ())
          ∧ (r = .ok () → g.look w (v.place p) = g.look w' (v.place p))

/-- There is no file at a path that deleting would take away: nothing is there,
or it is blocked. A run that has cleared its way has made it so, and from then
on deleting has no effect. -/
def Disk.Cleared (disk : Disk (StateM σ)) (g : Sight v) (p : Path) (s : σ) :
    Prop :=
  disk.Blocked p s ∨ g.look s (v.place p) = none

/-- Work on a path comes to the same in two states: the same stands there, or
the same is in the way. The second case is that of a path which both runs have
found blocked, the one before and the other after it was written. -/
def Disk.SameGround (disk : Disk (StateM σ)) (g : Sight v)
    (out : OutputDirectory) (p : Path) (s t : σ) : Prop :=
  g.AgreeAt out p s t ∨ disk.Blocked p s ∧ disk.SameObstacle g p s t

/-- Work that leads from `s` to `t` and work that leads from `s'` to `t'` have
the same effect at a path: they leave the same there, or both leave there what
they have found. -/
def Sight.SameEffect (g : Sight v) (p : Path) (s t s' t' : σ) : Prop :=
  g.look t (v.place p) = g.look t' (v.place p)
    ∨ g.look t (v.place p) = g.look s (v.place p)
      ∧ g.look t' (v.place p) = g.look s' (v.place p)

/-- A local disk on which operations that are repeated come to the same. It may
refuse whatever it likes, so long as a refusal leaves what was there, and each
operation has its own conditions: what cannot be deleted may be written, and
what was written need not be readable. -/
structure Disk.Steady (disk : Disk (StateM σ)) (g : Sight v)
    (out : OutputDirectory) (known : String → Prop) :
    Prop extends disk.Local g out known where
  place_member : ∀ {p q},
    out.Member known p → out.Member known q → v.place p = v.place q → p = q
  place_ne_root :
    ∀ {p}, out.Member known p → v.place p ≠ v.place out.architectureRoot
  own_apart : ∀ {stem}, known stem → ∀ p ∈ artifactPaths (out.markupFile stem),
    p ∉ out.ownPaths
  remove_gone :
    ∀ {p s r t}, out.Member known p → v.tidy s → ¬ disk.Blocked p s →
      (disk.removeFile p).run s = (r, t) → g.look t (v.place p) = none
  remove_refused :
    ∀ {p s e t}, v.tidy s → (disk.removeFile p).run s = (.error e, t) →
      g.look t (v.place p) = g.look s (v.place p)
  free_of_none :
    ∀ {p s t}, out.Member known p → v.tidy s → v.tidy t → ¬ disk.Blocked p s →
      (p ∈ out.architecturePaths →
        g.look s (v.place out.architectureRoot)
          = g.look t (v.place out.architectureRoot)) →
      g.look t (v.place p) = none → ¬ disk.Blocked p t
  write_whole : disk.WritesWhole g
  /-- Whether a file can be deleted does not depend on what was written
  there. -/
  write_leaves_blocked : ∀ {p text s t}, out.Member known p → v.tidy s →
    (disk.writeText p text).run s = (.ok (), t) →
    (disk.Blocked p s ↔ disk.Blocked p t)
  /-- A text is written over another one as it is written in its place. -/
  write_over : ∀ {p text text' s t r u r' w}, out.Member known p → v.tidy s →
    (disk.writeText p text).run s = (.ok (), t) →
    (disk.writeText p text').run s = (r, u) →
    (disk.writeText p text').run t = (r', w) →
      r = r' ∧ g.look u (v.place p) = g.look w (v.place p)
  /-- A manifest that was written is read, unless it could not be read before
  either. -/
  read_saved : ∀ {text s t r u r' u'}, v.tidy s →
    (disk.writeText out.manifestFile text).run s = (.ok (), t) →
    (disk.readText out.manifestFile).run s = (r, u) →
    (disk.readText out.manifestFile).run t = (r', u') →
      r' = .ok text ∨ (∃ e, r = .error e) ∧ ∃ e, r' = .error e
  create_refused : ∀ {s e t}, v.tidy s →
    (disk.createDirectories out.architectureRoot).run s = (.error e, t) →
      g.look t (v.place out.architectureRoot)
        = g.look s (v.place out.architectureRoot)
  create_again : ∀ {s t r u}, v.tidy s →
    (disk.createDirectories out.architectureRoot).run s = (.ok (), t) →
    (disk.createDirectories out.architectureRoot).run t = (r, u) →
      r = .ok ()
        ∧ g.look u (v.place out.architectureRoot)
          = g.look t (v.place out.architectureRoot)
  create_obstacle : ∀ {p s t}, p ∈ out.architecturePaths → v.tidy s →
    (disk.createDirectories out.architectureRoot).run s = (.ok (), t) →
    disk.SameObstacle g p s t

namespace Renderer

/-- A renderer that puts nothing in the way and takes nothing out of it, and
whose effect where something is in the way depends on the markup alone. -/
structure Steady (renderer : Renderer (StateM σ)) (disk : Disk (StateM σ))
    (g : Sight v) (out : OutputDirectory) (known : String → Prop) : Prop
    extends renderer.Local g out known where
  obstacle : ∀ {input output s r t}, out.Member known output → v.tidy s →
    (renderer input output).run s = (r, t) → disk.SameObstacle g output s t
  blocked : ∀ {input output s r t s' r' t'},
    out.Member known input → out.Member known output →
      v.tidy s → v.tidy s' → g.AgreeAt out input s s' → disk.Blocked output s →
      disk.SameObstacle g output s s' → (renderer input output).run s = (r, t) →
      (renderer input output).run s' = (r', t') →
        (r = .ok () ↔ r' = .ok ()) ∧ g.SameEffect output s t s' t'

end Renderer

/-! ## Effects -/

namespace Sight.SameEffect

variable {g : Sight v} {p : Path} {s t u s' t' u' : σ}

theorem trans (h : g.SameEffect p s t s' t') (h' : g.SameEffect p t u t' u') :
    g.SameEffect p s u s' u' := by
  rcases h' with h' | ⟨hfirst, hsecond⟩
  · exact .inl h'
  · rw [SameEffect, hfirst, hsecond]
    exact h

theorem of_unchanged (h : g.look s (v.place p) = g.look t (v.place p))
    (h' : g.look s' (v.place p) = g.look t' (v.place p)) :
    g.SameEffect p s t s' t' :=
  .inr ⟨h.symm, h'.symm⟩

/-- Work that is taken up where the same work has ended changes nothing. -/
theorem look_eq (h : g.SameEffect p s t s' t')
    (hagain : g.look t (v.place p) = g.look s' (v.place p)) :
    g.look t (v.place p) = g.look t' (v.place p) := by
  rcases h with h | ⟨-, h⟩
  · exact h
  · exact hagain.trans h.symm

end Sight.SameEffect

/-! ## What is in the way -/

namespace Disk

variable {disk : Disk (StateM σ)} {g : Sight v} {out : OutputDirectory}
  {known : String → Prop} {p q : Path} {s t u w s' t' : σ}

theorem SameObstacle.refl (s : σ) : disk.SameObstacle g p s s where
  blocked := Iff.rfl
  write _ h h' := by
    obtain ⟨rfl, rfl⟩ := Prod.mk.inj (h.symm.trans h')
    exact ⟨Iff.rfl, fun _ => rfl⟩

theorem SameObstacle.symm (h : disk.SameObstacle g p s t) :
    disk.SameObstacle g p t s where
  blocked := h.blocked.symm
  write ht hrun hrun' := by
    obtain ⟨hok, hlook⟩ := h.write (h.blocked.2 ht) hrun' hrun
    exact ⟨hok.symm, fun hr => (hlook (hok.2 hr)).symm⟩

theorem SameObstacle.trans (h : disk.SameObstacle g p s t)
    (h' : disk.SameObstacle g p t u) :
    disk.SameObstacle g p s u where
  blocked := h.blocked.trans h'.blocked
  write {text r a r' b} hs hrun hrun' := by
    rcases hmiddle : (disk.writeText p text).run t with ⟨r₀, c⟩
    obtain ⟨hok, hlook⟩ := h.write hs hrun hmiddle
    obtain ⟨hok', hlook'⟩ := h'.write (h.blocked.1 hs) hmiddle hrun'
    exact ⟨hok.trans hok', fun hr => (hlook hr).trans (hlook' (hok.1 hr))⟩

/-- Where nothing is in the way, in either state, there is nothing to
compare. -/
theorem SameObstacle.of_free (hs : ¬ disk.Blocked p s)
    (ht : ¬ disk.Blocked p t) :
    disk.SameObstacle g p s t :=
  ⟨iff_of_false hs ht, fun hblocked => absurd hblocked hs⟩

theorem Cleared.of_obstacle (hs : disk.Cleared g p s)
    (h : disk.SameObstacle g p s t)
    (hlook : g.look s (v.place p) = g.look t (v.place p)) :
    disk.Cleared g p t :=
  hs.imp h.blocked.1 fun hnone => hlook ▸ hnone

/-- Where the way was cleared, the ground is the same if the same is in the
way. -/
theorem SameGround.of_cleared (hs : disk.Cleared g p s)
    (ht : disk.Cleared g p t) (hobstacle : disk.SameObstacle g p s t)
    (habove : p ∈ out.architecturePaths →
      g.look s (v.place out.architectureRoot)
        = g.look t (v.place out.architectureRoot)) :
    disk.SameGround g out p s t := by
  by_cases hblocked : disk.Blocked p s
  · exact .inr ⟨hblocked, hobstacle⟩
  · have hnone := hs.resolve_left hblocked
    have hnone' := ht.resolve_left (mt hobstacle.blocked.2 hblocked)
    exact .inl ⟨hnone.trans hnone'.symm, habove⟩

namespace Steady

variable (h : disk.Steady g out known)
include h

theorem obstacle_of_agreeAt (hp : out.Member known p) (hs : v.tidy s)
    (ht : v.tidy t) (hat : g.AgreeAt out p s t) :
    disk.SameObstacle g p s t where
  blocked := by
    have hsame := (h.remove_same hp hs ht hat rfl rfl).1
    change (∃ e, ((disk.removeFile p).run s).1 = .error e ∧ _) ↔ _
    rw [show ((disk.removeFile p).run s).1
      = ((disk.removeFile p).run t).1 from hsame]
    rfl
  write _ hrun hrun' := by
    obtain ⟨rfl, hlook⟩ := h.write_same hp hs ht hat hrun hrun'
    exact ⟨Iff.rfl, fun _ => hlook rfl⟩

/-- What is done to a path is not felt at another one. -/
theorem agreeAt_of_ne (hp : out.Member known p) (hq : out.Member known q)
    (hne : p ≠ q) (hlook : g.SameOff [q] s t) : g.AgreeAt out p s t := by
  refine ⟨hlook _ ?_, fun _ => hlook _ ?_⟩
  · exact List.forall_mem_singleton.2 fun heq =>
      hne (h.place_member hp hq heq.symm)
  · exact List.forall_mem_singleton.2 (h.place_ne_root hq)

/-- An operation that leaves what stands at its path leaves what it depends
on. -/
theorem agreeAt_of_look (hp : out.Member known p) (hlook : g.SameOff [p] s t)
    (hown : g.look t (v.place p) = g.look s (v.place p)) :
    g.AgreeAt out p s t :=
  ⟨hown.symm, fun _ =>
    hlook _ (List.forall_mem_singleton.2 (h.place_ne_root hp))⟩

theorem remove_obstacle (hp : out.Member known p) (hq : out.Member known q)
    (hs : v.tidy s) {r : Except SystemError Unit}
    (hrun : (disk.removeFile q).run s = (r, t)) :
    disk.SameObstacle g p s t := by
  have ht := (h.remove_spares hs hrun).tidy
  have hlook := h.remove_only hs hrun
  by_cases heq : p = q
  · subst heq
    by_cases hblocked : disk.Blocked p s
    · obtain ⟨e, he, hkind⟩ := hblocked
      rw [hrun] at he
      obtain rfl : r = .error e := he
      exact h.obstacle_of_agreeAt hp hs ht
        (h.agreeAt_of_look hp hlook (h.remove_refused hs hrun))
    · exact .of_free hblocked (h.free_of_none hp hs ht hblocked
        (fun _ => hlook _ (List.forall_mem_singleton.2 (h.place_ne_root hp)))
        (h.remove_gone hp hs hblocked hrun))
  · exact h.obstacle_of_agreeAt hp hs ht (h.agreeAt_of_ne hp hq heq hlook)

theorem remove_cleared (hp : out.Member known p) (hs : v.tidy s)
    {r : Except SystemError Unit} (hrun : (disk.removeFile p).run s = (r, t)) :
    disk.Cleared g p t := by
  by_cases hblocked : disk.Blocked p s
  · exact .inl ((h.remove_obstacle hp hp hs hrun).blocked.1 hblocked)
  · exact .inr (h.remove_gone hp hs hblocked hrun)

/-- To delete a file that is not there changes nothing. -/
theorem remove_same_of_cleared (hp : out.Member known p) (hs : v.tidy s)
    (hcleared : disk.Cleared g p s) {r : Except SystemError Unit}
    (hrun : (disk.removeFile p).run s = (r, t)) : g.SameOff [] s t := by
  intro f _
  by_cases heq : v.place p = f
  · subst heq
    by_cases hblocked : disk.Blocked p s
    · obtain ⟨e, he, -⟩ := hblocked
      rw [hrun] at he
      obtain rfl : r = .error e := he
      exact (h.remove_refused hs hrun).symm
    · rw [hcleared.resolve_left hblocked, h.remove_gone hp hs hblocked hrun]
  · exact h.remove_only hs hrun f (List.forall_mem_singleton.2 heq)

theorem write_obstacle (hp : out.Member known p) (hq : out.Member known q)
    (hs : v.tidy s) {text : String} {r : Except SystemError Unit}
    (hrun : (disk.writeText q text).run s = (r, t)) :
    disk.SameObstacle g p s t := by
  have ht := (h.write_spares hs hrun).tidy
  have hlook := h.write_only hs hrun
  by_cases heq : p = q
  · subst heq
    cases r with
    | error e =>
        exact h.obstacle_of_agreeAt hp hs ht
          (h.agreeAt_of_look hp hlook (h.write_whole hs hrun))
    | ok a =>
        refine ⟨h.write_leaves_blocked hp hs hrun, fun _ hfirst hagain => ?_⟩
        obtain ⟨rfl, hover⟩ := h.write_over hp hs hrun hfirst hagain
        exact ⟨Iff.rfl, fun _ => hover⟩
  · exact h.obstacle_of_agreeAt hp hs ht (h.agreeAt_of_ne hp hq heq hlook)

theorem create_same_obstacle (hp : out.Member known p) (hs : v.tidy s)
    {r : Except SystemError Unit}
    (hrun : (disk.createDirectories out.architectureRoot).run s = (r, t)) :
    disk.SameObstacle g p s t := by
  have ht := (h.create_spares hs hrun).tidy
  have hown : g.look s (v.place p) = g.look t (v.place p) :=
    h.create_only hs hrun _
      (List.forall_mem_singleton.2 (h.place_ne_root hp).symm)
  by_cases harch : p ∈ out.architecturePaths
  · cases r with
    | error e =>
        exact h.obstacle_of_agreeAt hp hs ht
          ⟨hown, fun _ => (h.create_refused hs hrun).symm⟩
    | ok a => exact h.create_obstacle harch hs hrun
  · exact h.obstacle_of_agreeAt hp hs ht ⟨hown, fun hmem => absurd hmem harch⟩

theorem render_obstacle {renderer : Renderer (StateM σ)}
    (hrenderer : renderer.Steady disk g out known) (hp : out.Member known p)
    (hq : out.Member known q) (hs : v.tidy s) {input : Path}
    {r : Except Fault Unit} (hrun : (renderer input q).run s = (r, t)) :
    disk.SameObstacle g p s t := by
  by_cases heq : p = q
  · subst heq
    exact hrenderer.obstacle hp hs hrun
  · exact h.obstacle_of_agreeAt hp hs (hrenderer.confined hs hrun).tidy
      (h.agreeAt_of_ne hp hq heq (hrenderer.only hs hrun))

/-! ## Two runs on the same ground -/

theorem write_ground (hp : out.Member known p) (hs : v.tidy s) (hs' : v.tidy s')
    (hground : disk.SameGround g out p s s') {text : String}
    {r r' : Except SystemError Unit}
    (hrun : (disk.writeText p text).run s = (r, t))
    (hrun' : (disk.writeText p text).run s' = (r', t')) :
    (r = .ok () ↔ r' = .ok ()) ∧ g.SameEffect p s t s' t'
      ∧ (r = .ok () → g.look t (v.place p) = g.look t' (v.place p)) := by
  rcases hground with hat | ⟨hblocked, hobstacle⟩
  · obtain ⟨rfl, hlook⟩ := h.write_same hp hs hs' hat hrun hrun'
    exact ⟨Iff.rfl, .inl (hlook rfl), fun _ => hlook rfl⟩
  · obtain ⟨hok, hlook⟩ := hobstacle.write hblocked hrun hrun'
    refine ⟨hok, ?_, hlook⟩
    cases r with
    | ok a => exact .inl (hlook rfl)
    | error e =>
        cases r' with
        | ok a => exact nomatch hok.2 rfl
        | error e' =>
            exact .inr ⟨h.write_whole hs hrun, h.write_whole hs' hrun'⟩

/-- Work at one path leaves all paths in agreement, if it has the same effect
there. -/
theorem agreeAt_step (hp : out.Member known p) (hq : out.Member known q)
    (hat : g.AgreeAt out p s s') (hs : g.SameOff [q] s t)
    (hs' : g.SameOff [q] s' t') (heffect : g.SameEffect q s t s' t') :
    g.AgreeAt out p t t' := by
  by_cases heq : p = q
  · subst heq
    have hroot : ∀ q ∈ [p], v.place q ≠ v.place out.architectureRoot :=
      List.forall_mem_singleton.2 (h.place_ne_root hp)
    refine ⟨?_, fun harch =>
      (hs _ hroot).symm.trans ((hat.above harch).trans (hs' _ hroot))⟩
    rcases heffect with heffect | ⟨hfirst, hsecond⟩
    · exact heffect
    · rw [hfirst, hsecond, hat.own]
  · exact (h.agreeAt_of_ne hp hq heq hs).symm.trans
      (hat.trans (h.agreeAt_of_ne hp hq heq hs'))

/-- It leaves the ground everywhere, if it leaves what is in the way as well. -/
theorem ground_step (hp : out.Member known p) (hq : out.Member known q)
    (hground : disk.SameGround g out p s s') (hs : g.SameOff [q] s t)
    (hs' : g.SameOff [q] s' t') (hobstacle : disk.SameObstacle g p s t)
    (hobstacle' : disk.SameObstacle g p s' t')
    (heffect : g.SameEffect q s t s' t') : disk.SameGround g out p t t' :=
  hground.imp (fun hat => h.agreeAt_step hp hq hat hs hs' heffect)
    fun ⟨hblocked, hsame⟩ =>
    ⟨hobstacle.blocked.1 hblocked,
      hobstacle.symm.trans (hsame.trans hobstacle')⟩

/-- At any other path, work has the effect of leaving things alone. -/
theorem effect_of_ne (hp : out.Member known p) (hq : out.Member known q)
    (hne : p ≠ q) (hs : g.SameOff [q] s t) (hs' : g.SameOff [q] s' t') :
    g.SameEffect p s t s' t' :=
  .of_unchanged (h.agreeAt_of_ne hp hq hne hs).own
    (h.agreeAt_of_ne hp hq hne hs').own

/-! What was done just now is done again: it comes to the same, and changes
nothing. -/

theorem create_repeated (hs : v.tidy s) (ht : v.tidy u)
    {r r' : Except SystemError Unit}
    (hroot : g.look t (v.place out.architectureRoot)
      = g.look u (v.place out.architectureRoot))
    (hrun : (disk.createDirectories out.architectureRoot).run s = (r, t))
    (hrun' : (disk.createDirectories out.architectureRoot).run u = (r', w)) :
    r = r'
      ∧ g.look t (v.place out.architectureRoot)
        = g.look w (v.place out.architectureRoot) := by
  cases r with
  | error e =>
      have hrefused := h.create_refused hs hrun
      obtain ⟨hr, hlook⟩ :=
        h.create_same hs ht (hrefused.symm.trans hroot) hrun hrun'
      exact ⟨hr, hlook⟩
  | ok a =>
      rcases hagain : (disk.createDirectories out.architectureRoot).run t
        with ⟨r, x⟩
      obtain ⟨rfl, hlook⟩ := h.create_again hs hrun hagain
      obtain ⟨hr, hlook'⟩ :=
        h.create_same (h.create_spares hs hrun).tidy ht hroot hagain hrun'
      exact ⟨hr, hlook.symm.trans hlook'⟩

theorem write_repeated (hp : out.Member known p) (hs : v.tidy s) (ht : v.tidy u)
    {text : String} {r r' : Except SystemError Unit} (hat : g.AgreeAt out p t u)
    (hrun : (disk.writeText p text).run s = (r, t))
    (hrun' : (disk.writeText p text).run u = (r', w)) :
    r = r' ∧ g.look t (v.place p) = g.look w (v.place p) := by
  cases r with
  | error e =>
      have hbefore :=
        h.agreeAt_of_look hp (h.write_only hs hrun) (h.write_whole hs hrun)
      obtain ⟨hr, hlook⟩ := h.write_same hp hs ht (hbefore.trans hat) hrun hrun'
      exact ⟨hr, hlook rfl⟩
  | ok a =>
      rcases hagain : (disk.writeText p text).run t with ⟨r, x⟩
      obtain ⟨rfl, hlook⟩ := h.write_over hp hs hrun hrun hagain
      obtain ⟨hr, hlook'⟩ :=
        h.write_same hp (h.write_spares hs hrun).tidy ht hat hagain hrun'
      exact ⟨hr, hlook.trans (hlook' rfl)⟩

end Steady

end Disk

theorem Renderer.Steady.render_ground {disk : Disk (StateM σ)} {g : Sight v}
    {out : OutputDirectory} {known : String → Prop}
    {renderer : Renderer (StateM σ)}
    (hrenderer : renderer.Steady disk g out known) {p q : Path} {s t s' t' : σ}
    (hp : out.Member known p) (hq : out.Member known q) (hs : v.tidy s)
    (hs' : v.tidy s') (hat : g.AgreeAt out p s s')
    (hground : disk.SameGround g out q s s') {r r' : Except Fault Unit}
    (hrun : (renderer p q).run s = (r, t))
    (hrun' : (renderer p q).run s' = (r', t')) :
    (r = .ok () ↔ r' = .ok ()) ∧ g.SameEffect q s t s' t' := by
  rcases hground with hat' | ⟨hblocked, hobstacle⟩
  · obtain ⟨rfl, hlook⟩ := hrenderer.same hp hq hs hs' hat hat' hrun hrun'
    exact ⟨Iff.rfl, .inl hlook⟩
  · exact hrenderer.blocked hp hq hs hs' hat hblocked hobstacle hrun hrun'

end FlowAtlas
