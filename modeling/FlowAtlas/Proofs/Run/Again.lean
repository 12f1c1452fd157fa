import FlowAtlas.Proofs.Run.Keeping

/-!
# Doing the work of a run again

Two runs of one plan that are done one after the other do not start from the
same state: the second one finds what the first one has left. What they have in
common is what is in the way (`SameObstacles`). A run clears the way before it
writes. Once it has, at each path of a drawing either nothing is there in both
runs, or the same is in the way (`deleteEach_ground`), and on such ground each
operation comes to the same.

That need not mean that both leave the same. Where something is in the way that
can be written but not deleted, a raster may be refused in both runs over what
the first one has written there. So what goes along with the work is that both
runs have had the same effect (`Abreast`), and it is for the end to say that an
effect which was had already changes nothing (`SameEffect.look_eq`).

Two things of the architecture are never cleared, its directory and its summary.
There the second run finds what the first one has made, and to make it again
changes nothing (`create_repeated`, `write_repeated`).
-/

namespace FlowAtlas

open OutputDirectory

namespace Run

/-! ## Reports -/

/-- Two reports list the same files. They may differ in their faults and in what
was deleted, since the second of two runs finds less to delete. -/
structure Report.SameFiles (r r' : Report) : Prop where
  written : r.written = r'.written
  rendered : r.rendered = r'.rendered

namespace Report.SameFiles

variable {r r' r'' : Report}

theorem refl (r : Report) : r.SameFiles r := ⟨rfl, rfl⟩

theorem symm (h : r.SameFiles r') : r'.SameFiles r :=
  ⟨h.written.symm, h.rendered.symm⟩

theorem trans (h : r.SameFiles r') (h' : r'.SameFiles r'') : r.SameFiles r'' :=
  ⟨h.written.trans h'.written, h.rendered.trans h'.rendered⟩

theorem of_note (h : r.SameFiles r') (category category' : Category)
    (unit unit' : String) (fault fault' : Fault) :
    (r.note category unit fault).SameFiles (r'.note category' unit' fault') :=
  ⟨h.written, h.rendered⟩

theorem of_noteAll (r : Report) (category : Category) (unit : String)
    (faults : List Fault) :
    r.SameFiles (r.noteAll category unit faults) := by
  induction faults generalizing r with
  | nil => exact .refl r
  | cons fault faults ih =>
      have hnote : r.SameFiles (r.note category unit fault) := ⟨rfl, rfl⟩
      exact hnote.trans (ih _)

theorem noteAll (h : r.SameFiles r') (category : Category) (unit : String)
    (faults faults' : List Fault) :
    (r.noteAll category unit faults).SameFiles
      (r'.noteAll category unit faults') :=
  (of_noteAll r category unit faults).symm.trans
    (h.trans (of_noteAll r' category unit faults'))

theorem addMarkup (h : r.SameFiles r') (path : Path) :
    (r.addMarkup path).SameFiles (r'.addMarkup path) := by
  refine ⟨?_, h.rendered⟩
  rw [Report.addMarkup, Report.addMarkup, h.written]

theorem afterRender (h : r.SameFiles r') (markup : Path) (format : Raster)
    {result result' : Except Fault Unit}
    (hok : result = .ok () ↔ result' = .ok ()) :
    (r.afterRender markup format result).SameFiles
      (r'.afterRender markup format result') := by
  cases result with
  | ok a =>
      obtain rfl := hok.1 rfl
      refine ⟨h.written, ?_⟩
      rw [Report.afterRender, Report.afterRender, Report.addRaster,
        Report.addRaster, h.rendered]
  | error fault =>
      cases result' with
      | ok a => exact nomatch hok.2 rfl
      | error fault' => exact h.of_note _ _ _ _ _ _

end Report.SameFiles

/-- Two runs have come to the same: the same files, and the same on record. -/
structure Progress.SameWork (p p' : Progress) : Prop where
  report : p.report.SameFiles p'.report
  manifest : p.manifest = p'.manifest

variable {σ : Type} {v : FileView σ} {g : Sight v} {known : String → Prop}

/-! ## Clearing the way -/

section Clearing

variable {disk : Disk (StateM σ)} {out : OutputDirectory} {s t s' t' : σ}

/-- A file of a stem depends on nothing above it. -/
theorem not_above (hdisk : disk.Steady g out known) {stem : String}
    (hstem : known stem) {p : Path}
    (hp : p ∈ artifactPaths (out.markupFile stem)) :
    p ∉ out.architecturePaths :=
  fun harch => hdisk.own_apart hstem p hp (List.mem_cons_of_mem _ harch)

theorem deleteEach_onlyClears (hdisk : disk.Steady g out known)
    {paths : List Path} (hpaths : ∀ p ∈ paths, out.Member known p)
    {faults : List Fault} (hs : v.tidy s)
    (h : (deleteEach disk paths).run s = (faults, t)) :
    disk.OnlyClears g out known s t :=
  (deleteEach_within hdisk.clears_within hpaths h hs).2

theorem deleteEach_cleared (hdisk : disk.Steady g out known) {paths : List Path}
    (hpaths : ∀ p ∈ paths, out.Member known p) {faults : List Fault}
    (hs : v.tidy s) (h : (deleteEach disk paths).run s = (faults, t)) :
    ∀ p ∈ paths, disk.Cleared g p t := by
  induction paths generalizing s faults with
  | nil => exact fun _ hp => absurd hp List.not_mem_nil
  | cons path paths ih =>
      obtain ⟨hpath, hpaths⟩ := List.forall_mem_cons.1 hpaths
      obtain ⟨r, a, more, hremove, hmore, rfl⟩ := deleteEach_turn h
      have ha := (hdisk.remove_spares hs hremove).tidy
      exact List.forall_mem_cons.2
        ⟨(deleteEach_onlyClears hdisk hpaths ha hmore).cleared hpath
          (hdisk.remove_cleared hpath hs hremove), ih hpaths ha hmore⟩

/-- A fault means that something is in the way. -/
theorem deleteEach_eq_nil_iff (hdisk : disk.Steady g out known)
    {paths : List Path} (hpaths : ∀ p ∈ paths, out.Member known p)
    {faults : List Fault} (hs : v.tidy s)
    (h : (deleteEach disk paths).run s = (faults, t)) :
    faults = [] ↔ ∀ p ∈ paths, ¬ disk.Blocked p s := by
  induction paths generalizing s faults with
  | nil =>
      obtain ⟨rfl, rfl⟩ := run_pure.1 h
      exact iff_of_true rfl fun _ hp => absurd hp List.not_mem_nil
  | cons path paths ih =>
      obtain ⟨hpath, hpaths⟩ := List.forall_mem_cons.1 hpaths
      obtain ⟨r, a, more, hremove, hmore, rfl⟩ := deleteEach_turn h
      have hfirst : staleFaults path r = [] ↔ ¬ disk.Blocked path s := by
        rw [staleFaults_eq_nil, Disk.Blocked, hremove]
        simp only [not_exists, not_and, not_not]
      have hrest : (∀ p ∈ paths, ¬ disk.Blocked p a)
          ↔ ∀ p ∈ paths, ¬ disk.Blocked p s :=
        forall₂_congr fun p hp =>
          not_congr (hdisk.remove_obstacle (hpaths p hp) hpath hs
            hremove).blocked.symm
      rw [List.append_eq_nil_iff, hfirst,
        ih hpaths (hdisk.remove_spares hs hremove).tidy hmore, hrest,
        List.forall_mem_cons]

variable (hdisk : disk.Steady g out known) {paths : List Path}
  (hpaths : ∀ p ∈ paths, out.Member known p) {faults faults' : List Fault}
  (hs : v.tidy s) (hs' : v.tidy s')
  (hobstacles : disk.SameObstacles g out known s s')
  (h : (deleteEach disk paths).run s = (faults, t))
  (h' : (deleteEach disk paths).run s' = (faults', t'))
include hdisk hpaths hs hs' hobstacles h h'

theorem deleteEach_obstacles : disk.SameObstacles g out known t t' :=
  (deleteEach_onlyClears hdisk hpaths hs h).obstacles.symm.trans
    (hobstacles.trans (deleteEach_onlyClears hdisk hpaths hs' h').obstacles)

/-- Two runs that clear the same paths have the same ground there. -/
theorem deleteEach_ground {p : Path} (hp : p ∈ paths)
    (habove : p ∈ out.architecturePaths →
      g.look t (v.place out.architectureRoot)
        = g.look t' (v.place out.architectureRoot)) :
    disk.SameGround g out p t t' :=
  .of_cleared (deleteEach_cleared hdisk hpaths hs h p hp)
    (deleteEach_cleared hdisk hpaths hs' h' p hp)
    (deleteEach_obstacles hdisk hpaths hs hs' hobstacles h h' p (hpaths p hp))
    habove

theorem deleteEach_effect {p : Path} (hmember : out.Member known p) :
    g.SameEffect p s t s' t' := by
  have hclears := deleteEach_onlyClears hdisk hpaths hs h
  have hclears' := deleteEach_onlyClears hdisk hpaths hs' h'
  by_cases hp : p ∈ paths
  · by_cases hblocked : disk.Blocked p s
    · exact .of_unchanged (hclears.look p hmember (.inl hblocked))
        (hclears'.look p hmember
          (.inl ((hobstacles p hmember).blocked.1 hblocked)))
    · have hfree := mt (hclears.obstacles p hmember).blocked.2 hblocked
      have hfree' :=
        mt (deleteEach_obstacles hdisk hpaths hs hs' hobstacles h h' p
          hmember).blocked.2 hfree
      exact .inl
        (((deleteEach_cleared hdisk hpaths hs h p hp).resolve_left hfree).trans
          ((deleteEach_cleared hdisk hpaths hs' h' p hp).resolve_left
            hfree').symm)
  · have helsewhere : ∀ q ∈ paths, v.place q ≠ v.place p := fun q hq heq =>
      hp (hdisk.place_member (hpaths q hq) hmember heq ▸ hq)
    exact .of_unchanged (deleteEach_only hdisk.toLocal hs h _ helsewhere)
      (deleteEach_only hdisk.toLocal hs' h' _ helsewhere)

end Clearing

/-! ## Two runs abreast -/

/-- The same work, done from `s` and from `s'`, has got to `t` and to `t'`. At
the paths that it is about the ground is the same, so that it can go on, and it
has had the same effect wherever a run works. -/
structure Abreast (disk : Disk (StateM σ)) (g : Sight v) (out : OutputDirectory)
    (known : String → Prop) (paths : List Path) (s t s' t' : σ) : Prop where
  tidy : v.tidy t
  tidy' : v.tidy t'
  members : ∀ p ∈ paths, out.Member known p
  ground : ∀ p ∈ paths, disk.SameGround g out p t t'
  above : ∀ p ∈ paths, p ∈ out.architecturePaths →
    g.look t (v.place out.architectureRoot)
      = g.look t' (v.place out.architectureRoot)
  effect : ∀ p, out.Member known p → g.SameEffect p s t s' t'

namespace Abreast

variable {disk : Disk (StateM σ)} {out : OutputDirectory} {paths : List Path}
  {p q : Path} {s t u s' t' u' : σ} (hdisk : disk.Steady g out known)
  (h : Abreast disk g out known paths s t s' t')
include hdisk h

theorem step (hq : out.Member known q) (hu : v.tidy u) (hu' : v.tidy u')
    (hlook : g.SameOff [q] t u) (hlook' : g.SameOff [q] t' u')
    (hobstacle : ∀ p, out.Member known p → disk.SameObstacle g p t u)
    (hobstacle' : ∀ p, out.Member known p → disk.SameObstacle g p t' u')
    (heffect : g.SameEffect q t u t' u') :
    Abreast disk g out known paths s u s' u' where
  tidy := hu
  tidy' := hu'
  members := h.members
  ground p hp :=
    have hmember := h.members p hp
    hdisk.ground_step hmember hq (h.ground p hp) hlook hlook'
      (hobstacle p hmember) (hobstacle' p hmember) heffect
  above p hp harch :=
    have hroot : ∀ p ∈ [q], v.place p ≠ v.place out.architectureRoot :=
      List.forall_mem_singleton.2 (hdisk.place_ne_root hq)
    (hlook _ hroot).symm.trans ((h.above p hp harch).trans (hlook' _ hroot))
  effect p hp := (h.effect p hp).trans <| by
    by_cases heq : p = q
    · exact heq ▸ heffect
    · exact hdisk.effect_of_ne hp hq heq hlook hlook'

/-- The next text is written in both or refused in both. Once written, it is the
same. -/
theorem write {text : String} {r r' : Except SystemError Unit} (hq : q ∈ paths)
    (hrun : (disk.writeText q text).run t = (r, u))
    (hrun' : (disk.writeText q text).run t' = (r', u')) :
    (r = .ok () ↔ r' = .ok ()) ∧ Abreast disk g out known paths s u s' u'
      ∧ (r = .ok () → g.AgreeAt out q u u') := by
  have hmember := h.members q hq
  obtain ⟨hok, heffect, hlook⟩ :=
    hdisk.write_ground hmember h.tidy h.tidy' (h.ground q hq) hrun hrun'
  have hnext := h.step hdisk hmember (hdisk.write_spares h.tidy hrun).tidy
    (hdisk.write_spares h.tidy' hrun').tidy (hdisk.write_only h.tidy hrun)
    (hdisk.write_only h.tidy' hrun')
    (fun p hp => hdisk.write_obstacle hp hmember h.tidy hrun)
    (fun p hp => hdisk.write_obstacle hp hmember h.tidy' hrun') heffect
  exact ⟨hok, hnext, fun hr => ⟨hlook hr, hnext.above q hq⟩⟩

/-- The next raster is made in both or refused in both. -/
theorem render {renderer : Renderer (StateM σ)}
    (hrenderer : renderer.Steady disk g out known) {r r' : Except Fault Unit}
    (hp : p ∈ paths) (hq : q ∈ paths) (hat : g.AgreeAt out p t t')
    (hrun : (renderer p q).run t = (r, u))
    (hrun' : (renderer p q).run t' = (r', u')) :
    (r = .ok () ↔ r' = .ok ()) ∧ Abreast disk g out known paths s u s' u'
      ∧ g.AgreeAt out p u u' := by
  have hinput := h.members p hp
  have houtput := h.members q hq
  have honly := hrenderer.only h.tidy hrun
  have honly' := hrenderer.only h.tidy' hrun'
  obtain ⟨hok, heffect⟩ :=
    hrenderer.render_ground hinput houtput h.tidy h.tidy' hat
      (h.ground q hq) hrun hrun'
  refine ⟨hok, h.step hdisk houtput (hrenderer.confined h.tidy hrun).tidy
    (hrenderer.confined h.tidy' hrun').tidy honly honly'
    (fun p hp => hdisk.render_obstacle hrenderer hp houtput h.tidy hrun)
    (fun p hp => hdisk.render_obstacle hrenderer hp houtput h.tidy' hrun')
    heffect,
    hdisk.agreeAt_step hinput houtput hat honly honly' heffect⟩

end Abreast

/-! ## The plan -/

namespace Workshop

variable {shop : Workshop (StateM σ)} {s t u s' t' u' : σ}

theorem renderFormats_again (hdisk : shop.disk.Steady g shop.output known)
    (hrenderer : shop.renderer.Steady shop.disk g shop.output known)
    {markup : Path} {first again first' again' : Report}
    (habreast : Abreast shop.disk g shop.output known (artifactPaths markup) s
      t s' t')
    (hat : g.AgreeAt shop.output markup t t') (hreport : first.SameFiles again)
    (h : (shop.renderFormats markup first).run t = (first', u))
    (h' : (shop.renderFormats markup again).run t' = (again', u')) :
    first'.SameFiles again'
      ∧ Abreast shop.disk g shop.output known (artifactPaths markup) s u
        s' u' := by
  have hturn :
      ∀ {format : Raster} {r r' : Except Fault Unit} {report report' : Report}
        {a b a' b' : σ}, v.tidy a → v.tidy a' →
        Abreast shop.disk g shop.output known (artifactPaths markup) s a s' a'
          ∧ g.AgreeAt shop.output markup a a' → report.SameFiles report' →
        (shop.renderer markup (format.path markup)).run a = (r, b) →
        (shop.renderer markup (format.path markup)).run a' = (r', b') →
          (Abreast shop.disk g shop.output known
              (artifactPaths markup) s b s' b'
            ∧ g.AgreeAt shop.output markup b b')
          ∧ (report.afterRender markup format r).SameFiles
              (report'.afterRender markup format r') := by
    rintro format r r' report report' a b a' b' - - ⟨habreast, hat⟩ hreport
      hrender hrender'
    obtain ⟨hok, hnext⟩ :=
      habreast.render hdisk hrenderer (mem_artifactPaths.2 (.inl rfl))
        (mem_artifactPaths.2 (.inr ⟨format, rfl⟩)) hat hrender hrender'
    exact ⟨hnext, hreport.afterRender markup format hok⟩
  obtain ⟨hfiles, hend, -⟩ :=
    renderEach_lockstep hturn hrenderer.confined habreast.tidy
      habreast.tidy' ⟨habreast, hat⟩ hreport h h'
  exact ⟨hfiles, hend⟩

theorem draw_again (hdisk : shop.disk.Steady g shop.output known)
    (hrenderer : shop.renderer.Steady shop.disk g shop.output known)
    {d : Drawing} (hstem : known d.stem) {first again first' again' : Progress}
    (hs : v.tidy s) (hs' : v.tidy s')
    (hobstacles : shop.disk.SameObstacles g shop.output known s s')
    (hprogress : first.SameWork again)
    (h : (shop.draw d first).run s = (first', t))
    (h' : (shop.draw d again).run s' = (again', t')) :
    first'.SameWork again'
      ∧ ∀ p, shop.output.Member known p → g.SameEffect p s t s' t' := by
  have hmembers : ∀ p ∈ artifactPaths (shop.output.markupFile d.stem),
      shop.output.Member known p := member_of_known hstem
  have hmarkup : shop.output.markupFile d.stem
      ∈ artifactPaths (shop.output.markupFile d.stem) :=
    mem_artifactPaths.2 (.inl rfl)
  obtain ⟨stale, a, r, b, hclear, hput, hout⟩ := draw_run h
  obtain ⟨stale', a', r', b', hclear', hput', hout'⟩ := draw_run h'
  obtain ⟨w, hwrite, rfl⟩ := putMarkup_turn hput
  obtain ⟨w', hwrite', rfl⟩ := putMarkup_turn hput'
  have hcleared : Abreast shop.disk g shop.output known
      (artifactPaths (shop.output.markupFile d.stem)) s a s' a' := {
    tidy := (deleteEach_clears hdisk.toLawful hs hclear).spares.tidy
    tidy' := (deleteEach_clears hdisk.toLawful hs' hclear').spares.tidy
    members := hmembers
    ground p hp :=
      deleteEach_ground hdisk hmembers hs hs' hobstacles hclear hclear' hp
        fun harch => absurd harch (not_above hdisk hstem hp)
    above p hp harch := absurd harch (not_above hdisk hstem hp)
    effect p hp :=
      deleteEach_effect hdisk hmembers hs hs' hobstacles hclear hclear' hp }
  obtain ⟨hok, hwritten, hat⟩ := hcleared.write hdisk hmarkup hwrite hwrite'
  have hreport :=
    hprogress.report.noteAll .cleanup (shop.output.markupFile d.stem)
      stale stale'
  rcases hout with ⟨fault, hfault, rfl, rfl⟩ | ⟨hfirst, report, hrender, rfl⟩
  · rcases hout' with ⟨fault', -, rfl, rfl⟩ | ⟨hsecond, -⟩
    · exact ⟨⟨hreport.of_note _ _ _ _ _ _, hprogress.manifest⟩, hwritten.effect⟩
    · obtain rfl := hok.2 (mapError_eq_ok.1 hsecond)
      exact nomatch hfault
  · have hw := mapError_eq_ok.1 hfirst
    rcases hout' with ⟨fault', hfault', -⟩ | ⟨-, report', hrender', rfl⟩
    · obtain rfl := hok.1 hw
      exact nomatch hfault'
    · obtain ⟨hrendered, hend⟩ :=
        renderFormats_again hdisk hrenderer hwritten (hat hw)
          (hreport.addMarkup _) hrender hrender'
      exact ⟨⟨hrendered, congrArg (·.add d.project d.stem) hprogress.manifest⟩,
        hend.effect⟩

theorem perform_again (hdisk : shop.disk.Steady g shop.output known)
    (hrenderer : shop.renderer.Steady shop.disk g shop.output known)
    {task : Task} (hdrawn : ∀ d, task.drawing? = some d → known d.stem)
    {first again first' again' : Progress} (hs : v.tidy s) (hs' : v.tidy s')
    (hobstacles : shop.disk.SameObstacles g shop.output known s s')
    (hprogress : first.SameWork again)
    (h : (shop.perform first task).run s = (first', t))
    (h' : (shop.perform again task).run s' = (again', t')) :
    first'.SameWork again'
      ∧ ∀ p, shop.output.Member known p → g.SameEffect p s t s' t' := by
  cases task with
  | skip project fault =>
      obtain ⟨rfl, rfl⟩ := run_pure.1 h
      obtain ⟨rfl, rfl⟩ := run_pure.1 h'
      exact ⟨⟨hprogress.report.of_note _ _ _ _ _ _, hprogress.manifest⟩,
        fun _ _ => .of_unchanged rfl rfl⟩
  | miss unit fault =>
      obtain ⟨rfl, rfl⟩ := run_pure.1 h
      obtain ⟨rfl, rfl⟩ := run_pure.1 h'
      exact ⟨⟨hprogress.report.of_note _ _ _ _ _ _, hprogress.manifest⟩,
        fun _ _ => .of_unchanged rfl rfl⟩
  | draw d =>
      exact draw_again hdisk hrenderer (hdrawn d rfl) hs hs'
        hobstacles hprogress h h'

/-- The same plan has the same effect wherever the same is in the way. -/
theorem performAll_again (hdisk : shop.disk.Steady g shop.output known)
    (hrenderer : shop.renderer.Steady shop.disk g shop.output known)
    {tasks : List Task}
    (hdrawn : ∀ task ∈ tasks, ∀ d, task.drawing? = some d → known d.stem)
    {first again first' again' : Progress} (hs : v.tidy s) (hs' : v.tidy s')
    (hobstacles : shop.disk.SameObstacles g shop.output known s s')
    (hprogress : first.SameWork again)
    (h : (shop.performAll tasks first).run s = (first', t))
    (h' : (shop.performAll tasks again).run s' = (again', t')) :
    first'.SameWork again'
      ∧ ∀ p, shop.output.Member known p → g.SameEffect p s t s' t' := by
  induction tasks generalizing s s' first again with
  | nil =>
      obtain ⟨rfl, rfl⟩ := run_pure.1 h
      obtain ⟨rfl, rfl⟩ := run_pure.1 h'
      exact ⟨hprogress, fun _ _ => .of_unchanged rfl rfl⟩
  | cons task tasks ih =>
      obtain ⟨hfirst, hdrawn⟩ := List.forall_mem_cons.1 hdrawn
      obtain ⟨q, a, hturn, hrest⟩ := performAll_cons h
      obtain ⟨q', a', hturn', hrest'⟩ := performAll_cons h'
      obtain ⟨hafter, heffect⟩ :=
        perform_again hdisk hrenderer hfirst hs hs' hobstacles hprogress
          hturn hturn'
      have hwithin := obstacles_within hdisk hrenderer
      have hconcerned :
          ∀ p, Task.Concerns shop.output task p → shop.output.Member known p :=
        fun _ => member_of_concerns hfirst
      have ⟨ha, hkept⟩ := perform_within hwithin hconcerned hturn hs
      have ⟨ha', hkept'⟩ := perform_within hwithin hconcerned hturn' hs'
      obtain ⟨hdone, hlater⟩ :=
        ih hdrawn ha ha' (hkept.symm.trans (hobstacles.trans hkept')) hafter
          hrest hrest'
      exact ⟨hdone, fun p hp => (heffect p hp).trans (hlater p hp)⟩

/-! ## The architecture -/

section Architecture

variable {disk : Disk (StateM σ)} {out : OutputDirectory}
  {texts : Architecture.Texts} {r r' : Except Fault Unit}

theorem member_of_architecture {p : Path} (hp : p ∈ out.architecturePaths) :
    out.Member known p :=
  member_of_own (List.mem_cons_of_mem _ hp)

theorem summaryFile_mem : out.summaryFile ∈ out.architecturePaths :=
  List.mem_cons_self

theorem architectureFile_mem : out.architectureFile ∈ out.architecturePaths :=
  List.mem_cons_of_mem _ List.mem_cons_self

/-- The texts are not written to the directory. -/
theorem putsTexts_look_root (hdisk : disk.Steady g out known) (hs : v.tidy s)
    (h : PutsTexts disk out texts s r t) :
    g.look s (v.place out.architectureRoot)
      = g.look t (v.place out.architectureRoot) := by
  have hwrite : ∀ {p text a w b}, p ∈ out.architecturePaths → v.tidy a →
      (disk.writeText p text).run a = (w, b) →
        g.look a (v.place out.architectureRoot)
          = g.look b (v.place out.architectureRoot) :=
    fun hp ha hrun => hdisk.write_only ha hrun _
      (List.forall_mem_singleton.2 (hdisk.place_ne_root
        (member_of_architecture hp)))
  obtain ⟨first, a, hfirst, ⟨e, -, rfl, -⟩ | ⟨-, second, hsecond, -⟩⟩ := h
  · exact hwrite summaryFile_mem hs hfirst
  · exact (hwrite summaryFile_mem hs hfirst).trans
      (hwrite architectureFile_mem (hdisk.write_spares hs hfirst).tidy hsecond)

theorem putsTexts_again (hdisk : disk.Steady g out known)
    (habreast : Abreast disk g out known (artifactPaths out.architectureFile) s
      t s' t')
    (hsummary : g.look u (v.place out.summaryFile)
      = g.look t' (v.place out.summaryFile))
    (h : PutsTexts disk out texts t r u)
    (h' : PutsTexts disk out texts t' r' u') :
    (r = .ok () ↔ r' = .ok ())
      ∧ Abreast disk g out known (artifactPaths out.architectureFile) s u s' u'
      ∧ (r = .ok () → g.AgreeAt out out.architectureFile u u') := by
  obtain ⟨first, a, hfirst, hout⟩ := h
  obtain ⟨first', a', hfirst', hout'⟩ := h'
  have ha := (hdisk.write_spares habreast.tidy hfirst).tidy
  have ha' := (hdisk.write_spares habreast.tidy' hfirst').tidy
  have hmember : out.Member known out.summaryFile :=
    member_of_architecture summaryFile_mem
  have hmarkup : out.architectureFile ∈ artifactPaths out.architectureFile :=
    mem_artifactPaths.2 (.inl rfl)
  have hlook := hdisk.write_only habreast.tidy hfirst
  have hlook' := hdisk.write_only habreast.tidy' hfirst'
  -- The second run finds the summary that the first one is about to leave.
  have hkept : g.look a (v.place out.summaryFile)
      = g.look u (v.place out.summaryFile) := by
    rcases hout with ⟨e, -, rfl, -⟩ | ⟨-, second, hsecond, -⟩
    · rfl
    · exact hdisk.write_only ha hsecond _
        (List.forall_mem_singleton.2 (hdisk.place_summary_ne hmarkup))
  have hroot : g.look a (v.place out.architectureRoot)
      = g.look t' (v.place out.architectureRoot) :=
    (hlook _
      (List.forall_mem_singleton.2 (hdisk.place_ne_root hmember))).symm.trans
      (habreast.above _ hmarkup architectureFile_mem)
  obtain ⟨rfl, hwritten⟩ :=
    hdisk.write_repeated hmember habreast.tidy habreast.tidy'
      ⟨hkept.trans hsummary, fun _ => hroot⟩ hfirst hfirst'
  have hnext := habreast.step hdisk hmember ha ha' hlook hlook'
    (fun p hp => hdisk.write_obstacle hp hmember habreast.tidy hfirst)
    (fun p hp => hdisk.write_obstacle hp hmember habreast.tidy' hfirst')
    (.inl hwritten)
  rcases hout with ⟨e, rfl, rfl, rfl⟩ | ⟨rfl, second, hsecond, rfl⟩
  · obtain ⟨e', -, rfl, rfl⟩ := hout'.resolve_right fun ⟨hok, _⟩ => nomatch hok
    exact ⟨iff_of_false nofun nofun, hnext, nofun⟩
  · obtain ⟨-, second', hsecond', rfl⟩ :=
      hout'.resolve_left fun ⟨_, he, _⟩ => nomatch he
    obtain ⟨hok, hend, hat⟩ := hnext.write hdisk hmarkup hsecond hsecond'
    rw [mapError_eq_ok, mapError_eq_ok]
    exact ⟨hok, hend, hat⟩

/-- Once the way is cleared, the files of the architecture are put in place
again. -/
theorem putArchitecture_again (hdisk : disk.Steady g out known) (ht : v.tidy t)
    (ht' : v.tidy t') (hobstacles : disk.SameObstacles g out known t t')
    (hcleared : ∀ p ∈ artifactPaths out.architectureFile,
      disk.Cleared g p t ∧ disk.Cleared g p t')
    (heffect : ∀ p, out.Member known p → g.SameEffect p s t s' t')
    (hsummary : g.look u (v.place out.summaryFile)
      = g.look t' (v.place out.summaryFile))
    (hroot : g.look u (v.place out.architectureRoot)
      = g.look t' (v.place out.architectureRoot))
    (h : (out.putArchitecture disk texts).run t = (r, u))
    (h' : (out.putArchitecture disk texts).run t' = (r', u')) :
    (r = .ok () ↔ r' = .ok ())
      ∧ Abreast disk g out known (artifactPaths out.architectureFile) s u s' u'
      ∧ (r = .ok () → g.AgreeAt out out.architectureFile u u') := by
  have hmembers :
      ∀ p ∈ artifactPaths out.architectureFile, out.Member known p :=
    fun p hp => member_of_architecture (List.mem_cons_of_mem _ hp)
  obtain ⟨c, a, hcreate, hout⟩ := putArchitecture_turn h
  obtain ⟨c', a', hcreate', hout'⟩ := putArchitecture_turn h'
  have ha := (hdisk.create_spares ht hcreate).tidy
  have ha' := (hdisk.create_spares ht' hcreate').tidy
  have hlook : ∀ p, out.Member known p →
      g.look t (v.place p) = g.look a (v.place p) := fun p hp =>
    hdisk.create_only ht hcreate _
      (List.forall_mem_singleton.2 (hdisk.place_ne_root hp).symm)
  have hlook' :
      ∀ p, out.Member known p → g.look t' (v.place p) = g.look a' (v.place p) :=
    fun p hp => hdisk.create_only ht' hcreate' _
      (List.forall_mem_singleton.2 (hdisk.place_ne_root hp).symm)
  have hobstacle : ∀ p, out.Member known p → disk.SameObstacle g p t a :=
    fun p hp => hdisk.create_same_obstacle hp ht hcreate
  have hobstacle' : ∀ p, out.Member known p → disk.SameObstacle g p t' a' :=
    fun p hp => hdisk.create_same_obstacle hp ht' hcreate'
  have hkept : g.look a (v.place out.architectureRoot)
      = g.look u (v.place out.architectureRoot) := by
    rcases hout with ⟨e, -, rfl, -⟩ | ⟨-, hputs⟩
    · rfl
    · exact putsTexts_look_root hdisk ha hputs
  obtain ⟨rfl, hcreated⟩ :=
    hdisk.create_repeated ht ht' (hkept.trans hroot) hcreate hcreate'
  have habreast : Abreast disk g out known
      (artifactPaths out.architectureFile) s a s' a' := {
    tidy := ha
    tidy' := ha'
    members := hmembers
    ground p hp :=
      have hmember := hmembers p hp
      .of_cleared
        ((hcleared p hp).1.of_obstacle (hobstacle p hmember) (hlook p hmember))
        ((hcleared p hp).2.of_obstacle (hobstacle' p hmember)
          (hlook' p hmember))
        ((hobstacle p hmember).symm.trans
          ((hobstacles p hmember).trans (hobstacle' p hmember)))
        fun _ => hcreated
    above _ _ _ := hcreated
    effect p hp :=
      (heffect p hp).trans (.of_unchanged (hlook p hp) (hlook' p hp)) }
  rcases hout with ⟨e, rfl, rfl, rfl⟩ | ⟨rfl, hputs⟩
  · obtain ⟨e', -, rfl, rfl⟩ := hout'.resolve_right fun ⟨hok, _⟩ => nomatch hok
    exact ⟨iff_of_false nofun nofun, habreast, nofun⟩
  · obtain ⟨-, hputs'⟩ := hout'.resolve_left fun ⟨_, he, _⟩ => nomatch he
    exact putsTexts_again hdisk habreast
      (hsummary.trans (hlook' _ (member_of_architecture summaryFile_mem)))
      hputs hputs'

end Architecture

/-- What is made of the architecture a second time is what was there. -/
theorem drawArchitecture_again (hdisk : shop.disk.Steady g shop.output known)
    (hrenderer : shop.renderer.Steady shop.disk g shop.output known)
    {texts : Architecture.Texts} {first again first' again' : Report}
    (hs : v.tidy s) (hs' : v.tidy s')
    (hobstacles : shop.disk.SameObstacles g shop.output known s s')
    (hfound :
      ∀ p ∈ shop.output.architectureRoot :: shop.output.architecturePaths,
      g.look t (v.place p) = g.look s' (v.place p))
    (hreport : first.SameFiles again)
    (h : (shop.drawArchitecture texts first).run s = (first', t))
    (h' : (shop.drawArchitecture texts again).run s' = (again', t')) :
    first'.SameFiles again'
      ∧ ∀ p ∈ shop.output.architectureRoot :: shop.output.architecturePaths,
        g.look t (v.place p) = g.look t' (v.place p) := by
  have hmembers : ∀ p ∈ artifactPaths shop.output.architectureFile,
      shop.output.Member known p :=
    fun _ hp => member_of_architecture (List.mem_cons_of_mem _ hp)
  have hbesideRoot : ∀ p ∈ artifactPaths shop.output.architectureFile,
      v.place p ≠ v.place shop.output.architectureRoot :=
    fun p hp => hdisk.place_ne_root (hmembers p hp)
  have hbesideSummary : ∀ p ∈ artifactPaths shop.output.architectureFile,
      v.place p ≠ v.place shop.output.summaryFile :=
    fun p hp => hdisk.place_summary_ne hp
  obtain ⟨hfoundRoot, hfoundFiles⟩ := List.forall_mem_cons.1 hfound
  obtain ⟨stale, a, r, b, hclear, hput, hout⟩ := drawArchitecture_run h
  obtain ⟨stale', a', r', b', hclear', hput', hout'⟩ := drawArchitecture_run h'
  have ha := (deleteEach_clears hdisk.toLawful hs hclear).spares.tidy
  have ha' := (deleteEach_clears hdisk.toLawful hs' hclear').spares.tidy
  have hb := (putArchitecture_spares hdisk.toLawful ha hput).tidy
  have hlast : g.SameOff (artifactPaths shop.output.architectureFile) b t := by
    rcases hout with ⟨fault, -, rfl, -⟩ | ⟨-, hrender⟩
    · exact .refl _
    · exact renderFormats_only hdisk.toLocal hrenderer.toLocal hb hrender
  have hfirst : g.SameOff (artifactPaths shop.output.architectureFile) s' a' :=
    deleteEach_only hdisk.toLocal hs' hclear'
  obtain ⟨hok, habreast, hat⟩ := putArchitecture_again hdisk ha ha'
    (deleteEach_obstacles hdisk hmembers hs hs' hobstacles hclear hclear')
    (fun p hp => ⟨deleteEach_cleared hdisk hmembers hs hclear p hp,
      deleteEach_cleared hdisk hmembers hs' hclear' p hp⟩)
    (fun p hp => deleteEach_effect hdisk hmembers hs hs' hobstacles hclear
      hclear' hp)
    ((hlast _ hbesideSummary).trans ((hfoundFiles _ summaryFile_mem).trans
      (hfirst _ hbesideSummary)))
    ((hlast _ hbesideRoot).trans (hfoundRoot.trans (hfirst _ hbesideRoot)))
    hput hput'
  have hnoted :=
    hreport.noteAll .cleanup shop.output.architectureFile stale stale'
  obtain ⟨hfiles, hend⟩ : first'.SameFiles again'
      ∧ Abreast shop.disk g shop.output known
      (artifactPaths shop.output.architectureFile) s t s' t' := by
    rcases hout with ⟨fault, rfl, rfl, rfl⟩ | ⟨rfl, hrender⟩
    · rcases hout' with ⟨fault', -, rfl, rfl⟩ | ⟨hsecond, -⟩
      · exact ⟨hnoted.of_note _ _ _ _ _ _, habreast⟩
      · exact nomatch hok.2 hsecond
    · obtain rfl := hok.1 rfl
      obtain ⟨-, hrender'⟩ :=
        hout'.resolve_left fun ⟨_, hfault, _⟩ => nomatch hfault
      exact renderFormats_again hdisk hrenderer habreast (hat rfl)
        (hnoted.addMarkup _) hrender hrender'
  refine ⟨hfiles, List.forall_mem_cons.2 ⟨?_, fun p hp => ?_⟩⟩
  · exact hend.above _ (mem_artifactPaths.2 (.inl rfl)) architectureFile_mem
  · exact (hend.effect p (member_of_architecture hp)).look_eq (hfoundFiles p hp)

end Workshop

end Run

end FlowAtlas
