import FlowAtlas.Proofs.Run.Isolation
import FlowAtlas.Proofs.Run.Leftovers
import FlowAtlas.Proofs.Run.Pruned

/-!
# A run done twice

A run that is done twice in a row leaves everything as the first one has left
it. What the plan draws comes out the same. The manifest that the second run
reads is the one that the first one has saved, so all that it might delete is in
use, or stuck and without files, and the record settles to what it was.

If the manifest could not be saved, it may be readable all the same. Then the
second run finds the record that the first one has found, and tries the same
removals over again (`Sweep.same_stems`). That changes nothing either, since no
files of these stems are left, but deleting what is not there succeeds, and so
the same stems are reported once more.

What stands at a file in the end is a matter of the stage that the file belongs
to: a drawing, the manifest, the architecture, or none.
-/

namespace FlowAtlas

open OutputDirectory

namespace OutputDirectory

variable (out : OutputDirectory)

/-- What a run goes by of the runs before it, told by what it reads of the
manifest. -/
def recordFrom (r : Except SystemError String) : Manifest :=
  (out.manifestFrom r).toOption.getD .empty

theorem recordFrom_toText (m : Manifest) :
    out.recordFrom (.ok m.toText) = m := by
  rw [recordFrom, manifestFrom, manifestOf, Manifest.ofText_toText]
  rfl

theorem recordFrom_error (e : SystemError) :
    out.recordFrom (.error e) = .empty := by
  rw [recordFrom, manifestFrom]
  split_ifs
  · rfl
  · rfl

end OutputDirectory

namespace Run

variable {σ : Type} {v : FileView σ} {g : Sight v} {known : String → Prop}

/-! ## The manifest -/

/-- The manifest cannot be written. On a local disk that is so for all texts or
for none. -/
def Refuses (disk : Disk (StateM σ)) (out : OutputDirectory) (s : σ) : Prop :=
  ∃ text e t, (disk.writeText out.manifestFile text).run s = (.error e, t)

section Manifest

variable {disk : Disk (StateM σ)} {out : OutputDirectory} {a b c : σ}
  (hdisk : disk.Local g out known)
include hdisk

theorem agreeAt_manifestFile
    (h : g.look a (v.place out.manifestFile)
      = g.look b (v.place out.manifestFile)) :
    g.AgreeAt out out.manifestFile a b :=
  ⟨h, fun harch => absurd rfl (hdisk.place_architecture_ne_manifest harch)⟩

/-- Whether a manifest is written is a matter of what stands at its place. -/
theorem write_of_look {text text' : String} {r r' : Except SystemError Unit}
    {d : σ} (ha : v.tidy a) (hb : v.tidy b)
    (h : g.look a (v.place out.manifestFile)
      = g.look b (v.place out.manifestFile))
    (hwrite : (disk.writeText out.manifestFile text).run a = (r, c))
    (hwrite' : (disk.writeText out.manifestFile text').run b = (r', d)) :
    r = r' :=
  (hdisk.write_same (member_of_own List.mem_cons_self) ha hb
    (agreeAt_manifestFile hdisk h) hwrite hwrite').1

end Manifest

namespace Workshop

variable {shop : Workshop (StateM σ)} {s t : σ}

theorem loadPrevious_turn {previous : Manifest} {loaded : Report}
    (h : shop.loadPrevious.run s = ((previous, loaded), t)) :
    ∃ r, (shop.disk.readText shop.output.manifestFile).run s = (r, t)
      ∧ previous = shop.output.recordFrom r ∧ loaded.SameFiles {} := by
  obtain ⟨r, hmanifest, hloaded⟩ := loadPrevious_run h
  obtain ⟨read, hread, rfl⟩ := readManifest_turn hmanifest
  refine ⟨read, hread, ?_⟩
  rcases hloaded with ⟨hok, rfl⟩ | ⟨fault, hfault, rfl, rfl⟩
  · exact ⟨by rw [recordFrom, hok]; rfl, .refl _⟩
  · exact ⟨by rw [recordFrom, hfault]; rfl, ⟨rfl, rfl⟩⟩

theorem storeManifest_sameFiles {p : Progress} {saved : Report}
    (h : (shop.storeManifest p).run s = (saved, t)) :
    saved.SameFiles p.report := by
  obtain ⟨_, -, ⟨-, rfl⟩ | ⟨-, fault, rfl⟩⟩ := storeManifest_run h
  · exact .refl _
  · exact ⟨rfl, rfl⟩

end Workshop

/-! ## Both runs -/

variable {shop : Workshop (StateM σ)} {source : GraphSource}
  {filter : Option String} {bounds : Architecture.Bounds} {first again : Report}
  {s u w : σ}

theorem known_of_mem_plan {disk : Disk (StateM σ)} {out : OutputDirectory}
    (hdisk : disk.Local g out known) (hnames : Unslashed source.solution)
    (filter : Option String) :
    ∀ task ∈ plan source filter, ∀ d, task.drawing? = some d → known d.stem :=
  fun _ htask _ hd => hdisk.known_flat (flat_of_mem_plan hnames htask hd)

/-- The plan is not about the files of the directory itself. -/
theorem not_concerned {disk : Disk (StateM σ)} {out : OutputDirectory}
    (hdisk : disk.Steady g out known) (hnames : Unslashed source.solution)
    {p : Path} (hp : p ∈ out.ownPaths) : ∀ task ∈ plan source filter, ∀ q,
      Workshop.Task.Concerns out task q → v.place q ≠ v.place p := by
  rintro task htask q ⟨d, hd, hq⟩ heq
  have hstem := known_of_mem_plan hdisk.toLocal hnames filter task htask d hd
  have hsame :=
    hdisk.place_member (member_of_known hstem q hq) (member_of_own hp) heq
  exact hdisk.own_apart hstem q hq (hsame ▸ hp)

namespace Passage

open Workshop

theorem known_of_recorded (x : Passage v shop source filter bounds s first u)
    (hdisk : shop.disk.Local g shop.output known)
    (hrenderer : shop.renderer.Confined v) (hnames : Unslashed source.solution)
    (hprevious : ∀ stem, x.previous.tracks stem = true → known stem) :
    ∀ stem, x.kept.manifest.tracks stem = true → known stem := by
  intro stem hstem
  rcases pruneProjects_recorded x.prune hstem with hmade | hstem
  · rcases (performAll_performs hdisk.toLawful hrenderer x.tidy_opened
      x.perform).recorded hmade
      with hempty | ⟨task, htask, d, hd, rfl⟩
    · exact absurd hempty Manifest.not_tracks_empty
    · exact known_of_mem_plan hdisk hnames filter task htask d hd
  · exact hprevious stem hstem

/-- What a run has drawn it leaves alone from then on. -/
theorem look_drawn_end (x : Passage v shop source filter bounds s first u)
    (hdisk : shop.disk.Steady g shop.output known)
    (hrenderer : shop.renderer.Steady shop.disk g shop.output known)
    (hnames : Unslashed source.solution)
    (hprevious : ∀ stem, x.previous.tracks stem = true → known stem) {p : Path}
    (hp : ∃ task ∈ plan source filter, Task.Concerns shop.output task p) :
    g.look x.drawn (v.place p) = g.look u (v.place p) := by
  obtain ⟨task, htask, d, hd, hpath⟩ := hp
  have hflat := flat_of_mem_plan hnames htask hd
  have hjoint := joint_mem_of_mem_plan htask hd
  have hstem : known d.stem := hdisk.known_flat hflat
  have hmember : shop.output.Member known p := member_of_known hstem p hpath
  have hapart : ∀ q ∈ shop.output.ownPaths, v.place q ≠ v.place p := fun q hq =>
    (not_concerned hdisk hnames hq task htask p ⟨d, hd, hpath⟩).symm
  have haccounted := performAll_accounted hdisk hrenderer
    (fun task htask d hd =>
      ⟨flat_of_mem_plan hnames htask hd, joint_mem_of_mem_plan htask hd⟩)
    hstem x.tidy_opened (.inr ⟨task, htask, d, hd, rfl⟩) x.perform
  have hswept : g.look x.drawn (v.place p) = g.look x.swept (v.place p) := by
    rcases haccounted with htracks | hfileless
    · have helsewhere : ∀ project stem, stem ∈ x.previous.stemsOf project →
          ¬ x.made.manifest.tracks stem = true →
            ∀ path ∈ artifactPaths (shop.output.markupFile stem),
              v.place path ≠ v.place p :=
        fun _ stem hmem hfree path hpath' => (hdisk.apart hflat hjoint
          (hprevious stem (Manifest.tracks_of_mem_stemsOf hmem))
          (fun heq => hfree (heq ▸ htracks)) p hpath path hpath').symm
      have hkept := pruneProjects_within
        (look_within hdisk.toLocal hrenderer.toLocal (v.place p)).toWithin
        (fun project _ stem => helsewhere project stem) x.prune x.tidy_drawn
      exact hkept.2
    · exact (x.clears hdisk hprevious).look p hmember (hfileless p hpath)
  exact hswept.trans (x.look_closing hdisk.toLocal hrenderer.toLocal hapart
    (hdisk.place_ne_root hmember).symm)

/-- Until it saves its manifest, a run leaves the files of the directory itself
alone. -/
theorem look_own_swept (x : Passage v shop source filter bounds s first u)
    (hdisk : shop.disk.Steady g shop.output known)
    (hrenderer : shop.renderer.Steady shop.disk g shop.output known)
    (hnames : Unslashed source.solution)
    (hprevious : ∀ stem, x.previous.tracks stem = true → known stem) {p : Path}
    (hp : p ∈ shop.output.architectureRoot :: shop.output.ownPaths) :
    g.look s (v.place p) = g.look x.swept (v.place p) := by
  have helsewhere :
      ∀ stem, known stem → ∀ q ∈ artifactPaths (shop.output.markupFile stem),
        v.place q ≠ v.place p := by
    intro stem hstem q hq heq
    have hmember : shop.output.Member known q := member_of_known hstem q hq
    rcases List.mem_cons.1 hp with rfl | hown
    · exact hdisk.place_ne_root hmember heq
    · exact hdisk.own_apart hstem q hq
        (hdisk.place_member hmember (member_of_own hown) heq ▸ hown)
  have hplan :
      ∀ task ∈ plan source filter, ∀ q, Task.Concerns shop.output task q →
        v.place q ≠ v.place p := by
    rintro task htask q ⟨d, hd, hq⟩
    exact helsewhere d.stem
      (known_of_mem_plan hdisk.toLocal hnames filter task htask d hd) q hq
  have hpruned := pruneProjects_within
    (look_within hdisk.toLocal hrenderer.toLocal (v.place p)).toWithin
    (fun _ _ stem hstem _ =>
      helsewhere stem (hprevious stem (Manifest.tracks_of_mem_stemsOf hstem)))
        x.prune x.tidy_drawn
  exact (x.look_opened hdisk.toLocal _).trans
    ((x.look_drawn hdisk.toLocal hrenderer.toLocal hplan).trans hpruned.2)

variable (x : Passage v shop source filter bounds s first u)
  (y : Passage v shop source filter bounds u again w)
  (hdisk : shop.disk.Steady g shop.output known)
  (hrenderer : shop.renderer.Steady shop.disk g shop.output known)
  (hnames : Unslashed source.solution)
  (hprevious : ∀ stem, x.previous.tracks stem = true → known stem)
include x y hdisk hrenderer hnames hprevious

/-- What the second run reads: what the first one has saved, or what the first
one has read. In that case nothing was saved, or nothing can be read. -/
theorem previous_again :
    y.previous = x.kept.manifest ∧ ¬ Refuses shop.disk shop.output s
      ∨ y.previous = x.previous
        ∧ (Refuses shop.disk shop.output s ∨ x.previous = .empty) := by
  have hmember : shop.output.Member known shop.output.manifestFile :=
    member_of_own List.mem_cons_self
  have hbefore : g.look s (v.place shop.output.manifestFile)
      = g.look x.swept (v.place shop.output.manifestFile) :=
    x.look_own_swept hdisk hrenderer hnames hprevious
      (List.mem_cons_of_mem _ List.mem_cons_self)
  have hafter := x.look_manifest_end hdisk.toLocal hrenderer.toLocal
  obtain ⟨r, hwrite, -⟩ := storeManifest_run x.store
  obtain ⟨found, hfound, hx, -⟩ := loadPrevious_turn x.load
  obtain ⟨read, hread, hy, -⟩ := loadPrevious_turn y.load
  cases r with
  | ok a =>
      rcases hswept : (shop.disk.readText shop.output.manifestFile).run x.swept
        with ⟨r₁, a₁⟩
      rcases hstored : (shop.disk.readText shop.output.manifestFile).run
        x.stored with ⟨r₂, a₂⟩
      obtain rfl : found = r₁ :=
        hdisk.read_same hmember x.tidy_start x.tidy_swept
          (agreeAt_manifestFile hdisk.toLocal hbefore) hfound hswept
      obtain rfl : r₂ = read := hdisk.read_same hmember x.tidy_stored x.tidy_end
        (agreeAt_manifestFile hdisk.toLocal hafter) hstored hread
      rcases hdisk.read_saved x.tidy_swept hwrite hswept hstored with
        rfl | ⟨⟨e, rfl⟩, e', rfl⟩
      · refine .inl ⟨hy.trans (recordFrom_toText _ _), ?_⟩
        rintro ⟨text, e, t, hrefused⟩
        exact nomatch write_of_look hdisk.toLocal x.tidy_start x.tidy_swept
          hbefore hrefused hwrite
      · rw [recordFrom_error] at hx hy
        exact .inr ⟨hy.trans hx.symm, .inr hx⟩
  | error e =>
      have hplace :=
        (hbefore.trans (hdisk.write_whole x.tidy_swept hwrite).symm).trans
          hafter
      obtain rfl : found = read :=
        hdisk.read_same hmember x.tidy_start x.tidy_end
          (agreeAt_manifestFile hdisk.toLocal hplace) hfound hread
      rcases hfirst :
        (shop.disk.writeText shop.output.manifestFile
          x.kept.manifest.toText).run s
          with ⟨r, t⟩
      obtain rfl :=
        write_of_look hdisk.toLocal x.tidy_start x.tidy_swept
          hbefore hfirst hwrite
      exact .inr ⟨hy.trans hx.symm, .inl ⟨_, e, t, hfirst⟩⟩

theorem previous_again_known :
    ∀ stem, y.previous.tracks stem = true → known stem := by
  rcases x.previous_again y hdisk hrenderer hnames hprevious with
    ⟨hsaved, -⟩ | ⟨hsame, -⟩
  · rw [hsaved]
    exact x.known_of_recorded hdisk.toLocal hrenderer.confined hnames hprevious
  · exact hsame ▸ hprevious

theorem obstacles_drawn_again :
    shop.disk.SameObstacles g shop.output known x.drawn y.drawn :=
  have hdrawn := known_of_mem_plan hdisk.toLocal hnames filter
  (x.obstacles_drawn hdisk hrenderer hdrawn).symm.trans
    ((x.obstacles_end hdisk hrenderer hdrawn hprevious).trans
      (y.obstacles_drawn hdisk hrenderer hdrawn))

/-! ### What is drawn -/

/-- The plan comes to the same in both runs. -/
theorem made_again : x.made.SameWork y.made ∧ ∀ p, shop.output.Member known p →
    (∃ task ∈ plan source filter, Task.Concerns shop.output task p) →
      g.look x.drawn (v.place p) = g.look y.drawn (v.place p) := by
  obtain ⟨-, -, -, hx⟩ := loadPrevious_turn x.load
  obtain ⟨-, -, -, hy⟩ := loadPrevious_turn y.load
  have hstart :
      Progress.SameWork { report := x.loaded } { report := y.loaded } :=
    ⟨hx.trans hy.symm, rfl⟩
  have hdrawn := known_of_mem_plan hdisk.toLocal hnames filter
  have hobstacles := (x.obstacles_opened hdisk).symm.trans
    ((x.obstacles_end hdisk hrenderer hdrawn hprevious).trans
      (y.obstacles_opened hdisk))
  obtain ⟨hmade, heffect⟩ :=
    performAll_again hdisk hrenderer hdrawn x.tidy_opened y.tidy_opened
      hobstacles hstart x.perform y.perform
  refine ⟨hmade, fun p hp hconcerned => (heffect p hp).look_eq ?_⟩
  exact (x.look_drawn_end hdisk hrenderer hnames hprevious hconcerned).trans
    (y.look_opened hdisk.toLocal _)

/-! ### What is deleted -/

/-- A stem that the first run has removed has no files when the second one comes
to remove it, if it does. -/
theorem fileless_again {stem : String} (hstem : known stem)
    (hfree : ¬ x.made.manifest.tracks stem = true)
    (hswept : Fileless shop.disk g shop.output stem x.swept) :
    Fileless shop.disk g shop.output stem y.drawn := by
  have hdrawn := known_of_mem_plan hdisk.toLocal hnames filter
  have hopened : Fileless shop.disk g shop.output stem y.opened := by
    intro p hp
    have hmember : shop.output.Member known p := member_of_known hstem p hp
    have hapart : ∀ q ∈ shop.output.ownPaths, v.place q ≠ v.place p :=
      fun q hq heq =>
        hdisk.own_apart hstem p hp
          (hdisk.place_member (member_of_own hq) hmember heq ▸ hq)
    have hobstacles :
        shop.disk.SameObstacles g shop.output known x.swept y.opened :=
      ((x.obstacles_drawn hdisk hrenderer hdrawn).trans
        (x.clears hdisk hprevious).obstacles).symm.trans
          ((x.obstacles_end hdisk hrenderer hdrawn hprevious).trans
            (y.obstacles_opened hdisk))
    refine (hswept p hp).of_obstacle (hobstacles p hmember) ?_
    exact (x.look_closing hdisk.toLocal hrenderer.toLocal hapart
      (hdisk.place_ne_root hmember).symm).trans (y.look_opened hdisk.toLocal _)
  have haccounted := performAll_accounted hdisk hrenderer
    (fun task htask d hd =>
      ⟨flat_of_mem_plan hnames htask hd, joint_mem_of_mem_plan htask hd⟩)
    hstem y.tidy_opened (.inl (.inr hopened)) y.perform
  refine haccounted.resolve_left fun htracks => hfree ?_
  rwa [(x.made_again y hdisk hrenderer hnames hprevious).1.manifest]

section Removals

variable {removals more : List (Removal σ)}
  (hx : Sweep shop x.previous
    (errands x.previous (retains filter (skippedProjects (plan source filter))))
    x.made x.drawn removals x.kept x.swept)
  (hy : Sweep shop y.previous
    (errands y.previous (retains filter (skippedProjects (plan source filter))))
    y.made y.drawn more y.kept y.swept)
include hx hy

/-- With the same record before them both runs try the same removals. -/
theorem same_stems_again (hsame : y.previous = x.previous) :
    removals.map Removal.stem = more.map Removal.stem := by
  rw [hsame] at hy
  exact hx.same_stems hdisk hy
    (fun _ _ hmem =>
      hprevious _ (Manifest.tracks_of_mem_stemsOf (mem_errands_clear.1 hmem).1))
    x.tidy_drawn y.tidy_drawn
    (x.obstacles_drawn_again y hdisk hrenderer hnames hprevious)
    (x.made_again y hdisk hrenderer hnames hprevious).1.manifest

/-- With the record that the first run has saved, the second one tries only
removals in which that one has failed. -/
theorem failed_again (hsaved : y.previous = x.kept.manifest) {r : Removal σ}
    (hr : r ∈ more) :
    ∃ r' ∈ removals, r'.stem = r.stem ∧ r'.faults ≠ [] := by
  obtain ⟨htodo, hfree, -⟩ := hy.of_mem hr
  obtain ⟨hstem, hretained⟩ := mem_errands_clear.1 htodo
  rw [hsaved, hx.mem_stemsOf] at hstem
  rcases hstem with hmade | ⟨hkeep, -⟩ | ⟨r', hr', -, hstem, hfaults⟩
  · rw [← (x.made_again y hdisk hrenderer hnames hprevious).1.manifest] at hfree
    exact absurd (Manifest.tracks_of_mem_stemsOf hmade) hfree
  · exact absurd (mem_errands_keep.1 hkeep).2 hretained
  · exact ⟨r', hr', hstem, hfaults⟩

/-- In the second run the deleting changes nothing. -/
theorem swept_again (f : v.File) : g.look y.drawn f = g.look y.swept f := by
  have hknown := hx.known_of_mem hprevious
  have hknown' :=
    hy.known_of_mem (x.previous_again_known y hdisk hrenderer hnames hprevious)
  refine hy.leads.look_eq hdisk hknown' y.tidy_drawn (fun r hr => ?_) f
  have hfirst : ∃ r' ∈ removals, r'.stem = r.stem := by
    rcases x.previous_again y hdisk hrenderer hnames hprevious with
      ⟨hsaved, -⟩ | ⟨hsame, -⟩
    · obtain ⟨r', hr', hstem, -⟩ :=
        x.failed_again y hdisk hrenderer hnames hprevious hx hy hsaved hr
      exact ⟨r', hr', hstem⟩
    · have hmem : r.stem ∈ removals.map Removal.stem := by
        rw [x.same_stems_again y hdisk hrenderer hnames hprevious hx hy hsame]
        exact List.mem_map_of_mem hr
      exact List.mem_map.1 hmem
  obtain ⟨r', hr', hstem⟩ := hfirst
  rw [← hstem]
  exact x.fileless_again y hdisk hrenderer hnames hprevious (hknown r' hr')
    (hx.of_mem hr').2.1 (hx.leads.fileless hdisk hknown x.tidy_drawn r' hr')

/-- A stem that could not be deleted the first time cannot be deleted the second
time. -/
theorem deleted_again (hwrites : ¬ Refuses shop.disk shop.output s) :
    deleted more = [] := by
  refine List.eq_nil_iff_forall_not_mem.2 fun stem hstem => ?_
  obtain ⟨r, hr, rfl, hnil⟩ := Sweep.mem_deleted.1 hstem
  rcases x.previous_again y hdisk hrenderer hnames hprevious with
    ⟨hsaved, -⟩ | ⟨hsame, hrefuses | hempty⟩
  · obtain ⟨r', hr', hstem', hfaults⟩ :=
      x.failed_again y hdisk hrenderer hnames hprevious hx hy hsaved hr
    have hknown := hx.known_of_mem hprevious
    have hknown' :=
      hy.known_of_mem (x.previous_again_known y hdisk hrenderer
        hnames hprevious)
    refine hfaults
      ((hx.leads.faults_eq_nil_iff hdisk hknown x.tidy_drawn r' hr').2 ?_)
    rw [hstem', stuck_iff_of_obstacles
      (x.obstacles_drawn_again y hdisk hrenderer hnames hprevious)
      (hknown' r hr)]
    exact (hy.leads.faults_eq_nil_iff hdisk hknown' y.tidy_drawn r hr).1 hnil
  · exact hwrites hrefuses
  · have hmem := (mem_errands_clear.1 (hy.of_mem hr).1).1
    rw [hsame, hempty] at hmem
    exact absurd hmem List.not_mem_nil

/-- Where no record can be saved, the second run reports what the first one has
reported. -/
theorem deleted_same (hrefuses : Refuses shop.disk shop.output s) :
    deleted removals = deleted more := by
  have hsame : y.previous = x.previous := by
    rcases x.previous_again y hdisk hrenderer hnames hprevious with
      ⟨-, hwrites⟩ | ⟨hsame, -⟩
    · exact absurd hrefuses hwrites
    · exact hsame
  have hobstacles := x.obstacles_drawn_again y hdisk hrenderer hnames hprevious
  have hknown :=
    hy.known_of_mem (x.previous_again_known y hdisk hrenderer hnames hprevious)
  obtain ⟨stuck, hstuck⟩ := exists_stuck shop.disk shop.output x.drawn
  rw [hx.leads.deleted_eq hdisk (hx.known_of_mem hprevious) x.tidy_drawn
    fun stem _ => hstuck stem,
    hy.leads.deleted_eq hdisk hknown y.tidy_drawn fun stem hstem =>
      (hstuck stem).trans (stuck_iff_of_obstacles hobstacles hstem),
    x.same_stems_again y hdisk hrenderer hnames hprevious hx hy hsame]

end Removals

/-! ### What is saved -/

/-- The record that the first run would have saved is what the second one comes
to as well. -/
theorem kept_again : y.kept.manifest = x.kept.manifest := by
  have hmade := (x.made_again y hdisk hrenderer hnames hprevious).1
  have hobstacles := x.obstacles_drawn_again y hdisk hrenderer hnames hprevious
  obtain ⟨stuck, hstuck⟩ := exists_stuck shop.disk shop.output x.drawn
  have hfirst :=
    pruneProjects_settles hdisk hprevious (fun stem _ => hstuck stem)
      x.tidy_drawn x.prune
  rw [pruneProjects_settles hdisk
    (x.previous_again_known y hdisk hrenderer hnames hprevious)
    (fun stem hstem =>
      (hstuck stem).trans (stuck_iff_of_obstacles hobstacles hstem))
    y.tidy_drawn y.prune, ← hmade.manifest]
  rcases x.previous_again y hdisk hrenderer hnames hprevious with
    ⟨hsaved, -⟩ | ⟨hsame, -⟩
  · rw [hsaved, hfirst]
    exact Manifest.settle_settle _ _ _ _
  · rw [hsame, hfirst]

theorem stored_again : g.look x.stored (v.place shop.output.manifestFile)
      = g.look y.stored (v.place shop.output.manifestFile) := by
  have hbefore : g.look x.stored (v.place shop.output.manifestFile)
      = g.look y.swept (v.place shop.output.manifestFile) :=
    (x.look_manifest_end hdisk.toLocal hrenderer.toLocal).trans
      (y.look_own_swept hdisk hrenderer hnames
        (x.previous_again_known y hdisk hrenderer hnames hprevious)
        (List.mem_cons_of_mem _ List.mem_cons_self))
  obtain ⟨r, hwrite, -⟩ := storeManifest_run x.store
  obtain ⟨r', hwrite', -⟩ := storeManifest_run y.store
  rw [x.kept_again y hdisk hrenderer hnames hprevious] at hwrite'
  exact (hdisk.write_repeated (member_of_own List.mem_cons_self) x.tidy_swept
    y.tidy_swept (agreeAt_manifestFile hdisk.toLocal hbefore) hwrite hwrite').2

/-! ### The end -/

/-- The end of the second run, as the end of the first one. -/
theorem end_again : first.SameFiles again
    ∧ ∀ p ∈ shop.output.architectureRoot :: shop.output.architecturePaths,
      g.look u (v.place p) = g.look w (v.place p) := by
  have hdrawn := known_of_mem_plan hdisk.toLocal hnames filter
  have hagain := x.previous_again_known y hdisk hrenderer hnames hprevious
  obtain ⟨removals, hx⟩ := Sweep.of_prune x.prune
  obtain ⟨more, hy⟩ := Sweep.of_prune y.prune
  have hsaved : x.saved.SameFiles y.saved :=
    (storeManifest_sameFiles x.store).trans (hx.sameFiles.symm.trans
      ((x.made_again y hdisk hrenderer hnames hprevious).1.report.trans
        (hy.sameFiles.trans (storeManifest_sameFiles y.store).symm)))
  have hobstacles :
      shop.disk.SameObstacles g shop.output known x.stored y.stored :=
    (x.obstacles_stored hdisk hrenderer hdrawn hprevious).symm.trans
      ((x.obstacles_end hdisk hrenderer hdrawn hprevious).trans
        (y.obstacles_stored hdisk hrenderer hdrawn hagain))
  refine drawArchitecture_again hdisk hrenderer x.tidy_stored y.tidy_stored
    hobstacles (fun p hp => ?_) hsaved x.draw y.draw
  have hmanifest : v.place shop.output.manifestFile ≠ v.place p := by
    rcases List.mem_cons.1 hp with rfl | harch
    · exact hdisk.place_manifestFile_ne_root
    · exact (hdisk.place_architecture_ne_manifest harch).symm
  have hown : p ∈ shop.output.architectureRoot :: shop.output.ownPaths :=
    (List.mem_cons.1 hp).elim (fun heq => heq ▸ List.mem_cons_self)
      fun harch => List.mem_cons_of_mem _ (List.mem_cons_of_mem _ harch)
  exact (y.look_own_swept hdisk hrenderer hnames hagain hown).trans
    (y.look_stored hdisk.toLocal hmanifest)

end Passage

/-- A run that is done twice in a row leaves everything as the first one has
left it, and lists the same files. It deletes nothing, unless the manifest
cannot be written: then the stems on record are the same as before, and those
that the first run has deleted are reported again. -/
theorem rerun_changes_nothing (hdisk : shop.disk.Steady g shop.output known)
    (hrenderer : shop.renderer.Steady shop.disk g shop.output known)
    (hnames : Unslashed source.solution) (hs : v.tidy s)
    (hprevious : ∀ m t,
      (shop.output.readManifest shop.disk).run s = (.ok m, t) →
      ∀ stem, m.tracks stem = true → known stem)
    (h : (run shop source filter bounds).run s = (first, u))
    (h' : (run shop source filter bounds).run u = (again, w)) :
    (∀ f, g.look w f = g.look u f)
      ∧ again.written = first.written ∧ again.rendered = first.rendered
      ∧ (¬ Refuses shop.disk shop.output s → again.pruned = [])
      ∧ (Refuses shop.disk shop.output s → again.pruned = first.pruned) := by
  obtain ⟨x⟩ := exists_passage hdisk.toLawful hrenderer.confined hs h
  obtain ⟨y⟩ := exists_passage hdisk.toLawful hrenderer.confined x.tidy_end h'
  have hknown := x.previous_known hprevious
  obtain ⟨hfiles, harchitecture⟩ := x.end_again y hdisk hrenderer hnames hknown
  obtain ⟨removals, hx⟩ := Sweep.of_prune x.prune
  obtain ⟨more, hy⟩ := Sweep.of_prune y.prune
  have hpruned := pruned_eq x.load x.perform hx x.store x.draw
  have hpruned' := pruned_eq y.load y.perform hy y.store y.draw
  refine ⟨fun f => .symm ?_, hfiles.written.symm, hfiles.rendered.symm,
    fun hwrites => ?_, fun hrefuses => ?_⟩
  · by_cases hown :
        ∃ p ∈ shop.output.architectureRoot :: shop.output.architecturePaths,
          v.place p = f
    · obtain ⟨p, hp, rfl⟩ := hown
      exact harchitecture p hp
    have hbeside :
        ∀ p ∈ shop.output.architectureRoot :: shop.output.architecturePaths,
          v.place p ≠ f := fun p hp heq => hown ⟨p, hp, heq⟩
    obtain ⟨hroot, hpaths⟩ := List.forall_mem_cons.1 hbeside
    have hlast : g.look y.stored f = g.look w f :=
      y.look_end hdisk.toLocal hrenderer.toLocal hpaths hroot
    by_cases hmanifest : v.place shop.output.manifestFile = f
    · subst hmanifest
      exact ((x.look_end hdisk.toLocal hrenderer.toLocal hpaths
        hroot).symm.trans
        (x.stored_again y hdisk hrenderer hnames hknown)).trans hlast
    have hfinish : g.look y.drawn f = g.look w f :=
      (x.swept_again y hdisk hrenderer hnames hknown hx hy f).trans
        ((y.look_stored hdisk.toLocal hmanifest).trans hlast)
    by_cases hdrawn : ∃ p, (∃ task ∈ plan source filter,
        Workshop.Task.Concerns shop.output task p) ∧ v.place p = f
    · obtain ⟨p, hp, rfl⟩ := hdrawn
      have hmember : shop.output.Member known p := by
        obtain ⟨task, htask, hp⟩ := hp
        exact member_of_concerns
          (known_of_mem_plan hdisk.toLocal hnames filter task htask) hp
      calc g.look u (v.place p)
          = g.look x.drawn (v.place p) :=
            (x.look_drawn_end hdisk hrenderer hnames hknown hp).symm
        _ = g.look y.drawn (v.place p) :=
            (x.made_again y hdisk hrenderer hnames hknown).2 p hmember hp
        _ = g.look w (v.place p) := hfinish
    · exact ((y.look_opened hdisk.toLocal f).trans
        (y.look_drawn hdisk.toLocal hrenderer.toLocal
          fun task htask p hp heq =>
            hdrawn ⟨p, ⟨task, htask, hp⟩, heq⟩)).trans hfinish
  · rw [hpruned']
    exact x.deleted_again y hdisk hrenderer hnames hknown hx hy hwrites
  · rw [hpruned, hpruned']
    exact (x.deleted_same y hdisk hrenderer hnames hknown hx hy hrefuses).symm

/-! ## A run with directories in its way -/

/-- What stands in trees with an output directory. -/
def hostSight : Sight (FileTree.view [] (FileTree.Hosts [] ⟨"out"⟩)) :=
  FileTree.sight [] (FileTree.Hosts [] ⟨"out"⟩)

theorem copyingShop_steady_hosts :
    copyingShop.disk.Steady hostSight copyingShop.output FileTree.Undivided :=
  FileTree.disk_steady (by decide) FileTree.lasting_hosts fun _ ht => ht

theorem copyingShop_renderer_hosts :
    copyingShop.renderer.Steady FileTree.disk hostSight copyingShop.output
      FileTree.Undivided :=
  FileTree.copier_steady (by decide) FileTree.lasting_hosts fun _ ht => ht

/-- A project that is gone has a stem on record. One of its rasters is a
directory, and so is one of a project that is still there. -/
def stuckTree : FileTree :=
  ((sampleTree.put ["out", ".cfgflow-artifacts.json"]
      (.file (Manifest.empty.add "B" "B_D_M").toText.toUTF8 false)).put
    ["out", "B_D_M.png"] .directory).put ["out", "A_C_M.svg"] .directory

theorem tidy_stuckTree :
    (FileTree.view [] (FileTree.Hosts [] ⟨"out"⟩)).tidy stuckTree := by
  have hput : ∀ {t : FileTree} {name : String} {e : FileTree.Entry}, t.Tidy [] →
      t.at? ["out"] = some .directory → t.at? ["out", name] ≠ some .directory →
      (∀ target, e ≠ .link target) → (t.put ["out", name] e).Tidy [] :=
    fun {t name e} ht hout hold hlink =>
      @FileTree.Tidy.put [] t ht ["out"] name e hout hold hlink
  have hlink : ∀ {target}, FileTree.Entry.directory ≠ .link target :=
    fun h => nomatch h
  refine ⟨hput
    (hput (hput tidy_sampleTree.1 rfl ?_ fun _ h => nomatch h) rfl
      ?_ fun _ => hlink)
    rfl ?_ fun _ => hlink, ?_⟩
  · exact fun h => nomatch h
  · exact fun h => nomatch h
  · exact fun h => nomatch h
  · rw [FileTree.Hosts, spot_sampleRoot]
    rfl

/-- One project with a method. -/
def stuckSource : GraphSource :=
  Snapshot.source { projects := [sampleProject "A" "C.cs"] }

/-- A stem whose directory is in the way stays on record, and that is the end of
it. -/
theorem stuck_stem_stays_on_record :
    ((run copyingShop stuckSource none {}).run stuckTree).2.bytesAt
          ["out", ".cfgflow-artifacts.json"]
        = some ((Manifest.empty.add "A" "A_C_M").add "B" "B_D_M").toText.toUTF8
      ∧ ((run copyingShop stuckSource none {}).run stuckTree).2.bytesAt
        ["out", "A_C_M.png"] ≠ none
      ∧ (∀ l, ((run copyingShop stuckSource none {}).run
            ((run copyingShop stuckSource none {}).run stuckTree).2).2.at? l
          = ((run copyingShop stuckSource none {}).run stuckTree).2.at? l)
      ∧ ((run copyingShop stuckSource none {}).run
          ((run copyingShop stuckSource none {}).run stuckTree).2).1.pruned
        = [] := by
  have hevaluated :
      ((run copyingShop stuckSource none {}).run stuckTree).2.bytesAt
            ["out", ".cfgflow-artifacts.json"]
          = some ((Manifest.empty.add "A" "A_C_M").add "B"
            "B_D_M").toText.toUTF8
        ∧ ((run copyingShop stuckSource none {}).run stuckTree).2.bytesAt
            ["out", "A_C_M.png"]
          ≠ none := by
    decide +kernel
  have hread :
      ((OutputDirectory.readManifest ⟨"out"⟩ FileTree.disk).run stuckTree).1
        = .ok (Manifest.empty.add "B" "B_D_M") := by
    decide +kernel
  have hwrites : ¬ Refuses FileTree.disk ⟨"out"⟩ stuckTree := by
    rintro ⟨text, e, t, hrefused⟩
    have hok :
        ((FileTree.disk.writeText (OutputDirectory.manifestFile ⟨"out"⟩) "").run
          stuckTree).1 = .ok () := by
      decide
    rcases hempty :
      (FileTree.disk.writeText (OutputDirectory.manifestFile ⟨"out"⟩) "").run
        stuckTree with ⟨r, t'⟩
    rw [hempty] at hok
    exact nomatch
      (write_of_look copyingShop_steady_hosts.toLocal tidy_stuckTree
        tidy_stuckTree rfl hrefused hempty).trans hok
  have hnames : Unslashed stuckSource.solution := by decide
  have hprevious :
      ∀ m t, (OutputDirectory.readManifest ⟨"out"⟩ FileTree.disk).run stuckTree
        = (.ok m, t) → ∀ stem, m.tracks stem = true →
          FileTree.Undivided stem := by
    intro m t h stem hstem
    rw [h] at hread
    obtain rfl := Except.ok.inj hread
    rcases Manifest.tracks_add.1 hstem with rfl | hempty
    · exact (by decide : '/' ∉ "B_D_M".toList)
    · exact absurd hempty Manifest.not_tracks_empty
  generalize hrun : (run copyingShop stuckSource none {}).run stuckTree
    = result at hevaluated ⊢
  obtain ⟨report, u⟩ := result
  generalize hrun' : (run copyingShop stuckSource none {}).run u = result'
  obtain ⟨report', w⟩ := result'
  have hrerun :=
    @rerun_changes_nothing FileTree _ hostSight FileTree.Undivided copyingShop
      stuckSource none {} report report' stuckTree u w copyingShop_steady_hosts
      copyingShop_renderer_hosts hnames tidy_stuckTree hprevious hrun hrun'
  obtain ⟨hlook, -, -, hpruned, -⟩ := hrerun
  exact ⟨hevaluated.1, hevaluated.2, hlook, hpruned hwrites⟩

/-! ## Runs that are not the same twice -/

/-- A run over no projects, without a renderer. -/
def idleRun (disk : Disk (StateM FileTree)) : StateM FileTree Report :=
  run ⟨disk, absentRenderer, ⟨"out"⟩⟩ (Snapshot.source {}) none {}

/-- The manifest is a link into the directory of the architecture, which is not
there yet. -/
def linkedTree : FileTree :=
  sampleTree.put ["out", ".cfgflow-artifacts.json"]
    (.link "docs-architecture/m.json")

/-- A project that is gone has a stem on record, but no files. -/
def unsavedTree : FileTree :=
  sampleTree.put ["out", ".cfgflow-artifacts.json"]
    (.file (Manifest.empty.add "B" "B_D_M").toText.toUTF8 false)

/-- A disk on which the manifest can be read, but not written. -/
def guardedDisk : Disk (StateM FileTree) :=
  { FileTree.disk with
    writeText := fun path text =>
      if path = OutputDirectory.manifestFile ⟨"out"⟩ then
        pure (.error (.coded .accessDenied))
      else FileTree.disk.writeText path text }

/-- Through the link the second run writes a file that the first one could not
write. And where the record cannot be saved, the second run finds the same stem
on record as the first one, and reports it once more. -/
theorem second_run_may_differ :
    ((idleRun FileTree.disk).run linkedTree).2.bytesAt
        ["out", "docs-architecture", "m.json"] = none
      ∧ ((idleRun FileTree.disk).run
          ((idleRun FileTree.disk).run linkedTree).2).2.bytesAt
          ["out", "docs-architecture", "m.json"] ≠ none
      ∧ ((idleRun guardedDisk).run
            ((idleRun guardedDisk).run unsavedTree).2).1.pruned
          = ["B_D_M"] := by
  decide +kernel

end Run

end FlowAtlas
