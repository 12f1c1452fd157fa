import FlowAtlas.Proofs.Run.Accounting
import FlowAtlas.Proofs.Run.Repetition

/-!
# One run for each project

A run without a filter does the same to the files of the methods, and to the
manifest, as a run for each project in the order of the hierarchy.

The plan of the one run is cut at the projects, and each piece is the plan of
one of the other runs. The pieces are gone through in lockstep (`InStep`): the
same stands everywhere but at the files of the directory itself, so each step
has the same outcome on both sides, whatever stems collide.

The difference is in what happens between the pieces. Each of the single runs
reads the manifest, and takes over what it finds there, since no other project
passes its filter. Then it saves the manifest and draws the architecture. The
manifest is what the long run has on record at that place, and what it will save
in the end. There are two ways for that, and the first attempt to save decides
between them (`Kept`). If it is refused, so are all others, the file stays what
it was, and nothing is ever read from it. If not, what was saved last is read.
-/

namespace FlowAtlas

open OutputDirectory

/-! ## What comes on record -/

namespace Manifest

/-- Puts stems of projects on record. -/
def record (m : Manifest) (entries : List (String × String)) : Manifest :=
  entries.foldl (fun m e => m.add e.1 e.2) m

variable {m previous : Manifest} {entries : List (String × String)}
  {q s : String}

theorem record_append (m : Manifest) (entries more : List (String × String)) :
    m.record (entries ++ more) = (m.record entries).record more :=
  List.foldl_append

theorem mem_stemsOf_record :
    s ∈ (m.record entries).stemsOf q ↔ (q, s) ∈ entries ∨ s ∈ m.stemsOf q := by
  induction entries generalizing m with
  | nil => simp [record]
  | cons e entries ih =>
      have hcons :
          m.record (e :: entries) = (m.add e.1 e.2).record entries := rfl
      rw [hcons, ih, mem_stemsOf_add, List.mem_cons, Prod.ext_iff]
      constructor
      · rintro (h | h | h)
        · exact .inl (.inr h)
        · exact .inl (.inl h)
        · exact .inr h
      · rintro ((h | h) | h)
        · exact .inr (.inl h)
        · exact .inl h
        · exact .inr (.inr h)

theorem mem_projects_record :
    q ∈ (m.record entries).projects
      ↔ (∃ s, (q, s) ∈ entries) ∨ q ∈ m.projects := by
  induction entries generalizing m with
  | nil => simp [record]
  | cons e entries ih =>
      have hcons :
          m.record (e :: entries) = (m.add e.1 e.2).record entries := rfl
      rw [hcons, ih, mem_projects_add]
      constructor
      · rintro (⟨s, hs⟩ | rfl | h)
        · exact .inl ⟨s, List.mem_cons_of_mem _ hs⟩
        · exact .inl ⟨e.2, List.mem_cons_self⟩
        · exact .inr h
      · rintro (⟨s, hs⟩ | h)
        · rcases List.mem_cons.1 hs with rfl | hs
          · exact .inr (.inl rfl)
          · exact .inl ⟨s, hs⟩
        · exact .inr (.inr h)

/-- To take over a whole manifest behind some entries is to put the entries on
it. -/
theorem settle_record {stuck retained : String → Bool}
    (hretained : ∀ q ∈ previous.projects, retained q = true) :
    settle stuck retained previous previous.projects (empty.record entries)
      = previous.record entries := by
  have hnone : ∀ q, q ∉ empty.projects := fun q => List.not_mem_nil
  have hempty : ∀ q s, s ∉ empty.stemsOf q := fun q s => List.not_mem_nil
  refine eq_of_mem_iff (fun q => ?_) fun q s => ?_
  · rw [mem_projects_settle previous.ascending_projects, mem_projects_record,
      mem_projects_record]
    constructor
    · rintro ((h | h) | ⟨h, -⟩ | ⟨s, hs⟩)
      · exact .inl h
      · exact absurd h (hnone q)
      · exact .inr h
      · rcases (mem_settle previous.ascending_projects).1 hs with hs | ⟨h, -⟩
        · rcases mem_stemsOf_record.1 hs with hs | hs
          · exact .inl ⟨s, hs⟩
          · exact absurd hs (hempty q s)
        · exact .inr h
    · rintro (h | h)
      · exact .inl (.inl h)
      · exact .inr (.inl ⟨h, hretained q h, h⟩)
  · rw [mem_settle previous.ascending_projects, mem_stemsOf_record,
      mem_stemsOf_record]
    constructor
    · rintro ((h | h) | ⟨-, h, -⟩)
      · exact .inl h
      · exact absurd h (hempty q s)
      · exact .inr h
    · rintro (h | h)
      · exact .inl (.inl h)
      · have hq := mem_projects_of_mem_stemsOf h
        exact .inr ⟨hq, h, .inl (hretained q hq)⟩

end Manifest

/-- The manifest can be written where one has been written, and what was written
is read. -/
structure Disk.Rewrites {σ : Type} (disk : Disk (StateM σ)) (v : FileView σ)
    (out : OutputDirectory) : Prop where
  read_written : ∀ {text s t r u}, v.tidy s →
    (disk.writeText out.manifestFile text).run s = (.ok (), t) →
    (disk.readText out.manifestFile).run t = (r, u) → r = .ok text
  write_again : ∀ {text s t r u}, v.tidy s →
    (disk.writeText out.manifestFile text).run s = (.ok (), t) →
    (disk.writeText out.manifestFile text).run t = (r, u) → r = .ok ()

variable {σ : Type} {v : FileView σ} {g : Sight v} {known : String → Prop}

namespace Run

/-! ## Lockstep -/

/-- The paths that a run uses for itself. -/
def ownGround (out : OutputDirectory) : List Path :=
  out.architectureRoot :: out.ownPaths

theorem apartFrom_ownGround {disk : Disk (StateM σ)} {out : OutputDirectory}
    (hdisk : disk.Lawful v out) {stem : String} (hflat : Flat stem)
    (hjoint : Text.joint ∈ stem.toList) :
    ∀ p ∈ artifactPaths (out.markupFile stem),
      ApartFrom v out (ownGround out) p := by
  intro p hp
  have hown : ∀ q ∈ out.ownPaths, v.place q ≠ v.place p := fun q hq =>
    hdisk.place_own_ne hflat.undotted hjoint
      (Path.not_isAbsolute_of_unslashed hflat.unslashed) hq hp
  refine ⟨fun q hq => ?_, fun harch => ?_⟩
  · rcases List.mem_cons.1 hq with rfl | hq
    · exact (hdisk.place_architectureRoot_ne hflat hjoint hp).symm
    · exact hown q hq
  · exact absurd rfl (hown p (List.mem_cons_of_mem _ harch))

/-- What a plan draws has stems as runs compose them. -/
def Proper (tasks : List Task) : Prop :=
  ∀ task ∈ tasks, ∀ d, task.drawing? = some d →
    Flat d.stem ∧ Text.joint ∈ d.stem.toList

/-- Two runs have done the same steps: the same has come on record, and the same
stands everywhere but at some paths. -/
structure InStep (g : Sight v) (off : List Path) (tasks : List Task)
    (p q : Progress) (p' : Progress) (t : σ) (q' : Progress) (t' : σ) :
    Prop where
  tidy : v.tidy t
  tidy' : v.tidy t'
  look : g.SameOff off t t'
  recorded : ∃ entries : List (String × String),
    (∀ e ∈ entries, ∃ task ∈ tasks, ∃ d, task.drawing? = some d
      ∧ e.1 = d.project)
      ∧ p'.manifest = p.manifest.record entries
      ∧ q'.manifest = q.manifest.record entries

namespace Workshop

variable {shop : Workshop (StateM σ)} {s t s' t' : σ}

section InStep

variable (hdisk : shop.disk.Local g shop.output known)
  (hrenderer : shop.renderer.Local g shop.output known)
include hdisk hrenderer

theorem draw_inStep {d : Drawing} (hflat : Flat d.stem)
    (hjoint : Text.joint ∈ d.stem.toList) {p p' q q' : Progress} (hs : v.tidy s)
    (hs' : v.tidy s') (h : g.SameOff (ownGround shop.output) s s')
    (hrun : (shop.draw d p).run s = (p', t))
    (hrun' : (shop.draw d q).run s' = (q', t')) :
    InStep g (ownGround shop.output) [.draw d] p q p' t q' t' := by
  have hmembers : ∀ path ∈ artifactPaths (shop.output.markupFile d.stem),
      shop.output.Member known path := member_of_known (hdisk.known_flat hflat)
  have hapart := apartFrom_ownGround hdisk.toLawful hflat hjoint
  have ht :=
    (draw_performs hdisk.toLawful hrenderer.confined hs hrun).spares.tidy
  have ht' :=
    (draw_performs hdisk.toLawful hrenderer.confined hs' hrun').spares.tidy
  have hmarkup : shop.output.markupFile d.stem
      ∈ artifactPaths (shop.output.markupFile d.stem) :=
    mem_artifactPaths.2 (.inl rfl)
  obtain ⟨stale, a, r, b, hclear, hput, hout⟩ := draw_run hrun
  obtain ⟨stale', a', r', b', hclear', hput', hout'⟩ := draw_run hrun'
  obtain ⟨w, hwrite, rfl⟩ := putMarkup_turn hput
  obtain ⟨w', hwrite', rfl⟩ := putMarkup_turn hput'
  have ha := (deleteEach_clears hdisk.toLawful hs hclear).spares.tidy
  have ha' := (deleteEach_clears hdisk.toLawful hs' hclear').spares.tidy
  have hb := (hdisk.write_spares ha hwrite).tidy
  have hb' := (hdisk.write_spares ha' hwrite').tidy
  obtain ⟨-, hcleared⟩ :=
    deleteEach_agreesOff hdisk hmembers hapart hs hs' h hclear hclear'
  obtain ⟨rfl, hwritten⟩ :=
    writeText_agreesOff hdisk (hmembers _ hmarkup) (hapart _ hmarkup) ha ha'
      hcleared hwrite hwrite'
  rcases hout with ⟨fault, hfault, rfl, rfl⟩ | ⟨hok, report, hrender, rfl⟩
  · rcases hout' with ⟨fault', -, rfl, rfl⟩ | ⟨hok', -⟩
    · exact ⟨ht, ht', hwritten, [], by simp, rfl, rfl⟩
    · exact nomatch hfault.symm.trans hok'
  · rcases hout' with ⟨fault', hfault', -⟩ | ⟨-, report', hrender', rfl⟩
    · exact nomatch hok.symm.trans hfault'
    · -- The reports may differ in anything: only the markup is looked at here.
      obtain ⟨-, hlook⟩ := renderEach_agree hrenderer hmembers
        (fun h p hp => (hapart p hp).agreeAt h) sameOff_step
        (fun _ _ (_ : True) => trivial) hb hb' hwritten trivial hrender hrender'
      refine ⟨ht, ht', hlook, [(d.project, d.stem)], ?_, rfl, rfl⟩
      intro e he
      rw [List.mem_singleton] at he
      exact ⟨_, List.mem_cons_self, d, rfl, by rw [he]⟩

theorem perform_inStep {task : Task}
    (hproper :
      ∀ d, task.drawing? = some d → Flat d.stem ∧ Text.joint ∈ d.stem.toList)
    {p p' q q' : Progress} (hs : v.tidy s) (hs' : v.tidy s')
    (h : g.SameOff (ownGround shop.output) s s')
    (hrun : (shop.perform p task).run s = (p', t))
    (hrun' : (shop.perform q task).run s' = (q', t')) :
    InStep g (ownGround shop.output) [task] p q p' t q' t' := by
  cases task with
  | skip project fault =>
      obtain ⟨rfl, rfl⟩ := run_pure.1 hrun
      obtain ⟨rfl, rfl⟩ := run_pure.1 hrun'
      exact ⟨hs, hs', h, [], by simp, rfl, rfl⟩
  | miss unit fault =>
      obtain ⟨rfl, rfl⟩ := run_pure.1 hrun
      obtain ⟨rfl, rfl⟩ := run_pure.1 hrun'
      exact ⟨hs, hs', h, [], by simp, rfl, rfl⟩
  | draw d =>
      obtain ⟨hflat, hjoint⟩ := hproper d rfl
      exact draw_inStep hdisk hrenderer hflat hjoint hs hs' h hrun hrun'

theorem performAll_inStep {tasks : List Task} (hproper : Proper tasks)
    {p p' q q' : Progress} (hs : v.tidy s) (hs' : v.tidy s')
    (h : g.SameOff (ownGround shop.output) s s')
    (hrun : (shop.performAll tasks p).run s = (p', t))
    (hrun' : (shop.performAll tasks q).run s' = (q', t')) :
    InStep g (ownGround shop.output) tasks p q p' t q' t' := by
  induction tasks generalizing p q s s' with
  | nil =>
      obtain ⟨rfl, rfl⟩ := run_pure.1 hrun
      obtain ⟨rfl, rfl⟩ := run_pure.1 hrun'
      exact ⟨hs, hs', h, [], by simp, rfl, rfl⟩
  | cons task tasks ih =>
      obtain ⟨hfirst, hproper⟩ := List.forall_mem_cons.1 hproper
      obtain ⟨p₁, a, hturn, hrest⟩ := performAll_cons hrun
      obtain ⟨q₁, a', hturn', hrest'⟩ := performAll_cons hrun'
      have hstep := perform_inStep hdisk hrenderer hfirst hs hs' h hturn hturn'
      have hsteps := ih hproper hstep.tidy hstep.tidy' hstep.look hrest hrest'
      obtain ⟨entries, hentries, hp, hq⟩ := hstep.recorded
      obtain ⟨more, hmore, hp', hq'⟩ := hsteps.recorded
      refine ⟨hsteps.tidy, hsteps.tidy', hsteps.look, entries ++ more,
        fun e he => ?_, ?_, ?_⟩
      · rcases List.mem_append.1 he with he | he
        · obtain ⟨other, hother, hd⟩ := hentries e he
          rw [List.mem_singleton] at hother
          exact ⟨other, by simp [hother], hd⟩
        · obtain ⟨other, hother, hd⟩ := hmore e he
          exact ⟨other, List.mem_cons_of_mem _ hother, hd⟩
      · rw [hp', hp, Manifest.record_append]
      · rw [hq', hq, Manifest.record_append]

end InStep

/-- If every project is retained, nothing is deleted. -/
theorem pruneProjects_retained {previous : Manifest} {retained : String → Bool}
    {projects : List String} (hretained : ∀ q ∈ projects, retained q = true)
    {p p' : Progress}
    (h : (shop.pruneProjects previous retained projects p).run s = (p', t)) :
    t = s ∧ p'.manifest
      = Manifest.settle (fun _ => false) retained previous projects
        p.manifest := by
  induction projects generalizing p with
  | nil =>
      obtain ⟨rfl, rfl⟩ := run_pure.1 h
      exact ⟨rfl, rfl⟩
  | cons project projects ih =>
      obtain ⟨hproject, hretained⟩ := List.forall_mem_cons.1 hretained
      rcases pruneProjects_cons h with ⟨-, hrest⟩ | ⟨hnot, -⟩
      · obtain ⟨rfl, hmanifest⟩ := ih hretained hrest
        refine ⟨rfl, ?_⟩
        rw [hmanifest, Manifest.settle, Manifest.settleProject, if_pos hproject]
      · exact absurd hproject hnot

/-- Where there is no manifest, none is read. -/
theorem loadPrevious_of_none (hdisk : shop.disk.Lawful v shop.output)
    {previous : Manifest} {loaded : Report} (hs : v.tidy s)
    (hnone : v.content s (v.place shop.output.manifestFile) = none)
    (h : shop.loadPrevious.run s = ((previous, loaded), t)) :
    previous = .empty := by
  obtain ⟨r, hread, ⟨rfl, -⟩ | ⟨fault, -, hempty, -⟩⟩ := loadPrevious_run h
  · rcases (readManifest_run hdisk hs hread).2 previous rfl with
      ⟨-, hempty⟩ | ⟨text, htext, -⟩
    · exact hempty
    · rw [hnone] at htext
      cases htext
  · exact hempty

end Workshop

/-! ## The stages of a run -/

/-- A run that finds nothing on record has nothing to delete. -/
theorem Passage.swept_of_empty {shop : Workshop (StateM σ)}
    {source : GraphSource} {bounds : Architecture.Bounds} {s u : σ}
    {report : Report} (y : Passage v shop source none bounds s report u)
    (hempty : y.previous = .empty) :
    y.swept = y.drawn ∧ y.kept.manifest = y.made.manifest := by
  have hretained : ∀ name ∈ y.previous.projects,
      retains none (skippedProjects (plan source none)) name = true := by
    rw [hempty]
    exact fun name hname => absurd hname List.not_mem_nil
  obtain ⟨hswept, hmade⟩ := Workshop.pruneProjects_retained hretained y.prune
  rw [hempty] at hmade
  exact ⟨hswept, hmade⟩

/-- Nothing is drawn where the manifest stands. -/
theorem Passage.look_manifestFile {shop : Workshop (StateM σ)}
    (hdisk : shop.disk.Local g shop.output known)
    (hrenderer : shop.renderer.Local g shop.output known) {source : GraphSource}
    {filter : Option String} {bounds : Architecture.Bounds} {s u : σ}
    {report : Report} (y : Passage v shop source filter bounds s report u)
    (hproper : Proper (plan source filter)) :
    g.look s (v.place shop.output.manifestFile)
      = g.look y.drawn (v.place shop.output.manifestFile) := by
  rw [y.look_opened hdisk]
  refine y.look_drawn hdisk hrenderer fun task htask path hpath => ?_
  obtain ⟨d, hd, hpath⟩ := hpath
  obtain ⟨hflat, hjoint⟩ := hproper task htask d hd
  have hapart := apartFrom_ownGround hdisk.toLawful hflat hjoint path hpath
  exact (hapart.own _ (List.mem_cons_of_mem _ List.mem_cons_self)).symm

/-! ## The manifest between the runs -/

/-- A manifest was written, and what stands there is still the same. -/
def Saved (g : Sight v) (disk : Disk (StateM σ)) (out : OutputDirectory)
    (m : Manifest) (a : σ) : Prop :=
  ∃ s t, v.tidy s
    ∧ (disk.writeText out.manifestFile m.toText).run s = (.ok (), t)
    ∧ g.look t (v.place out.manifestFile) = g.look a (v.place out.manifestFile)

/-- What has become of a manifest after some runs that began in `s`. -/
def Kept (g : Sight v) (disk : Disk (StateM σ)) (out : OutputDirectory) (s : σ)
    (m : Manifest) (a : σ) : Prop :=
  (Refuses disk out s
      ∧ g.look s (v.place out.manifestFile)
        = g.look a (v.place out.manifestFile))
    ∨ ¬ Refuses disk out s ∧ Saved g disk out m a

/-- What a run finds: a manifest as earlier runs have left it, or the place as
it was in `s`, and nothing is on record. -/
def Found (g : Sight v) (disk : Disk (StateM σ)) (out : OutputDirectory) (s : σ)
    (m : Manifest) (a : σ) : Prop :=
  Kept g disk out s m a
    ∨ m = .empty ∧ g.look s (v.place out.manifestFile)
      = g.look a (v.place out.manifestFile)

section Manifest

variable {disk : Disk (StateM σ)} {out : OutputDirectory} {s a b c : σ}
  {m n : Manifest}

theorem Kept.of_look (h : Kept g disk out s m a)
    (hlook : g.look a (v.place out.manifestFile)
      = g.look b (v.place out.manifestFile)) :
    Kept g disk out s m b := by
  rcases h with ⟨hrefuses, h⟩ | ⟨hwrites, s₀, t₀, hs₀, hwrite, h⟩
  · exact .inl ⟨hrefuses, h.trans hlook⟩
  · exact .inr ⟨hwrites, s₀, t₀, hs₀, hwrite, h.trans hlook⟩

theorem Found.of_look (h : Found g disk out s m a)
    (hlook : g.look a (v.place out.manifestFile)
      = g.look b (v.place out.manifestFile)) :
    Found g disk out s m b := by
  rcases h with h | ⟨hempty, h⟩
  · exact .inl (h.of_look hlook)
  · exact .inr ⟨hempty, h.trans hlook⟩

/-- A file that cannot be written is what it was. -/
theorem Found.look_eq (h : Found g disk out s m a)
    (hrefuses : Refuses disk out s) :
    g.look s (v.place out.manifestFile)
      = g.look a (v.place out.manifestFile) := by
  rcases h with (⟨-, hlook⟩ | ⟨hwrites, -⟩) | ⟨-, hlook⟩
  · exact hlook
  · exact absurd hrefuses hwrites
  · exact hlook

variable (hdisk : disk.Local g out known)
include hdisk

theorem Saved.content (h : Saved g disk out m a) :
    v.content a (v.place out.manifestFile) = some m.toText.toUTF8 := by
  obtain ⟨s, t, hs, hwrite, ht⟩ := h
  rw [← g.reveals ht]
  exact hdisk.write_ok hs hwrite

theorem write_of_refuses (hwhole : disk.WritesWhole g)
    (hrefuses : Refuses disk out s) (hs : v.tidy s) (ha : v.tidy a)
    (hlook : g.look s (v.place out.manifestFile)
      = g.look a (v.place out.manifestFile))
    {text : String} {r : Except SystemError Unit}
    (hwrite : (disk.writeText out.manifestFile text).run a = (r, c)) :
    g.look s (v.place out.manifestFile)
      = g.look c (v.place out.manifestFile) := by
  obtain ⟨text', e, t, hrefused⟩ := hrefuses
  obtain rfl := write_of_look hdisk hs ha hlook hrefused hwrite
  exact hlook.trans (hwhole ha hwrite).symm

theorem write_of_not_refuses (hwrites : ¬ Refuses disk out s) (hs : v.tidy s)
    (ha : v.tidy a)
    (hlook : g.look s (v.place out.manifestFile)
      = g.look a (v.place out.manifestFile))
    {text : String} {r : Except SystemError Unit}
    (hwrite : (disk.writeText out.manifestFile text).run a = (r, c)) :
    r = .ok () := by
  rcases hfirst : (disk.writeText out.manifestFile text).run s with ⟨r', t⟩
  obtain rfl := write_of_look hdisk hs ha hlook hfirst hwrite
  cases r' with
  | ok u => rfl
  | error e => exact absurd ⟨text, e, t, hfirst⟩ hwrites

variable (hmanifest : disk.Rewrites v out)
include hmanifest

theorem Saved.write (h : Saved g disk out m a) (ha : v.tidy a) {text : String}
    {r : Except SystemError Unit}
    (hwrite : (disk.writeText out.manifestFile text).run a = (r, c)) :
    r = .ok () := by
  obtain ⟨s, t, hs, hfirst, ht⟩ := h
  rcases hagain : (disk.writeText out.manifestFile m.toText).run t with ⟨r', u⟩
  have hok := hmanifest.write_again hs hfirst hagain
  rw [← hok]
  exact (write_of_look hdisk (hdisk.write_spares hs hfirst).tidy ha ht
    hagain hwrite).symm

/-- A run that saves its manifest keeps it for the next one. -/
theorem Found.kept_of_write (hwhole : disk.WritesWhole g)
    (h : Found g disk out s m a) (hs : v.tidy s) (ha : v.tidy a)
    {r : Except SystemError Unit}
    (hwrite : (disk.writeText out.manifestFile n.toText).run a = (r, c))
    {n' : Manifest} (hn : ¬ Refuses disk out s → n = n') :
    Kept g disk out s n' c := by
  by_cases hrefuses : Refuses disk out s
  · exact .inl ⟨hrefuses,
      write_of_refuses hdisk hwhole hrefuses hs ha (h.look_eq hrefuses) hwrite⟩
  · obtain rfl := hn hrefuses
    obtain rfl : r = .ok () := by
      rcases h with (⟨hyes, -⟩ | ⟨-, hsaved⟩) | ⟨-, hlook⟩
      · exact absurd hyes hrefuses
      · exact hsaved.write hdisk hmanifest ha hwrite
      · exact write_of_not_refuses hdisk hrefuses hs ha hlook hwrite
    exact .inr ⟨hrefuses, a, c, ha, hwrite, rfl⟩

end Manifest

/-! ## One run for a project -/

theorem project_of_mem_projectTasks {source : GraphSource} {p : Project}
    {task : Task} {d : Drawing} (htask : task ∈ projectTasks source p)
    (hd : task.drawing? = some d) :
    d.project = p.name := by
  unfold projectTasks at htask
  split at htask
  · rw [List.mem_singleton] at htask
    rw [htask] at hd
    cases hd
  · obtain ⟨doc, -, htask⟩ := List.mem_flatMap.1 htask
    obtain ⟨method, -, rfl⟩ := List.mem_map.1 htask
    unfold methodTask at hd
    split at hd
    · cases hd
    · cases hd
      rfl

section Runs

variable {shop : Workshop (StateM σ)} {source : GraphSource}
  {bounds : Architecture.Bounds} {s : σ}
  (hdisk : shop.disk.Local g shop.output known)
  (hmanifest : shop.disk.Rewrites v shop.output)
  (hnone : v.content s (v.place shop.output.manifestFile) = none)
include hdisk hmanifest hnone

/-- What a run reads of the runs before it. -/
theorem Found.previous {m previous : Manifest} {loaded : Report} {a t : σ}
    (hfound : Found g shop.disk shop.output s m a) (ha : v.tidy a)
    (h : shop.loadPrevious.run a = ((previous, loaded), t)) :
    previous = m ∨ Refuses shop.disk shop.output s ∧ previous = .empty := by
  have hempty : g.look s (v.place shop.output.manifestFile)
      = g.look a (v.place shop.output.manifestFile) → previous = .empty := by
    intro hlook
    refine Workshop.loadPrevious_of_none hdisk.toLawful ha ?_ h
    rw [← g.reveals hlook, hnone]
  rcases hfound with
    (⟨hrefuses, hlook⟩ | ⟨-, s₀, t₀, hs₀, hwrite, hlook⟩) | ⟨rfl, hlook⟩
  · exact .inr ⟨hrefuses, hempty hlook⟩
  · obtain ⟨r, hread, hrecord, -⟩ := Workshop.loadPrevious_turn h
    rcases hfirst : (shop.disk.readText shop.output.manifestFile).run t₀
      with ⟨r₀, u₀⟩
    have hread₀ := hmanifest.read_written hs₀ hwrite hfirst
    have hsame := hdisk.read_same (member_of_own List.mem_cons_self)
      (hdisk.write_spares hs₀ hwrite).tidy ha (agreeAt_manifestFile hdisk hlook)
      hfirst hread
    rw [hrecord, ← hsame, hread₀]
    exact .inl (recordFrom_toText _ m)
  · exact .inl (hempty hlook)

variable (hwhole : shop.disk.WritesWhole g)
  (hrenderer : shop.renderer.Local g shop.output known) (hs : v.tidy s)
include hwhole hrenderer hs

/-- A run for one project, beside the long run that goes through its piece of
the plan. -/
theorem run_inStep {p : Project}
    (hplan : plan source (some p.name) = projectTasks source p)
    (hproper : Proper (projectTasks source p)) {a b a' b' : σ} {q q' : Progress}
    {report : Report} (hfresh : p.name ∉ q.manifest.projects) (ha : v.tidy a)
    (hb : v.tidy b) (hlook : g.SameOff (ownGround shop.output) a b)
    (hfound : Found g shop.disk shop.output s q.manifest a)
    (hrun : (run shop source (some p.name) bounds).run a = (report, a'))
    (hlong : (shop.performAll (projectTasks source p) q).run b = (q', b')) :
    v.tidy a'
      ∧ InStep g (ownGround shop.output) (projectTasks source p) q q q' a' q' b'
      ∧ Kept g shop.disk shop.output s q'.manifest a' := by
  obtain ⟨x⟩ := exists_passage hdisk.toLawful hrenderer.confined ha hrun
  have hprevious := hfound.previous hdisk hmanifest hnone ha x.load
  have hopened : g.SameOff (ownGround shop.output) x.opened b := by
    intro f hf
    rw [← x.look_opened hdisk f, hlook f hf]
  have hperform := x.perform
  rw [hplan] at hperform
  have hsteps :=
    Workshop.performAll_inStep hdisk hrenderer hproper x.tidy_opened hb hopened
      hperform hlong
  obtain ⟨entries, hentries, hmade, hrecorded⟩ := hsteps.recorded
  have hretained : ∀ name ∈ x.previous.projects,
      retains (some p.name) (skippedProjects (plan source (some p.name))) name
        = true := by
    intro name hname
    have hne : name ≠ p.name := by
      intro heq
      rcases hprevious with hfull | ⟨-, hempty⟩
      · exact hfresh (heq ▸ hfull ▸ hname)
      · rw [hempty] at hname
        exact absurd hname List.not_mem_nil
    simp [retains, selects, hne]
  obtain ⟨hswept, hkept⟩ := Workshop.pruneProjects_retained hretained x.prune
  rw [hmade] at hkept
  have htaken : x.kept.manifest = x.previous.record entries :=
    hkept.trans (Manifest.settle_record hretained)
  -- The plan leaves the manifest alone, and so does the architecture.
  have hfile : g.look a (v.place shop.output.manifestFile)
      = g.look x.swept (v.place shop.output.manifestFile) := by
    rw [hswept]
    exact x.look_manifestFile hdisk hrenderer (hplan ▸ hproper)
  have hend := x.look_manifest_end hdisk hrenderer
  have hoff : g.SameOff (ownGround shop.output) a' b' := by
    intro f hf
    obtain ⟨hroot, hown⟩ := List.forall_mem_cons.1 hf
    rw [← x.look_closing hdisk hrenderer hown hroot, hswept, hsteps.look f hf]
  obtain ⟨r, hwrite, -⟩ := Workshop.storeManifest_run x.store
  refine ⟨x.tidy_end,
    ⟨x.tidy_end, hsteps.tidy', hoff, entries, hentries, hrecorded, hrecorded⟩,
    ?_⟩
  refine Kept.of_look ?_ hend
  refine (hfound.of_look hfile).kept_of_write hdisk hmanifest hwhole hs
    x.tidy_swept hwrite ?_
  intro hwrites
  rw [htaken, hrecorded, hprevious.resolve_right fun h => hwrites h.1]

/-- A run for each of some projects, beside the long run that goes through their
pieces of the plan. -/
theorem performJobs_inStep {projects : List Project}
    (hplan : ∀ p ∈ projects, plan source (some p.name) = projectTasks source p)
    (hproper : ∀ p ∈ projects, Proper (projectTasks source p))
    (hdistinct : (projects.map (·.name)).Nodup) {a b a' b' : σ}
    {q q' : Progress} {records : List (Job σ × Report)}
    (hfresh : ∀ p ∈ projects, p.name ∉ q.manifest.projects) (ha : v.tidy a)
    (hb : v.tidy b) (hlook : g.SameOff (ownGround shop.output) a b)
    (hfound : Found g shop.disk shop.output s q.manifest a)
    (hrun : (performJobs shop.disk shop.output
      (projects.map fun p =>
        ⟨source, some p.name, bounds, shop.renderer⟩)).run a = (records, a'))
    (hlong : (shop.performAll (projects.flatMap (projectTasks source)) q).run b
      = (q', b')) :
    g.SameOff (ownGround shop.output) a' b'
      ∧ (projects ≠ [] → Kept g shop.disk shop.output s q'.manifest a') := by
  induction projects generalizing a b q records with
  | nil =>
      obtain ⟨-, rfl⟩ := run_pure.1 hrun
      obtain ⟨-, rfl⟩ := run_pure.1 hlong
      exact ⟨hlook, fun h => absurd rfl h⟩
  | cons p projects ih =>
      obtain ⟨hplan, hplans⟩ := List.forall_mem_cons.1 hplan
      obtain ⟨hproper, hpropers⟩ := List.forall_mem_cons.1 hproper
      obtain ⟨hfresh, hfreshes⟩ := List.forall_mem_cons.1 hfresh
      rw [List.map_cons, List.nodup_cons] at hdistinct
      rw [List.map_cons] at hrun
      obtain ⟨report, t, rest, hfirst, hrest, -⟩ := performJobs_cons hrun
      rw [List.flatMap_cons] at hlong
      obtain ⟨q₁, t', hpiece, hpieces⟩ := Workshop.performAll_append hlong
      obtain ⟨ht, hstep, hkept⟩ :=
        run_inStep hdisk hmanifest hnone hwhole hrenderer hs hplan hproper
          hfresh ha hb hlook hfound hfirst hpiece
      obtain ⟨entries, hentries, -, hrecorded⟩ := hstep.recorded
      have hother : ∀ other ∈ projects, other.name ∉ q₁.manifest.projects := by
        intro other hother hname
        rw [hrecorded, Manifest.mem_projects_record] at hname
        rcases hname with ⟨stem, hstem⟩ | hname
        · obtain ⟨task, htask, d, hd, hproject⟩ := hentries _ hstem
          have heq : other.name = p.name :=
            hproject.trans (project_of_mem_projectTasks htask hd)
          exact hdistinct.1 (heq ▸ List.mem_map_of_mem hother)
        · exact hfreshes other hother hname
      obtain ⟨hend, hlast⟩ :=
        ih hplans hpropers hdistinct.2 hother ht hstep.tidy' hstep.look
          (.inl hkept) hrest hpieces
      refine ⟨hend, fun _ => ?_⟩
      cases projects with
      | nil =>
          obtain ⟨-, rfl⟩ := run_pure.1 hrest
          obtain ⟨rfl, -⟩ := run_pure.1 hpieces
          exact hkept
      | cons next projects => exact hlast (List.cons_ne_nil _ _)

end Runs

/-! ## All runs -/

theorem matching_of_distinct {solution : Solution}
    (hdistinct : (solution.projects.map (·.name)).Nodup) {p : Project}
    (hp : p ∈ solution.projects) : solution.matching (some p.name) = [p] := by
  unfold Solution.matching
  generalize solution.projects = projects at hdistinct hp
  induction projects with
  | nil => exact absurd hp List.not_mem_nil
  | cons first projects ih =>
      rw [List.map_cons, List.nodup_cons] at hdistinct
      rcases List.mem_cons.1 hp with rfl | hp
      · have hnone :
            projects.filter (fun q => selects (some p.name) q.name) = [] := by
          rw [List.filter_eq_nil_iff]
          intro q hq hselected
          have hname : q.name = p.name := by simpa [selects] using hselected
          exact hdistinct.1 (hname ▸ List.mem_map_of_mem hq)
        rw [List.filter_cons_of_pos (by simp [selects]), hnone]
      · have hne : first.name ≠ p.name := fun hname =>
          hdistinct.1 (hname ▸ List.mem_map_of_mem hp)
        rw [List.filter_cons_of_neg (by simp [selects, hne]), ih hdistinct.2 hp]

theorem plan_of_distinct {source : GraphSource}
    (hdistinct : (source.solution.projects.map (·.name)).Nodup) {p : Project}
    (hp : p ∈ source.solution.projects) :
    plan source (some p.name) = projectTasks source p := by
  rw [plan, matching_of_distinct hdistinct hp, List.flatMap_singleton]

theorem plan_none (source : GraphSource) :
    plan source none
      = source.solution.projects.flatMap (projectTasks source) := by
  have hall : source.solution.matching none = source.solution.projects :=
    List.filter_eq_self.2 fun _ _ => rfl
  rw [plan, hall]

/-- A run for each project of a solution, in the order of the hierarchy. -/
def projectJobs (shop : Workshop (StateM σ)) (source : GraphSource)
    (bounds : Architecture.Bounds) : List (Job σ) :=
  source.solution.projects.map fun p =>
    ⟨source, some p.name, bounds, shop.renderer⟩

/-- The method of the second project has the stem of the first one. -/
def sharingSource : GraphSource :=
  Snapshot.source { projects :=
    [sampleProject "A B" "C.cs", sampleProject "A" "B C.cs"] }

/-- What is drawn of the two methods. -/
def sharedDrawing (project document : String) : Drawing where
  project
  unit := project ++ "::" ++ document ++ "::M"
  stem := "A_B_C_M"
  markup := "%% Diagram generated automatically (CFG -> Mermaid)\n"
    ++ "%% Project: " ++ project ++ " | File: " ++ document
    ++ " | Method: M\nflowchart TD\n"

theorem plan_sharingSource : plan sharingSource none
    = [.draw (sharedDrawing "A B" "C.cs"),
      .draw (sharedDrawing "A" "B C.cs")] := by
  decide +kernel

theorem copyingShop_rewrites :
    copyingShop.disk.Rewrites sampleView copyingShop.output where
  read_written {text s t r u} hs hwrite hread := by
    have ht := (copyingShop_steady.write_spares hs hwrite).tidy
    obtain ⟨rfl, -⟩ := Prod.mk.inj hread
    exact FileTree.readText_written (by decide)
      (member_of_own List.mem_cons_self) ⟨hs.1, hs.2.stands⟩ hwrite
      ⟨ht.1, ht.2.stands⟩
  write_again hs hwrite hagain :=
    (copyingShop_steady.write_over (member_of_own List.mem_cons_self) hs hwrite
      hwrite hagain).1.symm

end Run

end FlowAtlas
