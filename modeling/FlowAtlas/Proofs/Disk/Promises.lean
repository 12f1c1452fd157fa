import FlowAtlas.Proofs.Disk.Outcomes
import FlowAtlas.Proofs.Disk.Steady

/-!
# A file tree is a steady disk

What operations come to (`removeFile_outcome`, `writeBytes_outcome`,
`create_run`) is held against the promises of a disk. What stands at a location
is looked at with the permission of a file, so a tree that looks the same is the
same.
-/

namespace FlowAtlas.FileTree

open FlowAtlas.Path (Plain)
open OutputDirectory

variable {dir : Location} {t t' : FileTree} {root : Path}
  {out : OutputDirectory}

/-- What stands at a location, with the permission that a file has. -/
def sight (dir : Location) (ready : FileTree → Prop) :
    Sight (view dir ready) where
  Entry := Entry
  look := at?
  reveals {s t l} h := by
    have hentry : s.at? l = t.at? l := h
    show s.bytesAt l = t.bytesAt l
    unfold bytesAt
    rw [hentry]

variable {ready : FileTree → Prop}

theorem Undivided.of_flat {stem : String}
    (h : Flat stem) : Undivided stem := h.unslashed

theorem at?_erase_self {l : Location} (hne : l ≠ []) :
    (t.erase l).at? l = none := by
  rw [at?_erase _ _ _ hne, if_pos rfl]

theorem sameOff_put {p : Path} {e : Entry} (hne : spot dir p ≠ []) :
    (sight dir ready).SameOff [p] t (t.put (spot dir p) e) := fun _ hl =>
  (at?_put_of_ne hne (hl p List.mem_cons_self)).symm

theorem sameOff_erase {p : Path} (hne : spot dir p ≠ []) :
    (sight dir ready).SameOff [p] t (t.erase (spot dir p)) := by
  intro l hl
  have hplace : spot dir p ≠ l := hl p List.mem_cons_self
  exact ((at?_erase t _ _ hne).trans (if_neg (Ne.symm hplace))).symm

/-! The files of the stems that a run composes are told apart from those of
other stems. -/

theorem spot_named_injective {n m : String} (hn : Plain n) (hm : Named m)
    (h : spot dir (root.join n) = spot dir (root.join m)) : n = m := by
  rw [(Single.of_plain hn).spot_join, hm.single.spot_join,
    advance_plain hn] at h
  rcases hm with rfl | hm
  · have hlength := congrArg List.length h
    rw [List.length_append] at hlength
    change _ = ((spot dir root).dropLast).length at hlength
    rw [List.length_dropLast] at hlength
    simp only [List.length_singleton] at hlength
    omega
  · rw [advance_plain hm] at h
    exact (List.cons.inj (List.append_cancel_left h)).1

theorem spot_apart {stem other : String} (hstem : Flat stem)
    (hjoint : Text.joint ∈ stem.toList) (hother : Undivided other)
    (hne : other ≠ stem) {p q : Path}
    (hp : p ∈ artifactPaths (out.markupFile stem))
    (hq : q ∈ artifactPaths (out.markupFile other)) :
    spot dir p ≠ spot dir q := by
  intro heq
  obtain ⟨n, hn, rfl, rfl | ⟨m, hm, rfl, hmn⟩⟩ :=
    exists_names_ne hstem hjoint hother hne hp hq
  · exact hn.ne_above (spot_named_injective hn (.inl rfl) heq)
  · exact hmn (spot_named_injective hn (.inr hm) heq).symm

theorem writeBytes_only (h : t.Tidy dir) {p : Path} {bytes : ByteArray}
    {r : Except SystemError Unit}
    (hrun : (change fun t => t.writeBytes p bytes).run t = (r, t')) :
    (sight dir ready).SameOff [p] t t' := by
  rcases (writeBytes_run h hrun).2 with ⟨-, hne, rfl⟩ | ⟨-, rfl⟩
  · exact sameOff_put hne
  · exact .refl _

/-- Two operations leave the same at a location if they put the same there, or
if they are refused where the same stood before. -/
theorem at?_eq_of_outcomes {l : Location} {s s' : FileTree}
    {r : Except SystemError Unit} (entry : Option Entry)
    (hown : s.at? l = s'.at? l)
    (hout : (r = .ok () ∧ t.at? l = entry) ∨ (∃ e, r = .error e) ∧ t = s)
    (hout' : (r = .ok () ∧ t'.at? l = entry) ∨ (∃ e, r = .error e) ∧ t' = s') :
    t.at? l = t'.at? l := by
  rcases hout with ⟨rfl, ht⟩ | ⟨⟨e, rfl⟩, rfl⟩
  · rw [ht, (hout'.resolve_right fun hno => nomatch hno.1.choose_spec).2]
  · obtain ⟨-, rfl⟩ := hout'.resolve_left fun hok => nomatch hok.1
    exact hown

/-- Writing in two trees that are alike at a path comes to the same. -/
theorem writeBytes_same (hroot : ".." ∉ steps out.root) {p : Path}
    {bytes bytes' : ByteArray} {s s' : FileTree}
    {r r' : Except SystemError Unit} (hp : out.Member Undivided p)
    (hs : Stands dir out.root s) (hs' : Stands dir out.root s')
    (hown : s.at? (spot dir p) = s'.at? (spot dir p))
    (habove : p ∈ out.architecturePaths →
      s.at? (spot dir out.architectureRoot)
        = s'.at? (spot dir out.architectureRoot))
    (h : (change fun t => t.writeBytes p bytes).run s = (r, t))
    (h' : (change fun t => t.writeBytes p bytes').run s' = (r', t')) :
    r = r' ∧ (bytes = bytes' → t.at? (spot dir p) = t'.at? (spot dir p)) := by
  have hlocate := locate_same hroot hp hs hs' hown habove true true
  obtain ⟨hr, hout⟩ := writeBytes_run hs.tidy h
  obtain ⟨hr', hout'⟩ := writeBytes_run hs'.tidy h'
  obtain rfl : r = r' := by rw [hr, hr', hlocate]
  refine ⟨rfl, ?_⟩
  rintro rfl
  rw [← hown] at hout'
  refine at?_eq_of_outcomes
    (some (.file bytes (permission (s.at? (spot dir p))))) hown
    (hout.imp_left ?_) (hout'.imp_left ?_)
  · rintro ⟨hok, hne, rfl⟩
    exact ⟨hok, at?_put_self hne⟩
  · rintro ⟨hok, hne, rfl⟩
    exact ⟨hok, at?_put_self hne⟩

/-- Removing in two trees that are alike at a path comes to the same. -/
theorem removeFile_same (hroot : ".." ∉ steps out.root) {p : Path}
    {s s' : FileTree} {r r' : Except SystemError Unit}
    (hp : out.Member Undivided p) (hs : Stands dir out.root s)
    (hs' : Stands dir out.root s')
    (hown : s.at? (spot dir p) = s'.at? (spot dir p))
    (habove : p ∈ out.architecturePaths →
      s.at? (spot dir out.architectureRoot)
        = s'.at? (spot dir out.architectureRoot))
    (h : (disk.removeFile p).run s = (r, t))
    (h' : (disk.removeFile p).run s' = (r', t')) :
    r = r' ∧ t.at? (spot dir p) = t'.at? (spot dir p) := by
  have hlocate := locate_same hroot hp hs hs' hown habove false false
  obtain ⟨hr, hout⟩ := removeFile_run hs.tidy h
  obtain ⟨hr', hout'⟩ := removeFile_run hs'.tidy h'
  obtain rfl : r = r' := by rw [hr, hr', hlocate]
  refine ⟨rfl, at?_eq_of_outcomes none hown (hout.imp_left ?_)
    (hout'.imp_left ?_)⟩
  · rintro ⟨hok, hne, rfl⟩
    exact ⟨hok, at?_erase_self hne⟩
  · rintro ⟨hok, hne, rfl⟩
    exact ⟨hok, at?_erase_self hne⟩

/-- Creating the directory of the architecture in two trees that are alike there
comes to the same. -/
theorem createDirectories_same (hroot : ".." ∉ steps out.root) {s s' : FileTree}
    {r r' : Except SystemError Unit} (hs : Stands dir out.root s)
    (hs' : Stands dir out.root s')
    (hlook : s.at? (spot dir out.architectureRoot)
      = s'.at? (spot dir out.architectureRoot))
    (h : (disk.createDirectories out.architectureRoot).run s = (r, t))
    (h' : (disk.createDirectories out.architectureRoot).run s' = (r', t')) :
    r = r'
      ∧ t.at? (spot dir out.architectureRoot)
        = t'.at? (spot dir out.architectureRoot) := by
  have hlocate := locate_architectureRoot_same hroot hs hs' hlook
  obtain ⟨hr, hout⟩ := create_run hroot hs h
  obtain ⟨hr', hout'⟩ := create_run hroot hs' h'
  obtain rfl : r = r' := by rw [hr, hr', hlocate]
  refine ⟨rfl, ?_⟩
  cases r with
  | ok u => exact hout.at?_root.trans hout'.at?_root.symm
  | error e =>
      cases hout
      cases hout'
      exact hlook

/-- Where the output directory stands, a file tree is a local disk. -/
theorem disk_local (hroot : ".." ∉ steps out.root)
    (hready : Lasting dir out ready)
    (hstands : ∀ t, ready t → t.at? (spot dir out.root) = some .directory) :
    disk.Local (sight dir ready) out Undivided :=
  have stands {s : FileTree} (hs : (view dir ready).tidy s) :
      Stands dir out.root s :=
    ⟨hs.1, hstands _ hs.2⟩
  { toLawful := disk_lawful hroot hready
    known_flat := Undivided.of_flat
    apart := fun hstem hjoint hother hne p hp q hq =>
      spot_apart hstem hjoint hother hne hp hq
    read_only := fun hs h => by
      obtain ⟨-, rfl⟩ := Prod.mk.inj h
      exact .refl _
    read_same := fun hp hs hs' hat h h' => by
      obtain ⟨rfl, rfl⟩ := Prod.mk.inj h
      obtain ⟨rfl, rfl⟩ := Prod.mk.inj h'
      have hlocate :=
        locate_same hroot hp (stands hs) (stands hs') hat.own
          hat.above true true
      rw [readText, readText, readBytes, readBytes, lookup, lookup, hlocate]
    remove_only := fun hs h => by
      rcases (removeFile_run hs.1 h).2 with ⟨-, hne, rfl⟩ | ⟨-, rfl⟩
      · exact sameOff_erase hne
      · exact .refl _
    remove_same := fun hp hs hs' hat h h' =>
      removeFile_same hroot hp (stands hs) (stands hs') hat.own hat.above h h'
    write_only := fun hs h => writeBytes_only hs.1 h
    write_same := fun hp hs hs' hat h h' => by
      obtain ⟨hr, hlook⟩ :=
        writeBytes_same hroot hp (stands hs) (stands hs') hat.own hat.above h h'
      exact ⟨hr, fun htext => hlook (congrArg String.toUTF8 htext)⟩
    create_only := fun hs h => by
      cases (create_run hroot (stands hs) h).2 with
      | there => exact .refl _
      | created => exact sameOff_put spot_architectureRoot_ne_nil
      | refused => exact .refl _
    create_same := fun hs hs' hlook h h' =>
      createDirectories_same hroot (stands hs) (stands hs') hlook h h' }

/-- A refused write leaves a tree as it was. -/
theorem disk_writesWhole : disk.WritesWhole (sight dir ready) := by
  intro p text s e t hs h
  rcases (writeBytes_run hs.1 h).2 with ⟨hok, -⟩ | ⟨-, rfl⟩
  · cases hok
  · rfl

/-! ## Doing it again -/

section Steady

variable {p q : Path}

theorem blocked_iff_stuck (hroot : ".." ∉ steps out.root)
    (hp : out.Member Undivided p) (h : Stands dir out.root t) :
    disk.Blocked p t ↔ Stuck dir out p t := by
  have hrun : (disk.removeFile p).run t
      = (((disk.removeFile p).run t).1, ((disk.removeFile p).run t).2) := rfl
  rcases removeFile_outcome hroot hp h hrun with
    ⟨hstuck, ⟨e, he, hkind⟩, -⟩ | ⟨hfree, ⟨hok, -⟩ | ⟨hnone, -⟩⟩
  · exact iff_of_true ⟨e, he, hkind⟩ hstuck
  · refine iff_of_false ?_ hfree
    rintro ⟨e, he, -⟩
    exact nomatch hok.symm.trans he
  · refine iff_of_false ?_ hfree
    rintro ⟨e, he, hkind⟩
    obtain rfl := Except.error.inj (hnone.symm.trans he)
    exact hkind rfl

theorem fileName_ne_manifestName {front ext : String}
    (hext : ext ∈ extensions) :
    fileName front ext ≠ manifestName := by
  intro heq
  have hsplit : (front ++ ".").toList ++ ext.toList
      = ".cfgflow-artifacts.j".toList ++ "son".toList := by
    rw [← String.toList_append]
    exact congrArg String.toList heq
  have hlast := (List.append_inj' hsplit (length_of_mem_extensions ext hext)).2
  rw [String.toList_inj.1 hlast] at hext
  exact absurd hext (by decide)

theorem spot_ne_architectureRoot (hp : out.Member Undivided p) :
    spot dir p ≠ spot dir out.architectureRoot := by
  intro heq
  rcases member_cases hp with ⟨n, hn, hne, rfl⟩ | ⟨harch, -⟩
  · exact hne
      (spot_named_injective plain_architectureDirectory hn heq.symm).symm
  · have hlength := congrArg List.length heq
    rw [length_spot_architecture harch, spot_architectureRoot,
      List.length_append] at hlength
    simp only [List.length_singleton] at hlength
    omega

theorem eq_of_spot_eq (hp : out.Member Undivided p)
    (hq : out.Member Undivided q) (heq : spot dir p = spot dir q) : p = q := by
  have hlength := congrArg List.length heq
  rcases member_cases hp with ⟨n, hn, -, rfl⟩ | ⟨harch, n, hn, -, rfl⟩
  · have hone : (spot dir (out.root.join n)).length ≤ _ := length_spot_join hn
    rcases member_cases hq with ⟨m, hm, -, rfl⟩ | ⟨harch, -⟩
    · rcases hn with rfl | hn
      · rcases hm with rfl | hm
        · rfl
        · rw [spot_named_injective hm (.inl rfl) heq.symm]
      · rw [spot_named_injective hn hm heq]
    · rw [length_spot_architecture harch] at hlength
      omega
  · rcases member_cases hq with ⟨m, hm, -, rfl⟩ | ⟨-, m, hm, -, rfl⟩
    · have hone : (spot dir (out.root.join m)).length ≤ _ := length_spot_join hm
      rw [length_spot_architecture harch] at hlength
      omega
    · rw [spot_named_injective hn (.inr hm) heq]

theorem not_mem_ownPaths {stem : String} (hstem : Undivided stem)
    (hp : p ∈ artifactPaths (out.markupFile stem)) : p ∉ out.ownPaths := by
  have hname : ∃ n, Named n ∧ n ≠ manifestName ∧ p = out.root.join n := by
    rcases exists_fileName_of_unslashed hstem hp with
      rfl | ⟨front, ext, hext, rfl, hfront⟩
    · exact ⟨"..", .inl rfl, by decide, rfl⟩
    · exact ⟨_,
        .inr (plain_fileName_of_unslashed (unslashed_front hstem hfront) hext),
        fileName_ne_manifestName hext, rfl⟩
  obtain ⟨n, hn, hne, rfl⟩ := hname
  rw [OutputDirectory.ownPaths, List.mem_cons, not_or]
  refine ⟨fun heq => hne ?_, join_not_mem_architecturePaths hn⟩
  have hspot :
      spot [] (out.root.join manifestName) = spot [] (out.root.join n) :=
    congrArg (spot []) heq.symm
  exact (spot_named_injective (by constructor <;> decide) hn hspot).symm

/-- A text that was written is read. -/
theorem readText_of_file (hroot : ".." ∉ steps out.root)
    (hp : out.Member Undivided p) (h : Stands dir out.root t)
    (hfree : ¬ Stuck dir out p t) {text : String} {executable : Bool}
    (hfile : t.at? (spot dir p) = some (.file text.toUTF8 executable)) :
    t.readText p = .ok text := by
  have hmeets := locate_member hroot hp h true
  rw [readText, readBytes, lookup]
  generalize t.locate true p = found at hmeets
  cases hmeets with
  | refused hstuck hkind => exact absurd hstuck hfree
  | directory hstuck => exact absurd hstuck hfree
  | missing _ hnone _ _ => cases hnone.symm.trans hfile
  | vacant _ _ hnone _ => cases hnone.symm.trans hfile
  | file _ hthere _ =>
      obtain ⟨rfl, -⟩ :=
        Entry.file.inj (Option.some.inj (hthere.symm.trans hfile))
      dsimp only [bind, Except.bind, pure, Except.pure]
      rw [fromUTF8?_toUTF8]

/-- After a write nothing is in the way. -/
theorem not_stuck_put (hp : out.Member Undivided p)
    (hfree : ¬ Stuck dir out p t) (hne : spot dir p ≠ []) {content : ByteArray}
    {executable : Bool} :
    ¬ Stuck dir out p (t.put (spot dir p) (.file content executable)) := by
  rintro (hbarred | hdir | ⟨harch, hfile⟩)
  · exact hfree (.inl hbarred)
  · rw [at?_put_self hne] at hdir
    exact file_ne_directory hdir
  · rw [at?_put_of_ne hne (spot_ne_architectureRoot hp)] at hfile
    exact hfree (.inr (.inr ⟨harch, hfile⟩))

/-- Without their directory there are no files of the architecture. -/
theorem at?_architecture_none (h : t.Tidy dir) (hp : p ∈ out.architecturePaths)
    (hnone : t.at? (spot dir out.architectureRoot) = none) :
    t.at? (spot dir p) = none := by
  rcases member_cases (.inl (List.mem_cons_of_mem _ hp)) with
    ⟨n, hn, -, rfl⟩ | ⟨-, n, hn, -, rfl⟩
  · exact absurd hp (join_not_mem_architecturePaths hn)
  · rw [(Single.of_plain hn).spot_join]
    exact h.at?_below hnone fun hmem =>
      hn.ne_above (List.mem_singleton.1 hmem).symm

/-- What stood in the way of a file does not come back when the file goes. -/
theorem not_stuck_of_none (hfree : ¬ Stuck dir out p t)
    (habove : p ∈ out.architecturePaths →
      t.at? (spot dir out.architectureRoot)
        = t'.at? (spot dir out.architectureRoot))
    (hnone : t'.at? (spot dir p) = none) : ¬ Stuck dir out p t' := by
  rintro (hbarred | hdir | ⟨harch, content, executable, hfile⟩)
  · exact hfree (.inl hbarred)
  · exact nomatch hnone.symm.trans hdir
  · exact hfree
      (.inr (.inr ⟨harch, content, executable, (habove harch).trans hfile⟩))

theorem removeFile_gone (hroot : ".." ∉ steps out.root)
    (hp : out.Member Undivided p) (h : Stands dir out.root t)
    (hfree : ¬ Stuck dir out p t) {r : Except SystemError Unit}
    (hrun : (disk.removeFile p).run t = (r, t')) :
    t'.at? (spot dir p) = none := by
  rcases removeFile_outcome hroot hp h hrun with
    ⟨hstuck, -⟩ | ⟨-, ⟨-, hne, rfl⟩ | ⟨-, hnone, rfl⟩⟩
  · exact absurd hstuck hfree
  · exact at?_erase_self hne
  · exact hnone

/-! A text that was written is there, with nothing in its way, and can be
written over. -/

theorem writeText_free (hroot : ".." ∉ steps out.root)
    (hp : out.Member Undivided p) (h : Stands dir out.root t)
    (hfree : ¬ Stuck dir out p t) (habove : p ∈ out.architecturePaths →
      t.at? (spot dir out.architectureRoot) = some .directory)
    {text : String} {r : Except SystemError Unit}
    (hrun : (disk.writeText p text).run t = (r, t')) :
    r = .ok ()
      ∧ t'.at? (spot dir p)
        = some (.file text.toUTF8 (permission (t.at? (spot dir p)))) := by
  rcases writeBytes_outcome hroot hp h hrun with
    ⟨hstuck, -⟩ | ⟨-, -, rfl, hne, rfl⟩
  · rcases hstuck with hstuck | ⟨harch, hnone⟩
    · exact absurd hstuck hfree
    · exact nomatch hnone.symm.trans (habove harch)
  · exact ⟨rfl, at?_put_self hne⟩

section Written

variable {text : String} (hroot : ".." ∉ steps out.root)
  (hp : out.Member Undivided p) (h : Stands dir out.root t)
  (hrun : (disk.writeText p text).run t = (.ok (), t'))

include hroot hp h hrun

/-- What a write finds in its way it finds there again. -/
theorem free_of_written : (¬ Stuck dir out p t ∧ ¬ Stuck dir out p t')
    ∧ (p ∈ out.architecturePaths → t.at? (spot dir out.architectureRoot)
        = some .directory
      ∧ t'.at? (spot dir out.architectureRoot) = some .directory) := by
  rcases writeBytes_outcome hroot hp h hrun with
    ⟨-, ⟨e, he⟩, -⟩ | ⟨hfree, habove, -, hne, rfl⟩
  · exact nomatch he
  · refine ⟨⟨hfree, not_stuck_put hp hfree hne⟩,
      fun harch => ⟨habove harch, ?_⟩⟩
    rw [at?_put_of_ne hne (spot_ne_architectureRoot hp)]
    exact habove harch

/-- Another text is written over the first one as in its place: the permission
of the file stays. -/
theorem writeText_over (h' : Stands dir out.root t') {text' : String}
    {r r' : Except SystemError Unit} {u w : FileTree}
    (hfirst : (disk.writeText p text').run t = (r, u))
    (hover : (disk.writeText p text').run t' = (r', w)) :
    r = r' ∧ u.at? (spot dir p) = w.at? (spot dir p) := by
  obtain ⟨⟨hfree, hfree'⟩, habove⟩ := free_of_written hroot hp h hrun
  obtain ⟨-, hthere⟩ :=
    writeText_free hroot hp h hfree (fun harch => (habove harch).1) hrun
  obtain ⟨rfl, hu⟩ :=
    writeText_free hroot hp h hfree (fun harch => (habove harch).1) hfirst
  obtain ⟨rfl, hw⟩ :=
    writeText_free hroot hp h' hfree' (fun harch => (habove harch).2) hover
  refine ⟨rfl, ?_⟩
  rw [hu, hw, hthere]
  rfl

theorem readText_written (h' : Stands dir out.root t') :
    t'.readText p = .ok text := by
  obtain ⟨⟨hfree, hfree'⟩, habove⟩ := free_of_written hroot hp h hrun
  exact readText_of_file hroot hp h' hfree'
    (writeText_free hroot hp h hfree (fun harch => (habove harch).1) hrun).2

end Written

/-! A directory that was created is there, and creating it changes nothing any
more. -/

section Created

variable (hroot : ".." ∉ steps out.root) (h : Stands dir out.root t)
  (hrun : (disk.createDirectories out.architectureRoot).run t = (.ok (), t'))

include hroot h hrun

theorem createDirectories_again (h' : Stands dir out.root t')
    {r : Except SystemError Unit} {u : FileTree}
    (hagain : (disk.createDirectories out.architectureRoot).run t' = (r, u)) :
    r = .ok ()
      ∧ u.at? (spot dir out.architectureRoot)
        = t'.at? (spot dir out.architectureRoot) := by
  have hfirst := (create_run hroot h hrun).2
  have hthere := hfirst.at?_root
  have hopen : ¬ Barred out.architectureRoot := by
    cases hfirst <;> assumption
  cases (create_run hroot h' hagain).2 with
  | there => exact ⟨rfl, rfl⟩
  | created _ hnone => exact nomatch hnone.symm.trans hthere
  | refused hrefused =>
      rcases hrefused with hbarred | ⟨content, executable, hfile⟩
      · exact absurd hbarred hopen
      · exact nomatch hfile.symm.trans hthere

/-- A new directory is empty, so nothing is in the way of the files of the
architecture that was not in their way before. -/
theorem stuck_createDirectories_iff (harch : p ∈ out.architecturePaths) :
    Stuck dir out p t ↔ Stuck dir out p t' := by
  have hp : out.Member Undivided p := .inl (List.mem_cons_of_mem _ harch)
  cases (create_run hroot h hrun).2 with
  | there => exact Iff.rfl
  | created _ hnone =>
      have hbelow := at?_architecture_none h.tidy harch hnone
      have hsame : (t.put (spot dir out.architectureRoot) .directory).at?
          (spot dir p) = none :=
        (at?_put_of_ne spot_architectureRoot_ne_nil
          (spot_ne_architectureRoot hp).symm).trans
          hbelow
      have hroots := at?_put_self (t := t) (e := .directory)
        (@spot_architectureRoot_ne_nil dir out)
      simp [Stuck, hbelow, hsame, hroots, hnone]

end Created

/-- What is in the way of a path lets nothing be written there. -/
theorem obstacle_of_stuck_iff (hroot : ".." ∉ steps out.root)
    (hp : out.Member Undivided p) (h : Stands dir out.root t)
    (h' : Stands dir out.root t')
    (hstuck : Stuck dir out p t ↔ Stuck dir out p t') :
    disk.SameObstacle (sight dir ready) p t t' where
  blocked := by
    rw [blocked_iff_stuck hroot hp h, blocked_iff_stuck hroot hp h', hstuck]
  write hblocked hrun hrun' := by
    rw [blocked_iff_stuck hroot hp h] at hblocked
    rcases writeBytes_outcome hroot hp h hrun with ⟨-, ⟨e, rfl⟩, -⟩ | ⟨hfree, -⟩
    · rcases writeBytes_outcome hroot hp h' hrun' with
        ⟨-, ⟨e', rfl⟩, -⟩ | ⟨hfree', -⟩
      · exact ⟨iff_of_false nofun nofun, nofun⟩
      · exact absurd (hstuck.1 hblocked) hfree'
    · exact absurd hblocked hfree

/-- Where the output directory stands, a file tree is a steady disk. -/
theorem disk_steady (hroot : ".." ∉ steps out.root)
    (hready : Lasting dir out ready)
    (hstands : ∀ t, ready t → t.at? (spot dir out.root) = some .directory) :
    disk.Steady (sight dir ready) out Undivided :=
  have hlocal := disk_local hroot hready hstands
  have stands {s : FileTree} (hs : (view dir ready).tidy s) :
      Stands dir out.root s :=
    ⟨hs.1, hstands _ hs.2⟩
  { toLocal := hlocal
    place_member := eq_of_spot_eq
    place_ne_root := spot_ne_architectureRoot
    own_apart := fun hstem p hp => not_mem_ownPaths hstem hp
    remove_gone := fun hp hs hfree h =>
      removeFile_gone hroot hp (stands hs)
        (mt (blocked_iff_stuck hroot hp (stands hs)).2 hfree) h
    remove_refused := fun hs h => by
      rcases (removeFile_run hs.1 h).2 with ⟨hok, -⟩ | ⟨-, rfl⟩
      · exact nomatch hok
      · rfl
    free_of_none := fun hp hs ht hfree habove hnone =>
      mt (blocked_iff_stuck hroot hp (stands ht)).1
        (not_stuck_of_none (mt (blocked_iff_stuck hroot hp (stands hs)).2 hfree)
          habove hnone)
    write_whole := disk_writesWhole
    write_leaves_blocked := fun hp hs h => by
      obtain ⟨⟨hfree, hfree'⟩, -⟩ := free_of_written hroot hp (stands hs) h
      have ht := stands (hlocal.write_spares hs h).tidy
      exact iff_of_false (mt (blocked_iff_stuck hroot hp (stands hs)).1 hfree)
        (mt (blocked_iff_stuck hroot hp ht).1 hfree')
    write_over := fun hp hs h hfirst hover =>
      writeText_over hroot hp (stands hs) h
        (stands (hlocal.write_spares hs h).tidy) hfirst hover
    read_saved := fun hs h _ h' => by
      obtain ⟨rfl, -⟩ := Prod.mk.inj h'
      exact .inl (readText_written hroot (.inl List.mem_cons_self) (stands hs) h
        (stands (hlocal.write_spares hs h).tidy))
    create_refused := fun hs h => by
      cases (create_run hroot (stands hs) h).2
      rfl
    create_again := fun hs h h' =>
      createDirectories_again hroot (stands hs) h
        (stands (hlocal.create_spares hs h).tidy) h'
    create_obstacle := fun harch hs h =>
      obstacle_of_stuck_iff hroot (.inl (List.mem_cons_of_mem _ harch))
        (stands hs) (stands (hlocal.create_spares hs h).tidy)
        (stuck_createDirectories_iff hroot (stands hs) h harch) }

end Steady

/-! All that it takes is an output directory that stands: any other file or
directory may be there or not. -/

/-- A tree in which the output directory stands. -/
def Hosts (dir : Location) (out : OutputDirectory) (t : FileTree) : Prop :=
  t.at? (spot dir out.root) = some .directory

theorem lasting_hosts : Lasting dir out (Hosts dir out) where
  keep hsame h := (hsame _).2 h
  create hcreate h := hcreate.kept _ h

/-! ## A renderer that goes by paths -/

/-- Reads the markup, and writes what it makes of it. -/
def copier (paint : ByteArray → ByteArray) : Renderer (StateM FileTree) :=
  fun input output t =>
    match t.readBytes input with
    | .error e => (.error (.ofSystem e), t)
    | .ok content =>
      match (change fun t => t.writeBytes output (paint content)) t with
      | (written, t) => (written.mapError .ofSystem, t)

variable {paint : ByteArray → ByteArray} {input output : Path}

theorem copier_run {r : Except Fault Unit}
    (h : (copier paint input output).run t = (r, t')) :
    (∃ e, t.readBytes input = .error e ∧ r = .error (.ofSystem e) ∧ t' = t)
      ∨ ∃ content written, t.readBytes input = .ok content
        ∧ (change fun t => t.writeBytes output (paint content)).run t
          = (written, t')
        ∧ r = written.mapError .ofSystem := by
  change copier paint input output t = (r, t') at h
  unfold copier at h
  cases hread : t.readBytes input with
  | error e =>
      rw [hread] at h
      obtain ⟨rfl, rfl⟩ := Prod.mk.inj h
      exact .inl ⟨e, rfl, rfl, rfl⟩
  | ok content =>
      rw [hread] at h
      obtain ⟨rfl, rfl⟩ := Prod.mk.inj h
      exact .inr ⟨content, _, rfl, rfl, rfl⟩

theorem copier_local (hroot : ".." ∉ steps out.root)
    (hready : Lasting dir out ready)
    (hstands : ∀ t, ready t → t.at? (spot dir out.root) = some .directory) :
    (copier paint).Local (sight dir ready) out Undivided where
  confined input output s r t hs h := by
    rcases copier_run h with ⟨e, -, -, rfl⟩ | ⟨content, written, -, hwrite, -⟩
    · exact .refl hs
    · rcases change_run hwrite with ⟨-, hok⟩ | ⟨e, -, rfl, -⟩
      · exact (writeBytes_ok hs.1 hok).1.spares hready hs.2
      · exact .refl hs
  only hs h := by
    rcases copier_run h with ⟨e, -, -, rfl⟩ | ⟨content, written, -, hwrite, -⟩
    · exact .refl _
    · exact writeBytes_only hs.1 hwrite
  same {input output s r t s' r' t'} hinput houtput hs hs' hat hat' h h' := by
    have hread : s.readBytes input = s'.readBytes input := by
      rw [readBytes, readBytes, lookup, lookup,
        locate_same hroot hinput ⟨hs.1, hstands _ hs.2⟩
        ⟨hs'.1, hstands _ hs'.2⟩ hat.own hat.above true true]
    rcases copier_run h with
      ⟨e, he, rfl, rfl⟩ | ⟨content, written, hcontent, hwrite, rfl⟩
    · rcases copier_run h' with
        ⟨e', he', rfl, rfl⟩ | ⟨content', written', hcontent', -, -⟩
      · obtain rfl := Except.error.inj ((he.symm.trans hread).trans he')
        exact ⟨rfl, hat'.own⟩
      · cases (he.symm.trans hread).trans hcontent'
    · rcases copier_run h' with
        ⟨e', he', -, -⟩ | ⟨content', written', hcontent', hwrite', rfl⟩
      · cases (hcontent.symm.trans hread).trans he'
      · obtain rfl :=
          Except.ok.inj ((hcontent.symm.trans hread).trans hcontent')
        obtain ⟨rfl, hlook⟩ :=
          writeBytes_same hroot houtput ⟨hs.1, hstands _ hs.2⟩
            ⟨hs'.1, hstands _ hs'.2⟩ hat'.own hat'.above hwrite hwrite'
        exact ⟨rfl, hlook rfl⟩

/-- What is in the way of a raster lets none be made. -/
theorem copier_refused (hroot : ".." ∉ steps out.root)
    (hp : out.Member Undivided output) (hs : Stands dir out.root t)
    (hstuck : Stuck dir out output t) {r : Except Fault Unit}
    (h : (copier paint input output).run t = (r, t')) :
    (∃ e, r = .error e) ∧ t' = t := by
  rcases copier_run h with ⟨e, -, rfl, rfl⟩ | ⟨content, written, -, hwrite, rfl⟩
  · exact ⟨⟨_, rfl⟩, rfl⟩
  · rcases writeBytes_outcome hroot hp hs hwrite with
      ⟨-, ⟨e, rfl⟩, rfl⟩ | ⟨hfree, -⟩
    · exact ⟨⟨_, rfl⟩, rfl⟩
    · exact absurd hstuck hfree

theorem copier_steady (hroot : ".." ∉ steps out.root)
    (hready : Lasting dir out ready)
    (hstands : ∀ t, ready t → t.at? (spot dir out.root) = some .directory) :
    (copier paint).Steady disk (sight dir ready) out Undivided :=
  have stands {s : FileTree} (hs : (view dir ready).tidy s) :
      Stands dir out.root s :=
    ⟨hs.1, hstands _ hs.2⟩
  { toLocal := copier_local hroot hready hstands
    obstacle := fun {input output s r t} hp hs h => by
      have ht := stands ((copier_local hroot hready hstands).confined hs h).tidy
      refine obstacle_of_stuck_iff hroot hp (stands hs) ht ?_
      rcases copier_run h with ⟨e, -, -, rfl⟩ | ⟨content, written, -, hwrite, -⟩
      · exact Iff.rfl
      · rcases writeBytes_outcome hroot hp (stands hs) hwrite with
          ⟨-, -, rfl⟩ | ⟨hfree, -, -, hne, rfl⟩
        · exact Iff.rfl
        · exact iff_of_false hfree (not_stuck_put hp hfree hne)
    blocked :=
      fun {input output s r t s' r' t'} _ hp hs hs' _ hblocked
        hobstacle h h' => by
        have hblocked' := hobstacle.blocked.1 hblocked
        rw [blocked_iff_stuck hroot hp (stands hs)] at hblocked
        rw [blocked_iff_stuck hroot hp (stands hs')] at hblocked'
        obtain ⟨⟨e, rfl⟩, rfl⟩ := copier_refused hroot hp (stands hs) hblocked h
        obtain ⟨⟨e', rfl⟩, rfl⟩ :=
          copier_refused hroot hp (stands hs') hblocked' h'
        exact ⟨iff_of_false nofun nofun, .inr ⟨rfl, rfl⟩⟩ }

end FlowAtlas.FileTree
