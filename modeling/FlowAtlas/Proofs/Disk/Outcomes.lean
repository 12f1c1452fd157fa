import FlowAtlas.Proofs.Disk.Local
import FlowAtlas.Proofs.Disk.Standing

/-!
# What operations on a file tree come to

Where the output directory stands, an operation on one of the files of a run is
settled by what stands at its path, and for a file of the architecture also by
what stands in place of its directory. Either something is in the way
(`Stuck`), and then files are neither written nor deleted, or nothing is.

The paths of stems with separators are left out: they may lead through a file,
and then they depend on it.
-/

namespace FlowAtlas.FileTree

open FlowAtlas.Path (Plain)
open OutputDirectory

variable {dir : Location} {t t' : FileTree} {root : Path}
  {out : OutputDirectory}

/-! ## The paths of a run -/

/-- A stem whose files stand in the output directory itself, or lead to the
place above. -/
def Undivided (stem : String) : Prop := '/' ∉ stem.toList

/-- The name of a path in the output directory itself: plain, or that of the
place above. -/
def Named (n : String) : Prop := n = ".." ∨ Plain n

theorem Named.single {n : String} (h : Named n) : Single n := by
  rcases h with rfl | h
  · constructor <;> decide
  · exact .of_plain h

/-- A path of a run leads into the output directory itself, or into that of the
architecture. -/
theorem member_cases {p : Path} (hp : out.Member Undivided p) :
    (∃ n, Named n ∧ n ≠ architectureDirectory ∧ p = out.root.join n)
      ∨ p ∈ out.architecturePaths
        ∧ ∃ n, Plain n ∧ ¬ Overlong n ∧ p = out.architectureRoot.join n := by
  rcases hp with hp | ⟨stem, hstem, hp⟩
  · rcases List.mem_cons.1 hp with rfl | hp
    · exact .inl
        ⟨manifestName, .inr (by constructor <;> decide), by decide, rfl⟩
    · refine .inr ⟨hp, ?_⟩
      rcases List.mem_cons.1 hp with rfl | hp
      · refine ⟨architectureStem ++ ".md", by constructor <;> decide,
          fun hlong => ?_, rfl⟩
        exact absurd hlong.2.2 (by decide)
      · obtain ⟨ext, hext, rfl⟩ := mem_artifactPaths_architecture.1 hp
        refine ⟨_, plain_fileName flat_architectureStem hext,
          fun hlong => ?_, rfl⟩
        have hshort : ∀ e ∈ extensions, ¬ nameMax
            < (fileName architectureStem e).utf8ByteSize := by
          decide
        exact hshort ext hext hlong.2.2
  · rcases exists_fileName_of_unslashed hstem hp with
      rfl | ⟨front, ext, hext, rfl, hfront⟩
    · exact .inl ⟨"..", .inl rfl, by decide, rfl⟩
    · refine .inl
        ⟨_, .inr
          (plain_fileName_of_unslashed (unslashed_front hstem hfront) hext),
          fun heq => ?_, rfl⟩
      have hperiod : '.' ∈ (fileName front ext).toList := by simp [fileName]
      rw [heq] at hperiod
      exact absurd hperiod (by decide)

theorem length_spot_architecture {p : Path} (hp : p ∈ out.architecturePaths) :
    (spot dir p).length = (spot dir out.root).length + 2 := by
  obtain ⟨n, hn⟩ := exists_leadTo_of_mem_architecturePaths hp
  obtain ⟨hplain, rfl⟩ := hn
  rw [spot_pathTo out.root fun m hm =>
    ⟨(hplain m hm).ne_empty, (hplain m hm).unslashed⟩,
    foldl_advance_plain hplain, List.length_append]
  rfl

theorem length_spot_join {n : String} (hn : Named n) :
    (spot dir (out.root.join n)).length ≤ (spot dir out.root).length + 1 := by
  rw [hn.single.spot_join]
  rcases hn with rfl | hn
  · show ((spot dir out.root).dropLast).length ≤ _
    rw [List.length_dropLast]
    omega
  · rw [advance_plain hn, List.length_append]
    exact Nat.le_refl _

theorem join_not_mem_architecturePaths {n : String} (hn : Named n) :
    out.root.join n ∉ out.architecturePaths := by
  intro hmem
  have htwo : (spot [] (out.root.join n)).length = _ :=
    length_spot_architecture hmem
  have hone : (spot [] (out.root.join n)).length ≤ _ := length_spot_join hn
  omega

/-- In two trees in which the same stands at what a path may depend on, it leads
to the same. -/
theorem locate_same (hroot : ".." ∉ steps out.root) {p : Path}
    (hp : out.Member Undivided p) (h : Stands dir out.root t)
    (h' : Stands dir out.root t')
    (hown : t.at? (spot dir p) = t'.at? (spot dir p))
    (habove : p ∈ out.architecturePaths →
      t.at? (spot dir out.architectureRoot)
        = t'.at? (spot dir out.architectureRoot))
    (follow follow' : Bool) : t.locate follow p = t'.locate follow' p := by
  rcases member_cases hp with ⟨n, hn, -, rfl⟩ | ⟨harch, n, hn, -, rfl⟩
  · refine locate_below h.tidy h'.tidy (mt above_mem_stations.1 hroot) h.here
      h'.here (start_join _ hn.single.relative) (hn.single.steps_join _)
      fun front hne hfront => ?_
    obtain rfl : front = [n] := by
      rcases List.prefix_cons_iff.1 hfront with rfl | ⟨rest, rfl, hrest⟩
      · exact absurd rfl hne
      · rw [List.prefix_nil.1 hrest]
    rw [List.foldl_cons, List.foldl_nil, ← hn.single.spot_join]
    exact hown
  · have hsingle := Single.of_plain hn
    have hplain : ∀ m ∈ [architectureDirectory, n], Plain m :=
      List.forall_mem_cons.2 ⟨by constructor <;> decide,
        List.forall_mem_singleton.2 hn⟩
    refine locate_below h.tidy h'.tidy (mt above_mem_stations.1 hroot) h.here
      h'.here hsingle.start_architecture hsingle.steps_architecture
      fun front hne hfront => ?_
    rw [hsingle.spot_join, advance_plain hn, spot_architectureRoot,
      List.append_assoc] at hown
    have habove := habove harch
    rw [spot_architectureRoot] at habove
    rcases List.prefix_cons_iff.1 hfront with rfl | ⟨rest, rfl, hrest⟩
    · exact absurd rfl hne
    · rcases List.prefix_cons_iff.1 hrest with rfl | ⟨rest', rfl, hrest'⟩
      · exact habove
      · rw [List.prefix_nil.1 hrest', foldl_advance_plain hplain]
        exact hown

/-- What is in the way of a file: the path itself, a directory, or a file in
place of the directory that it is to stand in. -/
def Stuck (dir : Location) (out : OutputDirectory) (p : Path) (t : FileTree) :
    Prop :=
  Barred p ∨ t.at? (spot dir p) = some .directory
    ∨ p ∈ out.architecturePaths ∧ ∃ content executable,
      t.at? (spot dir out.architectureRoot) = some (.file content executable)

/-- Where a walk along a path of a run ends. -/
inductive Meets (dir : Location) (out : OutputDirectory) (p : Path)
    (t : FileTree) :
    Except SystemError Stop → Prop
  | refused {e : SystemError} : Stuck dir out p t → e.kindOf ≠ .notFound →
      Meets dir out p t (.error e)
  | directory {l : Location} :
      Stuck dir out p t → Meets dir out p t (.ok (.found l .directory))
  /-- The directory of the architecture is missing. -/
  | missing : ¬ Stuck dir out p t → t.at? (spot dir p) = none →
      p ∈ out.architecturePaths →
      t.at? (spot dir out.architectureRoot) = none →
      Meets dir out p t (.error (.coded .noEntry))
  | vacant {above : Location} {name : String} : ¬ Stuck dir out p t →
      above ++ [name] = spot dir p → t.at? (spot dir p) = none →
      (p ∈ out.architecturePaths → t.at? (spot dir out.architectureRoot)
        = some .directory) →
      Meets dir out p t (.ok (.vacant above name))
  | file {content : ByteArray} {executable : Bool} : ¬ Stuck dir out p t →
      t.at? (spot dir p) = some (.file content executable) →
      (p ∈ out.architecturePaths → t.at? (spot dir out.architectureRoot)
        = some .directory) →
      Meets dir out p t (.ok (.found (spot dir p) (.file content executable)))

/-- A walk that is not refused tells what stands at the path. -/
theorem meets_of_ok (h : t.Tidy dir) {p : Path} (hopen : ¬ Barred p)
    (habove : p ∈ out.architecturePaths →
      t.at? (spot dir out.architectureRoot) = some .directory)
    {follow : Bool} {stop : Stop} (hlocate : t.locate follow p = .ok stop) :
    Meets dir out p t (t.locate follow p) := by
  have hfree : t.at? (spot dir p) ≠ some .directory → ¬ Stuck dir out p t := by
    rintro hdir (hbarred | hthere | ⟨harch, content, executable, hfile⟩)
    · exact hopen hbarred
    · exact hdir hthere
    · rw [habove harch] at hfile
      exact file_ne_directory hfile.symm
  have hreach := locate_ok h hlocate
  rw [hlocate]
  cases stop with
  | vacant above name =>
      obtain ⟨hspot, -, hnone⟩ := hreach
      exact .vacant (hfree (by rw [hnone]; exact (Option.some_ne_none _).symm))
        hspot hnone habove
  | found l entry =>
      obtain ⟨rfl, hentry⟩ := hreach
      cases entry with
      | directory => exact .directory (.inr (.inl hentry))
      | link target => exact absurd hentry (h.unlinked _ target)
      | file content executable =>
          exact .file (hfree (by rw [hentry]; exact file_ne_directory))
            hentry habove

theorem locate_member (hroot : ".." ∉ steps out.root) {p : Path}
    (hp : out.Member Undivided p) (h : Stands dir out.root t) (follow : Bool) :
    Meets dir out p t (t.locate follow p) := by
  have hfirm : ∀ {e : SystemError}, Firm e → e.kindOf ≠ .notFound :=
    fun hfirm heq =>
      hfirm (heq ▸ List.mem_cons_self)
  rcases member_cases hp with ⟨n, hn, -, rfl⟩ | ⟨harch, n, hn, hshort, rfl⟩
  · rcases h.locate_join hroot hn.single follow with
      ⟨hbarred, e, hlocate, he⟩ | ⟨hopen, stop, hstop⟩
    · rw [hlocate]
      exact .refused (.inl hbarred) (hfirm he)
    · exact meets_of_ok h.tidy hopen
        (fun hmem => absurd hmem (join_not_mem_architecturePaths hn)) hstop
  · have hsingle := Single.of_plain hn
    rcases h.locate_architecture hroot hsingle hshort follow with
      ⟨hbarred, e, hlocate, he⟩ | ⟨hopen,
        ⟨hdir, stop, hstop⟩ | ⟨hnone, hlocate⟩ | ⟨hfile, hlocate⟩⟩
    · rw [hlocate]
      exact .refused (.inl hbarred) (hfirm he)
    · exact meets_of_ok h.tidy hopen (fun _ => hdir) hstop
    · have hbelow : t.at? (spot dir (out.architectureRoot.join n)) = none := by
        rw [hsingle.spot_join]
        exact h.tidy.at?_below hnone fun hmem =>
          hn.ne_above (List.mem_singleton.1 hmem).symm
      rw [hlocate]
      refine .missing ?_ hbelow harch hnone
      rintro (hbarred | hthere | ⟨-, content, executable, hfile⟩)
      · exact hopen hbarred
      · rw [hbelow] at hthere
        exact nomatch hthere
      · rw [hnone] at hfile
        exact nomatch hfile
    · rw [hlocate]
      exact .refused (.inr (.inr ⟨harch, hfile⟩)) (by decide)

/-! ## Deleting and writing

Whatever the path is, a change is made where its names lead, and the end of the
walk settles whether it is made. -/

/-- Whether what a walk has come to can be deleted. -/
def Stop.deletable : Stop → Except SystemError Unit
  | .found _ .directory => .error (.coded .isDirectory)
  | .found _ _ => .ok ()
  | .vacant _ _ => .error (.coded .noEntry)

/-- Whether what a walk has come to can be written. -/
def Stop.writable : Stop → Except SystemError Unit
  | .found _ (.file _ _) => .ok ()
  | .found _ _ => .error (.coded .isDirectory)
  | .vacant _ _ => .ok ()

theorem run_removeFile (t : FileTree) (p : Path) :
    (disk.removeFile p).run t = match t.locate false p with
      | .error e => (.error e, t)
      | .ok (.found _ .directory) => (.error (.coded .isDirectory), t)
      | .ok (.found l _) => (.ok (), t.erase l)
      | .ok (.vacant _ _) => (.error (.coded .noEntry), t) := by
  show change (fun t => t.removeFile p) t = _
  unfold change removeFile
  dsimp only
  cases t.locate false p with
  | error e => rfl
  | ok stop =>
      cases stop with
      | vacant above name => rfl
      | found l entry => cases entry <;> rfl

theorem run_writeBytes (t : FileTree) (p : Path) (content : ByteArray) :
    (change fun t => t.writeBytes p content).run t = match t.locate true p with
      | .error e => (.error e, t)
      | .ok (.found l (.file _ executable)) =>
        (.ok (), t.put l (.file content executable))
      | .ok (.found _ _) => (.error (.coded .isDirectory), t)
      | .ok (.vacant above name) =>
        (.ok (), t.put (above ++ [name]) (.file content false)) := by
  show change (fun t => t.writeBytes p content) t = _
  unfold change writeBytes
  dsimp only
  cases t.locate true p with
  | error e => rfl
  | ok stop =>
      cases stop with
      | vacant above name => rfl
      | found l entry => cases entry <;> rfl

theorem removeFile_run (h : t.Tidy dir) {p : Path} {r : Except SystemError Unit}
    (hrun : (disk.removeFile p).run t = (r, t')) :
    r = (t.locate false p >>= Stop.deletable)
      ∧ ((r = .ok () ∧ spot dir p ≠ [] ∧ t' = t.erase (spot dir p))
        ∨ (∃ e, r = .error e) ∧ t' = t) := by
  rw [run_removeFile] at hrun
  cases hlocate : t.locate false p with
  | error e =>
      rw [hlocate] at hrun
      obtain ⟨rfl, rfl⟩ := Prod.mk.inj hrun
      exact ⟨rfl, .inr ⟨⟨e, rfl⟩, rfl⟩⟩
  | ok stop =>
      have hreach := locate_ok h hlocate
      rw [hlocate] at hrun
      cases stop with
      | vacant above name =>
          obtain ⟨rfl, rfl⟩ := Prod.mk.inj hrun
          exact ⟨rfl, .inr ⟨⟨_, rfl⟩, rfl⟩⟩
      | found l entry =>
          obtain ⟨rfl, hentry⟩ := hreach
          cases entry with
          | directory =>
              obtain ⟨rfl, rfl⟩ := Prod.mk.inj hrun
              exact ⟨rfl, .inr ⟨⟨_, rfl⟩, rfl⟩⟩
          | link target => exact absurd hentry (h.unlinked _ target)
          | file content executable =>
              obtain ⟨rfl, rfl⟩ := Prod.mk.inj hrun
              refine ⟨rfl, .inl ⟨rfl, fun hnil => ?_, rfl⟩⟩
              rw [hnil, at?_root] at hentry
              exact file_ne_directory hentry.symm

/-- The permission that a written file has: that of the file that was there. -/
def permission : Option Entry → Bool
  | some (.file _ executable) => executable
  | _ => false

theorem writeBytes_run (h : t.Tidy dir) {p : Path} {bytes : ByteArray}
    {r : Except SystemError Unit}
    (hrun : (change fun t => t.writeBytes p bytes).run t = (r, t')) :
    r = (t.locate true p >>= Stop.writable)
      ∧ ((r = .ok () ∧ spot dir p ≠ []
          ∧ t' = t.put (spot dir p)
            (.file bytes (permission (t.at? (spot dir p)))))
        ∨ (∃ e, r = .error e) ∧ t' = t) := by
  rw [run_writeBytes] at hrun
  cases hlocate : t.locate true p with
  | error e =>
      rw [hlocate] at hrun
      obtain ⟨rfl, rfl⟩ := Prod.mk.inj hrun
      exact ⟨rfl, .inr ⟨⟨e, rfl⟩, rfl⟩⟩
  | ok stop =>
      have hreach := locate_ok h hlocate
      rw [hlocate] at hrun
      cases stop with
      | vacant above name =>
          obtain ⟨rfl, rfl⟩ := Prod.mk.inj hrun
          obtain ⟨hspot, -, hnone⟩ := hreach
          refine ⟨rfl, .inl ⟨rfl, ?_, ?_⟩⟩
          · rw [← hspot]
            simp
          · rw [hnone, hspot]
            rfl
      | found l entry =>
          obtain ⟨rfl, hentry⟩ := hreach
          cases entry with
          | directory =>
              obtain ⟨rfl, rfl⟩ := Prod.mk.inj hrun
              exact ⟨rfl, .inr ⟨⟨_, rfl⟩, rfl⟩⟩
          | link target => exact absurd hentry (h.unlinked _ target)
          | file content executable =>
              obtain ⟨rfl, rfl⟩ := Prod.mk.inj hrun
              refine ⟨rfl, .inl ⟨rfl, fun hnil => ?_, by rw [hentry]; rfl⟩⟩
              rw [hnil, at?_root] at hentry
              exact file_ne_directory hentry.symm

theorem at?_put_self {l : Location} {e : Entry} (hne : l ≠ []) :
    (t.put l e).at? l = some e := by
  rw [at?_put _ _ _ _ hne, if_pos rfl]

theorem at?_put_of_ne {l k : Location} {e : Entry} (hne : l ≠ []) (hk : l ≠ k) :
    (t.put l e).at? k = t.at? k := by
  rw [at?_put _ _ _ _ hne, if_neg (Ne.symm hk)]

/-- Deleting is refused if something is in the way. -/
theorem removeFile_outcome (hroot : ".." ∉ steps out.root) {p : Path}
    (hp : out.Member Undivided p) (h : Stands dir out.root t)
    {r : Except SystemError Unit} (hrun : (disk.removeFile p).run t = (r, t')) :
    (Stuck dir out p t ∧ (∃ e, r = .error e ∧ e.kindOf ≠ .notFound) ∧ t' = t)
      ∨ ¬ Stuck dir out p t
        ∧ ((r = .ok () ∧ spot dir p ≠ [] ∧ t' = t.erase (spot dir p))
          ∨ r = .error (.coded .noEntry)
            ∧ t.at? (spot dir p) = none ∧ t' = t) := by
  have hmeets := locate_member hroot hp h false
  obtain ⟨hr, hout⟩ := removeFile_run h.tidy hrun
  generalize t.locate false p = found at hmeets hr
  cases hmeets with
  | refused hstuck hkind =>
      obtain ⟨-, rfl⟩ :=
        hout.resolve_left fun hok => nomatch hr.symm.trans hok.1
      exact .inl ⟨hstuck, ⟨_, hr, hkind⟩, rfl⟩
  | directory hstuck =>
      obtain ⟨-, rfl⟩ :=
        hout.resolve_left fun hok => nomatch hr.symm.trans hok.1
      exact .inl ⟨hstuck, ⟨_, hr, by decide⟩, rfl⟩
  | missing hfree hnone harch habove =>
      obtain ⟨-, rfl⟩ :=
        hout.resolve_left fun hok => nomatch hr.symm.trans hok.1
      exact .inr ⟨hfree, .inr ⟨hr, hnone, rfl⟩⟩
  | vacant hfree hspot hnone habove =>
      obtain ⟨-, rfl⟩ :=
        hout.resolve_left fun hok => nomatch hr.symm.trans hok.1
      exact .inr ⟨hfree, .inr ⟨hr, hnone, rfl⟩⟩
  | file hfree hfile habove =>
      exact .inr ⟨hfree, .inl (hout.resolve_right fun hno => by
        obtain ⟨⟨e, he⟩, -⟩ := hno
        exact nomatch hr.symm.trans he)⟩

/-- So is writing, and also if the directory of the architecture is missing. -/
theorem writeBytes_outcome (hroot : ".." ∉ steps out.root) {p : Path}
    (hp : out.Member Undivided p) (h : Stands dir out.root t)
    {bytes : ByteArray} {r : Except SystemError Unit}
    (hrun : (change fun t => t.writeBytes p bytes).run t = (r, t')) :
    ((Stuck dir out p t
          ∨ p ∈ out.architecturePaths
            ∧ t.at? (spot dir out.architectureRoot) = none)
        ∧ (∃ e, r = .error e) ∧ t' = t)
      ∨ ¬ Stuck dir out p t
        ∧ (p ∈ out.architecturePaths → t.at? (spot dir out.architectureRoot)
          = some .directory)
        ∧ r = .ok () ∧ spot dir p ≠ []
        ∧ t' = t.put (spot dir p)
          (.file bytes (permission (t.at? (spot dir p)))) := by
  have hmeets := locate_member hroot hp h true
  obtain ⟨hr, hout⟩ := writeBytes_run h.tidy hrun
  generalize t.locate true p = found at hmeets hr
  cases hmeets with
  | refused hstuck hkind =>
      exact .inl
        ⟨.inl hstuck, hout.resolve_left fun hok => nomatch hr.symm.trans hok.1⟩
  | directory hstuck =>
      exact .inl
        ⟨.inl hstuck, hout.resolve_left fun hok => nomatch hr.symm.trans hok.1⟩
  | missing hfree hnone harch habove =>
      exact .inl
        ⟨.inr ⟨harch, habove⟩, hout.resolve_left fun hok =>
          nomatch hr.symm.trans hok.1⟩
  | vacant hfree hspot hnone habove =>
      exact .inr ⟨hfree, habove, hout.resolve_right fun hno => by
        obtain ⟨⟨e, he⟩, -⟩ := hno
        exact nomatch hr.symm.trans he⟩
  | file hfree hfile habove =>
      exact .inr ⟨hfree, habove, hout.resolve_right fun hno => by
        obtain ⟨⟨e, he⟩, -⟩ := hno
        exact nomatch hr.symm.trans he⟩

/-! ## Creating the directory of the architecture -/

theorem exists_lineage {n : String} (hn : Plain n) (fuel : Nat) :
    ∃ rest, lineage (fuel + 1) (root.join n) = root.join n :: rest := by
  obtain ⟨lead, hlead, hjoin⟩ := Path.exists_join_eq root
  have hname := Path.lastName_eq (p := root.join n)
    (by rw [hjoin n (Single.of_plain hn).relative, String.toList_append]) hlead
    hn.unslashed hn.toList_ne_nil fun hhere =>
      hn.ne_here (String.toList_inj.1 hhere)
  obtain ⟨above, habove⟩ : ∃ above,
      Path.parent? (root.join n) = some above := by
    rw [Path.parent?, hname]
    cases hrev : n.toList.reverse with
    | nil => exact absurd (List.reverse_eq_nil_iff.1 hrev) hn.toList_ne_nil
    | cons c cs =>
        dsimp only
        split
        · exact ⟨_, rfl⟩
        · exact ⟨_, rfl⟩
  refine ⟨lineage fuel above, ?_⟩
  conv_lhs => unfold lineage
  rw [habove]

theorem plain_architectureDirectory : Plain architectureDirectory := by
  constructor <;> decide

/-- Only the directory of the architecture itself may have to be created. -/
theorem createDirectory_architectureRoot (t : FileTree)
    (out : OutputDirectory) :
    t.createDirectory out.architectureRoot
      = match t.locate false out.architectureRoot with
        | .error e => .error e
        | .ok (.found _ _) => .error (.coded .fileExists)
        | .ok (.vacant above name) =>
          .ok (t.put (above ++ [name]) .directory) := by
  rw [createDirectory, OutputDirectory.architectureRoot,
    single_architectureDirectory.dropSeparators_join]
  cases t.locate false (out.root.join architectureDirectory) with
  | error e => rfl
  | ok stop => cases stop <;> rfl

/-- Without links, whether a path leads to a directory is told by the walk that
follows none. -/
theorem Tidy.isDirectory_eq (h : t.Tidy dir) (p : Path) :
    t.isDirectory p = t.locate false p >>= fun stop => match stop with
      | .found _ entry => .ok entry.isDirectory
      | .vacant _ _ => .error (.coded .noEntry) := by
  rw [isDirectory, lookup, locate_congr h h fun _ _ => rfl]
  cases t.locate false p with
  | error e => rfl
  | ok stop => cases stop <;> rfl

theorem Stands.firm_of_locate (hroot : ".." ∉ steps out.root)
    (h : Stands dir out.root t) {e : SystemError}
    (he : t.locate false out.architectureRoot = .error e) : Firm e := by
  rcases h.locate_join hroot single_architectureDirectory false with
    ⟨-, e', he', hfirm⟩ | ⟨-, stop, hstop⟩
  · obtain rfl := Except.error.inj (he.symm.trans he')
    exact hfirm
  · cases he.symm.trans hstop

theorem createDirectories_eq (hroot : ".." ∉ steps out.root)
    (h : Stands dir out.root t) :
    t.createDirectories out.architectureRoot
      = match t.locate false out.architectureRoot with
        | .error e => (.error e, t)
        | .ok (.found _ .directory) => (.ok (), t)
        | .ok (.found _ _) => (.error (.coded .fileExists), t)
        | .ok (.vacant above name) =>
          (.ok (), t.put (above ++ [name]) .directory) := by
  obtain ⟨rest, hlineage⟩ : ∃ rest,
      lineage (out.architectureRoot.utf8ByteSize + 1)
        out.architectureRoot = out.architectureRoot :: rest :=
    exists_lineage plain_architectureDirectory _
  have hcreate := createDirectory_architectureRoot t out
  have hsees := h.tidy.isDirectory_eq out.architectureRoot
  rw [createDirectories, hlineage, missing]
  cases hlocate : t.locate false out.architectureRoot with
  | error e =>
      obtain ⟨hthere, hgone⟩ : e.kindOf ≠ .notFound
          ∧ e.kindOf ≠ .alreadyExists := by
        simpa [Firm] using h.firm_of_locate hroot hlocate
      rw [hlocate] at hcreate
      dsimp only at hcreate
      rw [hcreate]
      dsimp only
      rw [if_neg hthere, if_neg fun hexists => hgone hexists.1]
      rfl
  | ok stop =>
      rw [hlocate] at hcreate hsees
      cases stop with
      | vacant above name =>
          dsimp only at hcreate
          rw [hcreate]
          show t.createEach [out.architectureRoot] = _
          rw [createEach, hcreate]
          rfl
      | found l entry =>
          dsimp only at hcreate
          rw [hcreate]
          dsimp only
          rw [if_neg (by decide)]
          cases entry with
          | directory =>
              rw [if_pos ⟨rfl, by rw [hsees]; rfl⟩]
              rfl
          | link target =>
              rw [if_neg fun hthere => by rw [hsees] at hthere; cases hthere.2]
              rfl
          | file content executable =>
              rw [if_neg fun hthere => by rw [hsees] at hthere; cases hthere.2]
              rfl

theorem spot_architectureRoot_ne_nil : spot dir out.architectureRoot ≠ [] := by
  rw [spot_architectureRoot]
  simp

/-- Whether what a walk has come to is a directory, or can be made one. -/
def Stop.creatable : Stop → Except SystemError Unit
  | .found _ .directory => .ok ()
  | .found _ _ => .error (.coded .fileExists)
  | .vacant _ _ => .ok ()

/-- What creating the directory of the architecture comes to: it is there, or it
is created, or something is in the way. -/
inductive Creates (dir : Location) (out : OutputDirectory) (t : FileTree) :
    Except SystemError Unit → FileTree → Prop
  | there : ¬ Barred out.architectureRoot →
      t.at? (spot dir out.architectureRoot) = some .directory →
      Creates dir out t (.ok ()) t
  | created : ¬ Barred out.architectureRoot →
      t.at? (spot dir out.architectureRoot) = none →
      Creates dir out t (.ok ())
      (t.put (spot dir out.architectureRoot) .directory)
  | refused {e : SystemError} :
      (Barred out.architectureRoot ∨ ∃ content executable,
        t.at? (spot dir out.architectureRoot)
          = some (.file content executable)) →
      Creates dir out t (.error e) t

theorem Creates.at?_root {u : Unit} (h : Creates dir out t (.ok u) t') :
    t'.at? (spot dir out.architectureRoot) = some .directory := by
  cases h with
  | there _ hdir => exact hdir
  | created _ _ => exact at?_put_self spot_architectureRoot_ne_nil

theorem create_run (hroot : ".." ∉ steps out.root) (h : Stands dir out.root t)
    {r : Except SystemError Unit}
    (hrun : (disk.createDirectories out.architectureRoot).run t = (r, t')) :
    r = (t.locate false out.architectureRoot >>= Stop.creatable)
      ∧ Creates dir out t r t' := by
  rw [run_createDirectories, createDirectories_eq hroot h] at hrun
  rcases h.locate_join hroot single_architectureDirectory false with
    ⟨hbarred, e, hlocate, -⟩ | ⟨hopen, stop, hlocate⟩
  · change t.locate false out.architectureRoot = .error e at hlocate
    rw [hlocate] at hrun ⊢
    obtain ⟨rfl, rfl⟩ := Prod.mk.inj hrun
    exact ⟨rfl, .refused (.inl hbarred)⟩
  · change t.locate false out.architectureRoot = .ok stop at hlocate
    have hreach := locate_ok h.tidy hlocate
    rw [hlocate] at hrun ⊢
    cases stop with
    | vacant above name =>
        obtain ⟨rfl, rfl⟩ := Prod.mk.inj hrun
        obtain ⟨hspot, -, hnone⟩ := hreach
        rw [hspot]
        exact ⟨rfl, .created hopen hnone⟩
    | found l entry =>
        obtain ⟨rfl, hentry⟩ := hreach
        cases entry with
        | directory =>
            obtain ⟨rfl, rfl⟩ := Prod.mk.inj hrun
            exact ⟨rfl, .there hopen hentry⟩
        | link target => exact absurd hentry (h.tidy.unlinked _ target)
        | file content executable =>
            obtain ⟨rfl, rfl⟩ := Prod.mk.inj hrun
            exact ⟨rfl, .refused (.inr ⟨content, executable, hentry⟩)⟩

theorem locate_architectureRoot_same (hroot : ".." ∉ steps out.root)
    (h : Stands dir out.root t) (h' : Stands dir out.root t')
    (hlook : t.at? (spot dir out.architectureRoot)
      = t'.at? (spot dir out.architectureRoot)) :
    t.locate false out.architectureRoot
      = t'.locate false out.architectureRoot := by
  have hsingle := single_architectureDirectory
  refine locate_below h.tidy h'.tidy (mt above_mem_stations.1 hroot) h.here
    h'.here (start_join _ hsingle.relative) (hsingle.steps_join _)
    fun front hne hfront => ?_
  obtain rfl : front = [architectureDirectory] := by
    rcases List.prefix_cons_iff.1 hfront with rfl | ⟨rest, rfl, hrest⟩
    · exact absurd rfl hne
    · rw [List.prefix_nil.1 hrest]
  rw [List.foldl_cons, List.foldl_nil, ← hsingle.spot_join]
  exact hlook

end FlowAtlas.FileTree
