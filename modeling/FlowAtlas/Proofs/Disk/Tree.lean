import FlowAtlas.Disk.Memory
import FlowAtlas.Proofs.Disk.Laws
import FlowAtlas.Proofs.Disk.Walk

/-!
# A file tree is a lawful disk

Each operation on a file tree is a walk and a change at its end, and keeps the
tree in order. What it does to files is said by one comparison of the trees
before and after (`Differs`, `Matches`), and the laws follow from these.

A renderer may count on more than order, so the laws are shown for any condition
on trees that depends on their directories only (`disk_lawful`). The path of the
output directory must not step back, because then a walk may miss what is there.
-/

namespace FlowAtlas.FileTree

variable {dir : Location} {t : FileTree}

/-! ## Reading -/

section Bind

variable {α β : Type} {x : Except SystemError α} {f : α → Except SystemError β}

theorem ok_of_bind {b : β} (h : (x >>= f) = .ok b) :
    ∃ a, x = .ok a ∧ f a = .ok b := by
  cases x with
  | error e => cases h
  | ok a => exact ⟨a, rfl, h⟩

theorem error_of_bind {e : SystemError} (h : (x >>= f) = .error e) :
    x = .error e ∨ ∃ a, x = .ok a ∧ f a = .error e := by
  cases x with
  | error e' =>
      obtain rfl :=
        Except.error.inj (show Except.error e' = Except.error e from h)
      exact .inl rfl
  | ok a => exact .inr ⟨a, rfl, h⟩

end Bind

theorem lookup_ok (h : t.Tidy dir) {p : Path} {l : Location} {e : Entry}
    (hlookup : t.lookup p = .ok (l, e)) :
    l = spot dir p ∧ t.at? l = some e := by
  unfold lookup at hlookup
  obtain ⟨stop, hlocate, hstop⟩ := ok_of_bind hlookup
  have hreach := locate_ok h hlocate
  cases stop with
  | vacant above name => cases hstop
  | found l' e' =>
      obtain ⟨rfl, rfl⟩ := Prod.mk.inj (Except.ok.inj hstop)
      obtain ⟨rfl, hentry⟩ := hreach
      exact ⟨rfl, hentry⟩

theorem lookup_notFound (h : t.Tidy dir) {p : Path} {e : SystemError}
    (hlookup : t.lookup p = .error e) (hkind : e.kindOf = .notFound)
    (hp : ".." ∉ steps p) :
    t.bytesAt (spot dir p) = none := by
  unfold lookup at hlookup
  rcases error_of_bind hlookup with hlocate | ⟨stop, hlocate, hstop⟩
  · exact locate_notFound h hlocate hkind hp
  · have hreach := locate_ok h hlocate
    cases stop with
    | vacant above name => rw [bytesAt, hreach.2.2]
    | found l' e' => cases hstop

theorem readBytes_ok (h : t.Tidy dir) {p : Path} {content : ByteArray}
    (hread : t.readBytes p = .ok content) :
    t.bytesAt (spot dir p) = some content := by
  unfold readBytes at hread
  obtain ⟨⟨l, e⟩, hlookup, hcontent⟩ := ok_of_bind hread
  obtain ⟨rfl, hentry⟩ := lookup_ok h hlookup
  cases e with
  | file content' executable =>
      obtain rfl := Except.ok.inj hcontent
      rw [bytesAt, hentry]
  | directory => cases hcontent
  | link target => cases hcontent

theorem readBytes_notFound (h : t.Tidy dir) {p : Path} {e : SystemError}
    (hread : t.readBytes p = .error e) (hkind : e.kindOf = .notFound)
    (hp : ".." ∉ steps p) :
    t.bytesAt (spot dir p) = none := by
  unfold readBytes at hread
  rcases error_of_bind hread with hlookup | ⟨⟨l, entry⟩, hlookup, herror⟩
  · exact lookup_notFound h hlookup hkind hp
  · cases entry with
    | file content' executable => cases herror
    | directory =>
        obtain rfl := Except.error.inj herror
        cases hkind
    | link target =>
        obtain rfl := Except.error.inj herror
        cases hkind

/-- What is read as text is written back as the same bytes. -/
theorem toUTF8_of_fromUTF8? {content : ByteArray} {text : String}
    (h : String.fromUTF8? content = some text) : text.toUTF8 = content := by
  unfold String.fromUTF8? at h
  split at h
  · obtain rfl := Option.some.inj h
    rfl
  · cases h

theorem fromUTF8?_toUTF8 (text : String) :
    String.fromUTF8? text.toUTF8 = some text := by
  unfold String.fromUTF8?
  split
  · rfl
  · next hnot => exact absurd text.isValidUTF8 hnot

theorem readText_ok (h : t.Tidy dir) {p : Path} {text : String}
    (hread : t.readText p = .ok text) :
    t.bytesAt (spot dir p) = some text.toUTF8 := by
  unfold readText at hread
  obtain ⟨content, hbytes, htext⟩ := ok_of_bind hread
  split at htext
  · next heq =>
      obtain rfl := Except.ok.inj htext
      rw [readBytes_ok h hbytes, toUTF8_of_fromUTF8? heq]
  · cases htext

theorem readText_notFound (h : t.Tidy dir) {p : Path} {e : SystemError}
    (hread : t.readText p = .error e) (hkind : e.kindOf = .notFound)
    (hp : ".." ∉ steps p) :
    t.bytesAt (spot dir p) = none := by
  unfold readText at hread
  rcases error_of_bind hread with hbytes | ⟨content, hbytes, htext⟩
  · exact readBytes_notFound h hbytes hkind hp
  · split at htext
    · cases htext
    · obtain rfl := Except.error.inj htext
      cases hkind

/-! ## Changing -/

/-- A tree that differs from another one in the file at one location at most. -/
structure Differs (dir : Location) (l : Location) (t t' : FileTree) : Prop where
  tidy : t'.Tidy dir
  bytesAt : ∀ k, k ≠ l → t'.bytesAt k = t.bytesAt k
  directory : ∀ k, t'.at? k = some .directory ↔ t.at? k = some .directory

theorem file_ne_directory {content : ByteArray} {executable : Bool} :
    some (Entry.file content executable) ≠ some .directory := by
  intro h
  cases h

/-- A file put into a directory, where no directory was. -/
theorem Tidy.put_file (h : t.Tidy dir) {above : Location} {name : String}
    {content : ByteArray} {executable : Bool}
    (habove : t.at? above = some .directory)
    (hold : t.at? (above ++ [name]) ≠ some .directory) :
    Differs dir (above ++ [name]) t
      (t.put (above ++ [name]) (.file content executable)) := by
  have hne : above ++ [name] ≠ [] := by simp
  refine ⟨h.put habove hold (fun _ heq => nomatch heq),
    fun _ hk => bytesAt_put hne hk, fun k => ?_⟩
  rw [at?_put _ _ _ _ hne]
  split
  · next heq =>
      subst heq
      exact ⟨fun hk => absurd hk file_ne_directory, fun hk => absurd hk hold⟩
  · exact Iff.rfl

theorem writeBytes_ok (h : t.Tidy dir) {p : Path} {content : ByteArray}
    {t' : FileTree} (hwrite : t.writeBytes p content = .ok t') :
    Differs dir (spot dir p) t t' ∧ t'.bytesAt (spot dir p) = some content := by
  unfold writeBytes at hwrite
  obtain ⟨stop, hlocate, hput⟩ := ok_of_bind hwrite
  have hreach := locate_ok h hlocate
  cases stop with
  | vacant above name =>
      obtain rfl := Except.ok.inj hput
      obtain ⟨hspot, habove, hnone⟩ := hreach
      rw [← hspot] at hnone ⊢
      have hold : t.at? (above ++ [name]) ≠ some .directory := by
        rw [hnone]
        exact (Option.some_ne_none _).symm
      exact ⟨h.put_file habove hold, bytesAt_put_file (by simp)⟩
  | found l e =>
      cases e with
      | directory => cases hput
      | link target => cases hput
      | file old executable =>
          obtain rfl := Except.ok.inj hput
          obtain ⟨hspot, hfile⟩ := hreach
          rw [← hspot] at hfile ⊢
          have hold : t.at? l ≠ some .directory := by
            rw [hfile]
            exact file_ne_directory
          obtain ⟨above, name, rfl, habove⟩ :=
            h.exists_above hold (by simp [hfile])
          exact ⟨h.put_file habove hold, bytesAt_put_file (by simp)⟩

theorem removeFile_ok (h : t.Tidy dir) {p : Path} {t' : FileTree}
    (hremove : t.removeFile p = .ok t') :
    Differs dir (spot dir p) t t' ∧ t'.bytesAt (spot dir p) = none := by
  unfold removeFile at hremove
  obtain ⟨stop, hlocate, herase⟩ := ok_of_bind hremove
  have hreach := locate_ok h hlocate
  cases stop with
  | vacant above name => cases herase
  | found l e =>
      obtain ⟨hspot, hentry⟩ := hreach
      rw [← hspot] at hentry ⊢
      have hgone : t.at? l ≠ some .directory ∧ t' = t.erase l := by
        cases e with
        | directory => cases herase
        | link target => exact absurd hentry (h.unlinked l target)
        | file content executable =>
            refine ⟨?_, (Except.ok.inj herase).symm⟩
            rw [hentry]
            exact file_ne_directory
      obtain ⟨hold, rfl⟩ := hgone
      have hne : l ≠ [] := by
        rintro rfl
        exact hold at?_root
      refine ⟨⟨h.erase hold, fun k hk => ?_, fun k => ?_⟩, ?_⟩
      · rw [bytesAt, at?_erase _ _ _ hne, if_neg hk, bytesAt]
      · rw [at?_erase _ _ _ hne]
        split
        · next heq =>
            subst heq
            exact ⟨fun hk => absurd hk.symm (Option.some_ne_none _),
              fun hk => absurd hk hold⟩
        · exact Iff.rfl
      · rw [bytesAt, at?_erase _ _ _ hne, if_pos rfl]

theorem removeFile_notFound (h : t.Tidy dir) {p : Path} {e : SystemError}
    (hremove : t.removeFile p = .error e) (hkind : e.kindOf = .notFound)
    (hp : ".." ∉ steps p) :
    t.bytesAt (spot dir p) = none := by
  unfold removeFile at hremove
  rcases error_of_bind hremove with hlocate | ⟨stop, hlocate, herror⟩
  · exact locate_notFound h hlocate hkind hp
  · have hreach := locate_ok h hlocate
    cases stop with
    | vacant above name => rw [bytesAt, hreach.2.2]
    | found l entry =>
        cases entry with
        | file content executable => cases herror
        | link target => cases herror
        | directory =>
            obtain rfl := Except.error.inj herror
            cases hkind

/-! ## Creating directories -/

/-- A tree with the same files as another one, and with more directories at some
paths at most. -/
structure Matches (dir : Location) (paths : List Path) (t t' : FileTree) :
    Prop where
  tidy : t'.Tidy dir
  bytesAt : ∀ l, t'.bytesAt l = t.bytesAt l
  kept : ∀ l, t.at? l = some .directory → t'.at? l = some .directory
  created : ∀ l, t'.at? l = some .directory →
    t.at? l = some .directory ∨ ∃ p ∈ paths, l = spot dir (dropSeparators p)

theorem Matches.refl (h : t.Tidy dir) (paths : List Path) :
    Matches dir paths t t :=
  ⟨h, fun _ => rfl, fun _ hl => hl, fun _ hl => .inl hl⟩

theorem Matches.trans {paths : List Path} {t' t'' : FileTree}
    (h : Matches dir paths t t') (h' : Matches dir paths t' t'') :
    Matches dir paths t t'' := by
  refine ⟨h'.tidy, fun l => (h'.bytesAt l).trans (h.bytesAt l),
    fun l hl => h'.kept l (h.kept l hl), fun l hl => ?_⟩
  rcases h'.created l hl with hl | hpath
  · exact h.created l hl
  · exact .inr hpath

theorem createDirectory_ok (h : t.Tidy dir) {p : Path} {t' : FileTree}
    (hcreate : t.createDirectory p = .ok t') {paths : List Path}
    (hp : p ∈ paths) :
    Matches dir paths t t' := by
  unfold createDirectory at hcreate
  obtain ⟨stop, hlocate, hput⟩ := ok_of_bind hcreate
  have hreach := locate_ok h hlocate
  cases stop with
  | found l e => cases hput
  | vacant above name =>
      obtain rfl := Except.ok.inj hput
      obtain ⟨hspot, habove, hnone⟩ := hreach
      rw [← hspot] at hnone
      have hne : above ++ [name] ≠ [] := by simp
      have hold : t.at? (above ++ [name]) ≠ some .directory := by
        rw [hnone]
        exact (Option.some_ne_none _).symm
      refine ⟨h.put habove hold (fun _ heq => nomatch heq),
        fun l => ?_, fun l hl => ?_, fun l hl => ?_⟩
      · by_cases hl : l = above ++ [name]
        · rw [hl, bytesAt, at?_put _ _ _ _ hne, if_pos rfl, bytesAt, hnone]
        · exact bytesAt_put hne hl
      · rw [at?_put _ _ _ _ hne]
        split
        · rfl
        · exact hl
      · rw [at?_put _ _ _ _ hne] at hl
        split at hl
        · next heq => exact .inr ⟨p, hp, heq.trans hspot⟩
        · exact .inl hl

theorem createEach_matches {all paths : List Path} (hall : paths ⊆ all)
    {r : Except SystemError Unit} {t' : FileTree} (h : t.Tidy dir)
    (hcreate : t.createEach paths = (r, t')) : Matches dir all t t' := by
  induction paths generalizing t with
  | nil =>
      obtain ⟨-, rfl⟩ := Prod.mk.inj hcreate
      exact .refl h all
  | cons p paths ih =>
      obtain ⟨hp, hpaths⟩ := List.cons_subset.1 hall
      rw [createEach] at hcreate
      cases hnext : t.createDirectory p with
      | ok next =>
          rw [hnext] at hcreate
          have hfirst := createDirectory_ok h hnext hp
          exact hfirst.trans (ih hpaths hfirst.tidy hcreate)
      | error e =>
          rw [hnext] at hcreate
          dsimp only at hcreate
          split_ifs at hcreate with hthere
          · exact ih hpaths h hcreate
          · obtain ⟨-, rfl⟩ := Prod.mk.inj hcreate
            exact .refl h all

theorem missing_subset {paths absent : List Path}
    (h : t.missing paths = .ok absent) :
    absent ⊆ paths := by
  induction paths generalizing absent with
  | nil =>
      obtain rfl := Except.ok.inj h
      exact List.nil_subset _
  | cons p paths ih =>
      rw [missing] at h
      cases hcreate : t.createDirectory p with
      | ok next =>
          rw [hcreate] at h
          obtain rfl := Except.ok.inj h
          exact List.cons_subset_cons p (List.nil_subset _)
      | error e =>
          rw [hcreate] at h
          dsimp only at h
          split_ifs at h with hkind hthere
          · obtain ⟨rest, hrest, hok⟩ := ok_of_bind h
            obtain rfl := Except.ok.inj hok
            exact List.cons_subset_cons p (ih hrest)
          · obtain rfl := Except.ok.inj h
            exact List.nil_subset _

/-- The paths of the directories that stand between a path and where it
starts. -/
def ancestry (p : Path) : List Path := lineage (p.utf8ByteSize + 1) p

theorem createDirectories_matches (h : t.Tidy dir) {p : Path}
    {r : Except SystemError Unit} {t' : FileTree}
    (hcreate : t.createDirectories p = (r, t')) :
    Matches dir (ancestry p) t t' := by
  unfold createDirectories at hcreate
  split at hcreate
  · next absent hmissing =>
      refine createEach_matches (fun q hq => ?_) h hcreate
      exact missing_subset hmissing (List.mem_reverse.1 hq)
  · obtain ⟨-, rfl⟩ := Prod.mk.inj hcreate
    exact .refl h _

/-! ## The laws -/

/-- Trees in order, under a condition, looked at through the bytes of their
files. -/
def view (dir : Location) (ready : FileTree → Prop) : FileView FileTree where
  File := Location
  place := spot dir
  content := bytesAt
  tidy t := t.Tidy dir ∧ ready t

/-- A condition that depends on the directories of a tree only, and that
outlasts the creating of the directory of the architecture. -/
structure Lasting (dir : Location) (out : OutputDirectory)
    (ready : FileTree → Prop) : Prop where
  keep : ∀ {t t' : FileTree},
    (∀ l, t'.at? l = some .directory ↔ t.at? l = some .directory) →
    ready t → ready t'
  create : ∀ {t t' : FileTree},
    Matches dir (ancestry out.architectureRoot) t t' → ready t → ready t'

variable {out : OutputDirectory} {ready : FileTree → Prop}

theorem Differs.spares (hready : Lasting dir out ready) {p : Path}
    {t' : FileTree} (ht : ready t) (h : Differs dir (spot dir p) t t') :
    (view dir ready).Spares (· = p) t t' :=
  ⟨⟨h.tidy, hready.keep h.directory ht⟩,
    fun l hl => h.bytesAt l (hl p rfl).symm⟩

theorem change_run {f : FileTree → Except SystemError FileTree}
    {r : Except SystemError Unit} {t' : FileTree}
    (h : (change f).run t = (r, t')) :
    (r = .ok () ∧ f t = .ok t')
      ∨ ∃ e, r = .error e ∧ t' = t ∧ f t = .error e := by
  change change f t = (r, t') at h
  unfold change at h
  split at h
  · next t₁ hf =>
      obtain ⟨rfl, rfl⟩ := Prod.mk.inj h
      exact .inl ⟨rfl, hf⟩
  · next e hf =>
      obtain ⟨rfl, rfl⟩ := Prod.mk.inj h
      exact .inr ⟨e, rfl, rfl, hf⟩

theorem run_createDirectories (t : FileTree) (p : Path) :
    (disk.createDirectories p).run t = t.createDirectories p := by
  unfold disk
  rfl

/-- A file tree keeps the promises of a disk, if the path of the output
directory does not step back. -/
theorem disk_lawful (hroot : ".." ∉ steps out.root)
    (hready : Lasting dir out ready) :
    disk.Lawful (view dir ready) out where
  read_spares hs h := by
    obtain ⟨-, rfl⟩ := Prod.mk.inj h
    exact .refl hs
  read_ok hs h := by
    obtain ⟨hread, -⟩ := Prod.mk.inj h
    exact readText_ok hs.1 hread
  read_notFound hs h hkind hp := by
    obtain ⟨hread, -⟩ := Prod.mk.inj h
    exact readText_notFound hs.1 hread hkind (straight_of_below hroot hp)
  write_spares hs h := by
    rcases change_run h with ⟨-, hwrite⟩ | ⟨e, -, rfl, -⟩
    · exact (writeBytes_ok hs.1 hwrite).1.spares hready hs.2
    · exact .refl hs
  write_ok hs h := by
    rcases change_run h with ⟨-, hwrite⟩ | ⟨e, he, -⟩
    · exact (writeBytes_ok hs.1 hwrite).2
    · cases he
  remove_spares hs h := by
    rcases change_run h with ⟨-, hremove⟩ | ⟨e, -, rfl, -⟩
    · exact (removeFile_ok hs.1 hremove).1.spares hready hs.2
    · exact .refl hs
  remove_ok hs h := by
    rcases change_run h with ⟨-, hremove⟩ | ⟨e, he, -⟩
    · exact (removeFile_ok hs.1 hremove).2
    · cases he
  remove_error hs h := by
    rcases change_run h with ⟨he, -⟩ | ⟨e, -, rfl, -⟩
    · cases he
    · rfl
  remove_notFound hs h hkind hp := by
    rcases change_run h with ⟨he, -⟩ | ⟨e, he, -, hremove⟩
    · cases he
    · obtain rfl := Except.error.inj he
      exact removeFile_notFound hs.1 hremove hkind (straight_of_below hroot hp)
  create_spares hs h := by
    rw [run_createDirectories] at h
    have hcreate := createDirectories_matches hs.1 h
    exact ⟨⟨hcreate.tidy, hready.create hcreate hs.2⟩,
      fun l _ => hcreate.bytesAt l⟩
  place_names := spot_names out.root
  place_injective := spot_injective out.root

/-- A refused write leaves a tree as it was. -/
theorem disk_noFragments {dir : Location} {ready : FileTree → Prop} :
    disk.NoFragments (view dir ready) := by
  intro p text s e t _ h hnone
  rcases change_run h with ⟨he, -⟩ | ⟨e, -, rfl, -⟩
  · cases he
  · exact hnone

end FlowAtlas.FileTree
