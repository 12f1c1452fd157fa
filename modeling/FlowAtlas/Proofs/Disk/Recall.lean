import FlowAtlas.Proofs.Disk.Footprint

/-!
# What is written is read back

A disk on which a write that was carried out can be read back recalls what it is
told. That is little to ask of a disk, and a file tree does it whatever its
shape: through links, along names that step back, among entries that stand in no
directory.

A write changes the tree in the one place where its walk stopped, and nothing
could be walked through there, before or after: it was vacant or a file. So the
same walk goes the same way again, and now stops at the new file
(`Passes.walks_file`).
-/

namespace FlowAtlas

/-- A disk on which a text that was written is read, directly after the
write. -/
def Disk.Recalls {σ : Type} (disk : Disk (StateM σ)) : Prop :=
  ∀ ⦃p text s t⦄, (disk.writeText p text).run s = (.ok (), t) →
    ∃ u, (disk.readText p).run t = (.ok text, u)

namespace FileTree

variable {t t' : FileTree}

/-- A walk has stopped where a file can be written. -/
def Stop.Writable : Stop → Prop
  | .found _ (.file _ _) => True
  | .found _ _ => False
  | .vacant _ _ => True

/-- Where a file can be written, nothing stands that a walk passes through. So a
file that is put there is in the way of no walk. -/
theorem Stop.Stands.passes_put {stop : Stop} (h : stop.Stands t)
    (hwritable : stop.Writable) (content : ByteArray) (executable : Bool) :
    Passes t (t.put stop.location (.file content executable))
      ∧ (t.put stop.location (.file content executable)).at? stop.location
        = some (.file content executable) := by
  have hfree : t.at? stop.location ≠ some .directory
      ∧ ∀ target, t.at? stop.location ≠ some (.link target) := by
    match stop with
    | .vacant above name =>
        have hnone : t.at? (above ++ [name]) = none := h
        rw [Stop.location, hnone]
        exact ⟨(Option.some_ne_none _).symm,
          fun _ => (Option.some_ne_none _).symm⟩
    | .found l (.file old executable) =>
        have hfile : t.at? l = some (.file old executable) :=
          h.resolve_left fun heq => nomatch heq
        rw [Stop.location, hfile]
        exact ⟨file_ne_directory, fun _ heq => nomatch heq⟩
  -- The new file takes the place of nothing that is a directory or a link, so
  -- these all stay.
  have hput := fun l =>
    at?_put t stop.location l (.file content executable) (ne_root hfree.1)
  have hkeeps : ∀ l e, t.at? l = some e → t.at? stop.location ≠ some e →
      (t.put stop.location (.file content executable)).at? l = some e := by
    intro l e hl hne
    rw [hput, if_neg fun heq => hne (by rw [← heq, hl]), hl]
  refine ⟨⟨rfl, fun l hl => hkeeps l _ hl hfree.1, fun l target hl => ?_⟩, ?_⟩
  · exact hkeeps l _ hl (hfree.2 target)
  · rw [hput, if_pos rfl]

section

variable {stop : Stop} {content : ByteArray} {executable : Bool}

/-- A walk that stopped where a file has come to stand stops at that file. -/
theorem Passes.walks_file
    {through through' : Location → List String → Except SystemError.Code Stop}
    (hpasses : Passes t t')
    (hfile : t'.at? stop.location = some (.file content executable))
    (hthrough : ∀ l names, through l names = .ok stop →
      through' l names
        = .ok (.found stop.location (.file content executable)))
    (hwritable : stop.Writable) {l : Location} {names : List String}
    (h : Walks t true through l names stop) :
    Walks t' true through' l names
      (.found stop.location (.file content executable)) := by
  induction h with
  | arrive => exact hwritable.elim
  | here _ ih => exact .here (ih hfile hthrough hwritable)
  | above _ ih => exact .above (ih hfile hthrough hwritable)
  | enter hname hentry _ ih =>
      exact .enter hname (hpasses.directory _ hentry)
        (ih hfile hthrough hwritable)
  -- Here the walk stopped, and here the file is now.
  | vacant hname _ => exact .file hname hfile
  | file hname _ => exact .file hname hfile
  | link _ _ hfollow => exact nomatch hfollow
  | through hname hentry hon htarget h =>
      exact .through hname (hpasses.link _ _ hentry) hon htarget
        (hthrough _ _ h)

theorem Passes.walkThrough_file (hpasses : Passes t t')
    (hfile : t'.at? stop.location = some (.file content executable))
    (hwritable : stop.Writable) {links : Nat} {l : Location}
    {names : List String} (h : t.walkThrough true links l names = .ok stop) :
    t'.walkThrough true links l names
      = .ok (.found stop.location (.file content executable)) := by
  induction links generalizing l names with
  | zero =>
      refine (hpasses.walks_file hfile (fun l names heq => ?_) hwritable
        (walks_of_walk h)).walk_eq
      exact nomatch heq
  | succ links ih =>
      exact (hpasses.walks_file hfile (fun _ _ => ih) hwritable
        (walks_of_walk h)).walk_eq

theorem locate_put (hwritable : stop.Writable) {p : Path}
    (h : t.locate true p = .ok stop) :
    (t.put stop.location (.file content executable)).locate true p
      = .ok (.found stop.location (.file content executable)) := by
  obtain ⟨hpasses, hfile⟩ :=
    (locate_stands h).passes_put hwritable content executable
  have hwalk := hpasses.walkThrough_file hfile hwritable (locate_eq_ok h)
  unfold locate at h ⊢
  split_ifs at h ⊢
  rw [hpasses.workingDirectory, hwalk]
  rfl

end

/-- A write that is carried out puts a file where its path leads. -/
theorem exists_of_writeBytes {p : Path} {content : ByteArray}
    (h : t.writeBytes p content = .ok t') :
    ∃ stop executable, t.locate true p = .ok stop ∧ stop.Writable
      ∧ t' = t.put stop.location (.file content executable) := by
  obtain ⟨stop, hlocate, hput⟩ := ok_of_bind h
  match stop with
  | .vacant above name =>
    exact ⟨_, false, hlocate, trivial, (Except.ok.inj hput).symm⟩
  | .found l (.file old executable) =>
      exact ⟨_, executable, hlocate, trivial, (Except.ok.inj hput).symm⟩

theorem readText_of_writeText {p : Path} {text : String}
    (h : t.writeText p text = .ok t') :
    t'.readText p = .ok text := by
  obtain ⟨stop, executable, hlocate, hwritable, rfl⟩ := exists_of_writeBytes h
  rw [readText, readBytes, lookup, locate_put hwritable hlocate]
  dsimp only [bind, Except.bind, pure, Except.pure]
  rw [fromUTF8?_toUTF8]

theorem disk_recalls : disk.Recalls := by
  intro p text s t h
  rcases change_run h with ⟨-, hwrite⟩ | ⟨e, he, -⟩
  · exact ⟨t, congrArg (·, t) (readText_of_writeText hwrite)⟩
  · exact nomatch he

end FileTree

end FlowAtlas
