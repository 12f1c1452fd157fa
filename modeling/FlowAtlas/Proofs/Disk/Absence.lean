import FlowAtlas.Proofs.Disk.Ancestors
import FlowAtlas.Proofs.Disk.Tree

/-!
# What stays deleted

A run that deletes files trusts two answers: that a file was deleted, and that
there was none. What makes them worth trusting is said here for any disk
(`Disk.Deletes`): either way the path leads to nothing afterwards, and deleting
other files does not change that.

A file tree keeps these promises with no condition on the tree, so also where
paths go through links or step back. A walk looks at a tree only where something
stands, so taking an entry away can end a walk early and never sends it
elsewhere (`walkThrough_of_erase`).
-/

namespace FlowAtlas

/-- A disk that tells the truth about deleting: `absent` are the paths that lead
to nothing. -/
structure Disk.Deletes {σ : Type} (disk : Disk (StateM σ))
    (absent : σ → Path → Prop) : Prop where
  removed : ∀ {p s a t}, (disk.removeFile p).run s = (.ok a, t) → absent t p
  missing : ∀ {p s e t},
    (disk.removeFile p).run s = (.error e, t) → e.kindOf = .notFound →
      absent t p
  lasting : ∀ {p q s r t},
    (disk.removeFile q).run s = (r, t) → absent s p → absent t p

namespace FileTree

/-- Nothing stands where a path leads. A link at its end is something. -/
def Absent (t : FileTree)
    (p : Path) : Prop := ∀ l e, t.locate false p ≠ .ok (.found l e)

variable {t : FileTree} {k : Location}

/-! ## Walks after something was taken away -/

theorem at?_of_erase {l : Location} {e : Entry}
    (h : (t.erase k).at? l = some e) :
    t.at? l = some e := by
  unfold at? erase at h
  rw [lookup_filter_ne] at h
  rw [at?]
  split_ifs at h ⊢
  · exact h
  · exact h

theorem Walks.of_erase {follow : Bool}
    {through through' : Location → List String → Except SystemError.Code Stop}
    {l : Location} {e : Entry}
    (hthrough : ∀ dir names, through dir names = .ok (.found l e) →
      through' dir names = .ok (.found l e))
    {dir : Location} {names : List String}
    (h : Walks (t.erase k) follow through dir names (.found l e)) :
    Walks t follow through' dir names (.found l e) := by
  generalize hstop : Stop.found l e = stop at h
  induction h with
  | arrive => exact .arrive
  | here _ ih => exact .here (ih hstop)
  | above _ ih => exact .above (ih hstop)
  | enter hname hentry _ ih =>
      exact .enter hname (at?_of_erase hentry) (ih hstop)
  | vacant hname hentry => exact nomatch hstop
  | file hname hentry => exact .file hname (at?_of_erase hentry)
  | link hname hentry hfollow => exact .link hname (at?_of_erase hentry) hfollow
  | through hname hentry hon htarget h =>
      subst hstop
      exact .through hname (at?_of_erase hentry) hon htarget (hthrough _ _ h)

theorem walkThrough_of_erase {follow : Bool} {links : Nat} {l dir : Location}
    {e : Entry} {names : List String}
    (h : (t.erase k).walkThrough follow links dir names = .ok (.found l e)) :
    t.walkThrough follow links dir names = .ok (.found l e) := by
  induction links generalizing dir names with
  | zero =>
      refine ((walks_of_walk h).of_erase ?_).walk_eq
      rintro _ _ ⟨⟩
  | succ links ih => exact ((walks_of_walk h).of_erase fun _ _ => ih).walk_eq

/-- What a path still leads to, it led to before. -/
theorem locate_of_erase {follow : Bool} {p : Path} {l : Location} {e : Entry}
    (h : (t.erase k).locate follow p = .ok (.found l e)) :
    t.locate follow p = .ok (.found l e) := by
  have hwalk := walkThrough_of_erase (locate_eq_ok h)
  unfold locate at h ⊢
  split_ifs at h ⊢
  exact congrArg _ hwalk

/-- What a walk ends at stands there. -/
theorem Walks.at?_eq {follow : Bool}
    {through : Location → List String → Except SystemError.Code Stop}
    {l : Location} {e : Entry}
    (hthrough : ∀ dir names, through dir names = .ok (.found l e) →
      e ≠ .directory → t.at? l = some e)
    {dir : Location} {names : List String}
    (h : Walks t follow through dir names (.found l e)) (he : e ≠ .directory) :
    t.at? l = some e := by
  generalize hstop : Stop.found l e = stop at h
  induction h with
  | arrive => exact absurd (Stop.found.inj hstop).2 he
  | here _ ih => exact ih hstop
  | above _ ih => exact ih hstop
  | enter _ _ _ ih => exact ih hstop
  | vacant hname hentry => exact nomatch hstop
  | file hname hentry =>
      obtain ⟨rfl, rfl⟩ := Stop.found.inj hstop
      exact hentry
  | link hname hentry hfollow =>
      obtain ⟨rfl, rfl⟩ := Stop.found.inj hstop
      exact hentry
  | through hname hentry hon htarget h =>
      subst hstop
      exact hthrough _ _ h he

theorem walkThrough_at? {follow : Bool} {links : Nat} {l dir : Location}
    {e : Entry} {names : List String}
    (h : t.walkThrough follow links dir names = .ok (.found l e))
    (he : e ≠ .directory) : t.at? l = some e := by
  induction links generalizing dir names with
  | zero =>
      refine (walks_of_walk h).at?_eq ?_ he
      rintro _ _ ⟨⟩
  | succ links ih =>
      exact (walks_of_walk h).at?_eq (fun _ _ hfound _ => ih hfound) he

/-! ## Deleting -/

theorem Absent.erase {p : Path} (h : t.Absent p) : (t.erase k).Absent p :=
  fun l e hfound => h l e (locate_of_erase hfound)

/-- What was deleted led somewhere, and to no directory. -/
theorem removeFile_eq_ok {p : Path} {t' : FileTree}
    (h : t.removeFile p = .ok t') :
    ∃ l e, t.locate false p = .ok (.found l e) ∧ e ≠ .directory
      ∧ t' = t.erase l := by
  unfold removeFile at h
  obtain ⟨stop, hlocate, herase⟩ := ok_of_bind h
  cases stop with
  | vacant above name => exact nomatch herase
  | found l e =>
      cases e with
      | directory => exact nomatch herase
      | file content executable =>
          exact ⟨l, _, hlocate, Entry.noConfusion, (Except.ok.inj herase).symm⟩
      | link target =>
          exact ⟨l, _, hlocate, Entry.noConfusion, (Except.ok.inj herase).symm⟩

theorem absent_of_removeFile_ok {p : Path} {t' : FileTree}
    (h : t.removeFile p = .ok t') :
    t'.Absent p := by
  obtain ⟨l, e, hlocate, he, rfl⟩ := removeFile_eq_ok h
  intro l' e' hfound
  -- The path would still lead to the entry that was taken away.
  have hsame := hlocate.symm.trans (locate_of_erase hfound)
  obtain ⟨rfl, rfl⟩ := Stop.found.inj (Except.ok.inj hsame)
  have hentry := walkThrough_at? (locate_eq_ok hfound) he
  by_cases htop : l = []
  · subst htop
    exact he (Option.some.inj hentry).symm
  · rw [at?_erase _ _ _ htop, if_pos rfl] at hentry
    exact nomatch hentry

theorem absent_of_removeFile_missing {p : Path} {e : SystemError}
    (h : t.removeFile p = .error e) (hkind : e.kindOf = .notFound) :
    t.Absent p := by
  intro l entry hfound
  unfold removeFile at h
  rw [hfound] at h
  cases entry with
  | directory =>
      obtain rfl := Except.error.inj h
      exact nomatch hkind
  | file content executable => exact nomatch h
  | link target => exact nomatch h

/-- A file tree tells the truth about deleting. -/
theorem disk_deletes : disk.Deletes Absent where
  removed h := by
    rcases change_run h with ⟨-, hremove⟩ | ⟨e, he, -⟩
    · exact absent_of_removeFile_ok hremove
    · exact nomatch he
  missing h hkind := by
    rcases change_run h with ⟨hok, -⟩ | ⟨e, he, rfl, hremove⟩
    · exact nomatch hok
    · obtain rfl := Except.error.inj he
      exact absent_of_removeFile_missing hremove hkind
  lasting h habsent := by
    rcases change_run h with ⟨-, hremove⟩ | ⟨e, -, rfl, -⟩
    · obtain ⟨l, e, -, -, rfl⟩ := removeFile_eq_ok hremove
      exact habsent.erase
    · exact habsent

end FileTree

end FlowAtlas
