import FlowAtlas.Proofs.Disk.Ancestors
import FlowAtlas.Renderer.Basic
import Mathlib.Logic.Relation

/-!
# What an operation changes in a file tree

The trees here are any trees: with links, with names that step back, with
entries that stand in no directory. So a file is not told by its path. What can
be said is where a path leads at the moment at which it is used (`Leads`), and
that an operation changes nothing but that (`Alters`). A directory is created
where nothing stands (`Makes`).

A disk is pathwise if its operations do no more than this to the tree that it
shows. They may be refused in any pattern, and a refused one may have done a
part of its work.
-/

namespace FlowAtlas

open OutputDirectory

namespace FileTree

/-! ## Where a path leads -/

/-- The location at which a walk has stopped. -/
def Stop.location : Stop → Location
  | .found l _ => l
  | .vacant above name => above ++ [name]

/-- A path leads to a location, be there something or not. A link at the end of
the path is passed through if `follow` says so. -/
def Leads (t : FileTree) (follow : Bool) (p : Path) (l : Location) : Prop :=
  ∃ stop, t.locate follow p = .ok stop ∧ stop.location = l

/-- A walk has stopped at what stands there. A directory is taken for granted
where the walk starts. -/
def Stop.Stands (t : FileTree) : Stop → Prop
  | .found l e => e = .directory ∨ t.at? l = some e
  | .vacant above name => t.at? (above ++ [name]) = none

variable {t t' : FileTree}

theorem Walks.stands {follow : Bool}
    {through : Location → List String → Except SystemError.Code Stop}
    (hthrough : ∀ l names stop, through l names = .ok stop → stop.Stands t)
    {l : Location} {names : List String} {stop : Stop}
    (h : Walks t follow through l names stop) :
    stop.Stands t := by
  induction h with
  | arrive => exact .inl rfl
  | here _ ih => exact ih
  | above _ ih => exact ih
  | enter _ _ _ ih => exact ih
  | vacant _ hentry => exact hentry
  | file _ hentry => exact .inr hentry
  | link _ hentry _ => exact .inr hentry
  | through _ _ _ _ h => exact hthrough _ _ _ h

theorem walkThrough_stands {follow : Bool} {links : Nat} {l : Location}
    {names : List String} {stop : Stop}
    (h : t.walkThrough follow links l names = .ok stop) : stop.Stands t := by
  induction links generalizing l names stop with
  | zero =>
      refine (walks_of_walk h).stands fun l names stop hstop => ?_
      exact nomatch hstop
  | succ links ih => exact (walks_of_walk h).stands fun _ _ _ hstop => ih hstop

theorem locate_stands {follow : Bool} {p : Path} {stop : Stop}
    (h : t.locate follow p = .ok stop) : stop.Stands t :=
  walkThrough_stands (locate_eq_ok h)

/-! ## Changes -/

/-- All the difference between two trees is where a path leads, and no directory
is there, before or after. A link at the end of the path is passed through only
if `follow` says so. -/
structure Alters (follow : Bool) (p : Path) (t t' : FileTree) : Prop where
  workingDirectory : t'.workingDirectory = t.workingDirectory
  leads : ∀ l, t'.at? l ≠ t.at? l → t.Leads false p l ∨ follow = true
    ∧ t.Leads true p l
  before : ∀ l, t'.at? l ≠ t.at? l → t.at? l ≠ some .directory
  after : ∀ l, t'.at? l ≠ t.at? l → t'.at? l ≠ some .directory

theorem Alters.refl (follow : Bool) (p : Path) (t : FileTree) :
    Alters follow p t t :=
  ⟨rfl, fun _ hl => absurd rfl hl, fun _ hl => absurd rfl hl,
    fun _ hl => absurd rfl hl⟩

theorem Alters.mono {p : Path} (h : Alters false p t t') :
    Alters true p t t' := by
  refine ⟨h.workingDirectory, fun l hl => .inl ?_, h.before, h.after⟩
  exact (h.leads l hl).resolve_right fun hfollow => Bool.false_ne_true hfollow.1

/-- A directory stays where it is. -/
theorem Alters.keeps {follow : Bool} {p : Path} (h : Alters follow p t t')
    {l : Location} (hl : t.at? l = some .directory) :
    t'.at? l = some .directory := by
  by_contra hne
  exact h.before l (fun heq => hne (heq.trans hl)) hl

/-- A directory is created at a path, where nothing was. -/
structure Makes (p : Path) (t t' : FileTree) : Prop where
  workingDirectory : t'.workingDirectory = t.workingDirectory
  created : ∃ above name, t.locate false (dropSeparators p)
      = .ok (.vacant above name)
    ∧ ∀ l, t'.at? l = if l = above ++ [name] then some .directory else t.at? l

/-- What a new directory differs in is that directory. -/
theorem Makes.location {p : Path} (h : Makes p t t') {l : Location}
    (hl : t'.at? l ≠ t.at? l) :
    t.Leads false (dropSeparators p) l ∧ t.at? l = none
      ∧ t'.at? l = some .directory := by
  obtain ⟨above, name, hlocate, hat⟩ := h.created
  by_cases heq : l = above ++ [name]
  · refine ⟨⟨_, hlocate, heq.symm⟩, ?_, ?_⟩
    · rw [heq]
      exact locate_stands hlocate
    · rw [hat, if_pos heq]
  · exact absurd (by rw [hat, if_neg heq]) hl

/-- What stands stays. -/
theorem Makes.keeps {p : Path} (h : Makes p t t') {l : Location}
    (hl : t.at? l ≠ none) :
    t'.at? l = t.at? l := by
  by_contra hne
  exact hl (h.location hne).2.1

/-- A number of directories is created on the way to a path. -/
def Builds (p : Path) : FileTree → FileTree → Prop :=
  Relation.ReflTransGen fun t t' => ∃ q ∈ ancestry p, Makes q t t'

theorem Builds.workingDirectory {p : Path} (h : Builds p t t') :
    t'.workingDirectory = t.workingDirectory := by
  induction h with
  | refl => rfl
  | tail _ hmakes ih =>
      obtain ⟨q, -, hmakes⟩ := hmakes
      exact hmakes.workingDirectory.trans ih

theorem Builds.keeps {p : Path} (h : Builds p t t') {l : Location}
    (hl : t.at? l ≠ none) :
    t'.at? l = t.at? l := by
  induction h with
  | refl => rfl
  | tail _ hmakes ih =>
      obtain ⟨q, -, hmakes⟩ := hmakes
      rw [hmakes.keeps (by rwa [ih]), ih]

/-- What has come to stand is a directory that was created on the way. -/
theorem Builds.location {p : Path} (h : Builds p t t') {l : Location}
    (hl : t'.at? l ≠ t.at? l) :
    t.at? l = none ∧ t'.at? l = some .directory
      ∧ ∃ q ∈ ancestry p, ∃ m m', Builds p t m
      ∧ Makes q m m' ∧ m.at? l = none ∧ m.Leads false (dropSeparators q) l := by
  have hnone : t.at? l = none := by
    by_contra hstood
    exact hl (h.keeps hstood)
  rw [hnone] at hl
  induction h with
  | refl => exact absurd hnone hl
  | @tail m m' hbefore hmakes ih =>
      obtain ⟨q, hq, hmakes⟩ := hmakes
      by_cases hstands : m.at? l = none
      · obtain ⟨hleads, -, hdirectory⟩ := hmakes.location (by rwa [hstands])
        exact ⟨hnone, hdirectory, q, hq, m, m', hbefore, hmakes,
          hstands, hleads⟩
      · obtain ⟨-, hdirectory, hrest⟩ := ih hstands
        exact ⟨hnone, (hmakes.keeps hstands).trans hdirectory, hrest⟩

/-- The paths of the directories to be created for a path: its own, and those
above it. -/
theorem mem_ancestry_cases {p q : Path} (hq : q ∈ ancestry p) :
    q = p ∨ Above q p := by
  rw [ancestry] at hq
  unfold lineage at hq
  cases hparent : Path.parent? p with
  | none =>
      rw [hparent] at hq
      exact absurd hq List.not_mem_nil
  | some parent =>
      rw [hparent] at hq
      exact (List.mem_cons.1 hq).imp_right (above_of_mem_lineage hparent)

theorem dropSeparators_of_mem_ancestry {root q : Path} {n : String}
    (hn : Single n) (hq : q ∈ ancestry (root.join n)) :
    dropSeparators q = q := by
  rcases mem_ancestry_cases hq with rfl | habove
  · exact hn.dropSeparators_join root
  · exact dropSeparators_of_unslashed habove.unslashed

/-- In a directory that stands, only the named directory itself can be
created. -/
theorem Makes.eq_of_isDirectory {root q : Path} {n : String} (hn : Single n)
    (hroot : t.isDirectory root = .ok true) (hq : q ∈ ancestry (root.join n))
    (h : Makes q t t') : q = root.join n := by
  obtain ⟨above, name, hlocate, -⟩ := h.created
  rw [dropSeparators_of_mem_ancestry hn hq] at hlocate
  refine (mem_ancestry_cases hq).resolve_right fun habove => ?_
  exact locate_ne_vacant_of_above hn hroot habove above name hlocate

/-! ## Trees that keep what walks pass -/

/-- What stands in a tree still stands in another one, as far as walks pass
through it: the directories and the links. -/
structure Passes (t t' : FileTree) : Prop where
  workingDirectory : t'.workingDirectory = t.workingDirectory
  directory : ∀ l, t.at? l = some .directory → t'.at? l = some .directory
  link :
    ∀ l target, t.at? l = some (.link target) → t'.at? l = some (.link target)

theorem Builds.passes {p : Path} (h : Builds p t t') : Passes t t' := by
  refine ⟨h.workingDirectory, fun l hl => ?_, fun l target hl => ?_⟩
  · rw [h.keeps (by rw [hl]; exact Option.some_ne_none _), hl]
  · rw [h.keeps (by rw [hl]; exact Option.some_ne_none _), hl]

theorem Passes.walks
    {through through' : Location → List String → Except SystemError.Code Stop}
    (hpasses : Passes t t') {m : Location}
    (hthrough : ∀ l names, through l names = .ok (.found m .directory) →
      through' l names = .ok (.found m .directory))
    {l : Location} {names : List String}
    (h : Walks t true through l names (.found m .directory)) :
    Walks t' true through' l names (.found m .directory) := by
  generalize hstop : Stop.found m .directory = stop at h
  induction h with
  | arrive =>
      obtain ⟨rfl, -⟩ := Stop.found.inj hstop
      exact .arrive
  | here _ ih => exact .here (ih hstop)
  | above _ ih => exact .above (ih hstop)
  | enter hname hentry _ ih =>
      exact .enter hname (hpasses.directory _ hentry) (ih hstop)
  | vacant _ _ => exact nomatch hstop
  | file _ _ => exact nomatch hstop
  | link _ _ _ => exact nomatch hstop
  | through hname hentry hon htarget h =>
      subst hstop
      exact .through hname (hpasses.link _ _ hentry) hon htarget
        (hthrough _ _ h)

theorem Passes.walkThrough (h : Passes t t') {links : Nat} {l m : Location}
    {names : List String}
    (hwalk : t.walkThrough true links l names = .ok (.found m .directory)) :
    t'.walkThrough true links l names = .ok (.found m .directory) := by
  induction links generalizing l names with
  | zero =>
      exact (h.walks (fun _ _ hfound => hfound) (walks_of_walk hwalk)).walk_eq
  | succ links ih =>
      exact (h.walks (fun _ _ hfound => ih hfound)
        (walks_of_walk hwalk)).walk_eq

theorem Passes.isDirectory (h : Passes t t') {p : Path}
    (hp : t.isDirectory p = .ok true) :
    t'.isDirectory p = .ok true := by
  obtain ⟨l, hlocate⟩ := exists_found_of_isDirectory hp
  have hwalk := h.walkThrough (locate_eq_ok hlocate)
  have hfound : t'.locate true p = .ok (.found l .directory) := by
    unfold locate at hlocate ⊢
    split_ifs at hlocate ⊢
    rw [h.workingDirectory, hwalk]
    rfl
  rw [FileTree.isDirectory, lookup, hfound]
  rfl

end FileTree

/-! ## Disks -/

open FileTree

/-- A disk whose operations change what their paths lead to and nothing else. -/
structure Disk.Pathwise {σ : Type} (disk : Disk (StateM σ))
    (tree : σ → FileTree) : Prop where
  read : ∀ {p s r t}, (disk.readText p).run s = (r, t) → tree t = tree s
  write : ∀ {p text s r t}, (disk.writeText p text).run s = (r, t) →
    Alters true p (tree s) (tree t)
  remove : ∀ {p s r t},
    (disk.removeFile p).run s = (r, t) → Alters false p (tree s) (tree t)
  create : ∀ {p s r t},
    (disk.createDirectories p).run s = (r, t) → Builds p (tree s) (tree t)

/-- A renderer that changes what the path of its output leads to and nothing
else. -/
def Renderer.Pathwise {σ : Type} (renderer : Renderer (StateM σ))
    (tree : σ → FileTree) : Prop :=
  ∀ {input output s r t}, (renderer input output).run s = (r, t) →
    Alters true output (tree s) (tree t)

namespace FileTree

variable {t t' : FileTree}

/-- A change of what stands at one location. -/
theorem alters_of_at? {follow : Bool} {p : Path} {l : Location}
    {e : Option Entry}
    (hleads : t.Leads false p l ∨ follow = true ∧ t.Leads true p l)
    (hl : t.at? l ≠ some .directory) (he : e ≠ some .directory)
    (hdir : t'.workingDirectory = t.workingDirectory)
    (hat : ∀ k, t'.at? k = if k = l then e else t.at? k) :
    Alters follow p t t' := by
  have heq : ∀ k, t'.at? k ≠ t.at? k → k = l := by
    intro k hk
    by_contra hkl
    exact hk (by rw [hat, if_neg hkl])
  refine ⟨hdir, fun k hk => heq k hk ▸ hleads, fun k hk => heq k hk ▸ hl,
    fun k hk => ?_⟩
  rw [hat, if_pos (heq k hk)]
  exact he

theorem ne_root {l : Location} (hl : t.at? l ≠ some .directory) : l ≠ [] := by
  rintro rfl
  exact hl at?_root

theorem alters_put {p : Path} {l : Location} {content : ByteArray}
    {executable : Bool} (hleads : t.Leads true p l)
    (hl : t.at? l ≠ some .directory) :
    Alters true p t (t.put l (.file content executable)) :=
  alters_of_at? (.inr ⟨rfl, hleads⟩) hl file_ne_directory rfl fun k =>
    at?_put t l k _ (ne_root hl)

theorem alters_erase {p : Path} {l : Location} (hleads : t.Leads false p l)
    (hl : t.at? l ≠ some .directory) : Alters false p t (t.erase l) :=
  alters_of_at? (.inl hleads) hl (Option.some_ne_none _).symm rfl fun k =>
    at?_erase t l k (ne_root hl)

theorem writeBytes_alters {p : Path} {content : ByteArray}
    (h : t.writeBytes p content = .ok t') :
    Alters true p t t' := by
  obtain ⟨stop, hlocate, hput⟩ := ok_of_bind h
  have hstands := locate_stands hlocate
  cases stop with
  | vacant above name =>
      obtain rfl := Except.ok.inj hput
      exact alters_put ⟨_, hlocate, rfl⟩
        (by rw [hstands]; exact (Option.some_ne_none _).symm)
  | found l e =>
      cases e with
      | directory => exact nomatch hput
      | link target => exact nomatch hput
      | file old executable =>
          obtain rfl := Except.ok.inj hput
          have hfile := hstands.resolve_left fun heq => nomatch heq
          exact alters_put ⟨_, hlocate, rfl⟩
            (by rw [hfile]; exact file_ne_directory)

theorem removeFile_alters {p : Path} (h : t.removeFile p = .ok t') :
    Alters false p t t' := by
  obtain ⟨stop, hlocate, herase⟩ := ok_of_bind h
  have hstands := locate_stands hlocate
  cases stop with
  | vacant above name => exact nomatch herase
  | found l e =>
      cases e with
      | directory => exact nomatch herase
      | file content executable =>
          obtain rfl := Except.ok.inj herase
          have hfile := hstands.resolve_left fun heq => nomatch heq
          exact alters_erase ⟨_, hlocate, rfl⟩
            (by rw [hfile]; exact file_ne_directory)
      | link target =>
          obtain rfl := Except.ok.inj herase
          have hlink := hstands.resolve_left fun heq => nomatch heq
          exact alters_erase ⟨_, hlocate, rfl⟩
            (by rw [hlink]; exact fun heq => nomatch heq)

theorem createDirectory_makes {p : Path} (h : t.createDirectory p = .ok t') :
    Makes p t t' := by
  obtain ⟨stop, hlocate, hput⟩ := ok_of_bind h
  cases stop with
  | found l e => exact nomatch hput
  | vacant above name =>
      obtain rfl := Except.ok.inj hput
      exact ⟨rfl, above, name, hlocate,
        fun l => at?_put _ _ _ _ (List.concat_ne_nil _ _)⟩

theorem createEach_builds {p : Path} {paths : List Path}
    (hpaths : paths ⊆ ancestry p) {r : Except SystemError Unit}
    (h : t.createEach paths = (r, t')) : Builds p t t' := by
  induction paths generalizing t with
  | nil =>
      obtain ⟨-, rfl⟩ := Prod.mk.inj h
      exact .refl
  | cons q paths ih =>
      obtain ⟨hq, hpaths⟩ := List.cons_subset.1 hpaths
      rw [createEach] at h
      cases hnext : t.createDirectory q with
      | ok next =>
          rw [hnext] at h
          exact .head ⟨q, hq, createDirectory_makes hnext⟩ (ih hpaths h)
      | error e =>
          rw [hnext] at h
          dsimp only at h
          split_ifs at h
          · exact ih hpaths h
          · obtain ⟨-, rfl⟩ := Prod.mk.inj h
            exact .refl

theorem createDirectories_builds {p : Path} {r : Except SystemError Unit}
    (h : t.createDirectories p = (r, t')) : Builds p t t' := by
  unfold createDirectories at h
  split at h
  · next absent hmissing =>
      exact createEach_builds
        (fun q hq => missing_subset hmissing (List.mem_reverse.1 hq)) h
  · obtain ⟨-, rfl⟩ := Prod.mk.inj h
    exact .refl

/-- A file tree is a pathwise disk, whatever stands in it. -/
theorem disk_pathwise : disk.Pathwise id where
  read h := (Prod.mk.inj h).2.symm
  write h := by
    rcases change_run h with ⟨-, hwrite⟩ | ⟨e, -, rfl, -⟩
    · exact writeBytes_alters hwrite
    · exact .refl _ _ _
  remove h := by
    rcases change_run h with ⟨-, hremove⟩ | ⟨e, -, rfl, -⟩
    · exact removeFile_alters hremove
    · exact .refl _ _ _
  create h := by
    rw [run_createDirectories] at h
    exact createDirectories_builds h

end FileTree

end FlowAtlas
