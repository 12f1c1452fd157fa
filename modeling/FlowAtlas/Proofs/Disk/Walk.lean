import FlowAtlas.Disk.Tree
import FlowAtlas.Proofs.Artifacts.Directory

/-!
# Where a path leads in a file tree

In a tree without links the names of a path lead to one location, whatever is in
the tree (`spot`), and a walk along the path either ends there or tells that
nothing is there (`walk_answers`). The invariant is that all that stands in the
tree stands in a directory (`Tidy`), so what is missing on the way is missing at
the end.

A name that steps back is where the two differ. A walk goes down first, and
misses a file that the names lead to when what it was to step back from is
missing. So that answer is trusted only if the names go straight down.
-/

namespace FlowAtlas.FileTree

open FlowAtlas.Path (Plain)

/-! ## Where names lead -/

/-- Where one name leads from a location, without regard to links. -/
def advance (l : Location) (name : String) : Location :=
  if name = "." then l else if name = ".." then l.dropLast else l ++ [name]

/-- Where a path leads, without regard to links. -/
def spot (dir : Location)
    (p : Path) : Location := (steps p).foldl advance (start dir p)

theorem advance_plain {n : String} (hn : Plain n) (l : Location) :
    advance l n = l ++ [n] := by
  rw [advance, if_neg hn.ne_here, if_neg hn.ne_above]

/-- The names of a path, without the one for a separator at the end. -/
def stations (p : Path) : List String :=
  ((Text.splitAtChar '/' p.toList).map String.ofList).filter (· ≠ "")

theorem steps_eq (p : Path) :
    steps p = stations p ∨ steps p = stations p ++ ["."] := by
  unfold steps
  dsimp only
  split
  · exact .inr rfl
  · exact .inl rfl

theorem spot_eq (dir : Location) (p : Path) :
    spot dir p = (stations p).foldl advance (start dir p) := by
  rw [spot]
  rcases steps_eq p with h | h
  · rw [h]
  · rw [h, List.foldl_append]
    rfl

theorem above_mem_steps
    {p : Path} :
    ".." ∈ steps p ↔ ['.', '.'] ∈ Text.splitAtChar '/' p.toList := by
  have hstations :
      ".." ∈ stations p ↔ ['.', '.'] ∈ Text.splitAtChar '/' p.toList := by
    rw [stations, List.mem_filter, List.mem_map]
    constructor
    · rintro ⟨⟨cs, hcs, heq⟩, -⟩
      obtain rfl : cs = ['.', '.'] := by
        rw [← @String.toList_ofList cs, heq]
        rfl
      exact hcs
    · exact fun h => ⟨⟨_, h, rfl⟩, by decide⟩
  rcases steps_eq p with h | h
  · rw [h, hstations]
  · rw [h, List.mem_append, hstations]
    exact or_iff_left (by decide)

/-! ## Trees in order -/

/-- A tree without links in which all that stands, stands in a directory, and
that is walked from a directory. -/
structure Tidy (dir : Location) (t : FileTree) : Prop where
  workingDirectory : t.workingDirectory = dir
  start : t.at? dir = some .directory
  unlinked : ∀ l target, t.at? l ≠ some (.link target)
  parent : ∀ l name, t.at? (l ++ [name]) ≠ none → t.at? l = some .directory

theorem tidy_empty : Tidy [] {} := by
  constructor
  · rfl
  · rfl
  · intro l target h
    unfold at? at h
    split at h <;> exact nomatch h
  · intro l name h
    refine absurd ?_ h
    rw [at?, if_neg (by simp)]
    rfl

/-- The bytes of the file at a location, if a file stands there. -/
def bytesAt (t : FileTree) (l : Location) : Option ByteArray :=
  match t.at? l with
  | some (.file content _) => some content
  | _ => none

variable {dir : Location} {t : FileTree}

theorem bytesAt_none
    (h : ∀ content executable, t.at? l ≠ some (.file content executable)) :
    t.bytesAt l = none := by
  unfold bytesAt
  split
  · next heq => exact absurd heq (h _ _)
  · rfl

theorem at?_root : t.at? [] = some .directory := rfl

namespace Tidy

theorem at?_start (h : t.Tidy dir) (p : Path) :
    t.at? (FileTree.start dir p) = some .directory := by
  unfold FileTree.start
  split
  · exact at?_root
  · exact h.start

theorem at?_dropLast (h : t.Tidy dir) {l : Location}
    (hl : t.at? l = some .directory) :
    t.at? l.dropLast = some .directory := by
  rcases List.eq_nil_or_concat l with rfl | ⟨above, name, rfl⟩
  · exact hl
  · rw [List.concat_eq_append] at hl
    rw [List.concat_eq_append, List.dropLast_concat]
    exact h.parent above name (by rw [hl]; exact Option.some_ne_none _)

/-- What is not there has nothing below it. -/
theorem at?_below (h : t.Tidy dir) {l : Location} (hl : t.at? l = none)
    {names : List String} (hnames : ".." ∉ names) :
    t.at? (names.foldl advance l) = none := by
  induction names generalizing l with
  | nil => exact hl
  | cons name names ih =>
      rw [List.mem_cons, not_or] at hnames
      rw [List.foldl_cons]
      refine ih ?_ hnames.2
      by_cases hhere : name = "."
      · rwa [advance, if_pos hhere]
      · rw [advance, if_neg hhere, if_neg (Ne.symm hnames.1)]
        by_contra hsome
        rw [h.parent l name hsome] at hl
        exact nomatch hl

/-- What is no directory stands in one. -/
theorem exists_above (h : t.Tidy dir) {l : Location}
    (hl : t.at? l ≠ some .directory) (hsome : t.at? l ≠ none) :
    ∃ above name, l = above ++ [name] ∧ t.at? above = some .directory := by
  rcases List.eq_nil_or_concat l with rfl | ⟨above, name, rfl⟩
  · exact absurd at?_root hl
  · rw [List.concat_eq_append] at hsome
    exact ⟨above, name, List.concat_eq_append, h.parent above name hsome⟩

/-- A file or a directory put into a directory, where no directory was. -/
theorem put (h : t.Tidy dir) {above : Location} {name : String} {e : Entry}
    (habove : t.at? above = some .directory)
    (hold : t.at? (above ++ [name]) ≠ some .directory)
    (hlink : ∀ target, e ≠ .link target) :
    (t.put (above ++ [name]) e).Tidy dir := by
  have hne : above ++ [name] ≠ [] := by simp
  have hkeep : ∀ l, t.at? l = some .directory →
      (t.put (above ++ [name]) e).at? l = some .directory := by
    intro l hl
    rw [at?_put _ _ _ _ hne, if_neg, hl]
    rintro rfl
    exact hold hl
  constructor
  · exact h.workingDirectory
  · exact hkeep dir h.start
  · intro l target hl
    rw [at?_put _ _ _ _ hne] at hl
    split at hl
    · exact hlink target (Option.some.inj hl)
    · exact h.unlinked l target hl
  · intro l n hl
    rw [at?_put _ _ _ _ hne] at hl
    split at hl
    · next heq =>
        obtain ⟨rfl, -⟩ := List.append_inj' heq rfl
        exact hkeep _ habove
    · exact hkeep l (h.parent l n hl)

/-- A file that is taken away. -/
theorem erase (h : t.Tidy dir) {l : Location} (hl : t.at? l ≠ some .directory) :
    (t.erase l).Tidy dir := by
  have hne : l ≠ [] := by
    rintro rfl
    exact hl at?_root
  have hkeep :
      ∀ k, t.at? k = some .directory → (t.erase l).at? k = some .directory := by
    intro k hk
    rw [at?_erase _ _ _ hne, if_neg, hk]
    rintro rfl
    exact hl hk
  constructor
  · exact h.workingDirectory
  · exact hkeep dir h.start
  · intro k target hk
    rw [at?_erase _ _ _ hne] at hk
    split at hk
    · exact nomatch hk
    · exact h.unlinked k target hk
  · intro k n hk
    rw [at?_erase _ _ _ hne] at hk
    split at hk
    · exact absurd rfl hk
    · exact hkeep k (h.parent k n hk)

end Tidy

theorem bytesAt_put {l k : Location} {e : Entry} (hne : l ≠ []) (hk : k ≠ l) :
    (t.put l e).bytesAt k = t.bytesAt k := by
  rw [bytesAt, at?_put _ _ _ _ hne, if_neg hk, bytesAt]

theorem bytesAt_put_file {l : Location} {content : ByteArray}
    {executable : Bool} (hne : l ≠ []) :
    (t.put l (.file content executable)).bytesAt l = some content := by
  rw [bytesAt, at?_put _ _ _ _ hne, if_pos rfl]

/-! ## Walking -/

/-- A walk that has stopped where the names lead. -/
def Stop.Reaches (t : FileTree) (l : Location) : Stop → Prop
  | .found l' e => l' = l ∧ t.at? l = some e
  | .vacant above name =>
    above ++ [name] = l ∧ t.at? above = some .directory ∧ t.at? l = none

/-- What the end of a walk tells about the location that the names lead to. If
the names do not step back, an entry that is missing on the way is missing
there, too. -/
def Answers (t : FileTree) (l : Location) (straight : Prop) :
    Except SystemError.Code Stop → Prop
  | .ok stop => stop.Reaches t l
  | .error code => code = .noEntry → straight → t.at? l = none

theorem Answers.mono {l : Location} {straight straight' : Prop}
    {r : Except SystemError.Code Stop} (h : Answers t l straight r)
    (himp : straight' → straight) : Answers t l straight' r := by
  cases r with
  | ok stop => exact h
  | error code => exact fun hcode hstraight => h hcode (himp hstraight)

theorem walk_answers (h : t.Tidy dir) {follow : Bool}
    {through : Location → List String → Except SystemError.Code Stop}
    {l : Location} (hl : t.at? l = some .directory) (names : List String) :
    Answers t (names.foldl advance l) (".." ∉ names)
      (t.walk follow through l names) := by
  have htail : ∀ name rest, ".." ∉ name :: rest → ".." ∉ rest :=
    fun _ _ hnot hmem =>
      hnot (List.mem_cons_of_mem _ hmem)
  induction names generalizing l with
  | nil =>
      unfold walk
      exact ⟨rfl, hl⟩
  | cons name names ih =>
      rw [List.foldl_cons]
      unfold walk
      split
      · next heq => exact nomatch heq
      · next rest heq =>
          obtain ⟨rfl, rfl⟩ := List.cons.inj heq
          exact (ih hl).mono (htail _ _)
      · -- A step back leads to a directory: all that stands, stands in one.
        next rest heq =>
          obtain ⟨rfl, rfl⟩ := List.cons.inj heq
          exact (ih (h.at?_dropLast hl)).mono (htail _ _)
      · next other rest hhere habove heq =>
          obtain ⟨rfl, rfl⟩ := List.cons.inj heq
          rw [advance, if_neg hhere, if_neg habove]
          split
          · exact fun hcode => nomatch hcode
          · dsimp only
            split
            · -- Nothing here: the walk ends, or it misses a directory.
              next hnone =>
                split
                · next hrest =>
                    subst hrest
                    exact ⟨rfl, hl, hnone⟩
                · exact fun _ hstraight =>
                    h.at?_below hnone (htail _ _ hstraight)
            · next hsome => exact (ih hsome).mono (htail _ _)
            · -- A link: there is none, so `through` is never asked.
              next target hsome => exact absurd hsome (h.unlinked _ target)
            · next entry hdir hlink hsome =>
                split
                · next hrest =>
                    subst hrest
                    exact ⟨rfl, hsome⟩
                · exact fun hcode => nomatch hcode

theorem exists_walkThrough (t : FileTree) (follow : Bool) (links : Nat) :
    ∃ through, t.walkThrough follow links = t.walk follow through := by
  cases links with
  | zero => exact ⟨_, rfl⟩
  | succ links => exact ⟨_, rfl⟩

/-- A path is refused for what it is, or its names are walked. -/
theorem locate_cases (h : t.Tidy dir) {follow : Bool} {p : Path}
    {r : Except SystemError Stop} (hlocate : t.locate follow p = r) :
    (∃ e, r = .error e ∧ e.kindOf ≠ .notFound)
      ∨ (p = "" ∧ ∃ e, r = .error e)
      ∨ ∃ r', Answers t (spot dir p) (".." ∉ steps p) r'
        ∧ r = r'.mapError .coded := by
  unfold locate at hlocate
  split at hlocate
  · exact .inl ⟨_, hlocate.symm, by decide⟩
  · split at hlocate
    · next hempty => exact .inr (.inl ⟨hempty, _, hlocate.symm⟩)
    · split at hlocate
      · exact .inl ⟨_, hlocate.symm, by decide⟩
      · obtain ⟨through, hthrough⟩ := exists_walkThrough t follow linkMax
        rw [hthrough, h.workingDirectory] at hlocate
        exact .inr
          (.inr ⟨_, walk_answers h (h.at?_start p) (steps p), hlocate.symm⟩)

theorem locate_ok (h : t.Tidy dir) {follow : Bool} {p : Path} {stop : Stop}
    (hlocate : t.locate follow p = .ok stop) : stop.Reaches t (spot dir p) := by
  rcases locate_cases h hlocate with ⟨e, he, -⟩ | ⟨-, e, he⟩ | ⟨r, hr, heq⟩
  · exact nomatch he
  · exact nomatch he
  · cases r with
    | ok stop' =>
        obtain rfl := Except.ok.inj heq
        exact hr
    | error code => exact nomatch heq

theorem locate_notFound (h : t.Tidy dir) {follow : Bool} {p : Path}
    {e : SystemError} (hlocate : t.locate follow p = .error e)
    (hkind : e.kindOf = .notFound) (hp : ".." ∉ steps p) :
    t.bytesAt (spot dir p) = none := by
  rcases locate_cases h hlocate with ⟨e', he, hne⟩ | ⟨rfl, -⟩ | ⟨r, hr, heq⟩
  · obtain rfl := Except.error.inj he
    exact absurd hkind hne
  · rw [bytesAt, show spot dir "" = dir from rfl, h.start]
  · cases r with
    | ok stop => exact nomatch heq
    | error code =>
        obtain rfl := Except.error.inj heq
        have hcode : code = .noEntry := by
          cases code <;> first | rfl | exact nomatch hkind
        rw [bytesAt, hr hcode hp]

/-! ## Paths in the output directory -/

theorem stations_eq (p : Path) {front back : List (List Char)}
    (h : Text.splitAtChar '/' p.toList = front ++ back) :
    stations p = (front.map String.ofList).filter (· ≠ "")
      ++ (back.map String.ofList).filter (· ≠ "") := by
  rw [stations, h, List.map_append, List.filter_append]

/-- The pieces of a path below a directory: those that lead there, and those of
its own. -/
theorem exists_pieces_join (root : Path) :
    ∃ front, (front.map String.ofList).filter (· ≠ "") = stations root
      ∧ (∀ cs ∈ front, cs ∈ Text.splitAtChar '/' root.toList)
      ∧ ∀ n, ¬ Path.isAbsolute n = true →
          Text.splitAtChar '/' (root.join n).toList
            = front ++ Text.splitAtChar '/' n.toList := by
  by_cases hempty : root = ""
  · subst hempty
    refine ⟨[], rfl, fun _ hcs => absurd hcs List.not_mem_nil, fun n hn => ?_⟩
    rw [Path.join, if_neg hn, if_pos (.inl rfl), String.empty_append,
      List.nil_append]
  · by_cases hend : root.toList.getLast? = some '/'
    · obtain ⟨cs, hcs⟩ := List.getLast?_eq_some_iff.1 hend
      have hpieces : Text.splitAtChar '/' root.toList
          = Text.splitAtChar '/' cs ++ [[]] := by
        rw [hcs, Text.splitAtChar_append]
        rfl
      refine ⟨Text.splitAtChar '/' cs, ?_, fun _ hmem => ?_, fun n hn => ?_⟩
      · rw [stations_eq root hpieces]
        exact (List.append_nil _).symm
      · rw [hpieces]
        exact List.mem_append_left _ hmem
      · rw [Path.join, if_neg hn, if_pos (.inr hend), String.toList_append, hcs,
          List.append_assoc, List.singleton_append, Text.splitAtChar_append]
    · refine ⟨Text.splitAtChar '/' root.toList, rfl,
        fun _ hmem => hmem, fun n hn => ?_⟩
      rw [Path.join, if_neg hn, if_neg (not_or.2 ⟨hempty, hend⟩),
        String.toList_append, String.toList_append, List.append_assoc]
      exact Text.splitAtChar_append '/' _ _

theorem start_join (root : Path) {n : String}
    (hn : ¬ Path.isAbsolute n = true) :
    start dir (root.join n) = start dir root := by
  have hhead : Path.isAbsolute (root.join n) = Path.isAbsolute root := by
    by_cases hempty : root = ""
    · subst hempty
      rw [Path.join, if_neg hn, if_pos (.inl rfl), String.empty_append,
        eq_false_of_ne_true hn]
      rfl
    · obtain ⟨c, cs, hcs⟩ :=
        List.exists_cons_of_ne_nil (mt String.toList_eq_nil_iff.1 hempty)
      rw [Path.join, if_neg hn]
      split <;> simp [Path.isAbsolute, hcs]
  rw [start, start, hhead]

theorem spot_join (root : Path) {n : String} (hn : ¬ Path.isAbsolute n = true) :
    spot dir (root.join n) = (stations n).foldl advance (spot dir root) := by
  obtain ⟨front, hfront, -, hpieces⟩ := exists_pieces_join root
  rw [spot_eq, spot_eq, start_join root hn, stations_eq _ (hpieces n hn),
    hfront, List.foldl_append]
  rfl

theorem spot_pathTo (root : Path) {names : List String}
    (hnames : ∀ n ∈ names, n ≠ "" ∧ '/' ∉ n.toList) :
    spot dir (Snapshot.pathTo root names)
      = names.foldl advance (spot dir root) := by
  induction names generalizing root with
  | nil => rfl
  | cons n names ih =>
      obtain ⟨⟨hne, hslash⟩, hnames⟩ := List.forall_mem_cons.1 hnames
      have hstations : stations n = [n] := by
        rw [stations, Text.splitAtChar_eq_singleton hslash]
        simp [hne]
      show spot dir (Snapshot.pathTo (root.join n) names) = _
      rw [ih (root.join n) hnames,
        spot_join root (Path.not_isAbsolute_of_unslashed hslash), hstations]
      rfl

theorem foldl_advance_plain {names : List String}
    (hnames : ∀ n ∈ names, Plain n) (l : Location) :
    names.foldl advance l = l ++ names := by
  induction names generalizing l with
  | nil => exact (List.append_nil _).symm
  | cons n names ih =>
      obtain ⟨hn, hnames⟩ := List.forall_mem_cons.1 hnames
      rw [List.foldl_cons, ih hnames, advance_plain hn, List.append_assoc,
        List.singleton_append]

/-- A name that says nothing leads nowhere else. -/
theorem foldl_advance_filter (names : List String) (l : Location) :
    (names.filter (· ≠ "")).foldl advance l
      = (names.filter fun n => n ≠ "" ∧ n ≠ ".").foldl advance l := by
  induction names generalizing l with
  | nil => rfl
  | cons n names ih =>
      by_cases hempty : n = ""
      · rw [List.filter_cons_of_neg (by simp [hempty]),
          List.filter_cons_of_neg (by simp [hempty]), ih]
      · rw [List.filter_cons_of_pos (by simp [hempty]), List.foldl_cons, ih]
        by_cases hhere : n = "."
        · rw [List.filter_cons_of_neg (by simp [hhere]), advance, if_pos hhere]
        · rw [List.filter_cons_of_pos (by simp [hempty, hhere]),
            List.foldl_cons]

theorem foldl_advance_names (p : Path) (l : Location) :
    (Path.names p).foldl advance l = (stations p).foldl advance l := by
  obtain ⟨first, rest, hpieces, hnames⟩ := Path.exists_names_eq p
  rw [stations, hpieces, hnames, List.foldl_append, ← foldl_advance_filter]
  split
  · next hempty =>
      rw [List.filter_cons_of_neg (by simp [hempty]), List.foldl_nil]
  · next hempty =>
      rw [List.filter_cons_of_pos (by simp [hempty]), List.foldl_cons,
        List.foldl_cons, List.foldl_nil]

theorem spot_names (root : Path) {n : String}
    (hn : ¬ Path.isAbsolute n = true) :
    spot dir (root.join n)
      = spot dir (Snapshot.pathTo root (Path.names n)) := by
  have hnames : ∀ m ∈ Path.names n, m ≠ "" ∧ '/' ∉ m.toList := fun m hm =>
    ⟨Path.ne_empty_of_mem_names hm,
      Text.not_mem_of_mem_splitAtChar (Path.mem_pieces_of_mem_names hm)⟩
  rw [spot_join root hn, spot_pathTo root hnames, foldl_advance_names]

theorem spot_injective (root : Path) {ns ms : List String}
    (hns : ∀ n ∈ ns, Plain n) (hms : ∀ n ∈ ms, Plain n)
    (h : spot dir (Snapshot.pathTo root ns)
      = spot dir (Snapshot.pathTo root ms)) : ns = ms := by
  rw [spot_pathTo root fun n hn => ⟨(hns n hn).ne_empty, (hns n hn).unslashed⟩,
    spot_pathTo root fun n hn => ⟨(hms n hn).ne_empty, (hms n hn).unslashed⟩,
    foldl_advance_plain hns, foldl_advance_plain hms] at h
  exact List.append_cancel_left h

theorem straight_of_below {out : OutputDirectory}
    (hroot : ".." ∉ steps out.root) {p : Path} (hp : out.Below p) :
    ".." ∉ steps p := by
  obtain ⟨n, rfl, hn⟩ := hp
  rw [above_mem_steps] at hroot ⊢
  intro hmem
  by_cases habs : Path.isAbsolute n = true
  · rw [Path.join, if_pos habs] at hmem
    exact hn (Path.mem_names_of_mem_pieces hmem (by decide) (by decide))
  · obtain ⟨front, -, hfront, hpieces⟩ := exists_pieces_join out.root
    rw [hpieces n habs] at hmem
    rcases List.mem_append.1 hmem with hmem | hmem
    · exact hroot (hfront _ hmem)
    · exact hn (Path.mem_names_of_mem_pieces hmem (by decide) (by decide))

end FlowAtlas.FileTree
