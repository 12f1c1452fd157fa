import FlowAtlas.Proofs.Disk.Tree

/-!
# Walks below a directory that stands

Two trees in which the same stands along a path are walked alike
(`locate_congr`). Where the output directory stands, the part of a path that
leads to it is the same in all trees, because only directories are above a
directory. What is left are the names behind it, one for most files and two for
those of the architecture, and so a walk depends on what stands there.

Some paths are refused for what they are (`Barred`). Any other path to a file in
a directory that stands is walked to its end.
-/

namespace FlowAtlas.FileTree

open FlowAtlas.Path (Plain)
open OutputDirectory

variable {dir : Location} {t t' : FileTree}

/-! ## Walks in two trees -/

theorem walk_cons {follow : Bool}
    {through : Location → List String → Except SystemError.Code Stop}
    {l : Location} {name : String} (hhere : name ≠ ".") (habove : name ≠ "..")
    (rest : List String) :
    t.walk follow through l (name :: rest)
      = if name.utf8ByteSize > nameMax then .error .nameTooLong
        else match t.at? (l ++ [name]) with
          | none => if rest = [] then .ok (.vacant l name) else .error .noEntry
          | some .directory => t.walk follow through (l ++ [name]) rest
          | some (.link target) =>
            if rest = [] ∧ !follow then
              .ok (.found (l ++ [name]) (.link target))
            else if target = "" then .error .noEntry
            else through (start l target) (steps target ++ rest)
          | some entry =>
            if rest = [] then .ok (.found (l ++ [name]) entry)
            else .error .notDirectory :=
  walk.eq_4 t follow through l name rest hhere habove

/-- A walk goes by what stands at the locations that it comes through. -/
theorem walk_congr (h : t.Tidy dir) {follow follow' : Bool}
    {through through' : Location → List String → Except SystemError.Code Stop}
    {l : Location} {names : List String} (hsame : ∀ front, front <+: names →
      t.at? (front.foldl advance l) = t'.at? (front.foldl advance l)) :
    t.walk follow through l names = t'.walk follow' through' l names := by
  induction names generalizing l with
  | nil => rw [walk, walk]
  | cons name names ih =>
      have hrest : t.walk follow through (advance l name) names
          = t'.walk follow' through' (advance l name) names := by
        refine ih fun front hfront => ?_
        exact hsame (name :: front) (List.cons_prefix_cons.2 ⟨rfl, hfront⟩)
      by_cases hhere : name = "."
      · subst hhere
        rw [walk, walk]
        exact hrest
      · by_cases habove : name = ".."
        · subst habove
          rw [walk, walk]
          exact hrest
        · have hadvance : advance l name = l ++ [name] := by
            rw [advance, if_neg hhere, if_neg habove]
          have hname :=
            hsame [name] (List.cons_prefix_cons.2 ⟨rfl, List.nil_prefix⟩)
          rw [List.foldl_cons, List.foldl_nil, hadvance] at hname
          rw [hadvance] at hrest
          rw [walk_cons hhere habove, walk_cons hhere habove, ← hname]
          cases hentry : t.at? (l ++ [name]) with
          | none => rfl
          | some entry =>
              cases entry with
              | directory =>
                  dsimp only
                  rw [hrest]
              | link target => exact absurd hentry (h.unlinked _ target)
              | file content executable => rfl

theorem locate_congr (h : t.Tidy dir) (h' : t'.Tidy dir) {follow follow' : Bool}
    {p : Path}
    (hsame : ∀ front, front
      <+: steps p → t.at? (front.foldl advance (start dir p))
      = t'.at? (front.foldl advance (start dir p))) :
    t.locate follow p = t'.locate follow' p := by
  obtain ⟨through, hthrough⟩ := exists_walkThrough t follow linkMax
  obtain ⟨through', hthrough'⟩ := exists_walkThrough t' follow' linkMax
  have hwalk : t.walk follow through (start dir p) (steps p)
      = t'.walk follow' through' (start dir p) (steps p) := walk_congr h hsame
  rw [locate, locate, hthrough, hthrough', h.workingDirectory,
    h'.workingDirectory, hwalk]

/-- Above a directory there are directories. -/
theorem Tidy.at?_front (h : t.Tidy dir) {l : Location} {names : List String}
    (hnames : ".." ∉ names)
    (hend : t.at? (names.foldl advance l) = some .directory)
    {front : List String} (hfront : front <+: names) :
    t.at? (front.foldl advance l) = some .directory := by
  obtain ⟨back, rfl⟩ := hfront
  rw [List.foldl_append] at hend
  have hback : ".." ∉ back := fun hmem => hnames (List.mem_append_right _ hmem)
  clear hnames
  generalize front.foldl advance l = m at hend ⊢
  induction back generalizing m with
  | nil => exact hend
  | cons name back ih =>
      rw [List.mem_cons, not_or] at hback
      have hnext := ih hback.2 (advance m name) hend
      by_cases hhere : name = "."
      · rwa [advance, if_pos hhere] at hnext
      · rw [advance, if_neg hhere, if_neg (Ne.symm hback.1)] at hnext
        exact h.parent m name (by rw [hnext]; exact Option.some_ne_none _)

/-! ## Paths below the output directory -/

theorem dropSeparators_of_unslashed {p : Path}
    (h : p.toList.getLast? ≠ some '/') :
    dropSeparators p = p := by
  unfold dropSeparators
  cases hrev : p.toList.reverse with
  | nil => rfl
  | cons c cs =>
      have hc : c ≠ '/' := by
        rintro rfl
        exact h (by rw [← List.head?_reverse, hrev]; rfl)
      rw [List.dropWhile_cons_of_neg (by simpa using hc)]
      show String.ofList (c :: cs).reverse = p
      rw [← hrev, List.reverse_reverse, String.ofList_toList]

/-- A name that is walked in one step. -/
structure Single (n : String) : Prop where
  ne_empty : n ≠ ""
  unslashed : '/' ∉ n.toList

namespace Single

variable {n : String}

theorem of_plain (h : Plain n) : Single n := ⟨h.ne_empty, h.unslashed⟩

theorem relative (h : Single n) : ¬ Path.isAbsolute n = true :=
  Path.not_isAbsolute_of_unslashed h.unslashed

theorem stations_eq (h : Single n) : stations n = [n] := by
  rw [stations, Text.splitAtChar_eq_singleton h.unslashed]
  simp [h.ne_empty]

theorem stations_join (h : Single n) (root : Path) :
    stations (root.join n) = stations root ++ [n] := by
  obtain ⟨front, hfront, -, hpieces⟩ := exists_pieces_join root
  have hname := h.stations_eq
  rw [stations] at hname
  rw [FileTree.stations_eq _ (hpieces n h.relative), hfront, hname]

theorem getLast?_join (h : Single n) (root : Path) :
    (root.join n).toList.getLast? ≠ some '/' := by
  obtain ⟨cs, c, hcs⟩ := List.eq_nil_or_concat n.toList
    |>.resolve_left fun hnil =>
    h.ne_empty (String.toList_eq_nil_iff.1 hnil)
  obtain ⟨lead, -, hjoin⟩ := Path.exists_join_eq root
  rw [hjoin n h.relative, String.toList_append, hcs, List.concat_eq_append,
    ← List.append_assoc, List.getLast?_concat]
  intro hc
  obtain rfl := Option.some.inj hc
  exact h.unslashed (by simp [hcs])

theorem steps_join (h : Single n) (root : Path) :
    steps (root.join n) = stations root ++ [n] := by
  rw [← h.stations_join, steps, if_neg fun hslash =>
    h.getLast?_join root hslash.1]
  rfl

theorem dropSeparators_join (h : Single n) (root : Path) :
    dropSeparators (root.join n) = root.join n :=
  dropSeparators_of_unslashed (h.getLast?_join root)

theorem join_ne_empty (h : Single n) (root : Path) : root.join n ≠ "" := by
  obtain ⟨lead, -, hjoin⟩ := Path.exists_join_eq root
  rw [hjoin n h.relative]
  exact fun hempty => h.ne_empty (String.append_eq_empty_iff.1 hempty).2

theorem spot_join (h : Single n) (root : Path) :
    spot dir (root.join n) = advance (spot dir root) n := by
  rw [FileTree.spot_join root h.relative, h.stations_eq]
  rfl

end Single

/-- In trees in which a directory stands, a path below it is walked by the names
behind it. -/
theorem locate_below (h : t.Tidy dir) (h' : t'.Tidy dir) {root p : Path}
    (hroot : ".." ∉ stations root)
    (hstands : t.at? (spot dir root) = some .directory)
    (hstands' : t'.at? (spot dir root) = some .directory)
    (hstart : start dir p = start dir root) {names : List String}
    (hsteps : steps p = stations root ++ names)
    (hsame : ∀ front, front ≠ [] → front <+: names →
      t.at? (front.foldl advance (spot dir root))
      = t'.at? (front.foldl advance (spot dir root))) {follow follow' : Bool} :
    t.locate follow p = t'.locate follow' p := by
  refine locate_congr h h' fun front hfront => ?_
  rw [hsteps] at hfront
  rw [hstart]
  rw [spot_eq] at hstands hstands' hsame
  rcases List.prefix_or_prefix_of_prefix hfront (List.prefix_append _ _) with
    hbefore | ⟨behind, rfl⟩
  · rw [h.at?_front hroot hstands hbefore, h'.at?_front hroot hstands' hbefore]
  · rw [List.foldl_append]
    by_cases hnil : behind = []
    · rw [hnil, List.foldl_nil, hstands, hstands']
    · exact hsame behind hnil ((List.prefix_append_right_inj _).1 hfront)

/-! ## Paths that are refused for what they are -/

/-- A name that no walk passes. -/
def Overlong (name : String) : Prop :=
  name ≠ "." ∧ name ≠ ".." ∧ nameMax < name.utf8ByteSize

/-- A path that is refused whatever stands in the tree. -/
def Barred (p : Path) : Prop :=
  '\x00' ∈ p.toList ∨ pathMax ≤ p.utf8ByteSize ∨ ∃ name ∈ steps p, Overlong name

theorem walk_overlong {follow : Bool}
    {through : Location → List String → Except SystemError.Code Stop}
    {l : Location} {name : String} (hlong : Overlong name)
    (rest : List String) :
    t.walk follow through l (name :: rest) = .error .nameTooLong := by
  obtain ⟨hhere, habove, hsize⟩ := hlong
  rw [walk_cons hhere habove, if_pos hsize]

/-- Along directories a walk goes on, if no name is too long. -/
theorem walk_append {follow : Bool}
    {through : Location → List String → Except SystemError.Code Stop}
    {l : Location} {names : List String} (rest : List String)
    (hdirs : ∀ front,
      front <+: names → t.at? (front.foldl advance l) = some .directory) :
    ((∃ name ∈ names, Overlong name)
        ∧ t.walk follow through l (names ++ rest) = .error .nameTooLong)
      ∨ (∀ name ∈ names, ¬ Overlong name)
        ∧ t.walk follow through l (names ++ rest)
        = t.walk follow through (names.foldl advance l) rest := by
  induction names generalizing l with
  | nil => exact .inr ⟨fun _ hname => absurd hname List.not_mem_nil, rfl⟩
  | cons name names ih =>
      rw [List.cons_append, List.foldl_cons]
      by_cases hlong : Overlong name
      · exact .inl ⟨⟨name, List.mem_cons_self, hlong⟩, walk_overlong hlong _⟩
      · have hstep : t.walk follow through l (name :: (names ++ rest))
            = t.walk follow through (advance l name) (names ++ rest) := by
          by_cases hhere : name = "."
          · subst hhere
            rw [walk]
            rfl
          · by_cases habove : name = ".."
            · subst habove
              rw [walk]
              rfl
            · have hentry :=
                hdirs [name] (List.cons_prefix_cons.2 ⟨rfl, List.nil_prefix⟩)
              rw [List.foldl_cons, List.foldl_nil, advance, if_neg hhere,
                if_neg habove] at hentry
              rw [walk_cons hhere habove, if_neg fun hsize =>
                hlong ⟨hhere, habove, hsize⟩, hentry,
                advance, if_neg hhere, if_neg habove]
        rw [hstep]
        have hnext : ∀ front, front <+: names →
            t.at? (front.foldl advance (advance l name)) = some .directory :=
          fun front hfront =>
            hdirs (name :: front) (List.cons_prefix_cons.2 ⟨rfl, hfront⟩)
        rcases ih hnext with ⟨⟨other, hother, hbad⟩, hwalk⟩ | ⟨hgood, hwalk⟩
        · exact .inl ⟨⟨other, List.mem_cons_of_mem _ hother, hbad⟩, hwalk⟩
        · exact .inr ⟨List.forall_mem_cons.2 ⟨hlong, hgood⟩, hwalk⟩

theorem walk_last (h : t.Tidy dir) {follow : Bool}
    {through : Location → List String → Except SystemError.Code Stop}
    {l : Location} {n : String} (hlong : ¬ Overlong n) :
    ∃ stop, t.walk follow through l [n] = .ok stop := by
  by_cases hhere : n = "."
  · subst hhere
    rw [walk, walk]
    exact ⟨_, rfl⟩
  · by_cases habove : n = ".."
    · subst habove
      rw [walk, walk]
      exact ⟨_, rfl⟩
    · rw [walk_cons hhere habove, if_neg fun hsize =>
        hlong ⟨hhere, habove, hsize⟩]
      cases hentry : t.at? (l ++ [n]) with
      | none => exact ⟨_, rfl⟩
      | some entry =>
          cases entry with
          | directory =>
              dsimp only
              rw [walk]
              exact ⟨_, rfl⟩
          | link target => exact absurd hentry (h.unlinked _ target)
          | file content executable => exact ⟨_, rfl⟩

/-- A refusal that tells neither that something is missing nor that something is
there. -/
def Firm (e : SystemError) : Prop := e.kindOf ∉ [.notFound, .alreadyExists]

/-- A path is refused for what it is, or its names are walked. -/
theorem locate_open (h : t.Tidy dir) {p : Path} (hp : p ≠ "") (follow : Bool) :
    (Barred p ∧ ∃ e, t.locate follow p = .error e ∧ Firm e)
      ∨ (Barred p ↔ ∃ name ∈ steps p, Overlong name)
        ∧ ∃ through, t.locate follow p
        = (t.walk follow through (start dir p) (steps p)).mapError .coded := by
  rw [locate, if_neg hp]
  split
  · next hnul =>
      exact .inl ⟨.inl (List.contains_iff_mem.1 hnul), _,
        rfl, by unfold Firm; decide⟩
  · next hnul =>
      split
      · next hsize =>
          exact .inl ⟨.inr (.inl hsize), _, rfl, by unfold Firm; decide⟩
      · next hsize =>
          obtain ⟨through, hthrough⟩ := exists_walkThrough t follow linkMax
          refine .inr ⟨?_, through, by rw [hthrough, h.workingDirectory]⟩
          have hclean : '\x00' ∉ p.toList :=
            fun hmem => hnul (List.contains_iff_mem.2 hmem)
          simp only [Barred, hclean, false_or]
          exact or_iff_right hsize

/-- What stands in a directory is found, or it is seen that nothing stands
there. -/
theorem locate_in_directory (h : t.Tidy dir) {p : Path} {names : List String}
    {n : String} (hp : p ≠ "") (hsteps : steps p = names ++ [n])
    (hdirs : ∀ front,
      front <+: names → t.at? (front.foldl advance (start dir p))
        = some .directory)
    (follow : Bool) :
    (Barred p ∧ ∃ e, t.locate follow p = .error e ∧ Firm e)
      ∨ ¬ Barred p ∧ ∃ stop, t.locate follow p = .ok stop := by
  rcases locate_open h hp follow with hbarred | ⟨hbarred, through, hlocate⟩
  · exact .inl hbarred
  · have hrefused :
        ∀ {r : Except SystemError.Code Stop}, r = .error .nameTooLong →
          ∃ e, r.mapError SystemError.coded = .error e ∧ Firm e := by
      rintro r rfl
      exact ⟨_, rfl, by unfold Firm; decide⟩
    rw [hlocate, hbarred, hsteps]
    rcases walk_append [n] hdirs with
      ⟨⟨name, hname, hlong⟩, hwalk⟩ | ⟨hshort, hwalk⟩
    · exact .inl ⟨⟨name, List.mem_append_left _ hname, hlong⟩, hrefused hwalk⟩
    · by_cases hlong : Overlong n
      · exact .inl ⟨⟨n, List.mem_append_right _ List.mem_cons_self, hlong⟩,
          hrefused (hwalk.trans (walk_overlong hlong []))⟩
      · obtain ⟨stop, hstop⟩ := walk_last h hlong
        refine .inr ⟨?_, stop, by rw [hwalk, hstop]; rfl⟩
        rintro ⟨name, hname, hbad⟩
        rcases List.mem_append.1 hname with hname | hname
        · exact hshort name hname hbad
        · rw [List.mem_singleton.1 hname] at hbad
          exact hlong hbad

/-! ## What stands in the output directory -/

/-- A tree in which the output directory stands. -/
structure Stands (dir : Location) (root : Path) (t : FileTree) : Prop where
  tidy : t.Tidy dir
  here : t.at? (spot dir root) = some .directory

variable {root : Path} {out : OutputDirectory}

theorem above_mem_stations {p : Path} : ".." ∈ stations p ↔ ".." ∈ steps p := by
  rcases steps_eq p with h | h
  · rw [h]
  · rw [h, List.mem_append]
    exact (or_iff_left (by decide)).symm

theorem Stands.front (h : Stands dir root t) (hroot : ".." ∉ steps root)
    {front : List String} (hfront : front <+: stations root) :
    t.at? (front.foldl advance (start dir root)) = some .directory := by
  refine h.tidy.at?_front (mt above_mem_stations.1 hroot) ?_ hfront
  rw [← spot_eq]
  exact h.here

theorem Stands.locate_join (h : Stands dir root t) (hroot : ".." ∉ steps root)
    {n : String} (hn : Single n) (follow : Bool) :
    (Barred (root.join n)
        ∧ ∃ e, t.locate follow (root.join n) = .error e ∧ Firm e)
      ∨ ¬ Barred (root.join n)
        ∧ ∃ stop, t.locate follow (root.join n) = .ok stop := by
  refine locate_in_directory h.tidy (hn.join_ne_empty root) (hn.steps_join root)
    (fun front hfront => ?_) follow
  rw [start_join root hn.relative]
  exact h.front hroot hfront

/-! ## The directory of the architecture -/

theorem single_architectureDirectory : Single architectureDirectory := by
  constructor <;> decide

theorem spot_architectureRoot :
    spot dir out.architectureRoot
      = spot dir out.root ++ [architectureDirectory] := by
  rw [OutputDirectory.architectureRoot, single_architectureDirectory.spot_join]
  rfl

theorem Single.start_architecture {n : String} (hn : Single n) :
    start dir (out.architectureRoot.join n) = start dir out.root := by
  rw [start_join _ hn.relative, OutputDirectory.architectureRoot,
    start_join _ single_architectureDirectory.relative]

theorem Single.steps_architecture {n : String} (hn : Single n) :
    steps (out.architectureRoot.join n)
      = stations out.root ++ [architectureDirectory, n] := by
  rw [hn.steps_join, OutputDirectory.architectureRoot,
    single_architectureDirectory.stations_join, List.append_assoc]
  rfl

/-- A file of the architecture is found like any other if its directory is
there. -/
theorem Stands.locate_architecture (h : Stands dir out.root t)
    (hroot : ".." ∉ steps out.root) {n : String} (hn : Single n)
    (hshort : ¬ Overlong n) (follow : Bool) :
    (Barred (out.architectureRoot.join n)
        ∧ ∃ e, t.locate follow (out.architectureRoot.join n) = .error e
        ∧ Firm e)
      ∨ ¬ Barred (out.architectureRoot.join n)
        ∧ (t.at? (spot dir out.architectureRoot) = some .directory
            ∧ (∃ stop, t.locate follow (out.architectureRoot.join n) = .ok stop)
          ∨ t.at? (spot dir out.architectureRoot) = none
            ∧ t.locate follow (out.architectureRoot.join n)
              = .error (.coded .noEntry)
          ∨ (∃ content executable,
              t.at? (spot dir out.architectureRoot)
                = some (.file content executable))
            ∧ t.locate follow (out.architectureRoot.join n)
              = .error (.coded .notDirectory)) := by
  have habove : ".." ∉ steps out.architectureRoot := by
    rw [OutputDirectory.architectureRoot,
      single_architectureDirectory.steps_join, List.mem_append,
      above_mem_stations]
    rintro (hmem | hmem)
    · exact hroot hmem
    · exact absurd hmem (by decide)
  by_cases hdir : t.at? (spot dir out.architectureRoot) = some .directory
  · rcases Stands.locate_join ⟨h.tidy, hdir⟩ habove hn follow with
      hbarred | ⟨hopen, hstop⟩
    · exact .inl hbarred
    · exact .inr ⟨hopen, .inl ⟨hdir, hstop⟩⟩
  · rcases locate_open h.tidy (hn.join_ne_empty out.architectureRoot)
      follow with
      hbarred | ⟨hbarred, through, hlocate⟩
    · exact .inl hbarred
    · rw [hlocate, hbarred, hn.steps_architecture, hn.start_architecture]
      have hdirs : ∀ front, front <+: stations out.root →
          t.at? (front.foldl advance (start dir out.root)) = some .directory :=
        fun front hfront => h.front hroot hfront
      rcases @walk_append t follow through _ _ [architectureDirectory, n]
        hdirs with
        ⟨⟨name, hname, hlong⟩, hwalk⟩ | ⟨hgood, hwalk⟩
      · exact .inl ⟨⟨name, List.mem_append_left _ hname, hlong⟩,
          _, by rw [hwalk]; rfl, by unfold Firm; decide⟩
      · right
        refine ⟨?_, ?_⟩
        · rintro ⟨name, hname, hbad⟩
          rcases List.mem_append.1 hname with hname | hname
          · exact hgood name hname hbad
          · simp only [List.mem_cons, List.not_mem_nil, or_false] at hname
            rcases hname with rfl | rfl
            · exact absurd hbad.2.2 (by decide)
            · exact hshort hbad
        · right
          rw [hwalk, ← spot_eq, walk_cons (by decide) (by decide),
            if_neg (by decide), spot_architectureRoot]
          rw [spot_architectureRoot] at hdir
          cases hentry :
            t.at? (spot dir out.root ++ [architectureDirectory]) with
          | none => exact .inl ⟨rfl, rfl⟩
          | some entry =>
              cases entry with
              | directory => exact absurd hentry hdir
              | link target => exact absurd hentry (h.tidy.unlinked _ target)
              | file content executable =>
                  exact .inr ⟨⟨content, executable, rfl⟩, rfl⟩

end FlowAtlas.FileTree
