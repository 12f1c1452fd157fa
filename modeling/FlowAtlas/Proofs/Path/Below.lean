import FlowAtlas.Proofs.Path
import FlowAtlas.Snapshot.Open

/-!
# Paths below a directory

Being in a directory is a fact about texts here: the path of the directory is
the path of the file without its last name (`DirectlyIn`). That path may be
written in another way than the directory was given, with a separator or a `.`
behind it, so paths are compared by their names (`Same`).

The names of a path below a directory are those of the directory and its own
behind them (`names_pathTo`). So the path has the last of its own names, and
with it the stem and the extension.
-/

namespace FlowAtlas.Path

/-! ## Paths of the same place -/

/-- Two paths begin at the same place and pass through the same names. -/
structure Same (p q : Path) : Prop where
  isAbsolute : isAbsolute p = isAbsolute q
  names : names p = names q

theorem Same.refl (p : Path) : p.Same p := ⟨rfl, rfl⟩

theorem Same.trans {p q r : Path} (h : p.Same q) (h' : q.Same r) : p.Same r :=
  ⟨h.isAbsolute.trans h'.isAbsolute, h.names.trans h'.names⟩

/-- The names in a text that stands behind a separator. -/
def namesBehind (cs : List Char) : List String :=
  ((Text.splitAtChar '/' cs).map String.ofList).filter fun n => n ≠ "" ∧ n ≠ "."

theorem names_append_slash (cs ds : List Char) :
    names (String.ofList (cs ++ '/' :: ds))
      = names (String.ofList cs) ++ namesBehind ds := by
  obtain ⟨first, rest, hpieces, hnames⟩ := exists_names_eq (String.ofList cs)
  rw [String.toList_ofList] at hpieces
  have hlong :
      (Text.splitAtChar '/' (String.ofList (cs ++ '/' :: ds)).toList).map
          String.ofList
        = first :: (rest ++ (Text.splitAtChar '/' ds).map String.ofList) := by
    rw [String.toList_ofList, Text.splitAtChar_append, List.map_append, hpieces,
      List.cons_append]
  rw [hnames, names, hlong, List.append_assoc]
  dsimp only
  rw [List.filter_append]
  split <;> rfl

theorem isAbsolute_append {cs : List Char} (h : cs ≠ []) (ds : List Char) :
    isAbsolute (String.ofList (cs ++ ds)) = isAbsolute (String.ofList cs) := by
  obtain ⟨c, cs, rfl⟩ := List.exists_cons_of_ne_nil h
  rw [Path.isAbsolute, Path.isAbsolute, String.toList_ofList,
    String.toList_ofList]
  rfl

/-- What is passed over at the end of a path holds no names. -/
theorem names_dropSilentEnd (cs : List Char) :
    names (String.ofList (dropSilentEnd cs).reverse)
      = names (String.ofList cs.reverse) := by
  fun_induction dropSilentEnd cs with
  | case1 cs ih =>
      rw [ih, List.reverse_cons, names_append_slash]
      exact (List.append_nil _).symm
  | case2 cs ih =>
      rw [ih, List.reverse_cons, List.reverse_cons, List.append_assoc,
        List.singleton_append, names_append_slash]
      exact (List.append_nil _).symm
  | case3 cs => rfl

/-- The path above a path is what stands in front of its last name. -/
theorem exists_parent?_eq {p : Path} {name before : List Char}
    (hlast : lastName p = (name, before)) (hne : name ≠ []) :
    ∃ above, parent? p = some above
      ∧ above.Same (String.ofList before.reverse) := by
  obtain ⟨c, name, rfl⟩ := List.exists_cons_of_ne_nil hne
  have hnames := names_dropSilentEnd before
  obtain ⟨silent, hbefore, hend⟩ := exists_silent before
  rw [parent?, hlast]
  dsimp only
  cases hdir : dropSilentEnd before with
  | nil =>
      -- Nothing but separators and `.` stands in front of the name, if anything
      -- does.
      refine ⟨_, rfl, ?_⟩
      rw [hdir] at hnames hbefore
      rcases hend with rfl | ⟨ds, rfl⟩
      · rw [hbefore]
        exact .refl _
      · rw [if_neg (by simp [hbefore])]
        refine ⟨?_, hnames⟩
        rw [hbefore]
        simp [Path.isAbsolute]
  | cons d dir =>
      refine ⟨_, rfl, ?_, by rw [← hnames, hdir]⟩
      rw [hbefore, hdir, List.reverse_append]
      exact (isAbsolute_append (by simp) _).symm

/-! ## A file in a directory -/

/-- A path is that of a file directly in a directory: with its last name taken
off it leads to the directory. -/
structure DirectlyIn (p root : Path) (name : String) : Prop where
  parent : ∃ above, parent? p = some above ∧ above.Same root
  fileName : fileName? p = some name

theorem parent?_of_leads {p : Path} {dir name : List Char}
    (hp : p.toList = dir ++ name) (hdir : Leads dir) (hname : '/' ∉ name)
    (hne : name ≠ []) (hhere : name ≠ ['.']) :
    ∃ above, parent? p = some above ∧ above.Same (String.ofList dir) := by
  obtain ⟨above, habove, hsame⟩ :=
    exists_parent?_eq (lastName_eq hp hdir hname hne hhere) (by simpa using hne)
  exact ⟨above, habove, by rwa [List.reverse_reverse] at hsame⟩

theorem fileName?_of_leads {p : Path} {dir : List Char} {n : String}
    (hp : p.toList = dir ++ n.toList) (hdir : Leads dir) (hn : Plain n) :
    fileName? p = some n := by
  have hhere : n.toList ≠ ['.'] := fun h => hn.ne_here (String.toList_inj.1 h)
  have habove : n.toList ≠ ['.', '.'] :=
    fun h => hn.ne_above (String.toList_inj.1 h)
  have hfile : isFileName n.toList = true :=
    decide_eq_true ⟨hn.toList_ne_nil, hhere, habove⟩
  rw [fileName?, lastName_eq hp hdir hn.unslashed hn.toList_ne_nil hhere]
  simp only [List.reverse_reverse, hfile, if_true, String.ofList_toList]

theorem unslashed_of_fileName? {p : Path} {n : String}
    (h : fileName? p = some n) :
    '/' ∉ n.toList := by
  obtain ⟨silent, name, before, hlast, -, hname, -⟩ := exists_lastName_eq p
  rw [fileName?, hlast] at h
  dsimp only at h
  split_ifs at h
  obtain rfl := Option.some.inj h
  intro hslash
  rw [String.toList_ofList, List.mem_reverse] at hslash
  exact hname _ hslash rfl

/-- A separator behind a path, if it has none, leads nowhere else. -/
theorem join_empty_same (root : Path) : (root.join "").Same root := by
  rw [join, if_neg (by decide)]
  by_cases hend : root = "" ∨ root.toList.getLast? = some '/'
  · rw [if_pos hend, String.append_empty]
    exact .refl root
  · have hne : root.toList ≠ [] :=
      fun hnil => hend (.inl (String.toList_eq_nil_iff.1 hnil))
    have htext : root ++ "/" = String.ofList (root.toList ++ ['/']) := by
      apply String.toList_inj.1
      simp
    rw [if_neg hend, String.append_empty, htext]
    refine ⟨?_, ?_⟩
    · rw [isAbsolute_append hne, String.ofList_toList]
    · rw [names_append_slash, String.ofList_toList]
      exact List.append_nil _

/-- What stands in front of a name below a directory leads to the directory. -/
theorem exists_join_same (root : Path) :
    ∃ lead : Path, Leads lead.toList ∧ lead.Same root
      ∧ ∀ n, ¬ Path.isAbsolute n = true → root.join n = lead ++ n := by
  obtain ⟨lead, hlead, hjoin⟩ := exists_join_eq root
  have hempty : root.join "" = lead := by
    rw [hjoin "" (by decide), String.append_empty]
  exact ⟨lead, hlead, hempty ▸ join_empty_same root, hjoin⟩

theorem directlyIn_join {root : Path} {n : String} (hn : Plain n) :
    (root.join n).DirectlyIn root n := by
  obtain ⟨lead, hlead, hsame, hjoin⟩ := exists_join_same root
  have htext : (root.join n).toList = lead.toList ++ n.toList := by
    rw [hjoin n (not_isAbsolute_of_unslashed hn.unslashed),
      String.toList_append]
  refine ⟨?_, fileName?_of_leads htext hlead hn⟩
  obtain ⟨above, habove, hleads⟩ :=
    parent?_of_leads htext hlead hn.unslashed hn.toList_ne_nil
      fun h => hn.ne_here (String.toList_inj.1 h)
  rw [String.ofList_toList] at hleads
  exact ⟨above, habove, hleads.trans hsame⟩

/-- A directory part behind another one adds its names. -/
theorem exists_names_leads_append {lead : List Char} (hlead : Leads lead)
    (dir : List Char) :
    ∃ below, names (String.ofList (lead ++ dir))
        = names (String.ofList lead) ++ below
      ∧ ∀ piece ∈ Text.splitAtChar '/' dir, piece ≠ [] → piece ≠ ['.'] →
        String.ofList piece ∈ below := by
  rcases hlead with rfl | ⟨ds, rfl⟩
  · refine ⟨names (String.ofList dir), rfl, fun piece hpiece hne hhere => ?_⟩
    exact mem_names_of_mem_pieces (by rwa [String.toList_ofList]) hne hhere
  · refine ⟨namesBehind dir, ?_, fun piece hpiece hne hhere => ?_⟩
    · rw [List.append_assoc, List.singleton_append, names_append_slash,
        names_append_slash]
      exact congrArg (· ++ _) (List.append_nil _).symm
    · refine List.mem_filter.2
        ⟨List.mem_map_of_mem hpiece, decide_eq_true ⟨?_, ?_⟩⟩
      · exact fun heq => hne (String.ofList_injective heq)
      · exact fun heq => hhere (String.ofList_injective heq)

/-! ## The names below a directory -/

theorem namesBehind_of_plain {n : String} (hn : Plain n) :
    namesBehind n.toList = [n] := by
  rw [namesBehind, Text.splitAtChar_eq_singleton hn.unslashed,
    List.map_singleton, String.ofList_toList,
    List.filter_cons_of_pos (by simpa using ⟨hn.ne_empty, hn.ne_here⟩),
    List.filter_nil]

/-- A name below a directory stands behind the names of the directory. -/
theorem names_join {root : Path} {n : String} (hn : Plain n) :
    names (root.join n) = names root ++ [n] := by
  obtain ⟨lead, hlead, hsame, hjoin⟩ := exists_join_same root
  rw [hjoin n (not_isAbsolute_of_unslashed hn.unslashed), ← hsame.names]
  rcases hlead with hnil | ⟨cs, hcs⟩
  · obtain rfl : lead = "" := String.toList_eq_nil_iff.1 hnil
    obtain ⟨first, rest, hpieces, hnames⟩ := exists_names_eq n
    rw [Text.splitAtChar_eq_singleton hn.unslashed, List.map_singleton,
      String.ofList_toList, List.cons.injEq] at hpieces
    obtain ⟨rfl, rfl⟩ := hpieces
    rw [if_neg hn.ne_empty] at hnames
    rw [String.empty_append, hnames]
    rfl
  · have hlong : lead ++ n = String.ofList (cs ++ '/' :: n.toList) := by
      apply String.toList_inj.1
      simp [hcs]
    have hshort : lead = String.ofList (cs ++ ['/']) := by
      rw [← hcs, String.ofList_toList]
    rw [hlong, hshort, names_append_slash, names_append_slash,
      namesBehind_of_plain hn, List.append_assoc]
    rfl

theorem names_pathTo {root : Path} {ns : List String} (h : ∀ n ∈ ns, Plain n) :
    names (Snapshot.pathTo root ns) = names root ++ ns := by
  induction ns generalizing root with
  | nil => exact (List.append_nil _).symm
  | cons n ns ih =>
      have htail : names (Snapshot.pathTo (root.join n) ns)
          = names (root.join n) ++ ns :=
        ih fun m hm => h m (List.mem_cons_of_mem _ hm)
      rw [names_join (h n List.mem_cons_self), List.append_assoc] at htail
      exact htail

/-! ## Files with an extension -/

theorem fileName?_plain {n : String} (hn : Plain n) : fileName? n = some n :=
  @fileName?_of_leads n [] n rfl (.inl rfl) hn

/-- A file with an extension has a stem. -/
theorem exists_fileStem?_of_extension? {p : Path} {ext : String}
    (h : p.extension? = some ext) :
    ∃ stem, p.fileStem? = some stem := by
  obtain ⟨n, hn, -⟩ := Option.bind_eq_some_iff.1 h
  exact ⟨_, congrArg (Option.map _) hn⟩

/-- The extension of a file below a directory is that of its last name. -/
theorem extension?_pathTo (root : Path) {ns : List String} (hne : ns ≠ [])
    (hns : ∀ n ∈ ns, Plain n) :
    (Snapshot.pathTo root ns).extension? = ns.getLast?.bind extension? := by
  obtain ⟨front, n, rfl⟩ : ∃ front n, ns = front ++ [n] :=
    ⟨_, _, (List.dropLast_concat_getLast hne).symm⟩
  have hn := hns n (List.mem_append_right _ List.mem_cons_self)
  have hpath : Snapshot.pathTo root (front ++ [n])
      = (Snapshot.pathTo root front).join n := by
    rw [Snapshot.pathTo, List.foldl_append]
    rfl
  rw [hpath, extension?, (directlyIn_join hn).fileName, List.getLast?_concat,
    Option.bind_some, Option.bind_some, extension?, fileName?_plain hn]
  rfl

end FlowAtlas.Path
