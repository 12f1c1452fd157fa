import FlowAtlas.Path
import FlowAtlas.Proofs.Text.Lines
import Mathlib.Data.List.TakeDrop
import Mathlib.Data.List.TakeWhile

/-!
# Paths of files next to each other

The files that a run makes for a diagram differ in their extensions only. Their
paths are computed from one another on the text, so what the texts look like has
to be known: a path is a directory part and the name of a file (`Leads`), and
replacing the extension changes what follows the period of that name and nothing
in front of it.

A name with a period and nothing before it counts as a name without an
extension, so there the new extension goes behind the old one (`swapped`).
-/

namespace FlowAtlas.Path

/-- A name that leads from a directory to one entry of it. -/
structure Plain (n : String) : Prop where
  ne_empty : n ≠ ""
  unslashed : '/' ∉ n.toList
  ne_here : n ≠ "."
  ne_above : n ≠ ".."

/-- The part of a path that leads to a directory. -/
def Leads (dir : List Char) : Prop := dir = [] ∨ ∃ cs, dir = cs ++ ['/']

/-! ## Names -/

/-- The first piece is a name unless it is empty, the others unless they say
nothing. -/
theorem exists_names_eq (p : Path) :
    ∃ first rest, (Text.splitAtChar '/' p.toList).map String.ofList
        = first :: rest
      ∧ p.names = (if first = "" then [] else [first])
          ++ rest.filter fun n => n ≠ "" ∧ n ≠ "." := by
  obtain ⟨cs, css, hpieces⟩ :=
    List.exists_cons_of_ne_nil (Text.splitAtChar_ne_nil '/' p.toList)
  refine ⟨String.ofList cs,
    css.map String.ofList, by rw [hpieces, List.map_cons], ?_⟩
  unfold names
  rw [hpieces, List.map_cons]
  dsimp only
  split <;> rfl

theorem mem_pieces_of_mem_names {p : Path} {n : String} (h : n ∈ p.names) :
    n.toList ∈ Text.splitAtChar '/' p.toList := by
  obtain ⟨first, rest, hpieces, hnames⟩ := exists_names_eq p
  have hmem : n ∈ (Text.splitAtChar '/' p.toList).map String.ofList := by
    rw [hpieces]
    rw [hnames] at h
    rcases List.mem_append.1 h with h | h
    · split at h
      · exact absurd h List.not_mem_nil
      · exact List.mem_cons.2 (.inl (List.mem_singleton.1 h))
    · exact List.mem_cons_of_mem _ (List.mem_filter.1 h).1
  obtain ⟨cs, hcs, rfl⟩ := List.mem_map.1 hmem
  rwa [String.toList_ofList]

theorem mem_names_of_mem_pieces {p : Path} {cs : List Char}
    (h : cs ∈ Text.splitAtChar '/' p.toList) (hempty : cs ≠ [])
    (hhere : cs ≠ ['.']) : String.ofList cs ∈ p.names := by
  obtain ⟨first, rest, hpieces, hnames⟩ := exists_names_eq p
  have hmem : String.ofList cs
      ∈ (Text.splitAtChar '/' p.toList).map String.ofList :=
    List.mem_map_of_mem h
  have hne : String.ofList cs ≠ "" :=
    fun heq => hempty (String.ofList_injective heq)
  have hplace : String.ofList cs ≠ "." :=
    fun heq => hhere (String.ofList_injective heq)
  rw [hpieces] at hmem
  rw [hnames]
  rcases List.mem_cons.1 hmem with hfirst | hmem
  · rw [hfirst] at hne
    rw [hfirst, if_neg hne]
    exact List.mem_append_left _ List.mem_cons_self
  · exact List.mem_append_right _
      (List.mem_filter.2 ⟨hmem, decide_eq_true ⟨hne, hplace⟩⟩)

theorem ne_empty_of_mem_names {p : Path} {n : String} (h : n ∈ p.names) :
    n ≠ "" := by
  obtain ⟨first, rest, -, hnames⟩ := exists_names_eq p
  rw [hnames] at h
  rcases List.mem_append.1 h with h | h
  · split at h
    · exact absurd h List.not_mem_nil
    · next hfirst => rwa [List.mem_singleton.1 h]
  · exact (of_decide_eq_true (List.mem_filter.1 h).2).1

/-! ## Directory and file -/

/-- Every text is a directory part and a name. -/
theorem exists_leads_append (cs : List Char) :
    ∃ dir name, cs = dir ++ name ∧ Leads dir ∧ '/' ∉ name := by
  induction cs with
  | nil => exact ⟨[], [], rfl, .inl rfl, List.not_mem_nil⟩
  | cons c cs ih =>
      obtain ⟨dir, name, rfl, hdir, hname⟩ := ih
      rcases hdir with rfl | ⟨ds, rfl⟩
      · by_cases hc : c = '/'
        · subst hc
          exact ⟨['/'], name, rfl, .inr ⟨[], rfl⟩, hname⟩
        · refine ⟨[], c :: name, rfl, .inl rfl, ?_⟩
          rw [List.mem_cons, not_or]
          exact ⟨Ne.symm hc, hname⟩
      · exact ⟨c :: (ds ++ ['/']), name, rfl, .inr ⟨c :: ds, rfl⟩, hname⟩

/-- The names of a directory part without periods hold none, so a name with one
is the last. -/
theorem not_mem_pieces_of_leads {dir name : List Char} (hdir : Leads dir)
    (hname : '/' ∉ name) (hdots : '.' ∉ dir) {piece : List Char}
    (hpiece : '.' ∈ piece) (hlast : name ≠ piece) :
    piece ∉ Text.splitAtChar '/' (dir ++ name) := by
  rcases hdir with rfl | ⟨ds, rfl⟩
  · rw [List.nil_append, Text.splitAtChar_eq_singleton hname,
      List.mem_singleton]
    exact Ne.symm hlast
  · rw [List.append_assoc, List.singleton_append, Text.splitAtChar_append,
      Text.splitAtChar_eq_singleton hname, List.mem_append,
      List.mem_singleton, not_or]
    exact ⟨fun h =>
      hdots (List.mem_append_left _ (Text.subset_of_mem_splitAtChar h hpiece)),
      Ne.symm hlast⟩

theorem Leads.append {dir below : List Char} (hdir : Leads dir)
    (hbelow : Leads below) :
    Leads (dir ++ below) := by
  rcases hbelow with rfl | ⟨cs, rfl⟩
  · rwa [List.append_nil]
  · exact .inr ⟨dir ++ cs, by rw [List.append_assoc]⟩

/-- What stands in front of a name below a directory is the same for all
names. -/
theorem exists_join_eq (root : Path) :
    ∃ lead : String, Leads lead.toList
      ∧ ∀ n, ¬ isAbsolute n = true → root.join n = lead ++ n := by
  by_cases hend : root = "" ∨ root.toList.getLast? = some '/'
  · refine ⟨root, ?_, fun n hn => by rw [join, if_neg hn, if_pos hend]⟩
    rcases hend with rfl | hend
    · exact .inl rfl
    · exact .inr (List.getLast?_eq_some_iff.1 hend)
  · refine ⟨root ++ "/", ?_, fun n hn => by rw [join, if_neg hn, if_neg hend]⟩
    exact .inr ⟨root.toList, String.toList_append⟩

/-- What a name has below a directory part of its own stays behind one directory
part, whatever the name of the file is. -/
theorem toList_join (root : Path) {dir : List Char} (hdir : Leads dir) :
    ∃ above, Leads above ∧ ∀ name, '/' ∉ name →
      (root.join (String.ofList (dir ++ name))).toList = above ++ name := by
  by_cases habs : dir.head? = some '/'
  · refine ⟨dir, hdir, fun name hname => ?_⟩
    have hhead : (dir ++ name).head? = some '/' := by
      rw [List.head?_append, habs]; rfl
    rw [join, if_pos (by simp [isAbsolute, hhead]), String.toList_ofList]
  · obtain ⟨lead, hlead, hjoin⟩ := exists_join_eq root
    refine ⟨lead.toList ++ dir, hlead.append hdir, fun name hname => ?_⟩
    have hrel : ¬ isAbsolute (String.ofList (dir ++ name)) = true := by
      intro h
      simp only [isAbsolute, String.toList_ofList, decide_eq_true_eq] at h
      cases dir with
      | nil =>
          rw [List.nil_append] at h
          exact hname (List.mem_of_mem_head? (by rw [h]; rfl))
      | cons c cs => exact habs (by simpa using h)
    rw [hjoin _ hrel, String.toList_append, String.toList_ofList,
      List.append_assoc]

theorem Plain.toList_ne_nil {n : String} (h : Plain n) :
    n.toList ≠ [] := fun hnil =>
  h.ne_empty (String.toList_eq_nil_iff.1 hnil)

theorem not_isAbsolute_of_unslashed {n : String} (h : '/' ∉ n.toList) :
    ¬ isAbsolute n = true := by
  intro habs
  simp only [isAbsolute, decide_eq_true_eq] at habs
  exact h (List.mem_of_mem_head? (by rw [habs]; rfl))

/-- Two names below a directory, one after the other. -/
theorem join_join (root : Path) {n m : String} (hn : Plain n)
    (hm : '/' ∉ m.toList) :
    (root.join n).join m = root.join (n ++ "/" ++ m) := by
  have hne := hn.toList_ne_nil
  have hrel := not_isAbsolute_of_unslashed hn.unslashed
  have hlong : ¬ isAbsolute (n ++ "/" ++ m) = true := by
    simp only [isAbsolute, String.toList_append, decide_eq_true_eq] at hrel ⊢
    cases hcs : n.toList with
    | nil => exact absurd hcs hne
    | cons c cs => rw [hcs] at hrel; exact hrel
  have hlast : n.toList.getLast? ≠ some '/' := fun hlast =>
    hn.unslashed (List.mem_of_getLast? hlast)
  have hend :
      ∀ p : Path, ¬ (p ++ n = "" ∨ (p ++ n).toList.getLast? = some '/') := by
    rintro p (hempty | hslash)
    · exact hn.ne_empty (String.append_eq_empty_iff.1 hempty).2
    · rw [String.toList_append, List.getLast?_append] at hslash
      cases hgl : n.toList.getLast? with
      | none => exact hne (List.getLast?_eq_none_iff.1 hgl)
      | some c =>
          rw [hgl] at hslash hlast
          exact hlast hslash
  have hjoin : ∀ p : Path, join (p ++ n) m = p ++ (n ++ "/" ++ m) := by
    intro p
    rw [join, if_neg (not_isAbsolute_of_unslashed hm), if_neg (hend p)]
    simp only [String.append_assoc]
  obtain ⟨lead, -, hlead⟩ := exists_join_eq root
  rw [hlead n hrel, hlead _ hlong, hjoin lead]

/-! ## The last name -/

/-- What is passed over at the end of a path ends with a separator,
backwards. -/
theorem exists_silent (cs : List Char) :
    ∃ silent, cs = silent ++ dropSilentEnd cs
      ∧ (silent = [] ∨ ∃ ds, silent = ds ++ ['/']) := by
  fun_induction dropSilentEnd cs with
  | case1 cs ih =>
      obtain ⟨silent, hcs, rfl | ⟨ds, rfl⟩⟩ := ih
      · exact ⟨['/'], congrArg _ hcs, .inr ⟨[], rfl⟩⟩
      · exact ⟨'/' :: (ds ++ ['/']), congrArg _ hcs, .inr ⟨'/' :: ds, rfl⟩⟩
  | case2 cs ih =>
      obtain ⟨silent, hcs, rfl | ⟨ds, rfl⟩⟩ := ih
      · exact ⟨['.', '/'], congrArg (fun ds => '.' :: '/' :: ds) hcs,
          .inr ⟨['.'], rfl⟩⟩
      · exact ⟨'.' :: '/' :: (ds ++ ['/']),
          congrArg (fun ds => '.' :: '/' :: ds) hcs,
          .inr ⟨'.' :: '/' :: ds, rfl⟩⟩
  | case3 cs => exact ⟨[], rfl, .inl rfl⟩

theorem head?_dropSilentEnd (cs : List Char) :
    (dropSilentEnd cs).head? ≠ some '/' := by
  fun_induction dropSilentEnd cs with
  | case1 cs ih => exact ih
  | case2 cs ih => exact ih
  | case3 cs hslash _ =>
      intro hhead
      obtain ⟨ds, rfl⟩ := List.head?_eq_some_iff.1 hhead
      exact hslash ds rfl

/-- The last name of a path backwards: what says nothing behind it, the name
itself, and what stands in front of it, up to a separator. -/
theorem exists_lastName_eq (p : Path) :
    ∃ silent name before, lastName p = (name, before)
      ∧ p.toList.reverse = silent ++ (name ++ before) ∧ (∀ c ∈ name, c ≠ '/')
      ∧ ∀ c ∈ before.head?, c = '/' := by
  obtain ⟨silent, hsilent, -⟩ := exists_silent p.toList.reverse
  have hspan :
      lastName p = ((dropSilentEnd p.toList.reverse).takeWhile (· ≠ '/'),
        (dropSilentEnd p.toList.reverse).dropWhile (· ≠ '/')) := by
    rw [lastName, List.span_eq_takeWhile_dropWhile]
  refine ⟨silent, _, _, hspan, ?_, fun c hc => ?_, fun c hc => ?_⟩
  · rwa [List.takeWhile_append_dropWhile]
  · simpa using List.mem_takeWhile_imp hc
  · have hdrop :=
      List.head?_dropWhile_not (· ≠ '/') (dropSilentEnd p.toList.reverse)
    rw [Option.mem_def.1 hc] at hdrop
    simpa using hdrop

theorem lastName_eq {p : Path} {dir name : List Char}
    (hp : p.toList = dir ++ name) (hdir : Leads dir) (hname : '/' ∉ name)
    (hne : name ≠ []) (hhere : name ≠ ['.']) :
    lastName p = (name.reverse, dir.reverse) := by
  have hmem : '/' ∉ name.reverse := fun h => hname (List.mem_reverse.1 h)
  have hdrop : dropSilentEnd (name.reverse ++ dir.reverse)
      = name.reverse ++ dir.reverse := by
    cases hrev : name.reverse with
    | nil => exact absurd (List.reverse_eq_nil_iff.1 hrev) hne
    | cons c cs =>
        rw [hrev, List.mem_cons, not_or] at hmem
        rw [List.cons_append]
        cases cs with
        | nil =>
            have hc : c ≠ '.' := by
              rintro rfl
              exact hhere (List.reverse_eq_iff.1 hrev)
            rw [dropSilentEnd]
            · exact fun _ h => hmem.1 (List.cons.inj h).1.symm
            · exact fun _ h => hc (List.cons.inj h).1
        | cons d ds =>
            rw [List.mem_cons, not_or] at hmem
            rw [List.cons_append, dropSilentEnd]
            · exact fun _ h => hmem.1 (List.cons.inj h).1.symm
            · exact fun _ h =>
                hmem.2.1 (List.cons.inj (List.cons.inj h).2).1.symm
  have hspan : (name.reverse ++ dir.reverse).span (· ≠ '/')
      = (name.reverse, dir.reverse) := by
    rcases hdir with rfl | ⟨ds, rfl⟩
    · rw [List.reverse_nil]
      exact Text.span_of_forall
        (fun c hc => decide_eq_true (ne_of_mem_of_not_mem hc hmem))
        fun _ hc => nomatch hc
    · rw [List.reverse_append]
      exact Text.span_ne_append hmem _
  rw [lastName, hp, List.reverse_append, hdrop, hspan]

/-! ## Replacing an extension -/

theorem splitName_append (stem : List Char) {ext : List Char}
    (hext : '.' ∉ ext) :
    splitName (stem ++ '.' :: ext)
      = if stem = [] then ('.' :: ext, none) else (stem, some ext) := by
  have hspan : (stem ++ '.' :: ext).reverse.span (· ≠ '.')
      = (ext.reverse, '.' :: stem.reverse) := by
    rw [List.reverse_append, List.reverse_cons, List.append_assoc,
      List.singleton_append]
    exact Text.span_ne_append (fun hmem => hext (List.mem_reverse.1 hmem)) _
  unfold splitName
  rw [hspan]
  cases hrev : stem.reverse with
  | nil =>
      rw [List.reverse_eq_nil_iff.1 hrev]
      simp
  | cons c cs =>
      have hne : stem ≠ [] := by
        rintro rfl
        exact List.cons_ne_nil _ _ hrev.symm
      rw [if_neg hne]
      simp only [List.reverse_reverse, ← hrev]

theorem dropBytes_append (cs ds : List Char) :
    dropBytes (cs ++ ds) (Text.byteCount ds) = cs := by
  have hgo :
      ∀ (cs : List Char), dropBytes.go (cs ++ ds) (Text.byteCount cs) = cs := by
    intro cs
    induction cs with
    | nil =>
        cases ds with
        | nil => rfl
        | cons d ds =>
            rw [List.nil_append, Text.byteCount, dropBytes.go,
              if_neg (Nat.not_le.2 d.utf8Size_pos)]
    | cons c cs ih =>
        rw [List.cons_append, dropBytes.go, Text.byteCount,
          if_pos (Nat.le_add_right _ _), Nat.add_sub_cancel_left, ih]
  rw [dropBytes, Text.byteCount_append, Nat.add_sub_cancel, hgo]

theorem isFileName_of_mem {name : List Char} {c : Char} (hc : c ∈ name)
    (hdot : c ≠ '.') :
    isFileName name = true := by
  simp only [isFileName, decide_eq_true_eq]
  refine ⟨?_, ?_, ?_⟩
  all_goals
    rintro rfl
    simp_all

/-- The stem that a file name leaves when its extension is replaced. -/
def swapped (stem ext : List Char) : List Char :=
  if stem = [] then '.' :: ext else stem

theorem withExtension_eq {p : Path} {dir stem old : List Char}
    (hp : p.toList = dir ++ (stem ++ '.' :: old)) (hdir : Leads dir)
    (hstem : '/' ∉ stem ∧ stem ≠ ['.']) (hold : '/' ∉ old ∧ '.' ∉ old)
    (hne : old ≠ []) (ext : String) :
    (p.withExtension ext).toList
      = dir ++ (swapped stem old ++ '.' :: ext.toList) := by
  obtain ⟨c, hc⟩ := List.exists_mem_of_ne_nil old hne
  have hdot : c ≠ '.' := fun h => hold.2 (h ▸ hc)
  have hmem : c ∈ stem ++ '.' :: old :=
    List.mem_append_right _ (List.mem_cons_of_mem _ hc)
  have hslash : '/' ∉ stem ++ '.' :: old := by simp [hstem.1, hold.1]
  have hlast : lastName p = ((stem ++ '.' :: old).reverse, dir.reverse) :=
    lastName_eq hp hdir hslash (List.ne_nil_of_mem hmem) (by rintro h; simp_all)
  have hfile : fileName? p = some (String.ofList (stem ++ '.' :: old)) := by
    rw [fileName?, hlast]
    simp only [List.reverse_reverse, isFileName_of_mem hmem hdot, if_true]
  by_cases hempty : stem = []
  · have hext : extension? p = none := by
      rw [extension?, hfile, Option.bind_some, String.toList_ofList,
        splitName_append stem hold.2, if_pos hempty]
      rfl
    rw [withExtension, hext, setExtension, hlast]
    simp only [List.reverse_reverse, isFileName_of_mem hmem hdot, if_true,
      splitName_append stem hold.2, if_pos hempty, swapped]
    simp
  · have hext : extension? p = some (String.ofList old) := by
      rw [extension?, hfile, Option.bind_some, String.toList_ofList,
        splitName_append stem hold.2, if_neg hempty]
      rfl
    have hcut : dropBytes p.toList (String.ofList old).utf8ByteSize
        = dir ++ (stem ++ ['.']) := by
      have happ : p.toList = dir ++ (stem ++ ['.']) ++ old := by simp [hp]
      rw [happ, Text.utf8ByteSize_ofList, dropBytes_append]
    have hshort : lastName (String.ofList (dir ++ (stem ++ ['.'])))
        = ((stem ++ ['.']).reverse, dir.reverse) :=
      lastName_eq (String.toList_ofList) hdir (by simp [hstem.1]) (by simp)
        (by simpa using hempty)
    have hname : isFileName (stem ++ ['.']) = true := by
      simp only [isFileName, decide_eq_true_eq]
      refine ⟨by simp, by simpa using hempty, fun habove => hstem.2 ?_⟩
      exact (List.append_inj'
        (show stem ++ ['.'] = ['.'] ++ ['.'] from habove) rfl).1
    rw [withExtension, hext]
    simp only [hcut, setExtension, hshort, List.reverse_reverse, hname, if_true,
      splitName_append stem List.not_mem_nil, if_neg hempty, swapped]
    simp

/-- A file name that leaves `.` when its extension is taken off becomes the
place `..`. -/
theorem withExtension_here {p : Path} {dir old : List Char}
    (hp : p.toList = dir ++ ('.' :: '.' :: old)) (hdir : Leads dir)
    (hold : '/' ∉ old ∧ '.' ∉ old) (hne : old ≠ []) (ext : String) :
    (p.withExtension ext).toList = dir ++ ['.', '.'] := by
  obtain ⟨c, hc⟩ := List.exists_mem_of_ne_nil old hne
  have hdot : c ≠ '.' := fun h => hold.2 (h ▸ hc)
  have hmem : c ∈ '.' :: '.' :: old :=
    List.mem_cons_of_mem _ (List.mem_cons_of_mem _ hc)
  have hlast : lastName p = (('.' :: '.' :: old).reverse, dir.reverse) :=
    lastName_eq hp hdir (by simp [hold.1]) (List.cons_ne_nil _ _) (by simp)
  have hext : extension? p = some (String.ofList old) := by
    rw [extension?, fileName?, hlast]
    simp only [List.reverse_reverse, isFileName_of_mem hmem hdot, if_true,
      Option.bind_some, String.toList_ofList]
    rw [show '.' :: '.' :: old
      = ['.'] ++ '.' :: old from rfl, splitName_append _ hold.2,
      if_neg (List.cons_ne_nil _ _)]
    rfl
  have hcut : dropBytes p.toList (String.ofList old).utf8ByteSize
      = dir ++ ['.', '.'] := by
    have happ : p.toList = dir ++ ['.', '.'] ++ old := by simp [hp]
    rw [happ, Text.utf8ByteSize_ofList, dropBytes_append]
  have hshort : lastName (String.ofList (dir ++ ['.', '.']))
      = (['.', '.'], dir.reverse) :=
    lastName_eq (String.toList_ofList) hdir (by decide) (by decide) (by decide)
  rw [withExtension, hext]
  simp only [hcut, setExtension, hshort]
  rw [if_neg (by decide), String.toList_ofList]

theorem withExtension_join {root : Path} {dir stem old : List Char}
    (hdir : Leads dir) (hstem : '/' ∉ stem ∧ stem ≠ ['.'])
    (hold : '/' ∉ old ∧ '.' ∉ old) (hne : old ≠ []) {ext : String}
    (hext : '/' ∉ ext.toList) :
    (root.join (String.ofList (dir ++ (stem ++ '.' :: old)))).withExtension ext
      = root.join
        (String.ofList (dir ++ (swapped stem old ++ '.' :: ext.toList))) := by
  obtain ⟨above, habove, hjoin⟩ := toList_join root hdir
  apply String.toList_inj.1
  rw [withExtension_eq (hjoin _ (by simp [hstem.1, hold.1])) habove hstem
    hold hne, hjoin]
  unfold swapped
  split
  · simp [hold.1, hext]
  · simp [hstem.1, hext]

end FlowAtlas.Path
