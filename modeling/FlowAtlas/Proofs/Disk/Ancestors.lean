import FlowAtlas.Proofs.Disk.Standing

/-!
# The directories above a directory that stands

Creating a directory creates those it is to stand in, if they are missing. Where
the output directory stands, none of them is: the names of a directory above are
the first names of the path, so a walk to it is the beginning of a walk that
comes to its end (`walkThrough_found_of_append`). This holds in every tree, with
links and with names that step back, because the walk is cut and not compared
with where the names lead.

A walk that comes to an end is a relation for this (`Walks`), with a case for
each kind of name and of entry. What is said about such walks is proved by
induction on it.
-/

namespace FlowAtlas

open OutputDirectory

/-! ## The text of the path above -/

namespace Path

/-- The path above a path is the beginning of it, up to a separator with a name
behind it, unless it is the place where the path starts. -/
theorem parent?_cases {p q : Path} (h : parent? p = some q) :
    (q = "" ∨ q = "/")
      ∨ ∃ tail, p.toList = q.toList ++ '/' :: tail ∧ q.toList ≠ []
        ∧ q.toList.getLast? ≠ some '/' ∧ ∃ c ∈ tail, c ≠ '/' := by
  obtain ⟨silent, name, before, hlast, hp, hname, hbefore⟩ :=
    exists_lastName_eq p
  rw [parent?, hlast] at h
  cases name with
  | nil => exact nomatch h
  | cons c name =>
      obtain ⟨silent', hsilent', hend⟩ := exists_silent before
      have hhead := head?_dropSilentEnd before
      dsimp only at h
      cases hdir : dropSilentEnd before with
      | nil =>
          rw [hdir] at h
          obtain rfl := Option.some.inj h
          split
          · exact .inl (.inl rfl)
          · exact .inl (.inr rfl)
      | cons d dir =>
          rw [hdir] at h hsilent' hhead
          obtain rfl := Option.some.inj h
          rcases hend with rfl | ⟨ds, rfl⟩
          · -- Nothing is passed over, so the name would stand before another.
            rw [hsilent', List.nil_append] at hbefore
            exact absurd (congrArg some (hbefore d rfl)) hhead
          · refine .inr ⟨ds.reverse ++ ((c :: name).reverse ++ silent.reverse),
              ?_, ?_, ?_, c, ?_, hname c List.mem_cons_self⟩
            · rw [← List.reverse_inj, hp, hsilent']
              simp
            · simp
            · simpa using hhead
            · simp

end Path

namespace FileTree

/-! ## Names of the path above -/

theorem steps_of_unslashed {p : Path} (h : p.toList.getLast? ≠ some '/') :
    steps p = stations p := by
  rw [steps, if_neg fun hslash => h hslash.1]
  rfl

/-- A path above another one. -/
structure Above (q p : Path) : Prop where
  isAbsolute : Path.isAbsolute q = Path.isAbsolute p
  stations : stations q <+: (stations p).dropLast
  unslashed : q.toList.getLast? ≠ some '/'

theorem above_of_parent? {p q above : Path} (h : Path.parent? p = some q)
    (hq : Path.parent? q = some above) : Above q p := by
  rcases Path.parent?_cases h with
    (rfl | rfl) | ⟨tail, hp, hne, hunslashed, c, hc, hslash⟩
  · rw [show Path.parent? "" = none by decide] at hq
    exact nomatch hq
  · rw [show Path.parent? "/" = none by decide] at hq
    exact nomatch hq
  · refine ⟨?_, ?_, hunslashed⟩
    · obtain ⟨d, ds, hds⟩ := List.exists_cons_of_ne_nil hne
      rw [Path.isAbsolute, Path.isAbsolute, hp, hds]
      rfl
    · obtain ⟨piece, hpiece, hmem⟩ := Text.exists_mem_splitAtChar hc hslash
      have hstations : FileTree.stations p = FileTree.stations q
          ++ ((Text.splitAtChar '/' tail).map String.ofList).filter
            (· ≠ "") := by
        rw [FileTree.stations, hp, Text.splitAtChar_append, List.map_append,
          List.filter_append]
        rfl
      have hnonempty : ((Text.splitAtChar '/' tail).map String.ofList).filter
          (· ≠ "") ≠ [] := by
        refine List.ne_nil_of_mem
          (List.mem_filter.2 ⟨List.mem_map_of_mem hpiece, ?_⟩)
        have : piece ≠ [] := List.ne_nil_of_mem hmem
        simpa [String.ofList_eq_empty_iff] using this
      rw [hstations, List.dropLast_append_of_ne_nil hnonempty]
      exact List.prefix_append _ _

theorem Above.trans {p q r : Path} (h : Above r q) (h' : Above q p) :
    Above r p := by
  refine ⟨h.isAbsolute.trans h'.isAbsolute, ?_, h.unslashed⟩
  exact h.stations.trans ((List.dropLast_prefix _).trans h'.stations)

theorem above_of_mem_lineage {p q above : Path} {fuel : Nat}
    (h : Path.parent? p = some above) (hq : q ∈ lineage fuel above) :
    Above q p := by
  induction fuel generalizing p above with
  | zero => exact absurd hq List.not_mem_nil
  | succ fuel ih =>
      unfold lineage at hq
      cases hparent : Path.parent? above with
      | none =>
          rw [hparent] at hq
          exact absurd hq List.not_mem_nil
      | some above' =>
          rw [hparent] at hq
          have habove := above_of_parent? h hparent
          rcases List.mem_cons.1 hq with rfl | hq
          · exact habove
          · exact (ih hparent hq).trans habove

/-! ## Walks that come to an end -/

/-- A name that a walk looks up where it is. -/
structure Sought (name : String) : Prop where
  ne_here : name ≠ "."
  ne_above : name ≠ ".."
  short : ¬ name.utf8ByteSize > nameMax

/-- A walk that comes to an end, name by name. Behind a link `through` goes
on. -/
inductive Walks (t : FileTree) (follow : Bool)
    (through : Location → List String → Except SystemError.Code Stop) :
    Location → List String → Stop → Prop where
  | arrive {l : Location} : Walks t follow through l [] (.found l .directory)
  | here {l : Location} {names : List String} {stop : Stop}
      (h : Walks t follow through l names stop) :
      Walks t follow through l ("." :: names) stop
  | above {l : Location} {names : List String} {stop : Stop}
      (h : Walks t follow through l.dropLast names stop) :
      Walks t follow through l (".." :: names) stop
  | enter {l : Location} {name : String} {names : List String} {stop : Stop}
      (hname : Sought name) (hentry : t.at? (l ++ [name]) = some .directory)
      (h : Walks t follow through (l ++ [name]) names stop) :
      Walks t follow through l (name :: names) stop
  | vacant {l : Location} {name : String} (hname : Sought name)
      (hentry : t.at? (l ++ [name]) = none) :
      Walks t follow through l [name] (.vacant l name)
  | file {l : Location} {name : String} {content : ByteArray}
      {executable : Bool} (hname : Sought name)
      (hentry : t.at? (l ++ [name]) = some (.file content executable)) :
      Walks t follow through l [name]
      (.found (l ++ [name]) (.file content executable))
  | link {l : Location} {name : String} {target : Path} (hname : Sought name)
      (hentry : t.at? (l ++ [name]) = some (.link target))
      (hfollow : follow = false) :
      Walks t follow through l [name] (.found (l ++ [name]) (.link target))
  | through {l : Location} {name : String} {names : List String} {target : Path}
      {stop : Stop} (hname : Sought name)
      (hentry : t.at? (l ++ [name]) = some (.link target))
      (hon : ¬ (names = [] ∧ follow = false)) (htarget : target ≠ "")
      (h : through (start l target) (steps target ++ names) = .ok stop) :
      Walks t follow through l (name :: names) stop

variable {t : FileTree} {follow : Bool}
  {through through' : Location → List String → Except SystemError.Code Stop}

theorem walks_of_walk {l : Location} {names : List String} {stop : Stop}
    (h : t.walk follow through l names = .ok stop) :
    Walks t follow through l names stop := by
  induction names generalizing l with
  | nil =>
      rw [walk] at h
      obtain rfl := Except.ok.inj h
      exact .arrive
  | cons name names ih =>
      by_cases hhere : name = "."
      · subst hhere
        rw [walk] at h
        exact .here (ih h)
      · by_cases habove : name = ".."
        · subst habove
          rw [walk] at h
          exact .above (ih h)
        · rw [walk_cons hhere habove] at h
          split at h
          · cases h
          · next hshort =>
              have hname : Sought name := ⟨hhere, habove, hshort⟩
              split at h
              · next hentry =>
                  split_ifs at h with hend
                  obtain rfl := Except.ok.inj h
                  subst hend
                  exact .vacant hname hentry
              · next hentry => exact .enter hname hentry (ih h)
              · next target hentry =>
                  split_ifs at h with hend hempty
                  · obtain rfl := Except.ok.inj h
                    obtain ⟨rfl, hfollow⟩ := hend
                    exact .link hname hentry (Bool.not_eq_true' _ ▸ hfollow)
                  · refine .through hname hentry
                      (fun hlast => hend ⟨hlast.1, ?_⟩) hempty h
                    rw [hlast.2]
                    rfl
              · next entry hdirectory hlink hentry =>
                  split_ifs at h with hend
                  obtain rfl := Except.ok.inj h
                  subst hend
                  cases entry with
                  | file content executable => exact .file hname hentry
                  | directory => exact absurd rfl hdirectory
                  | link target => exact absurd rfl (hlink target)

theorem Walks.walk_eq {l : Location} {names : List String} {stop : Stop}
    (h : Walks t follow through l names stop) :
    t.walk follow through l names = .ok stop := by
  induction h with
  | arrive => rw [walk]
  | here _ ih => rw [walk, ih]
  | above _ ih => rw [walk, ih]
  | enter hname hentry _ ih =>
      rw [walk_cons hname.ne_here hname.ne_above, if_neg hname.short, hentry]
      exact ih
  | vacant hname hentry =>
      rw [walk_cons hname.ne_here hname.ne_above, if_neg hname.short, hentry]
      rfl
  | file hname hentry =>
      rw [walk_cons hname.ne_here hname.ne_above, if_neg hname.short, hentry]
      rfl
  | link hname hentry hfollow =>
      rw [walk_cons hname.ne_here hname.ne_above, if_neg hname.short,
        hentry, hfollow]
      rfl
  | through hname hentry hon htarget h =>
      rw [walk_cons hname.ne_here hname.ne_above, if_neg hname.short, hentry]
      dsimp only
      rw [if_neg fun hlast => hon ⟨hlast.1, Bool.not_eq_true' _ ▸ hlast.2⟩,
        if_neg htarget]
      exact h

/-! ## Walks to a directory above -/

/-- A walk that comes to an end comes to something at each of its names, if the
walks behind its links do. -/
theorem Walks.exists_front {rest : List String}
    (hthrough : ∀ l names,
      (∃ l' e, through l (names ++ rest) = .ok (.found l' e)) →
      ∃ m e, through' l names = .ok (.found m e))
    {names : List String} {l l' : Location} {entry : Entry}
    (h : Walks t true through l (names ++ rest) (.found l' entry)) :
    ∃ m e, Walks t follow through' l names (.found m e) := by
  induction names generalizing l with
  | nil => exact ⟨l, .directory, .arrive⟩
  | cons name names ih =>
      rw [List.cons_append] at h
      generalize hall : names ++ rest = all at h
      cases h with
      | here h =>
          obtain ⟨m, e, hfound⟩ := ih (hall ▸ h)
          exact ⟨m, e, .here hfound⟩
      | above h =>
          obtain ⟨m, e, hfound⟩ := ih (hall ▸ h)
          exact ⟨m, e, .above hfound⟩
      | enter hname hentry h =>
          obtain ⟨m, e, hfound⟩ := ih (hall ▸ h)
          exact ⟨m, e, .enter hname hentry hfound⟩
      | file hname hentry =>
          obtain ⟨rfl, -⟩ := List.append_eq_nil_iff.1 hall
          exact ⟨_, _, .file hname hentry⟩
      | link hname hentry hfollow => exact nomatch hfollow
      | through hname hentry hon htarget h =>
          by_cases hlast : names = [] ∧ follow = false
          · obtain ⟨rfl, hfollow⟩ := hlast
            exact ⟨_, _, .link hname hentry hfollow⟩
          · rw [← hall, ← List.append_assoc] at h
            obtain ⟨m, e, hfound⟩ := hthrough _ _ ⟨_, _, h⟩
            exact ⟨m, e, .through hname hentry hlast htarget hfound⟩

theorem walk_found_of_append {rest : List String}
    (hthrough : ∀ l names,
      (∃ l' e, through l (names ++ rest) = .ok (.found l' e)) →
      ∃ m e, through' l names = .ok (.found m e))
    {names : List String} {l l' : Location} {entry : Entry}
    (h : t.walk true through l (names ++ rest) = .ok (.found l' entry)) :
    ∃ m e, t.walk follow through' l names = .ok (.found m e) := by
  obtain ⟨m, e, hfound⟩ := (walks_of_walk h).exists_front hthrough
  exact ⟨m, e, hfound.walk_eq⟩

theorem walkThrough_found_of_append {links : Nat} {l l' : Location}
    {names rest : List String} {entry : Entry}
    (h : t.walkThrough true links l (names ++ rest) = .ok (.found l' entry))
    (follow : Bool) :
    ∃ m e, t.walkThrough follow links l names = .ok (.found m e) := by
  induction links generalizing l l' names entry with
  | zero =>
      exact walk_found_of_append (fun _ _ ⟨_, _, hfound⟩ => nomatch hfound) h
  | succ links ih =>
      exact walk_found_of_append (fun _ _ ⟨_, _, hfound⟩ => ih hfound) h

theorem locate_eq_ok {follow : Bool} {p : Path} {stop : Stop}
    (h : t.locate follow p = .ok stop) :
    t.walkThrough follow linkMax (start t.workingDirectory p) (steps p)
      = .ok stop := by
  unfold locate at h
  split_ifs at h
  cases hwalk :
    t.walkThrough follow linkMax (start t.workingDirectory p) (steps p) with
  | error code =>
      rw [hwalk] at h
      exact nomatch h
  | ok stop' =>
      rw [hwalk] at h
      exact congrArg _ (Except.ok.inj h)

theorem exists_found_of_isDirectory {p : Path}
    (h : t.isDirectory p = .ok true) :
    ∃ l, t.locate true p = .ok (.found l .directory) := by
  obtain ⟨⟨l, e⟩, hlookup, hdirectory⟩ := ok_of_bind h
  obtain ⟨stop, hlocate, hstop⟩ := ok_of_bind hlookup
  cases stop with
  | vacant above name => exact nomatch hstop
  | found l' e' =>
      obtain ⟨rfl, rfl⟩ := Prod.mk.inj (Except.ok.inj hstop)
      cases e' with
      | directory => exact ⟨_, hlocate⟩
      | file content executable => exact nomatch hdirectory
      | link target => exact nomatch hdirectory

/-- Where a directory stands, nothing is missing above what is in it. -/
theorem locate_ne_vacant_of_above {root q : Path} {n : String} (hn : Single n)
    (hroot : t.isDirectory root = .ok true) (hq : Above q (root.join n))
    (above : Location) (name : String) :
    t.locate false q ≠ .ok (.vacant above name) := by
  intro hvacant
  obtain ⟨l, hlocate⟩ := exists_found_of_isDirectory hroot
  have hstations := hq.stations
  rw [hn.stations_join, List.dropLast_concat] at hstations
  obtain ⟨rest, hsteps⟩ : ∃ rest, steps root = stations q ++ rest := by
    obtain ⟨back, hback⟩ := hstations
    rcases steps_eq root with h | h
    · exact ⟨back, by rw [h, hback]⟩
    · exact ⟨back ++ ["."], by rw [h, ← hback, List.append_assoc]⟩
  have hstart : start t.workingDirectory q = start t.workingDirectory root := by
    rw [← start_join root hn.relative, start, start, hq.isAbsolute]
  have hwalk := locate_eq_ok hlocate
  rw [hsteps] at hwalk
  obtain ⟨m, e, hfound⟩ := walkThrough_found_of_append hwalk false
  have hend := locate_eq_ok hvacant
  rw [steps_of_unslashed hq.unslashed, hstart, hfound] at hend
  cases hend

end FileTree

end FlowAtlas
