import FlowAtlas.Architecture.Summary
import FlowAtlas.Proofs.Architecture.Reading
import FlowAtlas.Proofs.Text.Lines

/-!
# Reading the summary back

The summary is a text of lines (`lines_summary`): its own lines, a bullet for
each project, and the lines of the markup. A reader finds the list of the
projects and the diagram by the lines that stand around them.

The lines of the markup are no danger. Names are escaped there, so each line is
either the header or begins with two blanks, and none of them closes the fence.

The names in the title and in the bullets are not escaped. A line feed in a name
ends the line, and what follows it is a line of its own, which may be taken for
a heading, a bullet or a fence. The names for which the two parts are still read
back are told here by these further lines.
-/

namespace FlowAtlas

namespace Text

/-- Some lines, with a line feed behind each. -/
def unlines (ls : List String) : String := String.join (ls.map (· ++ "\n"))

/-- The lines of a name behind its first one. -/
def furtherLines (name : String) : List String := (lines name).tail

theorem feed_not_mem_of_mem_lines {s l : String} (h : l ∈ lines s) :
    '\n' ∉ l.toList := by
  obtain ⟨piece, hpiece, rfl⟩ := List.mem_map.1 h
  rw [String.toList_ofList]
  exact not_mem_of_mem_splitAtChar hpiece

theorem lines_of_feed_not_mem {s : String} (h : '\n' ∉ s.toList) :
    lines s = [s] := by
  rw [lines, splitAtChar_eq_singleton h, List.map_singleton,
    String.ofList_toList]

theorem lines_append_feed (s t : String) :
    lines (s ++ "\n" ++ t) = lines s ++ lines t := by
  have hchars :
      (s ++ "\n" ++ t).toList = s.toList ++ '\n' :: t.toList := by simp
  rw [lines, hchars, splitAtChar_append, List.map_append, lines, lines]

/-- What stands in front of a text without a line feed goes to the first
line. -/
theorem lines_append_of_feed_not_mem {s : String} (h : '\n' ∉ s.toList)
    (t : String) :
    ∃ first, lines (s ++ t) = (s ++ first) :: furtherLines t := by
  have hsplit : ∀ cs : List Char, '\n' ∉ cs → ∃ first,
      splitAtChar '\n' (cs ++ t.toList)
        = (cs ++ first) :: (splitAtChar '\n' t.toList).tail := by
    intro cs
    induction cs with
    | nil =>
        intro _
        obtain ⟨first, rest, hcons⟩ :=
          List.exists_cons_of_ne_nil (splitAtChar_ne_nil '\n' t.toList)
        exact ⟨first, by simp [hcons]⟩
    | cons c cs ih =>
        intro hcs
        rw [List.mem_cons, not_or] at hcs
        obtain ⟨first, hfirst⟩ := ih hcs.2
        refine ⟨first, ?_⟩
        rw [List.cons_append, splitAtChar, if_neg (Ne.symm hcs.1), hfirst]
        rfl
  obtain ⟨first, hfirst⟩ := hsplit s.toList h
  refine ⟨String.ofList first, ?_⟩
  rw [lines, String.toList_append, hfirst, List.map_cons, furtherLines, lines,
    List.map_tail, String.ofList_append, String.ofList_toList]

theorem unlines_append (ls ks : List String) :
    unlines (ls ++ ks) = unlines ls ++ unlines ks := by
  simp [unlines]

theorem lines_unlines (ls : List String) :
    lines (unlines ls) = ls.flatMap lines ++ [""] := by
  induction ls with
  | nil => rfl
  | cons l ls ih =>
      have hcons : unlines (l :: ls) = l ++ "\n" ++ unlines ls := by
        simp [unlines]
      rw [hcons, lines_append_feed, ih, List.flatMap_cons, List.append_assoc]

end Text

namespace Architecture

/-! ## The lines of the summary -/

/-- The lines of the markup. -/
def drawnLines (solution : Solution) (bounds : Bounds)
    (filter : Option String) : List String :=
  "flowchart TD" :: (edges solution bounds filter).map fun e => e.told.text

/-- A bullet for each project. -/
def bullets (solution : Solution) : List String :=
  solution.projects.map fun p => "- " ++ p.name

theorem markup_eq_unlines (solution : Solution) (bounds : Bounds)
    (filter : Option String) :
    markup solution bounds filter
      = Text.unlines (drawnLines solution bounds filter) := by
  have hlines : (edges solution bounds filter).map (fun e => e.told.text)
      = (edges solution bounds filter).map fun e => e.line.render 1 :=
    List.map_congr_left fun e _ => e.text_told
  rw [drawnLines, hlines, markup, Markup.render, Text.unlines, List.map_cons,
    List.map_cons, List.map_map, List.map_map]
  rfl

theorem endLine_unlines {ls : List String} (h : ls ≠ []) :
    endLine (Text.unlines ls) = Text.unlines ls := by
  have hlast : (Text.unlines ls).toList.getLast? = some '\n' := by
    rw [← List.dropLast_concat_getLast h]
    simp [Text.unlines]
  rw [endLine, if_pos hlast]

/-- The lines from the title to the list of the projects. -/
def opening : List String := ["", purpose, ""]

/-- The lines from the list of the projects to the diagram. -/
def passage : List String := ["", "## Flow diagram (Mermaid)", ""]

/-- The lines behind the diagram. -/
def closing : List String := ["", "*Generated automatically by cfgflow.*"]

/-- The summary line by line; a name may still hold line feeds here. -/
theorem summary_eq_unlines (solution : Solution) (bounds : Bounds)
    (filter : Option String) :
    (texts solution bounds filter).summary
      = Text.unlines (["# Architecture: " ++ solution.name]
        ++ (opening ++ ["## Projects scanned"])
        ++ bullets solution ++ (passage ++ ["```mermaid"])
        ++ drawnLines solution bounds filter ++ ("```" :: closing)) := by
  have hbullets :
      String.join (solution.projects.map fun p => "- " ++ p.name ++ "\n")
        = Text.unlines (bullets solution) := by
    rw [Text.unlines, bullets, List.map_map]
    rfl
  have hopening : "\n\n" ++ (purpose ++ "\n\n" ++ "## Projects scanned\n")
      = "\n" ++ Text.unlines (opening ++ ["## Projects scanned"]) := by
    decide
  have hpassage : "\n## Flow diagram (Mermaid)\n\n```mermaid\n"
      = Text.unlines (passage ++ ["```mermaid"]) := by decide
  have hclosing : "```\n\n*Generated automatically by cfgflow.*\n"
      = Text.unlines ("```" :: closing) := by decide
  have htitle : Text.unlines ["# Architecture: " ++ solution.name]
      = "# Architecture: " ++ solution.name ++ "\n" := by simp [Text.unlines]
  have hparts : ∀ title front list middle drawn back : List String,
      Text.unlines (title ++ front ++ list ++ middle ++ drawn ++ back)
        = Text.unlines title ++ Text.unlines front ++ Text.unlines list
          ++ Text.unlines middle
          ++ Text.unlines drawn ++ Text.unlines back := by
    intros
    simp only [Text.unlines_append]
  rw [texts]
  unfold summary
  rw [markup_eq_unlines, endLine_unlines (by simp [drawnLines]), hbullets,
    hpassage, hclosing, hparts, htitle]
  have hfront := congrArg ("# Architecture: " ++ solution.name ++ ·) hopening
  simp only [← String.append_assoc] at hfront ⊢
  rw [hfront]

theorem lines_drawnLines (solution : Solution) (bounds : Bounds)
    (filter : Option String) :
    (drawnLines solution bounds filter).flatMap Text.lines
      = drawnLines solution bounds filter := by
  have hlines := lines_markup solution bounds filter
  rw [markup_eq_unlines, Text.lines_unlines] at hlines
  exact List.append_cancel_right hlines

/-- The lines of the summary. Only the title and the bullets can be more than
one. -/
theorem lines_summary (solution : Solution) (bounds : Bounds)
    (filter : Option String) :
    Text.lines (texts solution bounds filter).summary
      = Text.lines ("# Architecture: " ++ solution.name) ++ opening
        ++ "## Projects scanned"
        :: ((bullets solution).flatMap Text.lines ++ passage
          ++ "```mermaid"
          :: (drawnLines solution bounds filter ++ "```"
            :: (closing ++ [""]))) := by
  have hopening : (opening ++ ["## Projects scanned"]).flatMap Text.lines
      = opening ++ ["## Projects scanned"] := by decide
  have hpassage : (passage ++ ["```mermaid"]).flatMap Text.lines
      = passage ++ ["```mermaid"] := by
    decide
  have hclosing :
      ("```" :: closing).flatMap Text.lines = "```" :: closing := by decide
  rw [summary_eq_unlines, Text.lines_unlines, List.flatMap_append,
    List.flatMap_append, List.flatMap_append, List.flatMap_append,
    List.flatMap_append, hopening, hpassage, hclosing, lines_drawnLines,
    List.flatMap_singleton]
  simp

/-! ## The reader -/

/-- The lines between the first line that is `start` and the next one that is
`stop`. -/
def between? (start stop : String) (ls : List String) : Option (List String) :=
  match ls.span (· ≠ start) with
  | (_, []) => none
  | (_, _ :: behind) =>
    match behind.span (· ≠ stop) with
    | (_, []) => none
    | (body, _ :: _) => some body

/-- The lines under the heading of the projects. -/
def listed? (text : String) : Option (List String) :=
  between? "## Projects scanned" "## Flow diagram (Mermaid)" (Text.lines text)

/-- The text of the first fence that is opened for a diagram. -/
def fenced? (text : String) : Option String :=
  (between? "```mermaid" "```" (Text.lines text)).map Text.unlines

theorem between?_of_split {start stop : String} {front body rest : List String}
    (hfront : start ∉ front) (hbody : stop ∉ body) :
    between? start stop (front ++ start :: (body ++ stop :: rest))
      = some body := by
  rw [between?, Text.span_ne_append hfront]
  simp only
  rw [Text.span_ne_append hbody]

theorem mem_of_between? {start stop l : String} {ls body : List String}
    (h : between? start stop ls = some body) (hl : l ∈ body) : l ∈ ls := by
  rw [between?] at h
  split at h
  · cases h
  · next front first behind hfront =>
      rw [List.span_eq_takeWhile_dropWhile, Prod.mk.injEq] at hfront
      split at h
      · cases h
      · next inner last rest hinner =>
          rw [List.span_eq_takeWhile_dropWhile, Prod.mk.injEq] at hinner
          rw [Option.some.injEq] at h
          rw [← h, ← hinner.1] at hl
          have hbehind : l ∈ behind := (List.takeWhile_prefix _).subset hl
          have hdropped : l ∈ first :: behind := List.mem_cons_of_mem _ hbehind
          rw [← hfront.2] at hdropped
          exact (List.dropWhile_suffix _).subset hdropped

/-! ## What is read back -/

theorem lines_bullet {name : String} (h : '\n' ∉ name.toList) :
    Text.lines ("- " ++ name) = ["- " ++ name] :=
  Text.lines_of_feed_not_mem (by simpa using h)

/-- A line of a bullet or of the title that is none of its own kind comes from a
name. -/
theorem mem_furtherLines_of_mem {label name l : String}
    (hlabel : '\n' ∉ label.toList) (h : l ∈ Text.lines (label ++ name))
    (hl : ∀ rest, l ≠ label ++ rest) :
    l ∈ Text.furtherLines name := by
  obtain ⟨first, hlines⟩ := Text.lines_append_of_feed_not_mem hlabel name
  rw [hlines] at h
  rcases List.mem_cons.1 h with rfl | h
  · exact absurd rfl (hl first)
  · exact h

/-- The list is only read back if no name of a project breaks its bullet. -/
theorem feed_not_mem_of_listed {solution : Solution} {bounds : Bounds}
    {filter : Option String}
    (h : listed? (texts solution bounds filter).summary
      = some (bullets solution ++ [""]))
    {p : Project} (hp : p ∈ solution.projects) : '\n' ∉ p.name.toList := by
  have hbullet : "- " ++ p.name ∈ bullets solution ++ [""] :=
    List.mem_append_left _ (List.mem_map_of_mem hp)
  have hfeed := Text.feed_not_mem_of_mem_lines (mem_of_between? h hbullet)
  intro hname
  apply hfeed
  simp [hname]

theorem listed_of_feed_not_mem {solution : Solution} {bounds : Bounds}
    {filter : Option String}
    (htitle : "## Projects scanned" ∉ Text.furtherLines solution.name)
    (hnames : ∀ p ∈ solution.projects, '\n' ∉ p.name.toList) :
    listed? (texts solution bounds filter).summary
      = some (bullets solution ++ [""]) := by
  have hlines : (bullets solution).flatMap Text.lines = bullets solution := by
    rw [bullets]
    generalize solution.projects = projects at hnames
    induction projects with
    | nil => rfl
    | cons p projects ih =>
        rw [List.map_cons, List.flatMap_cons,
          lines_bullet (hnames p List.mem_cons_self), ih fun q hq =>
            hnames q (List.mem_cons_of_mem _ hq)]
        rfl
  have hfront : "## Projects scanned"
      ∉ Text.lines ("# Architecture: " ++ solution.name) ++ opening := by
    intro h
    rcases List.mem_append.1 h with h | h
    · refine htitle (mem_furtherLines_of_mem (by decide) h fun rest heq => ?_)
      have hchars := congrArg String.toList heq
      simp at hchars
    · exact absurd h (by decide)
  have hbody : "## Flow diagram (Mermaid)" ∉ bullets solution ++ [""] := by
    intro h
    rcases List.mem_append.1 h with h | h
    · obtain ⟨p, -, heq⟩ := List.mem_map.1 h
      have hchars := congrArg String.toList heq
      simp at hchars
    · exact absurd h (by decide)
  have hsplit : ∀ rest : List String, bullets solution ++ passage ++ rest
      = bullets solution ++ [""] ++ "## Flow diagram (Mermaid)"
        :: ("" :: rest) := by
    simp [passage]
  rw [listed?, lines_summary, hlines, hsplit]
  exact between?_of_split hfront hbody

/-- No line of the markup closes the fence. -/
theorem fence_not_mem_drawnLines (solution : Solution) (bounds : Bounds)
    (filter : Option String) : "```" ∉ drawnLines solution bounds filter := by
  intro h
  rcases List.mem_cons.1 h with h | h
  · exact absurd h (by decide)
  · obtain ⟨e, -, heq⟩ := List.mem_map.1 h
    have hchars := congrArg String.toList heq
    simp [Arrow.text] at hchars

theorem fenced_of_furtherLines {solution : Solution} {bounds : Bounds}
    {filter : Option String}
    (hnames : ∀ name ∈ solution.name :: solution.projects.map (·.name),
      "```mermaid" ∉ Text.furtherLines name) :
    fenced? (texts solution bounds filter).summary
      = some (texts solution bounds filter).markup := by
  have hfront :
      "```mermaid" ∉ Text.lines ("# Architecture: " ++ solution.name) ++ opening
        ++ "## Projects scanned"
        :: ((bullets solution).flatMap Text.lines ++ passage) := by
    intro h
    simp only [List.mem_append, List.mem_cons] at h
    rcases h with (h | h) | h | h | h
    · refine hnames _ List.mem_cons_self
        (mem_furtherLines_of_mem (by decide) h fun rest heq => ?_)
      have hchars := congrArg String.toList heq
      simp at hchars
    · exact absurd h (by decide)
    · exact absurd h (by decide)
    · obtain ⟨bullet, hbullet, h⟩ := List.mem_flatMap.1 h
      obtain ⟨p, hp, rfl⟩ := List.mem_map.1 hbullet
      have hname :=
        hnames p.name (List.mem_cons_of_mem _ (List.mem_map_of_mem hp))
      refine hname (mem_furtherLines_of_mem (by decide) h fun rest heq => ?_)
      have hchars := congrArg String.toList heq
      simp at hchars
    · exact absurd h (by decide)
  rw [fenced?, lines_summary, ← List.cons_append, ← List.append_assoc,
    between?_of_split hfront (fence_not_mem_drawnLines solution bounds filter),
    Option.map_some, ← markup_eq_unlines]
  rfl

/-- The list of the projects is read back just when no name in it holds a line
feed, unless the title forges its heading. The markup is read back unless a name
forges the fence. -/
theorem summary_read_back (solution : Solution) (bounds : Bounds)
    (filter : Option String) :
    ("## Projects scanned" ∉ Text.furtherLines solution.name →
      (listed? (texts solution bounds filter).summary
          = some (solution.projects.map (fun p => "- " ++ p.name) ++ [""])
        ↔ ∀ p ∈ solution.projects, '\n' ∉ p.name.toList))
      ∧ ((∀ name ∈ solution.name :: solution.projects.map (·.name),
          "```mermaid" ∉ Text.furtherLines name) →
        fenced? (texts solution bounds filter).summary
          = some (texts solution bounds filter).markup) := by
  refine ⟨fun htitle => ⟨?_, ?_⟩, fenced_of_furtherLines⟩
  · intro h p hp
    exact feed_not_mem_of_listed h hp
  · intro hnames
    exact listed_of_feed_not_mem htitle hnames

/-- A solution with a line feed in its name that does no harm. -/
def twoLineSolution : Solution :=
  ⟨"Shop\nnorth", [⟨"A", [], []⟩, ⟨"B", [], []⟩]⟩

theorem two_line_title_read_back :
    listed? (texts twoLineSolution {} (some "B")).summary
        = some ["- A", "- B", ""]
      ∧ fenced? (texts twoLineSolution {} (some "B")).summary
        = some (texts twoLineSolution {} (some "B")).markup := by
  have hread := summary_read_back twoLineSolution {} (some "B")
  exact ⟨(hread.1 (by decide)).2 (by decide), hread.2 (by decide)⟩

/-- A solution whose title goes on with the heading of the list and the mark of
the fence. -/
def forgingSolution : Solution :=
  ⟨"Shop\n## Projects scanned\n```mermaid", [⟨"A", [], []⟩]⟩

/-- The list that is read begins with the rest of the title, and so does the
diagram. -/
theorem forged_title_misread :
    listed? (texts forgingSolution {} none).summary
        = some (["```mermaid"] ++ opening ++ ["## Projects scanned", "- A", ""])
      ∧ listed? (texts forgingSolution {} none).summary ≠ some ["- A", ""]
      ∧ fenced? (texts forgingSolution {} none).summary
        = some (Text.unlines
            (opening ++ ["## Projects scanned", "- A"] ++ passage
              ++ ["```mermaid"])
          ++ (texts forgingSolution {} none).markup) := by
  have htitle : Text.lines ("# Architecture: " ++ forgingSolution.name)
      = ["# Architecture: Shop", "## Projects scanned", "```mermaid"] := by
    decide
  have hbullets :
      (bullets forgingSolution).flatMap Text.lines = ["- A"] := by decide
  have hlisted : listed? (texts forgingSolution {} none).summary
      = some (["```mermaid"] ++ opening
        ++ ["## Projects scanned", "- A", ""]) := by
    rw [listed?, lines_summary, htitle, hbullets]
    have hfront : "## Projects scanned" ∉ ["# Architecture: Shop"] := by decide
    have hbody : "## Flow diagram (Mermaid)"
        ∉ ["```mermaid"] ++ opening ++ ["## Projects scanned", "- A", ""] := by
      decide
    exact between?_of_split hfront hbody
  refine ⟨hlisted, ?_, ?_⟩
  · rw [hlisted, ne_eq, Option.some.injEq]
    decide
  · have hfront : "```mermaid"
        ∉ ["# Architecture: Shop", "## Projects scanned"] := by decide
    have hbody : "```"
        ∉ opening ++ ["## Projects scanned", "- A"] ++ passage ++ ["```mermaid"]
        ++ drawnLines forgingSolution {} none := by
      intro h
      rcases List.mem_append.1 h with h | h
      · exact absurd h (by decide)
      · exact fence_not_mem_drawnLines _ _ _ h
    have hfenced := @between?_of_split _ _ _ _ (closing ++ [""]) hfront hbody
    rw [fenced?, lines_summary, htitle, hbullets]
    simp only [List.append_assoc, List.cons_append, List.nil_append]
      at hfenced ⊢
    rw [hfenced, Option.map_some, texts, markup_eq_unlines,
      ← Text.unlines_append]
    simp

end Architecture

end FlowAtlas
