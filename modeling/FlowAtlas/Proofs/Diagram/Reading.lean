import FlowAtlas.Diagram.Chart
import FlowAtlas.Proofs.Diagram.Escaping
import Mathlib.Data.List.TakeDrop

/-!
# The markup of a method is read back

Names, operations and conditions are free text, and they end up between the
marks of the markup. Escaping takes out the two characters that could do harm
there: the quote that would end a label, and the line feed that would end a
line. What is left is a text of lines, one to a statement (`lines_render`), and
a line that tells all of its statement (`ofLine?_text`).

The reader of lines knows nothing about graphs. It goes from left to right: an
id ends where its digits end, the mark behind it says what kind of statement
follows, and a label ends at its quote. So a label may hold any mark of the
markup without being taken for one.
-/

namespace FlowAtlas

namespace Markup

/-- A flowchart has a line for each of its lines, if none of them holds a line
feed, and nothing behind the last one. -/
theorem lines_render {level : Nat} {ls : List Line}
    (h : ∀ l ∈ ls, '\n' ∉ (l.render level).toList) :
    Text.lines (render level ls) = ls.map (Line.render level) ++ [""] := by
  induction ls with
  | nil => rfl
  | cons l ls ih =>
      have hrest := ih fun m hm => h m (List.mem_cons_of_mem _ hm)
      rw [Text.lines] at hrest ⊢
      have hchars : (render level (l :: ls)).toList
          = (l.render level).toList ++ '\n' :: (render level ls).toList := by
        simp [render]
      rw [hchars, Text.splitAtChar_append,
        Text.splitAtChar_eq_singleton (h l List.mem_cons_self),
        List.singleton_append, List.map_cons, hrest, String.ofList_toList]
      rfl

end Markup

namespace Diagram

open Markup

/-! ## Reading a line -/

/-- A statement as its line tells it: with the label escaped. -/
def Statement.escaped : Statement → Statement
  | .node v label => .node v (Text.inLabel label)
  | .edge source target truth => .edge source target truth

/-- The line of a statement in the markup of a method. -/
def Statement.text (s : Statement) : String := s.line.render 0

/-- The node that an id at the beginning of a text stands for, and the text
behind the id. -/
def Vertex.read? : List Char → Option (Vertex × List Char)
  | [] => none
  | letter :: cs =>
    match cs.span Char.isDigit with
    | ([], _) => none
    | (digits, rest) =>
      match letter with
      | 'B' => some (.block (Nat.ofDigitChars 10 digits 0), rest)
      | 'D' => some (.decision (Nat.ofDigitChars 10 digits 0), rest)
      | _ => none

/-- The truth value with a label. -/
def truth? (label : List Char) : Option Bool :=
  if label = (truthLabel true).toList then some true
  else if label = (truthLabel false).toList then some false
  else none

/-- The node that a whole text is the id of. -/
def Vertex.ofId? (cs : List Char) : Option Vertex :=
  match Vertex.read? cs with
  | some (v, []) => some v
  | _ => none

/-- The statement behind the id of its first node. -/
def Statement.read? (source : Vertex) : List Char → Option Statement
  | '[' :: '"' :: cs =>
    match cs.span (· ≠ '"') with
    | (label, ['"', ']']) => some (.node source (String.ofList label))
    | _ => none
  | ' ' :: '-' :: '-' :: '>' :: ' ' :: cs => do
    let target ← Vertex.ofId? cs
    pure (.edge source target none)
  | ' ' :: '-' :: '-' :: ' ' :: '"' :: cs =>
    match cs.span (· ≠ '"') with
    | (label, '"' :: ' ' :: '-' :: '-' :: '>' :: ' ' :: cs) => do
      let truth ← truth? label
      let target ← Vertex.ofId? cs
      pure (.edge source target (some truth))
    | _ => none
  | _ => none

/-- The statement on a line. -/
def Statement.ofLine? (line : String) : Option Statement := do
  let (source, rest) ← Vertex.read? line.toList
  Statement.read? source rest

theorem Vertex.toList_id (v : Vertex) :
    ∃ letter index, v.id.toList = letter :: Nat.toDigits 10 index
      ∧ (letter = 'B' ∧ v = .block index
        ∨ letter = 'D' ∧ v = .decision index) := by
  cases v with
  | block i => exact ⟨'B', i, by simp [Vertex.id, blockName], .inl ⟨rfl, rfl⟩⟩
  | decision i =>
      exact ⟨'D', i, by simp [Vertex.id, decisionName], .inr ⟨rfl, rfl⟩⟩

/-- An id is read back in front of anything but a digit. -/
theorem Vertex.read?_id (v : Vertex) {rest : List Char}
    (hrest : ∀ c ∈ rest.head?, c.isDigit = false) :
    Vertex.read? (v.id.toList ++ rest) = some (v, rest) := by
  obtain ⟨letter, index, hid, hletter⟩ := v.toList_id
  have hdigits : ∀ c ∈ Nat.toDigits 10 index, c.isDigit = true := fun _ hc =>
    Nat.isDigit_of_mem_toDigits (by decide) (by decide) hc
  rw [hid, List.cons_append, Vertex.read?, Text.span_of_forall hdigits hrest]
  split
  · next heq => exact absurd (Prod.mk.inj heq).1 Nat.toDigits_ne_nil
  · next digits rest' _ heq =>
      obtain ⟨rfl, rfl⟩ := Prod.mk.inj heq
      rcases hletter with ⟨rfl, rfl⟩ | ⟨rfl, rfl⟩
        <;> simp only [Nat.ofDigitChars_ten_toDigits]

theorem Vertex.ofId?_id (v : Vertex) : Vertex.ofId? v.id.toList = some v := by
  have h := @Vertex.read?_id v [] fun c hc => by simp at hc
  rw [List.append_nil] at h
  rw [Vertex.ofId?, h]

/-- A label ends at the quote behind it. -/
theorem span_inLabel (label : String) (rest : List Char) :
    ((Text.inLabel label).toList ++ '"' :: rest).span (· ≠ '"')
      = ((Text.inLabel label).toList, '"' :: rest) := by
  refine Text.span_of_forall (fun c hc => ?_) fun c hc => ?_
  · exact decide_eq_true (Text.ne_of_mem_inLabel hc).1
  · obtain rfl : '"' = c := Option.some.inj hc
    rfl

theorem truth?_truthLabel (truth : Bool) :
    truth? (Text.inLabel (truthLabel truth)).toList = some truth := by
  cases truth <;> decide

theorem toList_node (v : Vertex) (label : String) :
    (Statement.node v label).text.toList
      = v.id.toList ++ '[' :: '"'
        :: ((Text.inLabel label).toList ++ ['"', ']']) := by
  simp [Statement.text, Statement.line, Line.render, indentation, nodeText]

theorem toList_edge (source target : Vertex) :
    (Statement.edge source target none).text.toList
      = source.id.toList ++ ' ' :: '-' :: '-' :: '>' :: ' '
        :: target.id.toList := by
  simp [Statement.text, Statement.line, Line.render, indentation]

theorem toList_labeledEdge (source target : Vertex) (truth : Bool) :
    (Statement.edge source target (some truth)).text.toList
      = source.id.toList ++ ' ' :: '-' :: '-' :: ' ' :: '"'
          :: ((Text.inLabel (truthLabel truth)).toList
            ++ '"' :: ' ' :: '-' :: '-' :: '>' :: ' ' :: target.id.toList) := by
  simp [Statement.text, Statement.line, Line.render, indentation]

/-- The line of a statement tells its kind, its ids, and its label. -/
theorem ofLine?_text
    (s : Statement) : Statement.ofLine? s.text = some s.escaped := by
  have hmark : ∀ (c : Char) (cs : List Char), c.isDigit = false →
      ∀ d ∈ (c :: cs).head?, d.isDigit = false := by
    intro c cs hc d hd
    obtain rfl : c = d := Option.some.inj hd
    exact hc
  cases s with
  | node v label =>
      rw [Statement.ofLine?, toList_node, v.read?_id (hmark _ _ (by decide))]
      simp only [Option.bind_eq_bind, Option.bind_some, Statement.read?,
        span_inLabel, String.ofList_toList]
      rfl
  | edge source target truth =>
      cases truth with
      | none =>
          rw [Statement.ofLine?, toList_edge,
            source.read?_id (hmark _ _ (by decide))]
          simp only [Option.bind_eq_bind, Option.bind_some, Statement.read?,
            Vertex.ofId?_id]
          rfl
      | some truth =>
          rw [Statement.ofLine?, toList_labeledEdge,
            source.read?_id (hmark _ _ (by decide))]
          simp only [Option.bind_eq_bind, Option.bind_some, Statement.read?,
            span_inLabel, truth?_truthLabel, Vertex.ofId?_id]
          rfl

/-! ## The whole markup -/

theorem text_escaped (s : Statement) : s.escaped.text = s.text := by
  cases s with
  | node v label =>
      simp only [Statement.escaped, Statement.text, Statement.line, Line.render,
        nodeText, Text.inLabel_inLabel]
  | edge source target truth => rfl

/-- An id is made of letters and digits, so it holds none of the marks around
it. -/
theorem Vertex.isAlphanum_of_mem_id {v : Vertex} {c : Char}
    (h : c ∈ v.id.toList) :
    c.isAlphanum = true := by
  obtain ⟨letter, index, hid, hletter⟩ := v.toList_id
  rw [hid, List.mem_cons] at h
  rcases h with rfl | h
  · rcases hletter with ⟨rfl, -⟩ | ⟨rfl, -⟩ <;> decide
  · rw [Char.isAlphanum, Nat.isDigit_of_mem_toDigits (by decide) (by decide) h,
      Bool.or_true]

theorem Vertex.feed_not_mem_id (v : Vertex) : '\n' ∉ v.id.toList := fun h =>
  absurd (Vertex.isAlphanum_of_mem_id h) (by decide)

theorem feed_not_mem_inLabel (s : String) :
    '\n' ∉ (Text.inLabel s).toList := fun h =>
  (Text.ne_of_mem_inLabel h).2.2.2 rfl

theorem feed_not_mem_text (s : Statement) : '\n' ∉ s.text.toList := by
  cases s with
  | node v label =>
      rw [toList_node]
      simp [v.feed_not_mem_id, feed_not_mem_inLabel]
  | edge source target truth =>
      cases truth with
      | none =>
          rw [toList_edge]
          simp [source.feed_not_mem_id, target.feed_not_mem_id]
      | some truth =>
          rw [toList_labeledEdge]
          simp [source.feed_not_mem_id, target.feed_not_mem_id,
            feed_not_mem_inLabel]

theorem project_comment (h : Origin) :
    "%% " ++ h.comment
      = "%% Project: " ++ (Text.inLabel h.project ++ " | File: "
        ++ Text.inLabel h.document ++ " | Method: "
        ++ Text.inLabel h.method) := by
  apply String.toList_injective
  simp [Origin.comment]

/-- The lines in front of the statements. -/
def preamble (h : Origin) : List String :=
  ["%% Diagram generated automatically (CFG -> Mermaid)", "%% " ++ h.comment,
    "flowchart TD"]

theorem lines_chart (g : ControlFlowGraph) (h : Origin) :
    Text.lines (chart g h)
      = preamble h ++ (statements g).map Statement.text ++ [""] := by
  have hfeed : ∀ l ∈ lines g h, '\n' ∉ (l.render 0).toList := by
    intro l hl
    rcases List.mem_append.1 hl with hl | hl
    · simp only [List.mem_cons, List.not_mem_nil, or_false] at hl
      rcases hl with rfl | rfl | rfl
      · decide
      · simp [Line.render, Origin.comment, feed_not_mem_inLabel]
      · decide
    · obtain ⟨s, -, rfl⟩ := List.mem_map.1 hl
      exact feed_not_mem_text s
  rw [chart, lines_render hfeed, lines, List.map_append, List.map_map]
  rfl

/-- The markup of a method holds two comments, the header and one line for each
statement, whatever the texts are. Each line tells its statement, and so the
markup tells all statements. -/
theorem chart_reads_back (h : Origin) :
    (∀ g, Text.lines (chart g h)
        = ["%% Diagram generated automatically (CFG -> Mermaid)",
            "%% " ++ h.comment, "flowchart TD"]
          ++ (statements g).map Statement.text ++ [""])
      ∧ (∃ names, "%% " ++ h.comment = "%% Project: " ++ names)
      ∧ (∀ s : Statement, Statement.ofLine? s.text = some s.escaped)
      ∧ ∀ g g', chart g h = chart g' h
          ↔ (statements g).map Statement.escaped
            = (statements g').map Statement.escaped := by
  refine ⟨fun g => lines_chart g h, ⟨_, project_comment h⟩, ofLine?_text,
    fun g g' => ⟨fun heq => ?_, fun heq => ?_⟩⟩
  · have hlines := congrArg Text.lines heq
    rw [lines_chart, lines_chart, List.append_assoc,
      List.append_assoc] at hlines
    have htexts := List.append_cancel_right (List.append_cancel_left hlines)
    have hread := congrArg (List.map Statement.ofLine?) htexts
    simp only [List.map_map, Function.comp_def, ofLine?_text] at hread
    have hsome : ∀ ss : List Statement,
        ss.map (fun s => some s.escaped)
          = (ss.map Statement.escaped).map some := by
      intro ss
      rw [List.map_map]
      rfl
    rw [hsome, hsome] at hread
    exact (List.map_inj_right fun _ _ => Option.some.inj).1 hread
  · have htexts := congrArg (List.map Statement.text) heq
    simp only [List.map_map, Function.comp_def, text_escaped] at htexts
    have hlines :
        (lines g h).map (Line.render 0) = (lines g' h).map (Line.render 0) := by
      rw [lines, lines, List.map_append, List.map_append,
        List.map_map, List.map_map]
      exact congrArg _ htexts
    have hrender : ∀ ls : List Line,
        render 0 ls
          = String.join ((ls.map (Line.render 0)).map (· ++ "\n")) := by
      intro ls
      rw [List.map_map]
      rfl
    rw [chart, chart, hrender, hrender, hlines]

end Diagram

end FlowAtlas
