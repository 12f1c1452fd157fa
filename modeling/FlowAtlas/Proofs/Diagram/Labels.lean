import FlowAtlas.Proofs.Diagram.Closed
import FlowAtlas.Proofs.Diagram.Reading
import Mathlib.Data.List.Basic
import Mathlib.Data.List.TakeWhile

/-!
# What the labels of a diagram say

The label of a block is put together from its operations and escaped afterwards.
What stands on the line is described the other way round: each operation is
trimmed and escaped by itself, and then the pieces are put together. The two
agree because escaping works character by character and leaves the mark between
the pieces alone (`Text.inLabel_intercalate`).

A label is never blank. A text with a character that is not blank has one after
it is escaped as well: the two characters that escaping turns into blanks, or
into a mark, are blanks themselves. The texts that stand in where there is
nothing to show are not blank either.

The labels are taken from the text of the markup, by what a line begins and ends
with (`labelOn?`). Nothing but the line of a node looks like one: a comment
holds no quote, and an edge ends with the digits of an id.
-/

namespace FlowAtlas

/-! ## Blank text -/

namespace Text

/-- Whether a text has anything to show: a character that is not blank. -/
def hasInk (s : String) : Bool := s.toList.any fun c => !isBlank c

theorem hasInk_iff
    {s : String} : hasInk s = true ↔ ∃ c ∈ s.toList, isBlank c = false := by
  simp [hasInk]

theorem hasInk_append
    (s t : String) : hasInk (s ++ t) = (hasInk s || hasInk t) := by
  simp [hasInk]

theorem mem_dropWhile_isBlank {c : Char} {cs : List Char} (h : c ∈ cs)
    (hink : isBlank c = false) : c ∈ cs.dropWhile isBlank := by
  rw [← List.takeWhile_append_dropWhile (p := isBlank) (l := cs),
    List.mem_append] at h
  refine h.resolve_left fun hfront => ?_
  rw [List.mem_takeWhile_imp hfront] at hink
  exact Bool.noConfusion hink

/-- Trimming takes blanks away and nothing else. -/
theorem mem_trimChars {c : Char} {cs : List Char} (hink : isBlank c = false) :
    c ∈ trimChars cs ↔ c ∈ cs := by
  rw [trimChars, List.mem_reverse]
  constructor
  · intro h
    have h' := List.mem_reverse.1 ((List.dropWhile_sublist _).mem h)
    exact (List.dropWhile_sublist _).mem h'
  · intro h
    exact mem_dropWhile_isBlank
      (List.mem_reverse.2 (mem_dropWhile_isBlank h hink)) hink

theorem hasInk_trim (s : String) : hasInk (trim s) = hasInk s := by
  rw [Bool.eq_iff_iff, hasInk_iff, hasInk_iff, trim, String.toList_ofList]
  exact exists_congr fun c => and_congr_left fun hink => mem_trimChars hink

theorem trimChars_eq_nil_iff {s : String} :
    trimChars s.toList = [] ↔ hasInk s = false := by
  rw [← Bool.not_eq_true, hasInk_iff]
  constructor
  · rintro hnil ⟨c, hc, hink⟩
    rw [← mem_trimChars hink, hnil] at hc
    exact List.not_mem_nil hc
  · intro h
    have hblank : s.toList.dropWhile isBlank = [] := by
      refine List.dropWhile_eq_nil_iff.2 fun c hc => ?_
      by_contra hink
      exact h ⟨c, hc, Bool.not_eq_true _ ▸ hink⟩
    rw [trimChars, hblank]
    rfl

/-- An operation is shown if it has something to show. -/
theorem nonBlank?_eq
    (s : String) : nonBlank? s = if hasInk s then some (trim s) else none := by
  cases hink : hasInk s with
  | false =>
      rw [nonBlank?, trimChars_eq_nil_iff.2 hink, if_neg Bool.false_ne_true]
  | true =>
      have hne : trimChars s.toList ≠ [] := fun hnil => by
        rw [trimChars_eq_nil_iff.1 hnil] at hink
        exact Bool.noConfusion hink
      rw [nonBlank?, if_pos rfl]
      split
      · next hnil => exact absurd hnil hne
      · rfl

/-! ## Escaping -/

/-- Pieces may be escaped before or after they are put together. -/
theorem inLabel_intercalate (pieces : List String) :
    inLabel (breakMark.intercalate pieces)
      = breakMark.intercalate (pieces.map inLabel) := by
  have hmark : inLabel breakMark = breakMark := by decide
  induction pieces with
  | nil => rfl
  | cons piece pieces ih =>
      cases pieces with
      | nil => simp
      | cons next pieces =>
          rw [String.intercalate_cons_cons, inLabel_append,
            inLabel_append, hmark, ih]
          simp

/-- A character that is not blank leaves one that is not. -/
theorem hasInk_inLabel {s : String} (h : hasInk s = true) :
    hasInk (inLabel s) = true := by
  obtain ⟨c, hc, hink⟩ := hasInk_iff.1 h
  have hchar : ∃ d ∈ inLabelChar c, isBlank d = false := by
    unfold inLabelChar
    split
    · exact ⟨'\'', List.mem_singleton_self _, by decide⟩
    · exact ⟨'/', List.mem_singleton_self _, by decide⟩
    · exact absurd hink (by decide)
    · exact absurd hink (by decide)
    · exact ⟨c, List.mem_singleton_self _, hink⟩
  obtain ⟨d, hd, hink⟩ := hchar
  refine hasInk_iff.2 ⟨d, ?_, hink⟩
  rw [inLabel, String.toList_ofList]
  exact List.mem_flatMap.2 ⟨c, hc, hd⟩

/-- Pieces that are put together have something to show if the first of them
has. -/
theorem hasInk_intercalate {sep piece : String} {pieces : List String}
    (h : hasInk piece = true) :
    hasInk (sep.intercalate (piece :: pieces)) = true := by
  cases pieces with
  | nil => rwa [String.intercalate_singleton]
  | cons next pieces =>
      rw [String.intercalate_cons_cons, hasInk_append, hasInk_append, h]
      rfl

end Text

namespace Diagram

open Markup

/-! ## The labels in a markup -/

/-- The label on a line, if it is the line of the node with this id. -/
def labelOn? (id line : String) : Option String :=
  let opening := id.toList ++ ['[', '"']
  let rest := line.toList.drop opening.length
  if opening.isPrefixOf line.toList && ['"', ']'].isSuffixOf rest then
    some (String.ofList (rest.take (rest.length - 2)))
  else none

/-- The labels of the node with this id in a markup. -/
def labelsOn (id markup : String) : List String :=
  (Text.lines markup).filterMap (labelOn? id)

/-- The line of a node with an id and a label, as they stand on the line. -/
def nodeLine (id label : String) : String := id ++ "[\"" ++ label ++ "\"]"

theorem toList_nodeLine (id label : String) :
    (nodeLine id label).toList
      = id.toList ++ '[' :: '"' :: (label.toList ++ ['"', ']']) := by
  simp [nodeLine]

theorem labelOn?_eq_some_iff {id line label : String} :
    labelOn? id line = some label ↔ line = nodeLine id label := by
  rw [← String.toList_inj, toList_nodeLine, labelOn?]
  constructor
  · intro h
    split at h
    · next hmarks =>
        rw [Bool.and_eq_true, List.isPrefixOf_iff_prefix,
          List.isSuffixOf_iff_suffix] at hmarks
        obtain ⟨⟨rest, hline⟩, ⟨inner, hrest⟩⟩ := hmarks
        rw [← hline, List.drop_left] at hrest h
        subst hrest
        obtain rfl := Option.some.inj h
        rw [← hline]
        simp
    · exact nomatch h
  · intro h
    have hline : line.toList
        = (id.toList ++ ['[', '"']) ++ (label.toList ++ ['"', ']']) := by
      rw [h]
      simp
    rw [hline, List.drop_left, if_pos]
    · simp
    · rw [Bool.and_eq_true, List.isPrefixOf_iff_prefix,
        List.isSuffixOf_iff_suffix]
      exact ⟨List.prefix_append _ _, List.suffix_append _ _⟩

/-! ## Lines that are no nodes -/

theorem quote_mem_nodeLine (id label : String) :
    '"' ∈ (nodeLine id label).toList := by
  rw [toList_nodeLine]
  simp

theorem getLast?_nodeLine (id label : String) :
    (nodeLine id label).toList.getLast? = some ']' := by
  rw [toList_nodeLine, List.getLast?_append]
  simp [List.getLast?_cons]

theorem Vertex.quote_not_mem_id (v : Vertex) : '"' ∉ v.id.toList := fun h =>
  absurd (Vertex.isAlphanum_of_mem_id h) (by decide)

theorem Vertex.getLast?_id
    (v : Vertex) : ∃ c, v.id.toList.getLast? = some c ∧ c ≠ ']' := by
  cases hlast : v.id.toList.getLast? with
  | none =>
      obtain ⟨letter, index, hid, -⟩ := v.toList_id
      exact nomatch hid.symm.trans (List.getLast?_eq_none_iff.1 hlast)
  | some c =>
      refine ⟨c, rfl, ?_⟩
      rintro rfl
      exact absurd (Vertex.isAlphanum_of_mem_id (List.mem_of_getLast? hlast))
        (by decide)

/-- A text that ends with an id does not end like the line of a node. -/
theorem ne_nodeLine_of_ends {line id label : String} {v : Vertex}
    (h : v.id.toList <:+ line.toList) : line ≠ nodeLine id label := by
  rintro rfl
  obtain ⟨front, hline⟩ := h
  obtain ⟨c, hlast, hc⟩ := v.getLast?_id
  have hend := getLast?_nodeLine id label
  rw [← hline, List.getLast?_append, hlast] at hend
  exact hc (Option.some.inj hend)

/-- The line of a statement is that of a node only if the statement is one. The
label holds no quote, so it is clear where it begins. -/
theorem text_eq_nodeLine_iff {s : Statement} {id label : String} :
    s.text = nodeLine id label
      ↔ ∃ v text, s = .node v text ∧ id = v.id ∧ label = Text.inLabel text := by
  constructor
  · intro h
    cases s with
    | node v text =>
        refine ⟨v, text, rfl, ?_⟩
        have hlist := congrArg String.toList h
        rw [toList_node, toList_nodeLine] at hlist
        have hsplit :
            (v.id.toList ++ ['[']) ++ '"' :: (Text.inLabel text).toList
              = (id.toList ++ ['[']) ++ '"' :: label.toList := by
          have hclosed :
              ((v.id.toList ++ ['[']) ++ '"' :: (Text.inLabel text).toList)
                  ++ ['"', ']']
                = ((id.toList ++ ['[']) ++ '"' :: label.toList)
                  ++ ['"', ']'] := by
            simpa using hlist
          exact List.append_cancel_right hclosed
        have hquote : '"' ∉ v.id.toList ++ ['['] := by simp [v.quote_not_mem_id]
        have hlabel : '"' ∉ (Text.inLabel text).toList := fun hmem =>
          (Text.ne_of_mem_inLabel hmem).1 rfl
        obtain ⟨hid, -, htext⟩ :=
          (List.append_cons_inj_of_notMem hquote hlabel).1 hsplit
        exact ⟨String.toList_inj.1 (List.append_cancel_right hid.symm),
          String.toList_inj.1 htext.symm⟩
    | edge source target truth =>
        cases truth with
        | none =>
            refine absurd h (ne_nodeLine_of_ends (v := target) ?_)
            rw [toList_edge]
            exact ⟨source.id.toList ++ [' ', '-', '-', '>', ' '], by simp⟩
        | some truth =>
            refine absurd h (ne_nodeLine_of_ends (v := target) ?_)
            rw [toList_labeledEdge]
            exact ⟨source.id.toList ++ ' ' :: '-' :: '-' :: ' ' :: '"'
              :: ((Text.inLabel (truthLabel truth)).toList
                ++ ['"', ' ', '-', '-', '>', ' ']),
              by simp⟩
  · rintro ⟨v, text, rfl, rfl, rfl⟩
    rfl

/-- The lines in front of the statements hold no quote. -/
theorem quote_not_mem_preamble {h : Origin} {line : String}
    (hline : line ∈ preamble h) :
    '"' ∉ line.toList := by
  simp only [preamble, List.mem_cons, List.not_mem_nil, or_false] at hline
  rcases hline with rfl | rfl | rfl
  · decide
  · have hfree : ∀ s, '"' ∉ (Text.inLabel s).toList := fun s hmem =>
      (Text.ne_of_mem_inLabel hmem).1 rfl
    simp [Origin.comment, hfree]
  · decide

/-- The lines of nodes in the markup of a method are those of the nodes of its
diagram. -/
theorem nodeLine_mem_lines {g : ControlFlowGraph} {h : Origin}
    {id label : String} (hline : nodeLine id label ∈ Text.lines (chart g h)) :
    ∃ v text, .node v text ∈ statements g ∧ id = v.id
      ∧ label = Text.inLabel text := by
  rw [lines_chart, List.mem_append, List.mem_append] at hline
  rcases hline with (hline | hline) | hline
  · exact absurd (quote_mem_nodeLine id label) (quote_not_mem_preamble hline)
  · obtain ⟨s, hs, htext⟩ := List.mem_map.1 hline
    obtain ⟨v, text, rfl, hnode⟩ := text_eq_nodeLine_iff.1 htext
    exact ⟨v, text, hs, hnode⟩
  · rw [List.mem_singleton] at hline
    exact absurd (quote_mem_nodeLine id label) (by rw [hline]; decide)

/-! ## The labels of the statements -/

/-- The label of a statement as it stands on its line, if it is the node with
this id. -/
def Statement.labelFor? (id : String) : Statement → Option String
  | .node v text => if v.id = id then some (Text.inLabel text) else none
  | .edge _ _ _ => none

theorem Statement.labelFor?_self (v : Vertex) (text : String) :
    (node v text).labelFor? v.id = some (Text.inLabel text) := if_pos rfl

theorem Statement.labelFor?_of_ne {v : Vertex} {id : String} (h : v.id ≠ id)
    (text : String) :
    (node v text).labelFor? id = none := if_neg h

theorem labelOn?_text (id : String) (s : Statement) :
    labelOn? id s.text = s.labelFor? id := by
  ext label
  rw [labelOn?_eq_some_iff, text_eq_nodeLine_iff]
  cases s with
  | node v text =>
      rw [Statement.labelFor?, Option.ite_none_right_eq_some, Option.some.injEq]
      constructor
      · rintro ⟨_, _, heq, rfl, rfl⟩
        obtain ⟨rfl, rfl⟩ := Statement.node.inj heq
        exact ⟨rfl, rfl⟩
      · rintro ⟨rfl, rfl⟩
        exact ⟨v, text, rfl, rfl, rfl⟩
  | edge source target truth =>
      exact iff_of_false (fun ⟨_, _, heq, _⟩ => nomatch heq) fun h => nomatch h

theorem labelOn?_eq_none_of_quote {id line : String} (h : '"' ∉ line.toList) :
    labelOn? id line = none := by
  refine Option.eq_none_iff_forall_ne_some.2 fun label hlabel => h ?_
  rw [labelOn?_eq_some_iff.1 hlabel]
  exact quote_mem_nodeLine id label

/-- The labels in the markup of a method are those of its statements. -/
theorem labelsOn_chart (id : String) (g : ControlFlowGraph) (h : Origin) :
    labelsOn id (chart g h)
      = (statements g).filterMap (Statement.labelFor? id) := by
  have hpreamble : (preamble h).filterMap (labelOn? id) = [] :=
    List.filterMap_eq_nil_iff.2 fun line hline =>
      labelOn?_eq_none_of_quote (quote_not_mem_preamble hline)
  rw [labelsOn, lines_chart, List.filterMap_append, List.filterMap_append,
    hpreamble, List.filterMap_map, List.nil_append]
  have hend : [""].filterMap (labelOn? id) = [] := by
    rw [List.filterMap_cons_none (labelOn?_eq_none_of_quote (by decide)),
      List.filterMap_nil]
  rw [hend, List.append_nil]
  exact congrArg (List.filterMap · (statements g)) (funext (labelOn?_text id))

/-! ## The statements of one block -/

theorem labels_eq_nil {id : String} {ss : List Statement}
    (h : id ∉ nodeIds ss) :
    ss.filterMap (Statement.labelFor? id) = [] := by
  refine List.filterMap_eq_nil_iff.2 fun s hs => ?_
  cases s with
  | node v text =>
      refine if_neg fun heq => h (List.mem_filterMap.2 ⟨_, hs, ?_⟩)
      exact congrArg some heq
  | edge source target truth => rfl

/-- The labels of a node are found among the statements of its block. -/
theorem labels_statements {g : ControlFlowGraph} {i : Nat} {id : String}
    (hid : drawnAs i id) :
    (statements g).filterMap (Statement.labelFor? id)
      = (g.blocks[i]?).elim [] fun b =>
          (blockStatements g i b).filterMap (Statement.labelFor? id) := by
  refine collected_statements (List.filterMap (Statement.labelFor? id)) rfl
    (fun _ _ => List.filterMap_append) fun j b hne =>
      labels_eq_nil fun hmem => ?_
  rw [nodeIds_blockStatements] at hmem
  exact hne (drawnAs_unique (drawnAs_of_mem_idsOfBlock hmem) hid)

/-- Behind the nodes of a block there are edges only. -/
theorem labels_edges (id : String) {source : Vertex}
    (ts : List (Option Nat × Option Bool)) :
    (ts.flatMap fun t => edgeTo source t.1 t.2).filterMap
      (Statement.labelFor? id) = [] :=
  labels_eq_nil (by rw [nodeIds_flatMap_edgeTo]; exact List.not_mem_nil)

theorem labels_edgeTo (id : String) (source : Vertex) (target : Option Nat)
    (truth : Option Bool) :
    (edgeTo source target truth).filterMap (Statement.labelFor? id) = [] :=
  labels_eq_nil (by rw [nodeIds_edgeTo]; exact List.not_mem_nil)

theorem labels_blockName (g : ControlFlowGraph) (i : Nat) (b : BasicBlock) :
    (blockStatements g i b).filterMap (Statement.labelFor? (blockName i))
      = [Text.inLabel (labelOfBlock i b)] := by
  have hself :
      Statement.labelFor? (blockName i) (.node (.block i) (labelOfBlock i b))
        = some (Text.inLabel (labelOfBlock i b)) :=
    Statement.labelFor?_self (.block i) _
  cases hbranch : b.branch with
  | none =>
      rw [blockStatements_of_none hbranch, List.filterMap_cons_some hself,
        labels_edgeTo]
  | some c =>
      rw [blockStatements_of_some hbranch, List.filterMap_cons_some hself,
        List.filterMap_cons_none
          (Statement.labelFor?_of_ne (v := .decision i)
            (blockName_ne_decisionName i i).symm _),
        List.filterMap_cons_none rfl, labels_edges]

theorem labels_decisionName (g : ControlFlowGraph) (i : Nat) (b : BasicBlock) :
    (blockStatements g i b).filterMap (Statement.labelFor? (decisionName i))
      = (b.branch.map fun c => Text.inLabel (labelOfCondition c)).toList := by
  have hblock :=
    Statement.labelFor?_of_ne (v := .block i) (blockName_ne_decisionName i i)
      (labelOfBlock i b)
  cases hbranch : b.branch with
  | none =>
      rw [blockStatements_of_none hbranch, List.filterMap_cons_none hblock,
        labels_edgeTo]
      rfl
  | some c =>
      have hself : Statement.labelFor? (decisionName i)
            (.node (.decision i) (labelOfCondition c))
          = some (Text.inLabel (labelOfCondition c)) :=
        Statement.labelFor?_self (.decision i) _
      rw [blockStatements_of_some hbranch, List.filterMap_cons_none hblock,
        List.filterMap_cons_some hself, List.filterMap_cons_none rfl,
        labels_edges]
      rfl

/-! ## What is to be read -/

/-- What is to be read on the line of a block: its operations with something to
show, trimmed and escaped, or its number. -/
def shownLabel (i : Nat) (b : BasicBlock) : String :=
  match (b.operations.filter Text.hasInk).map fun op =>
    Text.inLabel (Text.trim op) with
  | [] => "Block " ++ toString i
  | texts => "<br/>".intercalate texts

/-- What is to be read on the line of a decision: its condition if it has
something to show. -/
def shownCondition (c : Condition) : String :=
  match c.text with
  | none => "cond"
  | some text => if Text.hasInk text then Text.inLabel text else "cond"

theorem shownOperations_eq (b : BasicBlock) :
    b.shownOperations = (b.operations.filter Text.hasInk).map Text.trim := by
  rw [BasicBlock.shownOperations]
  induction b.operations with
  | nil => rfl
  | cons op ops ih =>
      cases hink : Text.hasInk op with
      | false =>
          rw [List.filterMap_cons_none (by rw [Text.nonBlank?_eq, hink]; rfl),
            List.filter_cons_of_neg (by simp [hink]), ih]
      | true =>
          rw [List.filterMap_cons_some (by rw [Text.nonBlank?_eq, hink]; rfl),
            List.filter_cons_of_pos hink, List.map_cons, ih]

theorem inLabel_number (i : Nat) :
    Text.inLabel ("Block " ++ toString i) = "Block " ++ toString i := by
  refine Text.inLabel_eq_self fun c hc => ?_
  rw [String.toList_append, List.mem_append] at hc
  rcases hc with hc | hc
  · have hall :
        ∀ c ∈ "Block ".toList, c ≠ '"' ∧ c ≠ '\\' ∧ c ≠ '\r' ∧ c ≠ '\n' := by
      simp
    exact hall c hc
  · have hdigit : c.isDigit = true := by
      refine Nat.isDigit_of_mem_toDigits (b := 10) (n := i)
        (by decide) (by decide) ?_
      simpa using hc
    refine ⟨?_, ?_, ?_, ?_⟩
    all_goals
      rintro rfl
      exact absurd hdigit (by decide)

theorem inLabel_labelOfBlock (i : Nat) (b : BasicBlock) :
    Text.inLabel (labelOfBlock i b) = shownLabel i b := by
  have hmap : (b.operations.filter Text.hasInk).map
        (fun op => Text.inLabel (Text.trim op))
      = ((b.operations.filter Text.hasInk).map Text.trim).map Text.inLabel := by
    rw [List.map_map]
    rfl
  rw [labelOfBlock, shownLabel, shownOperations_eq, hmap]
  cases (b.operations.filter Text.hasInk).map Text.trim with
  | nil => exact inLabel_number i
  | cons text texts => exact Text.inLabel_intercalate (text :: texts)

theorem inLabel_labelOfCondition (c : Condition) :
    Text.inLabel (labelOfCondition c) = shownCondition c := by
  have hunknown : Text.inLabel unknownCondition = "cond" := by decide
  rw [labelOfCondition, shownCondition]
  cases c.text with
  | none => exact hunknown
  | some text =>
      dsimp only
      rw [Text.nonBlank?_eq]
      cases Text.hasInk text with
      | false => exact hunknown
      | true => rfl

theorem hasInk_shownLabel (i : Nat) (b : BasicBlock) :
    Text.hasInk (shownLabel i b) = true := by
  rw [shownLabel]
  cases hops : b.operations.filter Text.hasInk with
  | nil =>
      show Text.hasInk ("Block " ++ toString i) = true
      rw [Text.hasInk_append]
      rfl
  | cons op ops =>
      have hink : Text.hasInk op = true :=
        (List.mem_filter.1 (hops ▸ List.mem_cons_self :
          op ∈ b.operations.filter Text.hasInk)).2
      rw [← Text.hasInk_trim] at hink
      exact Text.hasInk_intercalate (Text.hasInk_inLabel hink)

theorem hasInk_shownCondition (c : Condition) :
    Text.hasInk (shownCondition c) = true := by
  rw [shownCondition]
  cases c.text with
  | none => rfl
  | some text =>
      dsimp only
      split
      · next hink => exact Text.hasInk_inLabel hink
      · rfl

/-! ## The labels in the markup of a method -/

theorem labels_of_block (g : ControlFlowGraph) (i : Nat) :
    (statements g).filterMap (Statement.labelFor? (blockName i))
      = ((g.blocks[i]?).map (shownLabel i)).toList := by
  rw [labels_statements (.inl rfl)]
  cases g.blocks[i]? with
  | none => rfl
  | some b =>
      show (blockStatements g i b).filterMap _ = [shownLabel i b]
      rw [labels_blockName, inLabel_labelOfBlock]

theorem labels_of_decision (g : ControlFlowGraph) (i : Nat) :
    (statements g).filterMap (Statement.labelFor? (decisionName i))
      = ((g.blocks[i]?.bind BasicBlock.branch).map shownCondition).toList := by
  rw [labels_statements (.inr rfl)]
  cases g.blocks[i]? with
  | none => rfl
  | some b =>
      have hlabels := labels_decisionName g i b
      simp only [inLabel_labelOfCondition] at hlabels
      exact hlabels

/-- Every label of a diagram is that of a block or that of a decision. -/
theorem hasInk_of_mem_statements {g : ControlFlowGraph} {v : Vertex}
    {text : String} (h : .node v text ∈ statements g) :
    Text.hasInk (Text.inLabel text) = true := by
  have hmem :
      Text.inLabel text ∈ (statements g).filterMap (Statement.labelFor? v.id) :=
    List.mem_filterMap.2 ⟨_, h, Statement.labelFor?_self v text⟩
  cases v with
  | block i =>
      rw [Vertex.id, labels_of_block, Option.mem_toList,
        Option.map_eq_some_iff] at hmem
      obtain ⟨b, -, hlabel⟩ := hmem
      exact hlabel ▸ hasInk_shownLabel i b
  | decision i =>
      rw [Vertex.id, labels_of_decision, Option.mem_toList,
        Option.map_eq_some_iff] at hmem
      obtain ⟨c, -, hlabel⟩ := hmem
      exact hlabel ▸ hasInk_shownCondition c

/-- In the markup of a method every block has one line with its label, and every
block with a condition has one more with the label of its decision. The labels
say what the operations and the condition say, and no label of a node is blank.
Blocks are numbered without a bound, so the names of the program agree with
these for all graphs that it lets pass, which have no more blocks than
`ControlFlowGraph.blockLimit`. -/
theorem labels_say (g : ControlFlowGraph) (h : Origin) :
    (∀ i, labelsOn (blockName i) (chart g h)
        = ((g.blocks[i]?).map (shownLabel i)).toList)
      ∧ (∀ i, labelsOn (decisionName i) (chart g h)
          = ((g.blocks[i]?.bind BasicBlock.branch).map shownCondition).toList)
      ∧ ∀ line ∈ Text.lines (chart g h), ∀ id label, line = nodeLine id label →
          ∃ c ∈ label.toList, Text.isBlank c = false := by
  refine ⟨fun i => (labelsOn_chart _ g h).trans (labels_of_block g i),
    fun i => (labelsOn_chart _ g h).trans (labels_of_decision g i), ?_⟩
  rintro line hline id label rfl
  obtain ⟨v, text, hnode, -, rfl⟩ := nodeLine_mem_lines hline
  exact Text.hasInk_iff.1 (hasInk_of_mem_statements hnode)

end Diagram

end FlowAtlas
