import FlowAtlas.Architecture.Basic
import FlowAtlas.Proofs.Diagram.Reading

/-!
# The ids and the lines of the architecture diagram

An id is a word, or words with a number behind each. It is told apart from any
other one because a word has no digit and a number has nothing else, so that
each of them ends where the next one begins. That settles all families of ids at
once, such as `MMD1` and `MMDC1`, or `PRJ1C1` and `PRJ11`.

A line is read without any knowledge of these families. An end of an edge is a
run of letters and digits, and a label behind it if there is one; the label ends
at its quote, which escaping has taken out of the name it was made of.
-/

namespace FlowAtlas.Architecture

open Diagram (span_inLabel feed_not_mem_inLabel)
open Text (span_of_forall)

/-! ## Ids -/

/-- A word of an id and the number behind it. -/
abbrev Segment := String × Option Nat

/-- The digits of a number that may be absent. -/
def digitsOf (number : Option Nat) : List Char :=
  number.elim [] (Nat.toDigits 10)

/-- The text of a segment. -/
def Segment.chars (s : Segment) : List Char := s.1.toList ++ digitsOf s.2

/-- The segments of an id. -/
def Vertex.segments : Vertex → List Segment
  | .program => [("P", none)]
  | .loader => [("ML", none)]
  | .workspace => [("WS", none)]
  | .solution => [("SOL", none)]
  | .cleanup => [("DEL", none)]
  | .generator => [("GEN", none)]
  | .project p => [("PRJ", some p)]
  | .documents p => [("DOC", some p)]
  | .document p d => [("PRJ", some p), ("D", some d)]
  | .typeDecl p c => [("PRJ", some p), ("C", some c)]
  | .method p c m => [("PRJ", some p), ("C", some c), ("M", some m)]
  | .topMethod p f => [("PRJ", some p), ("FM", some f)]
  | .graph p => [("CFG", some p)]
  | .drawing p => [("BM", some p)]
  | .markup p => [("MMD", some p)]
  | .renderer p => [("MMDC", some p)]
  | .output p => [("OUT", some p)]

/-- Whether a text can be a word of an id: letters, and at least one. -/
def isWord (word : String) : Bool :=
  word.toList ≠ [] && word.toList.all fun c => c.isAlphanum && !c.isDigit

/-- Segments of which each can be told from what follows it: a word without a
number is the last one. -/
def WellFormed : List Segment → Prop
  | [] => True
  | (word, number) :: ss => isWord word = true
      ∧ (number = none → ss = []) ∧ WellFormed ss

theorem Vertex.toList_id
    (v : Vertex) : v.id.toList = v.segments.flatMap Segment.chars := by
  cases v <;> simp [Vertex.id, Vertex.segments, Segment.chars, digitsOf]

theorem Vertex.wellFormed_segments (v : Vertex) : WellFormed v.segments := by
  cases v <;> simp [Vertex.segments, WellFormed] <;> decide

theorem Vertex.segments_injective {v w : Vertex} (h : v.segments = w.segments) :
    v = w := by
  cases v <;> cases w <;> simp_all [Vertex.segments]

theorem isDigit_of_mem_digitsOf {number : Option Nat} {c : Char}
    (h : c ∈ digitsOf number) :
    c.isDigit = true := by
  cases number with
  | none => exact absurd h List.not_mem_nil
  | some n => exact Nat.isDigit_of_mem_toDigits (by decide) (by decide) h

theorem digitsOf_injective {a b : Option Nat} (h : digitsOf a = digitsOf b) :
    a = b := by
  cases a with
  | none =>
      cases b with
      | none => rfl
      | some m => exact absurd h.symm Nat.toDigits_ne_nil
  | some n =>
      cases b with
      | none => exact absurd h Nat.toDigits_ne_nil
      | some m =>
          have hread := congrArg (fun ds => Nat.ofDigitChars 10 ds 0) h
          simpa [digitsOf] using hread

theorem isWord_iff {word : String} : isWord word = true
    ↔ word.toList ≠ []
      ∧ ∀ c ∈ word.toList, c.isAlphanum = true ∧ c.isDigit = false := by
  simp [isWord]

/-- Segments begin with a letter. -/
theorem not_isDigit_of_head? {ss : List Segment} (h : WellFormed ss) :
    ∀ c ∈ (ss.flatMap Segment.chars).head?, c.isDigit = false := by
  match ss with
  | [] => exact fun c hc => absurd hc (by simp)
  | (word, number) :: ss =>
      obtain ⟨hne, hall⟩ := isWord_iff.1 h.1
      obtain ⟨a, as, hword⟩ := List.exists_cons_of_ne_nil hne
      intro c hc
      obtain rfl : a = c := by simpa [Segment.chars, hword] using hc
      exact (hall a (by simp [hword])).2

theorem span_segment {word : String} {number : Option Nat} {ss : List Segment}
    (h : WellFormed ((word, number) :: ss)) :
    (((word, number) :: ss).flatMap Segment.chars).span (fun c => !c.isDigit)
      = (word.toList, digitsOf number ++ ss.flatMap Segment.chars) := by
  rw [List.flatMap_cons, Segment.chars, List.append_assoc]
  refine span_of_forall (fun c hc => ?_) fun c hc => ?_
  · rw [((isWord_iff.1 h.1).2 c hc).2]
    rfl
  · cases number with
    | none =>
        rw [h.2.1 rfl] at hc
        exact absurd hc (by simp [digitsOf])
    | some n =>
        obtain ⟨d, ds, hdigits⟩ :=
          List.exists_cons_of_ne_nil (@Nat.toDigits_ne_nil n 10)
        obtain rfl : d = c := by simpa [digitsOf, hdigits] using hc
        have hd : d ∈ digitsOf (some n) := by simp [digitsOf, hdigits]
        rw [isDigit_of_mem_digitsOf hd]
        rfl

theorem span_digits {number : Option Nat} {ss : List Segment}
    (h : WellFormed ss) :
    (digitsOf number ++ ss.flatMap Segment.chars).span Char.isDigit
      = (digitsOf number, ss.flatMap Segment.chars) :=
  span_of_forall (fun _ hc => isDigit_of_mem_digitsOf hc)
    (not_isDigit_of_head? h)

/-- Segments can be told from the text that they make up. -/
theorem segments_eq_of_chars {ss ts : List Segment} (hs : WellFormed ss)
    (ht : WellFormed ts)
    (h : ss.flatMap Segment.chars = ts.flatMap Segment.chars) : ss = ts := by
  induction ss generalizing ts with
  | nil =>
      match ts with
      | [] => rfl
      | (word, number) :: ts =>
          have hspan := span_segment ht
          rw [← h] at hspan
          exact absurd (Prod.mk.inj hspan).1.symm (isWord_iff.1 ht.1).1
  | cons s ss ih =>
      obtain ⟨word, number⟩ := s
      have hspan := span_segment hs
      match ts with
      | [] =>
          rw [h] at hspan
          exact absurd (Prod.mk.inj hspan).1.symm (isWord_iff.1 hs.1).1
      | (word', number') :: ts =>
          rw [h, span_segment ht] at hspan
          obtain ⟨hword, hrest⟩ := Prod.mk.inj hspan
          have hdigits := @span_digits number ss hs.2.2
          rw [← hrest, span_digits ht.2.2] at hdigits
          obtain ⟨hnumber, htail⟩ := Prod.mk.inj hdigits
          rw [ih hs.2.2 ht.2.2 htail.symm, String.toList_injective hword,
            digitsOf_injective hnumber]

/-- No two nodes share an id. -/
theorem Vertex.id_injective {v w : Vertex} (h : v.id = w.id) : v = w := by
  have hchars := congrArg String.toList h
  rw [v.toList_id, w.toList_id] at hchars
  exact segments_injective
    (segments_eq_of_chars v.wellFormed_segments w.wellFormed_segments hchars)

theorem Vertex.isAlphanum_of_mem_id {v : Vertex} {c : Char}
    (h : c ∈ v.id.toList) :
    c.isAlphanum = true := by
  have hall :
      ∀ ss : List Segment, WellFormed ss → ∀ c ∈ ss.flatMap Segment.chars,
        c.isAlphanum = true := by
    intro ss
    induction ss with
    | nil => exact fun _ c hc => absurd hc List.not_mem_nil
    | cons s ss ih =>
        intro hs c hc
        rw [List.flatMap_cons, Segment.chars, List.append_assoc,
          List.mem_append, List.mem_append] at hc
        rcases hc with hc | hc | hc
        · exact ((isWord_iff.1 hs.1).2 c hc).1
        · rw [Char.isAlphanum, isDigit_of_mem_digitsOf hc, Bool.or_true]
        · exact ih hs.2.2 c hc
  rw [v.toList_id] at h
  exact hall _ v.wellFormed_segments c h

theorem Vertex.id_ne_nil (v : Vertex) : v.id.toList ≠ [] := by
  intro h
  rw [v.toList_id] at h
  have hnil :=
    segments_eq_of_chars v.wellFormed_segments
      (show WellFormed [] from trivial) h
  cases v <;> exact absurd hnil (by simp [Vertex.segments])

/-! ## Lines -/

/-- An end of an edge as a line tells it: an id, and the text of the label
behind it if there is one. -/
structure End where
  id : String
  label : Option String
  deriving DecidableEq, Repr

/-- An edge as a line tells it. -/
structure Arrow where
  source : End
  target : End
  deriving DecidableEq, Repr

/-- The text of an end. -/
def End.text (e : End) : String :=
  match e.label with
  | none => e.id
  | some label => e.id ++ "[\"" ++ label ++ "\"]"

/-- The line of an edge. -/
def Arrow.text (a : Arrow) : String :=
  "  " ++ a.source.text ++ " --> " ++ a.target.text

/-- The end at the beginning of a text, and the text behind it. -/
def End.read? (cs : List Char) : Option (End × List Char) :=
  match cs.span Char.isAlphanum with
  | ([], _) => none
  | (id, '[' :: '"' :: rest) =>
    match rest.span (· ≠ '"') with
    | (label, '"' :: ']' :: rest) =>
      some (⟨String.ofList id, some (String.ofList label)⟩, rest)
    | _ => none
  | (id, rest) => some (⟨String.ofList id, none⟩, rest)

/-- The edge on a line. -/
def Arrow.ofLine? (line : String) : Option Arrow :=
  match line.toList with
  | ' ' :: ' ' :: cs => do
    let (source, rest) ← End.read? cs
    match rest with
    | ' ' :: '-' :: '-' :: '>' :: ' ' :: rest =>
      match End.read? rest with
      | some (target, []) => some ⟨source, target⟩
      | _ => none
    | _ => none
  | _ => none

/-- What a line tells of an end. -/
def Terminal.told : Terminal → End
  | .bare v => ⟨v.id, none⟩
  | .labeled v label => ⟨v.id, some (Text.inLabel label)⟩

/-- What a line tells of an edge. -/
def Edge.told (e : Edge) : Arrow := ⟨e.source.told, e.target.told⟩

theorem Terminal.text_told (t : Terminal) : t.told.text = t.render := by
  cases t <;> rfl

theorem Edge.text_told (e : Edge) : e.told.text = e.line.render 1 := by
  show "  " ++ e.source.told.text ++ " --> " ++ e.target.told.text = _
  rw [e.source.text_told, e.target.text_told]
  rfl

/-- An end is read back in front of the mark of an edge and at the end of a
line. -/
theorem End.read?_told (t : Terminal) {rest : List Char}
    (hrest : rest = [] ∨ ∃ cs, rest = ' ' :: cs) :
    End.read? (t.told.text.toList ++ rest) = some (t.told, rest) := by
  cases t with
  | bare v =>
      have hspan :
          (v.id.toList ++ rest).span Char.isAlphanum = (v.id.toList, rest) := by
        refine span_of_forall (fun c hc => v.isAlphanum_of_mem_id hc)
          fun c hc => ?_
        rcases hrest with rfl | ⟨cs, rfl⟩
        · exact absurd hc (by simp)
        · obtain rfl : ' ' = c := Option.some.inj hc
          rfl
      show End.read? (v.id.toList ++ rest) = _
      rw [End.read?, hspan]
      rcases hrest with rfl | ⟨cs, rfl⟩
      all_goals
        split
        · next heq => exact absurd (Prod.mk.inj heq).1 v.id_ne_nil
        · next heq => simp at heq
        · next heq =>
            obtain ⟨rfl, rfl⟩ := Prod.mk.inj heq
            simp [Terminal.told]
  | labeled v label =>
      have htext : (Terminal.labeled v label).told.text.toList ++ rest
          = v.id.toList ++ '[' :: '"'
            :: ((Text.inLabel label).toList ++ '"' :: ']' :: rest) := by
        simp [Terminal.told, End.text]
      have hspan : (v.id.toList
          ++ '[' :: '"'
            :: ((Text.inLabel label).toList ++ '"' :: ']' :: rest)).span
              Char.isAlphanum
            = (v.id.toList, '[' :: '"'
              :: ((Text.inLabel label).toList ++ '"' :: ']' :: rest)) := by
        refine span_of_forall (fun c hc => v.isAlphanum_of_mem_id hc)
          fun c hc => ?_
        obtain rfl : '[' = c := Option.some.inj hc
        rfl
      rw [htext, End.read?, hspan]
      split
      · next heq => exact absurd (Prod.mk.inj heq).1 v.id_ne_nil
      · next heq =>
          obtain ⟨rfl, hcs⟩ := Prod.mk.inj heq
          obtain rfl := (List.cons.inj (List.cons.inj hcs).2).2
          simp only [span_inLabel, String.ofList_toList]
          rfl
      · next hno heq =>
          obtain ⟨rfl, rfl⟩ := Prod.mk.inj heq
          exact absurd rfl (hno _)

/-- The line of an edge tells both of its ends. -/
theorem Edge.ofLine?_told
    (e : Edge) : Arrow.ofLine? e.told.text = some e.told := by
  have htext : e.told.text.toList = ' ' :: ' ' :: (e.source.told.text.toList
      ++ ' ' :: '-' :: '-' :: '>' :: ' '
      :: (e.target.told.text.toList ++ [])) := by
    simp [Arrow.text, Edge.told]
  rw [Arrow.ofLine?, htext]
  simp only [End.read?_told e.source (.inr ⟨_, rfl⟩),
    End.read?_told e.target (.inl rfl), Option.bind_eq_bind, Option.bind_some]
  rfl

theorem Edge.feed_not_mem_told (e : Edge) : '\n' ∉ e.told.text.toList := by
  have hid : ∀ v : Vertex, '\n' ∉ v.id.toList := fun v h =>
    absurd (v.isAlphanum_of_mem_id h) (by decide)
  have hend : ∀ t : Terminal, '\n' ∉ t.told.text.toList := by
    intro t
    cases t with
    | bare v => exact hid v
    | labeled v label =>
        simp [Terminal.told, End.text, hid v, feed_not_mem_inLabel]
  simp [Arrow.text, Edge.told, hend]

/-- The markup has the header on its first line and an edge on every other line,
whatever the names are. -/
theorem lines_markup (solution : Solution) (bounds : Bounds)
    (filter : Option String) :
    Text.lines (markup solution bounds filter)
      = "flowchart TD"
        :: ((edges solution bounds filter).map fun e => e.told.text)
        ++ [""] := by
  have hfeed :
      ∀ l ∈ .header .topDown :: (edges solution bounds filter).map Edge.line,
        '\n' ∉ (Markup.Line.render 1 l).toList := by
    intro l hl
    rcases List.mem_cons.1 hl with rfl | hl
    · decide
    · obtain ⟨e, -, rfl⟩ := List.mem_map.1 hl
      rw [← e.text_told]
      exact e.feed_not_mem_told
  rw [markup, Markup.lines_render hfeed, List.map_cons, List.map_map]
  congr 2
  exact List.map_congr_left fun e _ => e.text_told.symm

/-- The edges on the lines of a text. -/
def arrowsIn (text : String) : List Arrow :=
  (Text.lines text).filterMap Arrow.ofLine?

theorem arrowsIn_markup (solution : Solution) (bounds : Bounds)
    (filter : Option String) :
    arrowsIn (markup solution bounds filter)
      = (edges solution bounds filter).map Edge.told := by
  have hheader : Arrow.ofLine? "flowchart TD" = none := by decide
  have hempty : Arrow.ofLine? "" = none := by decide
  have hlines : ∀ es : List Edge,
      (es.map fun e => e.told.text).filterMap Arrow.ofLine?
        = es.map Edge.told := by
    intro es
    induction es with
    | nil => rfl
    | cons e es ih =>
        rw [List.map_cons, List.filterMap_cons_some e.ofLine?_told,
          ih, List.map_cons]
  rw [arrowsIn, lines_markup, List.cons_append,
    List.filterMap_cons_none hheader, List.filterMap_append, hlines,
    List.filterMap_cons_none hempty, List.filterMap_nil, List.append_nil]

end FlowAtlas.Architecture
