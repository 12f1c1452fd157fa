import FlowAtlas.Diagram.Markup
import FlowAtlas.Proofs.Text.Lines
import Mathlib.Data.List.Basic

/-!
# Escaping

Escaping replaces four characters, each by itself, so it can be done piece by
piece (`inLabel_append`). What it puts in their place holds none of the four. So
a text that was escaped is clean, and clean texts are the ones that escaping
leaves as they are: it is a retraction onto them. That is why a label may be
escaped by the one who makes it and again by the one who writes it.

On the line of a node or of an edge the label stands between two quotes. Nothing
is known of the ids on the line, or of the other lines, and they may hold quotes
of their own. But the label is clean, so the quote that follows its opening one
is its closing one (`Encloses`).
-/

namespace FlowAtlas

namespace Text

/-! ## Clean text -/

/-- Text that holds none of the characters which escaping replaces. -/
def Clean (s : String) : Prop :=
  ∀ c ∈ s.toList, c ≠ '"' ∧ c ≠ '\\' ∧ c ≠ '\r' ∧ c ≠ '\n'

/-- What escaping keeps out of a label. -/
theorem ne_of_mem_inLabel {s : String} {c : Char} (h : c ∈ (inLabel s).toList) :
    c ≠ '"' ∧ c ≠ '\\' ∧ c ≠ '\r' ∧ c ≠ '\n' := by
  rw [inLabel, String.toList_ofList] at h
  obtain ⟨d, -, hc⟩ := List.mem_flatMap.1 h
  unfold inLabelChar at hc
  split at hc
  case h_5 hquote hslash hreturn hfeed =>
    obtain rfl := List.mem_singleton.1 hc
    exact ⟨hquote, hslash, hreturn, hfeed⟩
  all_goals
    simp only [List.mem_cons, List.not_mem_nil, or_false] at hc
    rcases hc with rfl | rfl | rfl | rfl | rfl <;> decide

theorem clean_inLabel
    (s : String) : Clean (inLabel s) := fun _ => ne_of_mem_inLabel

theorem inLabelChar_of_ne {c : Char}
    (h : c ≠ '"' ∧ c ≠ '\\' ∧ c ≠ '\r' ∧ c ≠ '\n') :
    inLabelChar c = [c] := by
  obtain ⟨hquote, hslash, hreturn, hfeed⟩ := h
  unfold inLabelChar
  split
  · exact absurd rfl hquote
  · exact absurd rfl hslash
  · exact absurd rfl hreturn
  · exact absurd rfl hfeed
  · rfl

theorem inLabel_eq_self {s : String} (h : Clean s) : inLabel s = s := by
  have hchars : s.toList.flatMap inLabelChar = s.toList.flatMap fun c => [c] :=
    List.flatMap_congr fun c hc => inLabelChar_of_ne (h c hc)
  rw [inLabel, hchars, List.flatMap_singleton', String.ofList_toList]

theorem inLabel_eq_self_iff {s : String} : inLabel s = s ↔ Clean s :=
  ⟨fun h => h ▸ clean_inLabel s, inLabel_eq_self⟩

/-- Escaping what is escaped changes nothing. -/
theorem inLabel_inLabel (s : String) : inLabel (inLabel s) = inLabel s :=
  inLabel_eq_self (clean_inLabel s)

theorem inLabel_append
    (s t : String) : inLabel (s ++ t) = inLabel s ++ inLabel t := by
  apply String.toList_inj.1
  simp [inLabel]

end Text

namespace Markup

open Text

/-! ## Labels between quotes -/

/-- Where a text is cut at its quotes, `inner` is a piece of it: all that stands
between two quotes, with `front` before the first of them and `back` behind the
second. -/
def Encloses (text front inner back : String) : Prop :=
  splitAtChar '"' text.toList
    = splitAtChar '"' front.toList ++ inner.toList
      :: splitAtChar '"' back.toList

theorem encloses_of_quote_not_mem {text front inner back : String}
    (h : '"' ∉ inner.toList)
    (htext : text = front ++ "\"" ++ inner ++ "\"" ++ back) :
    Encloses text front inner back := by
  have hchars : text.toList
      = front.toList ++ '"' :: (inner.toList ++ '"' :: back.toList) := by
    rw [htext]
    simp
  rw [Encloses, hchars, splitAtChar_append, splitAtChar_append,
    splitAtChar_eq_singleton h, List.singleton_append]

theorem quote_not_mem_inLabel (s : String) :
    '"' ∉ (inLabel s).toList := fun h =>
  (ne_of_mem_inLabel h).1 rfl

theorem render_append_cons (level : Nat) (before after : List Line) (l : Line) :
    render level (before ++ l :: after)
      = render level before ++ l.render level ++ "\n"
        ++ render level after := by
  simp [render, String.append_assoc]

theorem node_encloses (level : Nat) (before after : List Line)
    (id label : String) :
    Encloses (render level (before ++ .node id label :: after))
      (render level before ++ indentation level ++ id ++ "[") (inLabel label)
      ("]\n" ++ render level after) := by
  refine encloses_of_quote_not_mem (quote_not_mem_inLabel label) ?_
  rw [render_append_cons]
  apply String.toList_inj.1
  simp [Line.render, nodeText]

theorem labeledEdge_encloses (level : Nat) (before after : List Line)
    (source label target : String) :
    Encloses (render level
      (before ++ .labeledEdge source label target :: after))
      (render level before ++ indentation level ++ source ++ " -- ")
      (inLabel label) (" --> " ++ target ++ "\n" ++ render level after) := by
  refine encloses_of_quote_not_mem (quote_not_mem_inLabel label) ?_
  rw [render_append_cons]
  apply String.toList_inj.1
  simp [Line.render]

/-- Escaping is a retraction onto the clean texts, done piece by piece. So it
makes no difference to a node whether its label was escaped before, and wherever
the line of a node or of an edge stands in a flowchart, its label is all that
stands between two quotes, and clean. -/
theorem escaping_retracts (x y : String) :
    Clean (inLabel x)
      ∧ (inLabel x = x ↔ Clean x)
      ∧ inLabel (inLabel x) = inLabel x
      ∧ (∀ id, nodeText id (inLabel x) = nodeText id x)
      ∧ inLabel (x ++ y) = inLabel x ++ inLabel y
      ∧ ∀ (level : Nat) (before after : List Line) (source target : String),
          Encloses (render level (before ++ .node source x :: after))
            (render level before ++ indentation level ++ source ++ "[")
            (inLabel x) ("]\n" ++ render level after)
          ∧ Encloses
            (render level (before ++ .labeledEdge source x target :: after))
            (render level before ++ indentation level ++ source ++ " -- ")
            (inLabel x) (" --> " ++ target ++ "\n" ++ render level after) := by
  refine ⟨clean_inLabel x, inLabel_eq_self_iff, inLabel_inLabel x, fun id => ?_,
    inLabel_append x y, fun level before after source target => ⟨?_, ?_⟩⟩
  · rw [nodeText, nodeText, inLabel_inLabel]
  · exact node_encloses level before after source x
  · exact labeledEdge_encloses level before after source x target

end Markup

end FlowAtlas
