import FlowAtlas.Text.Lines
import Mathlib.Data.List.TakeDrop

/-!
# Cutting a text at a character

The pieces of two texts with the character between them are the pieces of the
one and the pieces of the other, whatever is in them. So a piece is found where
it was put: between the pieces of what stands in front of it and of what stands
behind.

A reader that goes from left to right takes a run of characters of one kind. The
run ends where something of another kind follows (`span_of_forall`), a mark for
instance (`span_ne_append`).
-/

namespace FlowAtlas.Text

theorem splitAtChar_append (sep : Char) (as bs : List Char) :
    splitAtChar sep (as ++ sep :: bs)
      = splitAtChar sep as ++ splitAtChar sep bs := by
  induction as with
  | nil => simp [splitAtChar]
  | cons a as ih =>
      rw [List.cons_append, splitAtChar, splitAtChar, ih]
      split
      · rfl
      · cases h : splitAtChar sep as with
        | nil => exact absurd h (splitAtChar_ne_nil sep as)
        | cons piece pieces => simp

theorem splitAtChar_eq_singleton {sep : Char} {cs : List Char} (h : sep ∉ cs) :
    splitAtChar sep cs = [cs] := by
  induction cs with
  | nil => rfl
  | cons c cs ih =>
      rw [List.mem_cons, not_or] at h
      rw [splitAtChar, if_neg (Ne.symm h.1), ih h.2]

/-- A separator begins a piece of its own; any other character goes in front of
the first one. -/
theorem splitAtChar_cons (sep c : Char) (cs : List Char) :
    (c = sep ∧ splitAtChar sep (c :: cs) = [] :: splitAtChar sep cs)
      ∨ c ≠ sep ∧ ∃ piece pieces, splitAtChar sep cs = piece :: pieces
        ∧ splitAtChar sep (c :: cs) = (c :: piece) :: pieces := by
  rw [splitAtChar]
  by_cases hc : c = sep
  · exact .inl ⟨hc, if_pos hc⟩
  · obtain ⟨piece, pieces, hcs⟩ :=
      List.exists_cons_of_ne_nil (splitAtChar_ne_nil sep cs)
    rw [if_neg hc, hcs]
    exact .inr ⟨hc, piece, pieces, rfl, rfl⟩

theorem not_mem_of_mem_splitAtChar {sep : Char} {cs piece : List Char}
    (h : piece ∈ splitAtChar sep cs) : sep ∉ piece := by
  induction cs generalizing piece with
  | nil =>
      rw [splitAtChar, List.mem_singleton] at h
      simp [h]
  | cons c cs ih =>
      rcases splitAtChar_cons sep c cs with
        ⟨-, heq⟩ | ⟨hc, first, pieces, hcs, heq⟩
      · rw [heq] at h
        rcases List.mem_cons.1 h with rfl | h
        · exact List.not_mem_nil
        · exact ih h
      · rw [heq] at h
        rw [hcs] at ih
        rcases List.mem_cons.1 h with rfl | h
        · rw [List.mem_cons, not_or]
          exact ⟨Ne.symm hc, ih List.mem_cons_self⟩
        · exact ih (List.mem_cons_of_mem _ h)

theorem subset_of_mem_splitAtChar {sep : Char} {cs piece : List Char}
    (h : piece ∈ splitAtChar sep cs) : piece ⊆ cs := by
  induction cs generalizing piece with
  | nil =>
      rw [splitAtChar, List.mem_singleton] at h
      subst h
      exact List.nil_subset _
  | cons c cs ih =>
      rcases splitAtChar_cons sep c cs with
        ⟨-, heq⟩ | ⟨-, first, pieces, hcs, heq⟩
      · rw [heq] at h
        rcases List.mem_cons.1 h with rfl | h
        · exact List.nil_subset _
        · exact List.subset_cons_of_subset c (ih h)
      · rw [heq] at h
        rw [hcs] at ih
        rcases List.mem_cons.1 h with rfl | h
        · exact List.cons_subset_cons c (ih List.mem_cons_self)
        · exact List.subset_cons_of_subset c (ih (List.mem_cons_of_mem first h))

theorem exists_mem_splitAtChar {sep c : Char} {cs : List Char} (h : c ∈ cs)
    (hc : c ≠ sep) :
    ∃ piece ∈ splitAtChar sep cs, c ∈ piece := by
  induction cs with
  | nil => exact absurd h List.not_mem_nil
  | cons d cs ih =>
      rcases splitAtChar_cons sep d cs with
        ⟨hd, heq⟩ | ⟨-, first, pieces, hcs, heq⟩
      · obtain ⟨piece, hpiece, hmem⟩ :=
          ih ((List.mem_cons.1 h).resolve_left fun hcd => hc (hcd.trans hd))
        rw [heq]
        exact ⟨piece, List.mem_cons_of_mem _ hpiece, hmem⟩
      · rw [heq]
        rcases List.mem_cons.1 h with rfl | h
        · exact ⟨_, List.mem_cons_self, List.mem_cons_self⟩
        · obtain ⟨piece, hpiece, hmem⟩ := ih h
          rw [hcs] at hpiece
          rcases List.mem_cons.1 hpiece with rfl | hpiece
          · exact ⟨_, List.mem_cons_self, List.mem_cons_of_mem _ hmem⟩
          · exact ⟨piece, List.mem_cons_of_mem _ hpiece, hmem⟩

/-! ## Runs -/

/-- A run ends in front of what is not of its kind. -/
theorem span_of_forall {α : Type} {p : α → Bool} {as bs : List α}
    (has : ∀ a ∈ as, p a = true) (hbs : ∀ b ∈ bs.head?, p b = false) :
    (as ++ bs).span p = (as, bs) := by
  rw [List.span_eq_takeWhile_dropWhile, List.takeWhile_append_of_pos has,
    List.dropWhile_append_of_pos has]
  cases bs with
  | nil => simp
  | cons b bs =>
      have hb := hbs b rfl
      simp [hb]

theorem span_ne_append {α : Type} [DecidableEq α] {mark : α} {as : List α}
    (h : mark ∉ as) (bs : List α) :
    (as ++ mark :: bs).span (· ≠ mark) = (as, mark :: bs) := by
  refine span_of_forall (fun a ha => decide_eq_true (ne_of_mem_of_not_mem ha h))
    fun b hb => ?_
  obtain rfl : mark = b := Option.some.inj hb
  exact decide_eq_false fun hne => hne rfl

end FlowAtlas.Text
