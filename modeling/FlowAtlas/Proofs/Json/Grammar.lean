import FlowAtlas.Proofs.Json.Written
import Mathlib.Data.List.TakeWhile

/-!
# Strings and numbers as they are written

A string is a row of strokes, a number a sign, digits, a fraction and an
exponent. Both are described here as data that cannot be put together wrongly:
an escape comes with the character that it stands for, a row of digits with the
proof that it holds nothing else.

Each of the two is related to its reader in both directions. What is written in
this way is read in front of any text that may follow it, and whatever the
reader has read to the end is written in this way. So the reader takes the
notation that is described here, and no other.

What a string says does not depend on what follows it, but the spot at which the
reader finds fault with it does: such a spot holds all of the text from there
on. Therefore the pieces of a string are compared exactly, and its content only
as far as there is one.
-/

namespace FlowAtlas.Json

/-! ## Strings -/

/-- One character of a string as it is written. -/
inductive Stroke where
  | plain (c : Char) (hquote : c ≠ '"') (hslash : c ≠ '\\')
      (hlow : ¬ c.toNat < 0x20)
  /-- A backslash and `c`, which stand for `e`. -/
  | short (c e : Char) (h : shortEscape? c = some e)
  /-- A code unit in four hexadecimal digits. -/
  | unit (a b c d : Char) (n : Nat) (h : hexUnit? a b c d = some n)

/-- The text of a stroke. -/
def Stroke.chars : Stroke → List Char
  | .plain c _ _ _ => [c]
  | .short c _ _ => ['\\', c]
  | .unit a b c d _ _ => ['\\', 'u', a, b, c, d]

/-- The text of some strokes. -/
def spell (ss : List Stroke) : List Char := ss.flatMap Stroke.chars

/-- The piece that a stroke is read as, in front of a text. -/
def Stroke.piece (rest : List Char) : Stroke → Piece
  | .plain c _ _ _ => .plain c
  | .short _ e _ => .short e
  | .unit _ _ _ _ n _ => .unit n rest

/-- The pieces that strokes are read as, in front of a text. -/
def piecesOf (rest : List Char) : List Stroke → List Piece
  | [] => []
  | s :: ss => s.piece (spell ss ++ rest) :: piecesOf rest ss

/-- What strokes say, unless a code unit that needs a partner has none. -/
def content? : List Stroke → Option (List Char)
  | [] => some []
  | .plain c _ _ _ :: ss => (content? ss).map (c :: ·)
  | .short _ e _ :: ss => (content? ss).map (e :: ·)
  | .unit _ _ _ _ n _ :: ss =>
    if isLowSurrogate n then none
    else if isHighSurrogate n then
      match ss with
      | .unit _ _ _ _ m _ :: ss' =>
        if isLowSurrogate m then
          (content? ss').map
            (Char.ofNat (0x10000 + (n - 0xD800) * 0x400 + (m - 0xDC00)) :: ·)
        else none
      | _ => none
    else (content? ss).map (Char.ofNat n :: ·)

/-- The text that strokes say. -/
def text? (ss : List Stroke) : Option String := (content? ss).map String.ofList

theorem spell_cons (s : Stroke) (ss : List Stroke) :
    spell (s :: ss) = s.chars ++ spell ss :=
  List.flatMap_cons

theorem ne_u_of_shortEscape? {c e : Char} (h : shortEscape? c = some e) :
    c ≠ 'u' := by
  rintro rfl
  exact nomatch h

theorem readPieces_stroke (s : Stroke) (rest : List Char) :
    readPieces (s.chars ++ rest)
      = (s.piece rest :: (readPieces rest).1, (readPieces rest).2) := by
  cases s with
  | plain c hquote hslash hlow => exact readPieces_plain hquote hslash hlow
  | short c e h => exact readPieces_short (ne_u_of_shortEscape? h) h
  | unit a b c d n h => exact readPieces_unit h

theorem readPieces_spell (ss : List Stroke) (rest : List Char) :
    readPieces (spell ss ++ '"' :: rest)
      = (piecesOf ('"' :: rest) ss, .ok rest) := by
  induction ss with
  | nil => rw [spell, List.flatMap_nil, List.nil_append, readPieces, piecesOf]
  | cons s ss ih =>
      rw [spell_cons, List.append_assoc, readPieces_stroke, ih, piecesOf]

/-- Behind a code unit that opens a pair the reader finds fault with anything
but another one. -/
theorem unclosedPair?_spell {ss : List Stroke}
    (h : ∀ a b c d n hn ss', ss ≠ .unit a b c d n hn :: ss')
    (rest : List Char) :
    ∃ spot, unclosedPair? (spell ss ++ '"' :: rest) = some spot := by
  cases ss with
  | nil => exact ⟨_, rfl⟩
  | cons s ss =>
      cases s with
      | plain c hquote hslash hlow =>
          refine ⟨⟨.endOfSurrogatePair, c :: (spell ss ++ '"' :: rest), 1⟩, ?_⟩
          rw [spell_cons, Stroke.chars, List.singleton_append,
            List.cons_append, unclosedPair?]
          all_goals simp_all
      | short c e hc =>
          refine ⟨⟨.endOfSurrogatePair,
            '\\' :: c :: (spell ss ++ '"' :: rest), 2⟩, ?_⟩
          have hu := ne_u_of_shortEscape? hc
          rw [spell_cons, Stroke.chars, List.cons_append, List.singleton_append,
            List.cons_append, List.cons_append, unclosedPair?]
          all_goals simp_all
      | unit a b c d n hn => exact absurd rfl (h a b c d n hn ss)

theorem toOption_map {ε α β : Type} (f : α → β) (e : Except ε α) :
    (e.map f).toOption = e.toOption.map f := by
  cases e <;> rfl

/-- The pieces of a string say what its strokes say. -/
theorem contentOfPieces_piecesOf (rest : List Char) (ss : List Stroke) :
    (contentOfPieces (piecesOf ('"' :: rest) ss)).toOption = content? ss := by
  fun_induction content? ss with
  | case1 => rfl
  | case2 c hquote hslash hlow ss ih =>
      rw [piecesOf, Stroke.piece, contentOfPieces, toOption_map, ih]
  | case3 c e h ss ih =>
      rw [piecesOf, Stroke.piece, contentOfPieces, toOption_map, ih]
  | case4 a b c d n h ss hlow =>
      rw [piecesOf, Stroke.piece, contentOfPieces.eq_def]
      simp only [if_pos hlow]
      rfl
  | case5 a b c d n h hlow hhigh a' b' c' d' m h' ss hlow' ih =>
      rw [piecesOf, Stroke.piece, contentOfPieces.eq_def]
      simp only [if_neg hlow, if_pos hhigh, piecesOf,
        Stroke.piece, if_pos hlow']
      rw [toOption_map, ih]
  | case6 a b c d n h hlow hhigh a' b' c' d' m h' ss hlow' =>
      rw [piecesOf, Stroke.piece, contentOfPieces.eq_def]
      simp only [if_neg hlow, if_pos hhigh, piecesOf,
        Stroke.piece, if_neg hlow']
      rfl
  | case7 a b c d n h ss hlow hhigh hother =>
      obtain ⟨spot, hspot⟩ := unclosedPair?_spell hother rest
      rw [piecesOf, Stroke.piece, contentOfPieces.eq_def]
      simp only [if_neg hlow, if_pos hhigh]
      split
      · next m rest' ps hpieces =>
          cases ss with
          | nil => cases hpieces
          | cons s ss =>
              cases s with
              | unit a b c d n hn => exact (hother a b c d n hn ss rfl).elim
              | plain c _ _ _ => cases hpieces
              | short c e _ => cases hpieces
      · rw [hspot]
        rfl
  | case8 a b c d n h ss hlow hhigh ih =>
      rw [piecesOf, Stroke.piece, contentOfPieces.eq_def]
      simp only [if_neg hlow, if_neg hhigh]
      rw [toOption_map, ih]

/-- Some characters and the pieces that were read from them belong to strokes
before a quote. -/
def Spelled (rest cs : List Char) (ps : List Piece) : Prop :=
  ∃ ss, cs = spell ss ++ '"' :: rest ∧ ps = piecesOf ('"' :: rest) ss

theorem Spelled.cons (s : Stroke) {rest cs : List Char} {ps : List Piece}
    (h : Spelled rest cs ps) :
    Spelled rest (s.chars ++ cs) (s.piece cs :: ps) := by
  obtain ⟨ss, rfl, rfl⟩ := h
  exact ⟨s :: ss, by rw [spell_cons, List.append_assoc], rfl⟩

/-- Whatever was read up to a quote is spelled by strokes. -/
theorem spelled_of_readPieces {cs rest : List Char} {ps : List Piece}
    (h : readPieces cs = (ps, .ok rest)) : Spelled rest cs ps := by
  fun_induction readPieces cs generalizing ps with
  | case2 rest' =>
      obtain ⟨rfl, hrest⟩ := Prod.mk.inj h
      obtain rfl := Except.ok.inj hrest
      exact ⟨[], rfl, rfl⟩
  | case4 a b c d rest' n hn ps' result hread ih =>
      obtain ⟨rfl, rfl⟩ := Prod.mk.inj h
      exact (ih hread).cons (.unit a b c d n hn)
  | case7 c rest' _ _ e he ps' result hread ih =>
      obtain ⟨rfl, rfl⟩ := Prod.mk.inj h
      exact (ih hread).cons (.short c e he)
  | case10 c rest' hquote hend _ hslash hlow ps' result hread ih =>
      obtain ⟨rfl, rfl⟩ := Prod.mk.inj h
      have hplain : c ≠ '\\' := fun heq => by
        cases rest' with
        | nil => exact hend heq rfl
        | cons d rest' => exact hslash d rest' heq rfl
      exact (ih hread).cons (.plain c hquote hplain hlow)
  | _ => exact nomatch (Prod.mk.inj h).2

/-- The content of a string as the reader hands it on is what its strokes
say. -/
def Says (ss : List Stroke) (content : StringContent) : Prop :=
  content.toOption = text? ss

theorem Says.eq_ok_of_text? {ss : List Stroke} {content : StringContent}
    {s : String} (h : Says ss content) (hs : text? ss = some s) :
    content = .ok s := by
  rw [Says, hs] at h
  cases content with
  | ok s' => rw [Option.some.inj h]
  | error spot => exact nomatch h

theorem Says.eq_ok {ss : List Stroke} {content : StringContent} {s : String}
    (h : Says ss (.ok s)) (h' : Says ss content) : content = .ok s :=
  h'.eq_ok_of_text? h.symm

theorem readString_spell (ss : List Stroke) (rest : List Char) :
    ∃ content, readString (spell ss ++ '"' :: rest) = .ok (content, rest)
      ∧ Says ss content := by
  have hcontent := contentOfPieces_piecesOf rest ss
  rw [readString, readPieces_spell]
  dsimp only
  cases hpieces : contentOfPieces (piecesOf ('"' :: rest) ss) with
  | ok cs =>
      rw [hpieces] at hcontent
      exact ⟨_, rfl, by rw [Says, text?, ← hcontent]; rfl⟩
  | error spot =>
      rw [hpieces] at hcontent
      exact ⟨_, rfl, by rw [Says, text?, ← hcontent]; rfl⟩

theorem exists_says {cs rest : List Char} {content : StringContent}
    (h : readString cs = .ok (content, rest)) :
    ∃ ss, cs = spell ss ++ '"' :: rest ∧ Says ss content := by
  cases hread : readPieces cs with
  | mk ps result =>
      have hresult : result = .ok rest := by
        rw [readString, hread] at h
        dsimp only at h
        split at h <;> cases h <;> rfl
      subst hresult
      obtain ⟨ss, rfl, -⟩ := spelled_of_readPieces hread
      obtain ⟨content', hread', hsays⟩ := readString_spell ss rest
      obtain ⟨rfl, -⟩ := Prod.mk.inj (Except.ok.inj (h.symm.trans hread'))
      exact ⟨ss, rfl, hsays⟩

/-! ## Numbers -/

/-- At least one digit. -/
structure Digits where
  chars : List Char
  nonempty : chars ≠ []
  isDigit : ∀ c ∈ chars, Text.isDigit c = true

/-- An exponent as it is written. -/
structure Exponent where
  mark : Char
  isMark : mark = 'e' ∨ mark = 'E'
  /-- Whether the sign is a minus, if there is a sign. -/
  sign : Option Bool
  digits : Digits

/-- The text of a sign. -/
def signChars : Option Bool → List Char
  | none => []
  | some false => ['+']
  | some true => ['-']

/-- The text of an exponent. -/
def Exponent.chars
    (x : Exponent) : List Char := x.mark :: (signChars x.sign ++ x.digits.chars)

/-- The exponent of a numeral. -/
def Exponent.parts
    (x : Exponent) : Bool × List Char := (x.sign == some true, x.digits.chars)

/-- A number as it is written. -/
structure Figure where
  negative : Bool
  whole : Digits
  alone : whole.chars.head? = some '0' → whole.chars = ['0']
  fraction : Option Digits
  exponent : Option Exponent

namespace Figure

/-- The text of the fraction. -/
def fractionChars : Option Digits → List Char
  | none => []
  | some ds => '.' :: ds.chars

/-- The text of the exponent. -/
def exponentChars : Option Exponent → List Char
  | none => []
  | some x => x.chars

/-- The text of a number. -/
def chars (n : Figure) : List Char :=
  (if n.negative then ['-'] else [])
    ++ (n.whole.chars ++ (fractionChars n.fraction ++ exponentChars n.exponent))

/-- The numeral that a number is read as. -/
def numeral (n : Figure) : Numeral where
  negative := n.negative
  whole := n.whole.chars
  fraction := n.fraction.elim [] Digits.chars
  exponent := n.exponent.map Exponent.parts

end Figure

theorem exists_digits {cs : List Char} (h : (cs.span Text.isDigit).1 ≠ []) :
    ∃ ds : Digits, ds.chars = (cs.span Text.isDigit).1
      ∧ cs = ds.chars ++ (cs.span Text.isDigit).2 := by
  rw [List.span_eq_takeWhile_dropWhile] at h ⊢
  exact ⟨⟨_, h, fun c hc => List.mem_takeWhile_imp hc⟩, rfl,
    List.takeWhile_append_dropWhile.symm⟩

theorem Digits.chars_eq_cons (ds : Digits) :
    ∃ c cs, ds.chars = c :: cs ∧ Text.isDigit c = true := by
  cases h : ds.chars with
  | nil => exact absurd h ds.nonempty
  | cons c cs =>
      exact ⟨c, cs, rfl, ds.isDigit c (by rw [h]; exact List.mem_cons_self)⟩

/-- The digits of a number come to an end where its exponent begins, or where
the number ends. -/
theorem head?_exponentChars {x : Option Exponent} {rest : List Char}
    (hrest : Ends rest) :
    ∀ c ∈ (Figure.exponentChars x ++ rest).head?,
      Text.isDigit c = false ∧ c ≠ '.' := by
  intro c hc
  cases x with
  | none => exact ⟨(hrest c hc).1, (hrest c hc).2.1⟩
  | some x =>
      obtain rfl : x.mark = c := by
        simpa [Figure.exponentChars, Exponent.chars] using hc
      rcases x.isMark with h | h <;> rw [h] <;> decide

theorem head?_fractionChars {f : Option Digits} {x : Option Exponent}
    {rest : List Char}
    (hrest : Ends rest) :
      ∀ c ∈ (Figure.fractionChars f ++ (Figure.exponentChars x ++ rest)).head?,
      Text.isDigit c = false := by
  intro c hc
  cases f with
  | none => exact (head?_exponentChars hrest c hc).1
  | some ds =>
      obtain rfl : '.' = c := by simpa [Figure.fractionChars] using hc
      decide

theorem readExponent_of_ends {rest : List Char} (n : Numeral)
    (hrest : Ends rest) :
    Numeral.readExponent n rest = .ok (n, rest) := by
  cases rest with
  | nil => rfl
  | cons c cs =>
      obtain ⟨-, -, he, hE⟩ := hrest c (by simp)
      rw [Numeral.readExponent]
      · exact fun _ h => he (List.cons.inj h).1
      · exact fun _ h => hE (List.cons.inj h).1

/-- Whether there is a minus in front of a text, and what stands behind the
sign. -/
def takeSign : List Char → Bool × List Char
  | '+' :: cs => (false, cs)
  | '-' :: cs => (true, cs)
  | cs => (false, cs)

theorem readExponent_mark (n : Numeral) {mark : Char}
    (hmark : mark = 'e' ∨ mark = 'E')
    (cs : List Char) : Numeral.readExponent n (mark :: cs)
      = if ((takeSign cs).2.span Text.isDigit).1.isEmpty then
          .error (Numeral.noDigit ((takeSign cs).2.span Text.isDigit).2)
        else
          .ok ({ n with exponent := some ((takeSign cs).1,
            ((takeSign cs).2.span Text.isDigit).1) },
            ((takeSign cs).2.span Text.isDigit).2) := by
  rcases hmark with rfl | rfl <;> rfl

theorem takeSign_signChars (sign : Option Bool) (ds : Digits)
    (rest : List Char) :
    takeSign (signChars sign ++ (ds.chars ++ rest))
      = (sign == some true, ds.chars ++ rest) := by
  rcases sign with _ | _ | _
  · obtain ⟨d, ds', hds, hd⟩ := ds.chars_eq_cons
    rw [signChars, List.nil_append, hds, List.cons_append, takeSign]
    · rfl
    · rintro cs h
      obtain rfl := (List.cons.inj h).1
      exact absurd hd (by decide)
    · rintro cs h
      obtain rfl := (List.cons.inj h).1
      exact absurd hd (by decide)
  · rfl
  · rfl

theorem exists_signChars (cs : List Char) :
    ∃ sign, cs = signChars sign ++ (takeSign cs).2
      ∧ (takeSign cs).1 = (sign == some true) := by
  fun_cases takeSign cs with
  | case1 cs => exact ⟨some false, rfl, rfl⟩
  | case2 cs => exact ⟨some true, rfl, rfl⟩
  | case3 cs => exact ⟨none, rfl, rfl⟩

theorem readExponent_chars {n : Numeral} (hn : n.exponent = none)
    (x : Option Exponent) {rest : List Char} (hrest : Ends rest) :
    Numeral.readExponent n (Figure.exponentChars x ++ rest)
      = .ok ({ n with exponent := x.map Exponent.parts }, rest) := by
  cases x with
  | none =>
      rw [Figure.exponentChars, List.nil_append, readExponent_of_ends n hrest,
        Option.map_none, ← hn]
  | some x =>
      have hspan :
          (x.digits.chars ++ rest).span Text.isDigit = (x.digits.chars, rest) :=
        Text.span_of_forall x.digits.isDigit fun c hc => (hrest c hc).1
      rw [Figure.exponentChars, Exponent.chars, List.cons_append,
        List.append_assoc, readExponent_mark n x.isMark, takeSign_signChars,
        hspan, if_neg (by simp [x.digits.nonempty])]
      rfl

theorem exists_exponent {n n' : Numeral} (hn : n.exponent = none)
    {cs rest : List Char} (h : Numeral.readExponent n cs = .ok (n', rest)) :
    ∃ x, cs = Figure.exponentChars x ++ rest
      ∧ n' = { n with exponent := x.map Exponent.parts } := by
  have hnone : Numeral.readExponent n cs = .ok (n, cs) →
      ∃ x, cs = Figure.exponentChars x ++ rest
        ∧ n' = { n with exponent := x.map Exponent.parts } := by
    intro heq
    obtain ⟨rfl, rfl⟩ := Prod.mk.inj (Except.ok.inj (heq.symm.trans h))
    exact ⟨none, rfl, by rw [Option.map_none, ← hn]⟩
  cases cs with
  | nil => exact hnone rfl
  | cons mark cs =>
      by_cases hmark : mark = 'e' ∨ mark = 'E'
      · obtain ⟨sign, hcs, hsign⟩ := exists_signChars cs
        rw [readExponent_mark n hmark] at h
        split at h
        · exact nomatch h
        · next hne =>
            obtain ⟨rfl, rfl⟩ := Prod.mk.inj (Except.ok.inj h)
            obtain ⟨ds, hds, hrest⟩ :=
              exists_digits fun hnil => hne (List.isEmpty_iff.2 hnil)
            refine ⟨some ⟨mark, hmark, sign, ds⟩, ?_, ?_⟩
            · rw [Figure.exponentChars, Exponent.chars, List.cons_append,
                List.append_assoc, ← hrest, ← hcs]
            · rw [Option.map_some, Exponent.parts, hds, ← hsign]
      · rw [not_or] at hmark
        refine hnone ?_
        rw [Numeral.readExponent]
        · exact fun _ h => hmark.1 (List.cons.inj h).1
        · exact fun _ h => hmark.2 (List.cons.inj h).1

theorem readFraction_point (n : Numeral) (cs : List Char) :
    Numeral.readFraction n ('.' :: cs)
      = if (cs.span Text.isDigit).1.isEmpty then
          .error (Numeral.noDigit (cs.span Text.isDigit).2)
        else
          Numeral.readExponent { n with fraction := (cs.span Text.isDigit).1 }
            (cs.span Text.isDigit).2 := rfl

theorem readFraction_of_ne {n : Numeral} {cs : List Char}
    (h : ∀ c ∈ cs.head?, c ≠ '.') :
    Numeral.readFraction n cs = Numeral.readExponent n cs := by
  cases cs with
  | nil => rfl
  | cons c cs =>
      rw [Numeral.readFraction]
      exact fun _ heq => h c rfl (List.cons.inj heq).1

theorem readFraction_chars (negative : Bool) (whole : List Char)
    (f : Option Digits) (x : Option Exponent) {rest : List Char}
    (hrest : Ends rest) :
    Numeral.readFraction ⟨negative, whole, [], none⟩
        (Figure.fractionChars f ++ (Figure.exponentChars x ++ rest))
      = .ok (⟨negative, whole, f.elim [] Digits.chars, x.map Exponent.parts⟩,
        rest) := by
  cases f with
  | none =>
      rw [Figure.fractionChars, List.nil_append,
        readFraction_of_ne fun c hc => (head?_exponentChars hrest c hc).2]
      exact readExponent_chars rfl x hrest
  | some ds =>
      have hspan := Text.span_of_forall ds.isDigit fun c hc =>
        (head?_exponentChars (x := x) hrest c hc).1
      rw [Figure.fractionChars, List.cons_append, readFraction_point, hspan,
        if_neg (by simp [ds.nonempty])]
      exact readExponent_chars rfl x hrest

theorem exists_fraction {negative : Bool} {whole cs rest : List Char}
    {n : Numeral}
    (h : Numeral.readFraction ⟨negative, whole, [], none⟩ cs = .ok (n, rest)) :
    ∃ f x, cs = Figure.fractionChars f ++ (Figure.exponentChars x ++ rest)
      ∧ n = ⟨negative, whole, f.elim [] Digits.chars,
        x.map Exponent.parts⟩ := by
  by_cases hpoint : ∀ c ∈ cs.head?, c ≠ '.'
  · rw [readFraction_of_ne hpoint] at h
    obtain ⟨x, rfl, rfl⟩ := exists_exponent rfl h
    exact ⟨none, x, rfl, rfl⟩
  · obtain ⟨cs, rfl⟩ : ∃ cs', cs = '.' :: cs' := by
      cases cs with
      | nil => exact absurd (fun _ hc => nomatch hc) hpoint
      | cons c cs =>
          by_contra hne
          exact hpoint fun d hd heq =>
            hne ⟨cs, by rw [← heq, ← Option.some.inj hd]⟩
    rw [readFraction_point] at h
    split at h
    · exact nomatch h
    · next hne =>
        obtain ⟨ds, hds, hrest⟩ :=
          exists_digits fun hnil => hne (List.isEmpty_iff.2 hnil)
        obtain ⟨x, hx, rfl⟩ := exists_exponent rfl h
        refine ⟨some ds, x, ?_, ?_⟩
        · rw [Figure.fractionChars, List.cons_append, ← hx, ← hrest]
        · rw [Option.elim_some, hds]

theorem readUnsigned_chars (n : Figure) {rest : List Char} (hrest : Ends rest) :
    Numeral.readUnsigned n.negative (n.whole.chars
        ++ (Figure.fractionChars n.fraction
          ++ (Figure.exponentChars n.exponent ++ rest)))
      = .ok (n.numeral, rest) := by
  have hspan := Text.span_of_forall n.whole.isDigit
    (head?_fractionChars (f := n.fraction) (x := n.exponent) hrest)
  rw [Numeral.readUnsigned, hspan]
  split
  · next h => exact absurd (Prod.mk.inj h).1 n.whole.nonempty
  · next d ds _ h =>
      have hwhole := (Prod.mk.inj h).1
      have halone := n.alone (by rw [hwhole]; rfl)
      rw [hwhole] at halone
      cases (List.cons.inj halone).2
  · next h =>
      obtain ⟨rfl, rfl⟩ := Prod.mk.inj h
      exact readFraction_chars _ _ _ _ hrest

theorem exists_unsigned {negative : Bool} {cs rest : List Char}
    {numeral : Numeral}
    (h : Numeral.readUnsigned negative cs = .ok (numeral, rest)) :
    ∃ n : Figure, n.negative = negative
      ∧ cs = n.whole.chars
        ++ (Figure.fractionChars n.fraction
          ++ (Figure.exponentChars n.exponent ++ rest))
      ∧ n.numeral = numeral := by
  rw [Numeral.readUnsigned] at h
  split at h
  · cases h
  · cases h
  · next digits behind hne hzero hspan =>
      have hdigits : (cs.span Text.isDigit).1 ≠ [] := by
        rw [hspan]
        exact hne
      obtain ⟨whole, hwhole, hcs⟩ := exists_digits hdigits
      rw [hspan] at hwhole hcs
      dsimp only at hwhole hcs
      subst hwhole
      obtain ⟨f, x, rfl, rfl⟩ := exists_fraction h
      refine ⟨⟨negative, whole, fun hhead => ?_, f, x⟩, rfl, hcs, rfl⟩
      obtain ⟨ds, hds⟩ := List.head?_eq_some_iff.1 hhead
      cases ds with
      | nil => exact hds
      | cons d ds => exact (hzero d ds hds).elim

theorem Figure.chars_append (n : Figure) (rest : List Char) :
    n.chars ++ rest = (if n.negative then ['-'] else []) ++ (n.whole.chars
      ++ (fractionChars n.fraction ++ (exponentChars n.exponent ++ rest))) := by
  simp [Figure.chars]

/-- A number that is written in front of an end is read as its numeral. -/
theorem read_figure (n : Figure) {rest : List Char} (hrest : Ends rest) :
    Numeral.read (n.chars ++ rest) = .ok (n.numeral, rest) := by
  have hread := readUnsigned_chars n hrest
  rw [n.chars_append]
  cases hsign : n.negative with
  | true =>
      rw [hsign] at hread
      exact hread
  | false =>
      obtain ⟨d, ds, hds, hd⟩ := n.whole.chars_eq_cons
      rw [hsign, hds] at hread
      rw [if_neg Bool.false_ne_true, hds, List.nil_append,
        List.cons_append, Numeral.read]
      · exact hread
      · exact fun _ heq => ne_minus_of_isDigit hd (List.cons.inj heq).1

/-- Whatever was read as a numeral is a number that is written. -/
theorem exists_figure {cs rest : List Char} {numeral : Numeral}
    (h : Numeral.read cs = .ok (numeral, rest)) :
    ∃ n : Figure, cs = n.chars ++ rest ∧ n.numeral = numeral := by
  fun_cases Numeral.read cs with
  | case1 cs =>
      obtain ⟨n, hsign, rfl, hn⟩ := exists_unsigned h
      exact ⟨n, by rw [n.chars_append, hsign]; rfl, hn⟩
  | case2 =>
      rw [Numeral.read] at h
      · obtain ⟨n, hsign, rfl, hn⟩ := exists_unsigned h
        exact ⟨n, by rw [n.chars_append, hsign]; rfl, hn⟩
      · assumption

theorem Figure.chars_eq_cons (n : Figure) :
    ∃ c cs, n.chars = c :: cs ∧ (c = '-' ∨ Text.isDigit c = true) := by
  cases hsign : n.negative with
  | true => exact ⟨'-', _, by rw [Figure.chars, hsign]; rfl, .inl rfl⟩
  | false =>
      obtain ⟨d, ds, hds, hd⟩ := n.whole.chars_eq_cons
      exact ⟨d, _, by rw [Figure.chars, hsign, hds]; rfl, .inr hd⟩

end FlowAtlas.Json
