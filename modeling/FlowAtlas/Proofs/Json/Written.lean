import FlowAtlas.Json.Decode
import FlowAtlas.Json.Print
import FlowAtlas.Proofs.Text.Lines

/-!
# Reading what was written

`Writes j cs` says that `cs` is a written form of the value `j`: the notation
with any amount of space where a printer puts space. The indented print and the
compact one are such forms, and reading a written form gives back the tree of
the value and what stood behind it. So reading back needs no word about the
printer that was used.

Only numbers that are exact are written forms here. A double word is printed
with the fewest digits that identify it, and what those are is no matter of the
notation.

A number has no end of its own, so it is read back in front of a character that
cannot belong to it (`Ends`). Every character that a written form puts behind a
value is such a one.
-/

namespace FlowAtlas.Json

/-! ## Strings -/

theorem hexValue?_lowHexDigit
    (n : Nat) : Text.hexValue? (lowHexDigit n) = some (n % 16) := by
  have h : ∀ k < 16, Text.hexValue? (Nat.digitChar k) = some k := by decide
  exact h (n % 16) (Nat.mod_lt n (by decide))

theorem hexUnit?_control {c : Char} (h : c.toNat < 0x20) :
    hexUnit? '0' '0' (lowHexDigit (c.toNat / 16)) (lowHexDigit c.toNat)
      = some c.toNat := by
  have h0 : Text.hexValue? '0' = some 0 := by decide
  simp only [hexUnit?, h0, hexValue?_lowHexDigit, Option.bind_eq_bind,
    Option.bind_some, Option.pure_def]
  congr 1
  omega

theorem readPieces_plain {c : Char} {rest : List Char} (hquote : c ≠ '"')
    (hslash : c ≠ '\\') (hlow : ¬ c.toNat < 0x20) :
    readPieces (c :: rest)
      = (.plain c :: (readPieces rest).1, (readPieces rest).2) := by
  rw [readPieces]
  · rw [if_neg hlow]
  all_goals simp_all

theorem readPieces_short {c e : Char} {rest : List Char} (hu : c ≠ 'u')
    (h : shortEscape? c = some e) :
    readPieces ('\\' :: c :: rest)
      = (.short e :: (readPieces rest).1, (readPieces rest).2) := by
  rw [readPieces]
  · rw [if_neg hu, h]
  · simp_all

theorem readPieces_unit {a b c d : Char} {n : Nat} {rest : List Char}
    (h : hexUnit? a b c d = some n) :
    readPieces ('\\' :: 'u' :: a :: b :: c :: d :: rest)
      = (.unit n rest :: (readPieces rest).1, (readPieces rest).2) := by
  rw [readPieces, h]

/-- Reading a written character gives a piece that stands for it, and goes on
behind it. -/
theorem readPieces_stringChar (c : Char) (rest : List Char) :
    ∃ piece, readPieces (stringChar c ++ rest)
        = (piece :: (readPieces rest).1, (readPieces rest).2)
      ∧ ∀ ps, contentOfPieces (piece :: ps)
        = (contentOfPieces ps).map (c :: ·) := by
  unfold stringChar
  split
  case h_8 =>
    next hquote hslash _ _ _ _ _ =>
      split
      · next hlow =>
          refine ⟨.unit c.toNat rest, readPieces_unit (hexUnit?_control hlow),
            fun ps => ?_⟩
          have hl : ¬ isLowSurrogate c.toNat = true := by
            simp only [isLowSurrogate, Bool.and_eq_true, decide_eq_true_eq]
            omega
          have hh : ¬ isHighSurrogate c.toNat = true := by
            simp only [isHighSurrogate, Bool.and_eq_true, decide_eq_true_eq]
            omega
          rw [contentOfPieces.eq_def]
          simp only [if_neg hl, if_neg hh, Char.ofNat_toNat]
      · next hlow =>
          exact ⟨.plain c, readPieces_plain hquote hslash hlow,
            fun ps => by rw [contentOfPieces]⟩
  all_goals
    exact ⟨.short _, readPieces_short (by decide) rfl,
      fun ps => by rw [contentOfPieces]⟩

theorem readPieces_written (cs rest : List Char) :
    (readPieces (cs.flatMap stringChar ++ '"' :: rest)).2 = .ok rest
      ∧ contentOfPieces (readPieces (cs.flatMap stringChar ++ '"' :: rest)).1
        = .ok cs := by
  induction cs with
  | nil => simp [readPieces, contentOfPieces]
  | cons c cs ih =>
      obtain ⟨piece, hread, hcontent⟩ :=
        readPieces_stringChar c (cs.flatMap stringChar ++ '"' :: rest)
      rw [List.flatMap_cons, List.append_assoc, hread]
      exact ⟨ih.1, by rw [hcontent, ih.2]; rfl⟩

theorem readString_written (s : String) (rest : List Char) :
    readString (s.toList.flatMap stringChar ++ '"' :: rest)
      = .ok (.ok s, rest) := by
  obtain ⟨hrest, hcontent⟩ := readPieces_written s.toList rest
  cases hread : readPieces (s.toList.flatMap stringChar ++ '"' :: rest) with
  | mk pieces result =>
      rw [hread] at hrest hcontent
      dsimp only at hrest hcontent
      subst hrest
      rw [readString, hread]
      simp only [hcontent, String.ofList_toList]

/-! ## Numbers -/

/-- What follows a number that has come to its end. -/
def Ends (rest : List Char) : Prop :=
  ∀ c ∈ rest.head?, Text.isDigit c = false ∧ c ≠ '.' ∧ c ≠ 'e' ∧ c ≠ 'E'

/-- A number that is a whole number of 64 bits, with a sign or without. -/
def Number.Exact : Number → Prop
  | .whole n => -((Nat.pow 2 63 : Nat) : Int) ≤ n ∧ n ≤ (Numeral.wordMax : Nat)
  | .real _ => False

theorem isDigit_of_mem_toDigits {n : Nat} {c : Char}
    (h : c ∈ Nat.toDigits 10 n) :
    Text.isDigit c = true := by
  have hc := Nat.isDigit_of_mem_toDigits (by decide) (by decide) h
  simp only [Char.isDigit, Bool.and_eq_true, decide_eq_true_eq] at hc
  simp only [Text.isDigit, Bool.and_eq_true, decide_eq_true_eq]
  exact hc

theorem digitsValue_toDigits
    (n : Nat) : Numeral.digitsValue (Nat.toDigits 10 n) = n := by
  have h := Nat.ofDigitChars_ten_toDigits (n := n)
  rwa [Nat.ofDigitChars_eq_foldl] at h

theorem head_toDigits_ne_zero {n : Nat} (h : 0 < n) :
    (Nat.toDigits 10 n).head? ≠ some '0' := by
  induction n using Nat.strongRecOn with
  | ind n ih =>
      by_cases hlt : n < 10
      · rw [Nat.toDigits_of_lt_base hlt]
        simp only [List.head?_cons, ne_eq, Option.some.injEq,
          Nat.digitChar_eq_zero]
        omega
      · rw [Nat.toDigits_of_base_le (by decide) (by omega), List.head?_append]
        have hhead := ih (n / 10) (by omega) (by omega)
        cases hd : Nat.toDigits 10 (n / 10) with
        | nil => exact absurd hd Nat.toDigits_ne_nil
        | cons c cs => rw [hd] at hhead; exact hhead

theorem readFraction_of_ends {rest : List Char} (n : Numeral)
    (hrest : Ends rest) :
    Numeral.readFraction n rest = .ok (n, rest) := by
  cases rest with
  | nil => rfl
  | cons c cs =>
      obtain ⟨-, hpoint, he, hE⟩ := hrest c (by simp)
      rw [Numeral.readFraction, Numeral.readExponent]
      · exact fun _ h => he (List.cons.inj h).1
      · exact fun _ h => hE (List.cons.inj h).1
      · exact fun _ h => hpoint (List.cons.inj h).1

theorem readUnsigned_toDigits (negative : Bool) (n : Nat) {rest : List Char}
    (hrest : Ends rest) :
    Numeral.readUnsigned negative (Nat.toDigits 10 n ++ rest)
      = .ok (⟨negative, Nat.toDigits 10 n, [], none⟩, rest) := by
  rw [Numeral.readUnsigned,
    Text.span_of_forall (fun c => isDigit_of_mem_toDigits) fun c hc =>
      (hrest c hc).1]
  split
  · next h => exact absurd (Prod.mk.inj h).1 Nat.toDigits_ne_nil
  · next d ds _ h =>
      obtain ⟨hdigits, -⟩ := Prod.mk.inj h
      by_cases hpos : 0 < n
      · exact absurd (by rw [hdigits]; rfl) (head_toDigits_ne_zero hpos)
      · rw [show n = 0 by omega, Nat.toDigits_zero] at hdigits
        simp at hdigits
  · next h =>
      obtain ⟨rfl, rfl⟩ := Prod.mk.inj h
      exact readFraction_of_ends _ hrest

theorem ne_minus_of_isDigit {c : Char} (h : Text.isDigit c = true) :
    c ≠ '-' := by
  rintro rfl
  exact absurd h (by decide)

/-- A number that was written is read up to its end, and has its value. -/
theorem read_chars {n : Number} (hn : n.Exact) {rest : List Char}
    (hrest : Ends rest) :
    ∃ numeral, Numeral.read (n.chars ++ rest) = .ok (numeral, rest)
      ∧ numeral.value? = some n := by
  cases n with
  | real d => exact hn.elim
  | whole n =>
      obtain ⟨hlow, hhigh⟩ := hn
      by_cases hneg : n < 0
      · refine ⟨_, by
          rw [Number.chars, if_pos hneg]
          exact readUnsigned_toDigits true _ hrest, ?_⟩
        have hrange : 0 < n.natAbs ∧ n.natAbs ≤ Nat.pow 2 63 := by omega
        simp only [Numeral.value?, digitsValue_toDigits, List.isEmpty_nil,
          Option.isNone_none, if_true, hrange, and_self]
        rw [show -(n.natAbs : Int) = n by omega]
      · refine ⟨⟨false, Nat.toDigits 10 n.natAbs, [], none⟩, ?_, ?_⟩
        · rw [Number.chars, if_neg hneg, Numeral.read]
          · exact readUnsigned_toDigits false _ hrest
          · intro cs hcs
            cases hd : Nat.toDigits 10 n.natAbs with
            | nil => exact Nat.toDigits_ne_nil hd
            | cons c ds =>
                have hc :=
                  isDigit_of_mem_toDigits (n := n.natAbs)
                    (c := c) (by simp [hd])
                rw [hd] at hcs
                exact ne_minus_of_isDigit hc (List.cons.inj hcs).1
        · have hrange : n.natAbs ≤ Numeral.wordMax := by omega
          simp only [Numeral.value?, digitsValue_toDigits, List.isEmpty_nil,
            Option.isNone_none, if_false, Bool.false_eq_true, hrange,
            and_self, if_true]
          rw [show (n.natAbs : Int) = n by omega]

/-! ## Written forms -/

/-- Space between two parts of a text. -/
def Spaces (cs : List Char) : Prop := ∀ c ∈ cs, isSpace c = true

theorem spaces_nil : Spaces [] := fun _ h => absurd h List.not_mem_nil

mutual

/-- The written forms of a value. -/
def Writes : Json → List Char → Prop
  | .null, cs => cs = ['n', 'u', 'l', 'l']
  | .bool true, cs => cs = ['t', 'r', 'u', 'e']
  | .bool false, cs => cs = ['f', 'a', 'l', 's', 'e']
  | .number n, cs => n.Exact ∧ cs = n.chars
  | .string s, cs => cs = stringChars s
  | .array [], cs => ∃ sp, Spaces sp ∧ cs = '[' :: (sp ++ [']'])
  | .array (j :: js), cs =>
    ∃ sp first more, Spaces sp ∧ Writes j first ∧ WritesItems js more
      ∧ cs = '[' :: (sp ++ (first ++ more))
  | .object [], cs => ∃ sp, Spaces sp ∧ cs = '\x7b' :: (sp ++ ['\x7d'])
  | .object ((k, j) :: ms), cs =>
    ∃ sp gap first more, Spaces sp ∧ Spaces gap ∧ Writes j first
      ∧ WritesMembers ms more
      ∧ cs = '\x7b'
        :: (sp ++ (stringChars k ++ ':' :: (gap ++ (first ++ more))))

/-- The written forms of the items behind the first one, with the bracket that
ends them. -/
def WritesItems : List Json → List Char → Prop
  | [], cs => ∃ sp, Spaces sp ∧ cs = sp ++ [']']
  | j :: js, cs =>
    ∃ sp first more, Spaces sp ∧ Writes j first ∧ WritesItems js more
      ∧ cs = ',' :: (sp ++ (first ++ more))

/-- The written forms of the members behind the first one, with the brace that
ends them. -/
def WritesMembers : List (String × Json) → List Char → Prop
  | [], cs => ∃ sp, Spaces sp ∧ cs = sp ++ ['\x7d']
  | (k, j) :: ms, cs =>
    ∃ sp gap first more, Spaces sp ∧ Spaces gap ∧ Writes j first
      ∧ WritesMembers ms more
      ∧ cs = ',' :: (sp ++ (stringChars k ++ ':' :: (gap ++ (first ++ more))))

end

/-- What a written form may begin with: no space and no closing bracket. -/
def Opens (c : Char) : Prop := isSpace c = false ∧ c ≠ ']'

theorem opens_of_isDigit {c : Char} (h : Text.isDigit c = true) : Opens c := by
  constructor
  · refine Bool.eq_false_iff.mpr fun hspace => ?_
    simp only [isSpace, Bool.or_eq_true, decide_eq_true_eq] at hspace
    rcases hspace with ((rfl | rfl) | rfl) | rfl <;> exact absurd h (by decide)
  · rintro rfl
    exact absurd h (by decide)

theorem chars_eq_cons {n : Number} (hn : n.Exact) :
    ∃ c cs, n.chars = c :: cs ∧ (c = '-' ∨ Text.isDigit c = true) := by
  cases n with
  | real d => exact hn.elim
  | whole n =>
      rw [Number.chars]
      split
      · exact ⟨_, _, rfl, .inl rfl⟩
      · cases hd : Nat.toDigits 10 n.natAbs with
        | nil => exact absurd hd Nat.toDigits_ne_nil
        | cons c cs =>
            exact ⟨c, cs, rfl,
              .inr (isDigit_of_mem_toDigits (n := n.natAbs) (by simp [hd]))⟩

theorem Writes.eq_cons {j : Json} {cs : List Char} (h : Writes j cs) :
    ∃ c ds, cs = c :: ds ∧ Opens c := by
  match j with
  | .null | .bool true | .bool false | .string _ =>
      rw [Writes] at h
      exact ⟨_, _, h, by decide, by decide⟩
  | .number n =>
      rw [Writes] at h
      obtain ⟨c, ds, hcs, hc⟩ := chars_eq_cons h.1
      refine ⟨c, ds, h.2.trans hcs, ?_⟩
      rcases hc with rfl | hc
      · exact ⟨by decide, by decide⟩
      · exact opens_of_isDigit hc
  | .array [] | .object [] =>
      rw [Writes] at h
      obtain ⟨_, -, rfl⟩ := h
      exact ⟨_, _, rfl, by decide, by decide⟩
  | .array (_ :: _) =>
      rw [Writes] at h
      obtain ⟨_, _, _, -, -, -, rfl⟩ := h
      exact ⟨_, _, rfl, by decide, by decide⟩
  | .object ((_, _) :: _) =>
      rw [Writes] at h
      obtain ⟨_, _, _, _, -, -, -, -, rfl⟩ := h
      exact ⟨_, _, rfl, by decide, by decide⟩

theorem Writes.length_pos {j : Json} {cs : List Char} (h : Writes j cs) :
    0 < cs.length := by
  obtain ⟨c, ds, rfl, -⟩ := h.eq_cons
  exact Nat.succ_pos _

theorem WritesItems.length_pos {js : List Json} {cs : List Char}
    (h : WritesItems js cs) :
    0 < cs.length := by
  match js with
  | [] =>
      rw [WritesItems] at h
      obtain ⟨sp, -, rfl⟩ := h
      simp
  | _ :: _ =>
      rw [WritesItems] at h
      obtain ⟨_, _, _, -, -, -, rfl⟩ := h
      exact Nat.succ_pos _

theorem WritesMembers.length_pos {ms : List (String × Json)} {cs : List Char}
    (h : WritesMembers ms cs) : 0 < cs.length := by
  match ms with
  | [] =>
      rw [WritesMembers] at h
      obtain ⟨sp, -, rfl⟩ := h
      simp
  | (_, _) :: _ =>
      rw [WritesMembers] at h
      obtain ⟨_, _, _, _, -, -, -, -, rfl⟩ := h
      exact Nat.succ_pos _

theorem skipSpace_append {sp cs : List Char} (hsp : Spaces sp) {c : Char}
    (hc : isSpace c = false) : skipSpace (sp ++ c :: cs) = c :: cs := by
  rw [skipSpace, List.dropWhile_append_of_pos hsp,
    List.dropWhile_cons_of_neg (by simp [hc])]

theorem skipSpace_cons {c : Char} {cs : List Char} (hc : isSpace c = false) :
    skipSpace (c :: cs) = c :: cs :=
  skipSpace_append spaces_nil hc

theorem ends_cons {c : Char} {cs : List Char}
    (hc : Text.isDigit c = false ∧ c ≠ '.' ∧ c ≠ 'e' ∧ c ≠ 'E') :
    Ends (c :: cs) := by
  intro d hd
  obtain rfl : c = d := by simpa using hd
  exact hc

theorem ends_spaces_append {sp cs : List Char} (hsp : Spaces sp)
    (hcs : Ends cs) :
    Ends (sp ++ cs) := by
  cases sp with
  | nil => exact hcs
  | cons c sp =>
      refine ends_cons ?_
      have hc := hsp c List.mem_cons_self
      simp only [isSpace, Bool.or_eq_true, decide_eq_true_eq] at hc
      rcases hc with ((rfl | rfl) | rfl) | rfl <;> decide

theorem WritesItems.ends {js : List Json} {cs : List Char}
    (h : WritesItems js cs) (rest : List Char) : Ends (cs ++ rest) := by
  match js with
  | [] =>
      rw [WritesItems] at h
      obtain ⟨sp, hsp, rfl⟩ := h
      rw [List.append_assoc]
      exact ends_spaces_append hsp (ends_cons (by decide))
  | _ :: _ =>
      rw [WritesItems] at h
      obtain ⟨_, _, _, -, -, -, rfl⟩ := h
      exact ends_cons (by decide)

theorem WritesMembers.ends {ms : List (String × Json)} {cs : List Char}
    (h : WritesMembers ms cs) (rest : List Char) : Ends (cs ++ rest) := by
  match ms with
  | [] =>
      rw [WritesMembers] at h
      obtain ⟨sp, hsp, rfl⟩ := h
      rw [List.append_assoc]
      exact ends_spaces_append hsp (ends_cons (by decide))
  | (_, _) :: _ =>
      rw [WritesMembers] at h
      obtain ⟨_, _, _, _, -, -, -, -, rfl⟩ := h
      exact ends_cons (by decide)

/-! ## Reading a written form -/

theorem readWord_append (word rest : List Char) :
    readWord word (word ++ rest) = .ok rest := by
  induction word with
  | nil => rfl
  | cons c word ih => rw [List.cons_append, readWord, if_pos rfl, ih]

theorem readValue_word {first : Char} {node : Node} {word rest text : List Char}
    {fuel : Nat} (hword : (first, node, word) ∈ [('n', .null, ['u', 'l', 'l']),
      ('t', .bool true, ['r', 'u', 'e']),
      ('f', .bool false, ['a', 'l', 's', 'e'])])
    (htext : skipSpace text = first :: (word ++ rest)) :
    readValue (fuel + 1) text = (node, .ok rest) := by
  have hnode : wordNode first node word (word ++ rest) = (node, .ok rest) := by
    rw [wordNode, readWord_append]
  simp only [List.mem_cons, Prod.mk.injEq, List.not_mem_nil, or_false] at hword
  rcases hword with ⟨rfl, rfl, rfl⟩ | ⟨rfl, rfl, rfl⟩ | ⟨rfl, rfl, rfl⟩
  all_goals
    rw [readValue, htext]
    exact hnode

/-- What begins with a minus or a digit is read as a number. -/
theorem readValue_numeral {c : Char} {cs text rest : List Char}
    {numeral : Numeral} {fuel : Nat} (hc : c = '-' ∨ Text.isDigit c = true)
    (htext : skipSpace text = c :: cs)
    (hread : Numeral.read (c :: cs) = .ok (numeral, rest)) :
    readValue (fuel + 1) text
      = (numeral.value?.elim .outOfRange .number, .ok rest) := by
  have hne : ∀ d : Char, d ≠ '-' → Text.isDigit d = false → c ≠ d := by
    rintro d hminus hdigit rfl
    rcases hc with rfl | hc
    · exact hminus rfl
    · rw [hdigit] at hc
      exact Bool.noConfusion hc
  rw [readValue, htext]
  split
  case h_1 => next h => exact absurd h (List.cons_ne_nil _ _)
  case h_8 =>
    next h =>
      obtain ⟨rfl, rfl⟩ := List.cons.inj h
      rw [if_pos hc, hread]
  all_goals
    next h => exact absurd (List.cons.inj h).1 (hne _ (by decide) (by decide))

theorem readValue_number {n : Number} (hn : n.Exact) {fuel : Nat}
    {text rest : List Char} (hrest : Ends rest)
    (htext : skipSpace text = n.chars ++ rest) :
    readValue (fuel + 1) text = (.number n, .ok rest) := by
  obtain ⟨c, cs, hchars, hc⟩ := chars_eq_cons hn
  obtain ⟨numeral, hread, hvalue⟩ := read_chars hn hrest
  rw [hchars, List.cons_append] at hread htext
  rw [readValue_numeral hc htext hread, hvalue]
  rfl

theorem readValue_string {s : String} {fuel : Nat} {text rest : List Char}
    (htext : skipSpace text = stringChars s ++ rest) :
    readValue (fuel + 1) text = (.string s, .ok rest) := by
  rw [stringChars, List.append_assoc, List.cons_append,
    List.singleton_append] at htext
  rw [readValue, htext]
  simp only [readString_written]

theorem readValue_array {text inner rest : List Char} {nodes : List Node}
    {fuel : Nat} (htext : skipSpace text = '[' :: inner)
    (hread : readItems fuel true inner = (nodes, .ok rest)) :
    readValue (fuel + 1) text = (.array nodes none, .ok rest) := by
  rw [readValue, htext]
  simp only [hread, cut?]

theorem readValue_object {text inner rest : List Char}
    {nodes : List (StringContent × Node)} {fuel : Nat}
    (htext : skipSpace text = '\x7b' :: inner)
    (hread : readMembers fuel true inner = (nodes, .ok rest)) :
    readValue (fuel + 1) text = (.object nodes none, .ok rest) := by
  rw [readValue, htext]
  simp only [hread, cut?]

theorem readItem_eq {node : Node} {fuel : Nat} {text rest : List Char}
    (h : readValue fuel text = (node, .ok rest)) :
    readItem (fuel + 1) text
      = (node :: (readItems fuel false rest).1,
        (readItems fuel false rest).2) := by
  rw [readItem, h]

theorem readMember_eq {key : String} {node : Node} {fuel : Nat}
    {text rest : List Char} (h : readValue fuel text = (node, .ok rest)) :
    readMember (fuel + 1) (key.toList.flatMap stringChar ++ '"' :: ':' :: text)
      = ((.ok key, node) :: (readMembers fuel false rest).1,
        (readMembers fuel false rest).2) := by
  rw [readMember, readString_written]
  simp only [skipSpace_cons (show isSpace ':' = false by decide), h]

theorem Writes.skipSpace_append {j : Json} {sp cs : List Char} (h : Writes j cs)
    (hsp : Spaces sp) (rest : List Char) :
    skipSpace (sp ++ (cs ++ rest)) = cs ++ rest := by
  obtain ⟨c, ds, rfl, hc⟩ := h.eq_cons
  exact Json.skipSpace_append hsp hc.1

theorem readItems_first {j : Json} {sp cs : List Char} (h : Writes j cs)
    (hsp : Spaces sp) (fuel : Nat) (rest : List Char) :
    readItems (fuel + 1) true (sp ++ (cs ++ rest))
      = readItem fuel (cs ++ rest) := by
  rw [readItems.eq_def]
  simp only [h.skipSpace_append hsp rest]
  obtain ⟨c, ds, rfl, -, hc⟩ := h.eq_cons
  split
  all_goals simp_all

theorem readItems_next {j : Json} {sp cs : List Char} (h : Writes j cs)
    (hsp : Spaces sp) (fuel : Nat) (rest : List Char) :
    readItems (fuel + 1) false (',' :: (sp ++ (cs ++ rest)))
      = readItem fuel (cs ++ rest) := by
  rw [readItems.eq_def]
  simp only [skipSpace_cons (show isSpace ',' = false by decide),
    h.skipSpace_append hsp rest]
  obtain ⟨c, ds, rfl, -, hc⟩ := h.eq_cons
  split
  all_goals simp_all

theorem readItems_end {sp : List Char} (hsp : Spaces sp) (fuel : Nat)
    (first : Bool) (rest : List Char) :
    readItems (fuel + 1) first (sp ++ ']' :: rest) = ([], .ok rest) := by
  rw [readItems.eq_def]
  simp only [skipSpace_append hsp (show isSpace ']' = false by decide)]

theorem readMembers_first {sp : List Char} (hsp : Spaces sp) (fuel : Nat)
    (rest : List Char) :
    readMembers (fuel + 1) true (sp ++ '"' :: rest) = readMember fuel rest := by
  rw [readMembers.eq_def]
  simp only [skipSpace_append hsp (show isSpace '"' = false by decide)]

theorem readMembers_next {sp : List Char} (hsp : Spaces sp) (fuel : Nat)
    (rest : List Char) :
    readMembers (fuel + 1) false (',' :: (sp ++ '"' :: rest))
      = readMember fuel rest := by
  rw [readMembers.eq_def]
  simp only [skipSpace_cons (show isSpace ',' = false by decide),
    skipSpace_append hsp (show isSpace '"' = false by decide)]

theorem readMembers_end {sp : List Char} (hsp : Spaces sp) (fuel : Nat)
    (first : Bool) (rest : List Char) :
    readMembers (fuel + 1) first (sp ++ '\x7d' :: rest) = ([], .ok rest) := by
  rw [readMembers.eq_def]
  simp only [skipSpace_append hsp (show isSpace '\x7d' = false by decide)]

mutual

/-- A written form is read as its value, whatever space stands in front of
it. -/
theorem readValue_writes {j : Json} {cs : List Char} (h : Writes j cs)
    {text : List Char} (fuel : Nat) {rest : List Char} (hrest : Ends rest)
    (hfuel : 2 * cs.length ≤ fuel) (htext : skipSpace text = cs ++ rest) :
    readValue fuel text = (Node.ofJson j, .ok rest) := by
  have hpos := h.length_pos
  obtain ⟨fuel, rfl⟩ : ∃ n, fuel = n + 2 := ⟨fuel - 2, by omega⟩
  match j with
  | .null =>
      rw [Writes] at h
      subst h
      rw [Node.ofJson]
      exact readValue_word (by simp) htext
  | .bool true =>
      rw [Writes] at h
      subst h
      rw [Node.ofJson]
      exact readValue_word (by simp) htext
  | .bool false =>
      rw [Writes] at h
      subst h
      rw [Node.ofJson]
      exact readValue_word (by simp) htext
  | .number n =>
      rw [Writes] at h
      obtain ⟨hn, rfl⟩ := h
      rw [Node.ofJson]
      exact readValue_number hn hrest htext
  | .string s =>
      rw [Writes] at h
      subst h
      rw [Node.ofJson]
      exact readValue_string htext
  | .array [] =>
      rw [Writes] at h
      obtain ⟨sp, hsp, rfl⟩ := h
      rw [List.cons_append, List.append_assoc] at htext
      exact readValue_array htext (readItems_end hsp _ true rest)
  | .array (j :: js) =>
      rw [Writes] at h
      obtain ⟨sp, first, more, hsp, hfirst, hmore, rfl⟩ := h
      have hfirstpos := hfirst.length_pos
      have hmorepos := hmore.length_pos
      simp only [List.length_cons, List.length_append] at hfuel
      obtain ⟨fuel, rfl⟩ : ∃ n, fuel = n + 1 := ⟨fuel - 1, by omega⟩
      have hvalue := readValue_writes hfirst fuel (hmore.ends rest) (by omega)
        (hfirst.skipSpace_append spaces_nil _)
      rw [List.nil_append] at hvalue
      have hitems := readItems_writes hmore fuel rest (by omega)
      rw [List.cons_append, List.append_assoc, List.append_assoc] at htext
      refine readValue_array htext ?_
      rw [readItems_first hfirst hsp, readItem_eq hvalue, hitems, nodesOfItems]
  | .object [] =>
      rw [Writes] at h
      obtain ⟨sp, hsp, rfl⟩ := h
      rw [List.cons_append, List.append_assoc] at htext
      exact readValue_object htext (readMembers_end hsp _ true rest)
  | .object ((k, j) :: ms) =>
      rw [Writes] at h
      obtain ⟨sp, gap, first, more, hsp, hgap, hfirst, hmore, rfl⟩ := h
      simp only [List.length_cons, List.length_append, stringChars] at hfuel
      obtain ⟨fuel, rfl⟩ : ∃ n, fuel = n + 1 := ⟨fuel - 1, by omega⟩
      have hvalue := readValue_writes hfirst fuel (hmore.ends rest) (by omega)
        (hfirst.skipSpace_append hgap _)
      have hmembers := readMembers_writes hmore fuel rest (by omega)
      simp only [List.append_assoc, List.cons_append, List.nil_append,
        stringChars] at htext
      refine readValue_object htext ?_
      rw [readMembers_first hsp, readMember_eq hvalue, hmembers, nodesOfMembers]
termination_by structural j

/-- The items behind the first one are read up to the bracket. -/
theorem readItems_writes {js : List Json} {cs : List Char}
    (h : WritesItems js cs) (fuel : Nat) (rest : List Char)
    (hfuel : 2 * cs.length ≤ fuel) :
    readItems fuel false (cs ++ rest) = (nodesOfItems js, .ok rest) := by
  have hpos := h.length_pos
  obtain ⟨fuel, rfl⟩ : ∃ n, fuel = n + 2 := ⟨fuel - 2, by omega⟩
  match js with
  | [] =>
      rw [WritesItems] at h
      obtain ⟨sp, hsp, rfl⟩ := h
      rw [List.append_assoc, nodesOfItems]
      exact readItems_end hsp _ false rest
  | j :: js =>
      rw [WritesItems] at h
      obtain ⟨sp, first, more, hsp, hfirst, hmore, rfl⟩ := h
      simp only [List.length_cons, List.length_append] at hfuel
      have hvalue := readValue_writes hfirst fuel (hmore.ends rest) (by omega)
        (hfirst.skipSpace_append spaces_nil _)
      rw [List.nil_append] at hvalue
      have hitems := readItems_writes hmore fuel rest (by omega)
      simp only [List.append_assoc, List.cons_append, readItems_next hfirst hsp,
        readItem_eq hvalue, hitems, nodesOfItems]
termination_by structural js

/-- The members behind the first one are read up to the brace. -/
theorem readMembers_writes {ms : List (String × Json)} {cs : List Char}
    (h : WritesMembers ms cs) (fuel : Nat) (rest : List Char)
    (hfuel : 2 * cs.length ≤ fuel) :
    readMembers fuel false (cs ++ rest) = (nodesOfMembers ms, .ok rest) := by
  have hpos := h.length_pos
  obtain ⟨fuel, rfl⟩ : ∃ n, fuel = n + 2 := ⟨fuel - 2, by omega⟩
  match ms with
  | [] =>
      rw [WritesMembers] at h
      obtain ⟨sp, hsp, rfl⟩ := h
      rw [List.append_assoc, nodesOfMembers]
      exact readMembers_end hsp _ false rest
  | (k, j) :: ms =>
      rw [WritesMembers] at h
      obtain ⟨sp, gap, first, more, hsp, hgap, hfirst, hmore, rfl⟩ := h
      simp only [List.length_cons, List.length_append] at hfuel
      have hvalue := readValue_writes hfirst fuel (hmore.ends rest) (by omega)
        (hfirst.skipSpace_append hgap _)
      have hmembers := readMembers_writes hmore fuel rest (by omega)
      simp only [List.append_assoc, List.cons_append, List.nil_append,
        stringChars, readMembers_next hsp, readMember_eq hvalue,
        hmembers, nodesOfMembers]
termination_by structural ms

end

/-- A written form is read as its value, and nothing is left over. -/
theorem reading_of_writes {j : Json} {cs : List Char} (h : Writes j cs) :
    Reading.of cs = ⟨Node.ofJson j, .ok []⟩ := by
  have hread :=
    readValue_writes h (2 * cs.length + 2)
      (fun _ h => absurd h (by simp) : Ends []) (by omega)
      (h.skipSpace_append spaces_nil [])
  rw [List.nil_append, List.append_nil] at hread
  rw [Reading.of, hread]

theorem decodeText_of_writes {j : Json} {text : String}
    (h : Writes j text.toList) {α : Type} (decode : Source → Node → Decoded α) :
    decodeText decode text = decode .wholeText (Node.ofJson j) := by
  rw [decodeText, reading_of_writes h]
  cases decode .wholeText (Node.ofJson j) with
  | error refusal => rfl
  | ok a => rfl

/-! ## The indented form -/

mutual

/-- A value all of whose numbers are exact. -/
def Exact : Json → Prop
  | .null | .bool _ | .string _ => True
  | .number n => n.Exact
  | .array items => ExactItems items
  | .object members => ExactMembers members

/-- Items all of whose numbers are exact. -/
def ExactItems : List Json → Prop
  | [] => True
  | j :: js => Exact j ∧ ExactItems js

/-- Members all of whose numbers are exact. -/
def ExactMembers : List (String × Json) → Prop
  | [] => True
  | (_, j) :: ms => Exact j ∧ ExactMembers ms

end

theorem spaces_newLine (level : Nat) : Spaces (newLine level) := by
  intro c hc
  rcases List.mem_cons.1 hc with rfl | hc
  · decide
  · obtain rfl := (List.mem_replicate.1 hc).2
    decide

mutual

theorem writes_indentedChars {j : Json} (h : Exact j) (level : Nat) :
    Writes j (indentedChars level j) := by
  match j with
  | .null | .bool true | .bool false | .string s => rw [Writes, indentedChars]
  | .number n =>
      rw [Exact] at h
      rw [Writes, indentedChars]
      exact ⟨h, rfl⟩
  | .array [] =>
      rw [Writes, indentedChars]
      exact ⟨[], spaces_nil, rfl⟩
  | .array (j :: js) =>
      rw [Exact, ExactItems] at h
      rw [Writes, indentedChars]
      exact ⟨_, _, _, spaces_newLine (level + 1),
        writes_indentedChars h.1 (level + 1),
        writesItems_indentedItems h.2 level, by simp⟩
  | .object [] =>
      rw [Writes, indentedChars]
      exact ⟨[], spaces_nil, rfl⟩
  | .object ((k, j) :: ms) =>
      rw [Exact, ExactMembers] at h
      rw [Writes, indentedChars]
      exact ⟨_, [' '], _, _,
        spaces_newLine (level + 1), by simp [Spaces, isSpace],
        writes_indentedChars h.1 (level + 1),
        writesMembers_indentedMembers h.2 level, by simp⟩
termination_by structural j

theorem writesItems_indentedItems {js : List Json} (h : ExactItems js)
    (level : Nat) :
    WritesItems js (indentedItems level js) := by
  match js with
  | [] =>
      rw [WritesItems, indentedItems]
      exact ⟨_, spaces_newLine level, rfl⟩
  | j :: js =>
      rw [ExactItems] at h
      rw [WritesItems, indentedItems]
      exact ⟨_, _, _, spaces_newLine (level + 1),
        writes_indentedChars h.1 (level + 1),
        writesItems_indentedItems h.2 level, by simp⟩
termination_by structural js

theorem writesMembers_indentedMembers {ms : List (String × Json)}
    (h : ExactMembers ms)
    (level : Nat) : WritesMembers ms (indentedMembers level ms) := by
  match ms with
  | [] =>
      rw [WritesMembers, indentedMembers]
      exact ⟨_, spaces_newLine level, rfl⟩
  | (k, j) :: ms =>
      rw [ExactMembers] at h
      rw [WritesMembers, indentedMembers]
      exact ⟨_, [' '], _, _,
        spaces_newLine (level + 1), by simp [Spaces, isSpace],
        writes_indentedChars h.1 (level + 1),
        writesMembers_indentedMembers h.2 level, by simp⟩
termination_by structural ms

end

/-- A decoder that is given the indented form meets the tree of the value. -/
theorem decodeText_indented {j : Json} (h : Exact j) {α : Type}
    (decode : Source → Node → Decoded α) :
    decodeText decode j.indented = decode .wholeText (Node.ofJson j) := by
  refine decodeText_of_writes ?_ decode
  rw [indented, String.toList_ofList]
  exact writes_indentedChars h 0

/-! ## The compact form -/

mutual

theorem writes_compactChars {j : Json} (h : Exact j) :
    Writes j (compactChars j) := by
  match j with
  | .null | .bool true | .bool false | .string s => rw [Writes, compactChars]
  | .number n =>
      rw [Exact] at h
      rw [Writes, compactChars]
      exact ⟨h, rfl⟩
  | .array [] =>
      rw [Writes, compactChars, compactItems]
      exact ⟨[], spaces_nil, rfl⟩
  | .array (j :: js) =>
      rw [Exact, ExactItems] at h
      rw [Writes, compactChars, compactItems]
      exact ⟨[], _, _, spaces_nil, writes_compactChars h.1,
        writesItems_compactMoreItems h.2, rfl⟩
  | .object [] =>
      rw [Writes, compactChars, compactMembers]
      exact ⟨[], spaces_nil, rfl⟩
  | .object ((k, j) :: ms) =>
      rw [Exact, ExactMembers] at h
      rw [Writes, compactChars, compactMembers]
      exact ⟨[], [], _, _, spaces_nil, spaces_nil, writes_compactChars h.1,
        writesMembers_compactMoreMembers h.2, by simp⟩
termination_by structural j

theorem writesItems_compactMoreItems {js : List Json} (h : ExactItems js) :
    WritesItems js (compactMoreItems js) := by
  match js with
  | [] =>
      rw [WritesItems, compactMoreItems]
      exact ⟨[], spaces_nil, rfl⟩
  | j :: js =>
      rw [ExactItems] at h
      rw [WritesItems, compactMoreItems]
      exact ⟨[], _, _, spaces_nil, writes_compactChars h.1,
        writesItems_compactMoreItems h.2, rfl⟩
termination_by structural js

theorem writesMembers_compactMoreMembers {ms : List (String × Json)}
    (h : ExactMembers ms) :
    WritesMembers ms (compactMoreMembers ms) := by
  match ms with
  | [] =>
      rw [WritesMembers, compactMoreMembers]
      exact ⟨[], spaces_nil, rfl⟩
  | (k, j) :: ms =>
      rw [ExactMembers] at h
      rw [WritesMembers, compactMoreMembers]
      exact ⟨[], [], _, _, spaces_nil, spaces_nil, writes_compactChars h.1,
        writesMembers_compactMoreMembers h.2, by simp⟩
termination_by structural ms

end

/-- So does one that is given the compact form. -/
theorem decodeText_compact {j : Json} (h : Exact j) {α : Type}
    (decode : Source → Node → Decoded α) :
    decodeText decode j.compact = decode .wholeText (Node.ofJson j) := by
  refine decodeText_of_writes ?_ decode
  rw [compact, String.toList_ofList]
  exact writes_compactChars h

end FlowAtlas.Json
