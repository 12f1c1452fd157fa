import FlowAtlas.Proofs.Json.Written

/-!
# The numbers of a text

A whole number that was read lies in the range of the 64-bit words, because a
numeral beyond that range is read as a double word or not at all. So of the
numbers of a text only the double words are not exact.

The reader calls itself in five forms, and all of them hand on the nodes of the
reading of a value. The induction is on the fuel, which every call lowers, and
has one theorem for each form.
-/

namespace FlowAtlas.Json

/-! ## The numbers of a tree -/

/-- Whether a number is a whole number and not a double word. -/
def Number.isWhole : Number → Bool
  | .whole _ => true
  | .real _ => false

mutual

/-- The numbers that a tree holds, those of members that nobody asks for
included. -/
def Node.numbers : Node → List Number
  | .number n => [n]
  | .array items _ => numbersOfItems items
  | .object members _ => numbersOfMembers members
  | .null | .bool _ | .outOfRange | .string _ | .unpaired _ | .unread _ _ => []

/-- The numbers that some items hold. -/
def numbersOfItems : List Node → List Number
  | [] => []
  | n :: ns => n.numbers ++ numbersOfItems ns

/-- The numbers that some members hold. -/
def numbersOfMembers : List (StringContent × Node) → List Number
  | [] => []
  | (_, n) :: ms => n.numbers ++ numbersOfMembers ms

end

/-- All numbers of the tree are exact. -/
def Node.Exact (node : Node) : Prop := ∀ k ∈ node.numbers, k.Exact

theorem mem_numbersOfItems {node : Node} {nodes : List Node} (h : node ∈ nodes)
    {k : Number} (hk : k ∈ node.numbers) : k ∈ numbersOfItems nodes := by
  induction nodes with
  | nil => exact absurd h List.not_mem_nil
  | cons first nodes ih =>
      rw [numbersOfItems, List.mem_append]
      rcases List.mem_cons.1 h with rfl | h
      · exact .inl hk
      · exact .inr (ih h)

theorem mem_numbersOfMembers {m : StringContent × Node}
    {members : List (StringContent × Node)} (h : m ∈ members) {k : Number}
    (hk : k ∈ m.2.numbers) : k ∈ numbersOfMembers members := by
  induction members with
  | nil => exact absurd h List.not_mem_nil
  | cons first members ih =>
      rw [numbersOfMembers, List.mem_append]
      rcases List.mem_cons.1 h with rfl | h
      · exact .inl hk
      · exact .inr (ih h)

theorem Node.Exact.item {items : List Node} {cut : Option Stop}
    (h : (Node.array items cut).Exact) {node : Node} (hnode : node ∈ items) :
    node.Exact :=
  fun k hk => h k (mem_numbersOfItems hnode hk)

theorem Node.Exact.member {members : List (StringContent × Node)}
    {cut : Option Stop} (h : (Node.object members cut).Exact)
    {m : StringContent × Node} (hm : m ∈ members) :
    m.2.Exact :=
  fun k hk => h k (mem_numbersOfMembers hm hk)

/-! ## Reading -/

theorem Numeral.exact_of_value? {n : Numeral} {k : Int}
    (h : n.value? = some (.whole k)) :
    (Number.whole k).Exact := by
  have hword : Nat.pow 2 63 ≤ wordMax := by decide
  obtain ⟨negative, digits, fraction, exponent⟩ := n
  show -((Nat.pow 2 63 : Nat) : Int) ≤ k ∧ k ≤ ((wordMax : Nat) : Int)
  cases negative with
  | true =>
      simp only [value?, if_true] at h
      split at h
      · next hrange =>
          obtain ⟨-, -, -, hhigh⟩ := hrange
          obtain rfl : -((digitsValue digits : Nat) : Int) = k := by
            simpa using h
          omega
      · simp at h
  | false =>
      simp only [value?, Bool.false_eq_true, if_false] at h
      split at h
      · next hrange =>
          obtain ⟨-, -, hhigh⟩ := hrange
          obtain rfl : ((digitsValue digits : Nat) : Int) = k := by
            simpa using h
          omega
      · simp at h

theorem numbers_wordNode {first : Char} {node : Node} {word rest : List Char}
    {n : Number} (h : n ∈ (wordNode first node word rest).1.numbers) :
    n ∈ node.numbers := by
  unfold wordNode at h
  split at h
  · exact h
  · simp [Node.numbers] at h

mutual

theorem exact_of_readValue (fuel : Nat) (cs : List Char) {k : Int}
    (h : .whole k ∈ (readValue fuel cs).1.numbers) :
    (Number.whole k).Exact := by
  match fuel with
  | 0 => simp [readValue, Node.numbers] at h
  | fuel + 1 =>
      rw [readValue] at h
      split at h
      · simp [Node.numbers] at h
      · simpa [Node.numbers] using numbers_wordNode h
      · simpa [Node.numbers] using numbers_wordNode h
      · simpa [Node.numbers] using numbers_wordNode h
      · split at h <;> simp [Node.numbers] at h
      · rw [Node.numbers] at h
        exact exact_of_readItems fuel _ _ h
      · rw [Node.numbers] at h
        exact exact_of_readMembers fuel _ _ h
      · split at h
        · split at h
          · next numeral _ _ =>
            cases hvalue : numeral.value? with
            | none => simp [hvalue, Node.numbers] at h
            | some n =>
                obtain rfl : .whole k = n := by
                  simpa [hvalue, Node.numbers] using h
                exact numeral.exact_of_value? hvalue
          · simp [Node.numbers] at h
        · simp [Node.numbers] at h
termination_by structural fuel

theorem exact_of_readItems (fuel : Nat) (first : Bool) (cs : List Char)
    {k : Int} (h : .whole k ∈ numbersOfItems (readItems fuel first cs).1) :
    (Number.whole k).Exact := by
  match fuel with
  | 0 => simp [readItems, numbersOfItems] at h
  | fuel + 1 =>
      rw [readItems.eq_def] at h
      dsimp only at h
      split at h
      · simp [numbersOfItems] at h
      · simp [numbersOfItems] at h
      · exact exact_of_readItem fuel _ h
      · split at h
        · simp [numbersOfItems] at h
        · exact exact_of_readItem fuel _ h
      · simp [numbersOfItems] at h
termination_by structural fuel

theorem exact_of_readItem (fuel : Nat) (cs : List Char) {k : Int}
    (h : .whole k ∈ numbersOfItems (readItem fuel cs).1) :
    (Number.whole k).Exact := by
  match fuel with
  | 0 => simp [readItem, numbersOfItems] at h
  | fuel + 1 =>
      rw [readItem] at h
      split at h
      · next hvalue =>
          rw [numbersOfItems, numbersOfItems, List.append_nil] at h
          exact exact_of_readValue fuel cs (by rw [hvalue]; exact h)
      · next hvalue =>
          rw [numbersOfItems] at h
          rcases List.mem_append.1 h with h | h
          · exact exact_of_readValue fuel cs (by rw [hvalue]; exact h)
          · exact exact_of_readItems fuel _ _ h
termination_by structural fuel

theorem exact_of_readMembers (fuel : Nat) (first : Bool) (cs : List Char)
    {k : Int} (h : .whole k ∈ numbersOfMembers (readMembers fuel first cs).1) :
    (Number.whole k).Exact := by
  match fuel with
  | 0 => simp [readMembers, numbersOfMembers] at h
  | fuel + 1 =>
      rw [readMembers.eq_def] at h
      dsimp only at h
      split at h
      · simp [numbersOfMembers] at h
      · simp [numbersOfMembers] at h
      · exact exact_of_readMember fuel _ h
      · simp [numbersOfMembers] at h
      · split at h
        · simp [numbersOfMembers] at h
        · exact exact_of_readMember fuel _ h
        · simp [numbersOfMembers] at h
        · simp [numbersOfMembers] at h
      · simp [numbersOfMembers] at h
termination_by structural fuel

theorem exact_of_readMember (fuel : Nat) (cs : List Char) {k : Int}
    (h : .whole k ∈ numbersOfMembers (readMember fuel cs).1) :
    (Number.whole k).Exact := by
  match fuel with
  | 0 => simp [readMember, numbersOfMembers] at h
  | fuel + 1 =>
      rw [readMember] at h
      split at h
      · simp [numbersOfMembers] at h
      · split at h
        · simp [numbersOfMembers, Node.numbers] at h
        · next text _ =>
          split at h
          · next hvalue =>
              rw [numbersOfMembers, numbersOfMembers, List.append_nil] at h
              exact exact_of_readValue fuel text (by rw [hvalue]; exact h)
          · next hvalue =>
              rw [numbersOfMembers] at h
              rcases List.mem_append.1 h with h | h
              · exact exact_of_readValue fuel text (by rw [hvalue]; exact h)
              · exact exact_of_readMembers fuel _ _ h
        · simp [numbersOfMembers, Node.numbers] at h
termination_by structural fuel

end

/-- The numbers of a text are exact if none of them is a double word. -/
theorem Reading.exact_root {text : List Char}
    (h : ∀ k ∈ (Reading.of text).root.numbers, k.isWhole = true) :
    (Reading.of text).root.Exact := by
  intro k hk
  cases k with
  | whole k => exact exact_of_readValue (2 * text.length + 2) text hk
  | real d => exact absurd (h _ hk) Bool.false_ne_true

end FlowAtlas.Json
