import FlowAtlas.Proofs.Json.Grammar
import FlowAtlas.Proofs.Json.Repeated

/-!
# Values as they are written

A `Layout` is a value with everything that its text has besides: the space
between the parts, the escapes of the strings, the digits of the numbers. A part
can be taken out of it and another one put in its place, and the text follows.

The reader and the layouts belong together. In front of anything that can follow
a value, a layout is read as a tree of its form (`readValue_layout`), and every
value that was read to its end has a layout (`exists_layout`). The tree is not
quite a function of the layout: where a string cannot be read, it holds the
spot, and with it what follows the string in the text. So `ReadAs` is a
relation, and it is a function only where all strings can be read
(`ReadAs.eq_of_holds`).
-/

namespace FlowAtlas.Json

/-! ## Layouts -/

/-- Space between two parts of a text. -/
abbrev Gap := { cs : List Char // Spaces cs }

/-- An item of a list, with the space in front of the comma before it and behind
that comma. -/
structure Item (α : Type) where
  front : Gap
  lead : Gap
  value : α

/-- A member of an object, with the same space as an item, and the space around
its colon. -/
structure Member (α : Type) where
  front : Gap
  lead : Gap
  key : List Stroke
  behind : Gap
  ahead : Gap
  value : α

/-- A value as it is written. The first item of a list has no comma before
it. -/
inductive Layout where
  | null
  | bool (b : Bool)
  | number (n : Figure)
  | string (ss : List Stroke)
  | array (items : List (Item Layout)) (close : Gap)
  | object (members : List (Member Layout)) (close : Gap)

/-- The comma before a part, which the first part does not have. -/
def comma (first : Bool) : List Char := if first then [] else [',']

mutual

/-- The text of a value. -/
def Layout.chars : Layout → List Char
  | .null => ['n', 'u', 'l', 'l']
  | .bool true => ['t', 'r', 'u', 'e']
  | .bool false => ['f', 'a', 'l', 's', 'e']
  | .number n => n.chars
  | .string ss => '"' :: (spell ss ++ ['"'])
  | .array items close => '[' :: itemsChars true close items
  | .object members close => '\x7b' :: membersChars true close members

/-- The text of some items and of the end of their list. -/
def itemsChars (first : Bool) (close : Gap) : List (Item Layout) → List Char
  | [] => close.1 ++ [']']
  | ⟨front, lead, value⟩ :: items =>
    front.1
      ++ (comma first
        ++ (lead.1 ++ (value.chars ++ itemsChars false close items)))

/-- The text of some members and of the end of their object. -/
def membersChars (first : Bool) (close : Gap) : List (Member Layout) → List Char
  | [] => close.1 ++ ['\x7d']
  | ⟨front, lead, key, behind, ahead, value⟩ :: members =>
    front.1
      ++ (comma first
        ++ (lead.1 ++ '"' :: (spell key ++ '"' :: (behind.1 ++ ':' ::
          (ahead.1 ++ (value.chars ++ membersChars false close members))))))

end

/-! ## What a layout is read as -/

mutual

/-- A tree that the text of a value may be read as. -/
inductive ReadAs : Layout → Node → Prop where
  | null : ReadAs .null .null
  | bool (b : Bool) : ReadAs (.bool b) (.bool b)
  | number {n : Figure} {k : Number} (h : n.numeral.value? = some k) :
      ReadAs (.number n) (.number k)
  | outOfRange {n : Figure} (h : n.numeral.value? = none) :
      ReadAs (.number n) .outOfRange
  | string {ss : List Stroke} {s : String} (h : text? ss = some s) :
      ReadAs (.string ss) (.string s)
  | unpaired {ss : List Stroke} (h : text? ss = none) (spot : Spot) :
      ReadAs (.string ss) (.unpaired spot)
  | array {items : List (Item Layout)} {close : Gap} {nodes : List Node}
      (h : ItemsReadAs items nodes) :
      ReadAs (.array items close) (.array nodes none)
  | object {members : List (Member Layout)} {close : Gap}
      {nodes : List (StringContent × Node)} (h : MembersReadAs members nodes) :
      ReadAs (.object members close) (.object nodes none)

/-- Trees that the items of a list may be read as. -/
inductive ItemsReadAs : List (Item Layout) → List Node → Prop where
  | nil : ItemsReadAs [] []
  | cons {item : Item Layout} {items : List (Item Layout)} {node : Node}
      {nodes : List Node} (h : ReadAs item.value node)
      (hs : ItemsReadAs items nodes) :
      ItemsReadAs (item :: items) (node :: nodes)

/-- Trees that the members of an object may be read as. -/
inductive MembersReadAs :
    List (Member Layout) → List (StringContent × Node) → Prop where
  | nil : MembersReadAs [] []
  | cons {m : Member Layout} {members : List (Member Layout)}
      {key : StringContent} {node : Node} {nodes : List (StringContent × Node)}
      (hkey : Says m.key key) (h : ReadAs m.value node)
      (hs : MembersReadAs members nodes) :
      MembersReadAs (m :: members) ((key, node) :: nodes)

end

/-! ## Reading a layout -/

theorem Layout.chars_eq_cons (l : Layout) :
    ∃ c cs, l.chars = c :: cs ∧ Opens c := by
  cases l with
  | number n =>
      obtain ⟨c, cs, hchars, hc⟩ := n.chars_eq_cons
      refine ⟨c, cs, by rw [Layout.chars, hchars], ?_⟩
      rcases hc with rfl | hc
      · exact ⟨by decide, by decide⟩
      · exact opens_of_isDigit hc
  | bool b => cases b
      <;> exact ⟨_, _, by rw [Layout.chars], by decide, by decide⟩
  | null | string ss | array items close | object members close =>
      exact ⟨_, _, by rw [Layout.chars], by decide, by decide⟩

theorem Layout.length_pos (l : Layout) : 0 < l.chars.length := by
  obtain ⟨c, cs, h, -⟩ := l.chars_eq_cons
  rw [h]
  exact Nat.succ_pos _

theorem length_itemsChars_pos (first : Bool) (close : Gap)
    (items : List (Item Layout)) :
    0 < (itemsChars first close items).length := by
  cases items with
  | nil => simp [itemsChars]
  | cons item items =>
      have hpos := item.value.length_pos
      simp only [itemsChars, List.length_append]
      omega

theorem ends_itemsChars (close : Gap) (items : List (Item Layout))
    (rest : List Char) :
    Ends (itemsChars false close items ++ rest) := by
  cases items with
  | nil =>
      rw [itemsChars, List.append_assoc]
      exact ends_spaces_append close.2 (ends_cons (by decide))
  | cons item items =>
      rw [itemsChars, List.append_assoc]
      exact ends_spaces_append item.front.2 (ends_cons (by decide))

theorem ends_membersChars (close : Gap) (members : List (Member Layout))
    (rest : List Char) :
    Ends (membersChars false close members ++ rest) := by
  cases members with
  | nil =>
      rw [membersChars, List.append_assoc]
      exact ends_spaces_append close.2 (ends_cons (by decide))
  | cons m members =>
      rw [membersChars, List.append_assoc]
      exact ends_spaces_append m.front.2 (ends_cons (by decide))

theorem Layout.skipSpace_append (l : Layout) (gap : Gap) (rest : List Char) :
    skipSpace (gap.1 ++ (l.chars ++ rest)) = l.chars ++ rest := by
  obtain ⟨c, cs, h, hc⟩ := l.chars_eq_cons
  rw [h]
  exact Json.skipSpace_append gap.2 hc.1

theorem Layout.skipSpace_chars (l : Layout) (rest : List Char) :
    skipSpace (l.chars ++ rest) = l.chars ++ rest :=
  l.skipSpace_append ⟨[], spaces_nil⟩ rest

theorem skipSpace_gap (gap : Gap) (cs : List Char) :
    skipSpace (gap.1 ++ cs) = skipSpace cs :=
  List.dropWhile_append_of_pos gap.2

theorem readItems_layout (first : Bool) (close : Gap) (item : Item Layout)
    (items : List (Item Layout)) (fuel : Nat) (rest : List Char) :
    readItems (fuel + 1) first (itemsChars first close (item :: items) ++ rest)
      = readItem fuel (item.value.chars
        ++ (itemsChars false close items ++ rest)) := by
  obtain ⟨front, lead, value⟩ := item
  have hvalue := value.skipSpace_chars (itemsChars false close items ++ rest)
  obtain ⟨c, cs, hchars, -, hc⟩ := value.chars_eq_cons
  rw [hchars, List.cons_append] at hvalue
  rw [readItems.eq_def]
  cases first with
  | true =>
      simp only [itemsChars, comma, if_true, List.nil_append, List.append_assoc,
        skipSpace_gap, hchars, List.cons_append, hvalue]
      split
      all_goals simp_all
  | false =>
      simp only [itemsChars, comma, Bool.false_eq_true, if_false,
        List.append_assoc, List.cons_append, List.nil_append, skipSpace_gap,
        skipSpace_cons (show isSpace ',' = false by decide), hchars,
        hvalue]
      split
      all_goals simp_all

theorem readMembers_layout (first : Bool) (close : Gap) (m : Member Layout)
    (members : List (Member Layout)) (fuel : Nat) (rest : List Char) :
    readMembers (fuel + 1) first
        (membersChars first close (m :: members) ++ rest)
      = readMember fuel (spell m.key ++ '"' :: (m.behind.1 ++ ':' ::
          (m.ahead.1
            ++ (m.value.chars
              ++ (membersChars false close members ++ rest))))) := by
  obtain ⟨front, lead, key, behind, ahead, value⟩ := m
  have hquote : ∀ cs, skipSpace (lead.1 ++ '"' :: cs) = '"' :: cs := fun cs =>
    skipSpace_append lead.2 (by decide)
  rw [readMembers.eq_def]
  cases first with
  | true =>
      simp only [membersChars, comma, if_true, List.nil_append,
        List.append_assoc, List.cons_append, skipSpace_gap, hquote]
  | false =>
      simp only [membersChars, comma, Bool.false_eq_true, if_false,
        List.append_assoc, List.cons_append, List.nil_append, skipSpace_gap,
        skipSpace_cons (show isSpace ',' = false by decide), hquote]

theorem readAs_number (n : Figure) :
    ReadAs (.number n) (n.numeral.value?.elim .outOfRange .number) := by
  cases hvalue : n.numeral.value? with
  | none => exact .outOfRange hvalue
  | some k => exact .number hvalue

theorem readValue_number_layout (n : Figure) {fuel : Nat}
    {text rest : List Char} (hrest : Ends rest)
    (htext : skipSpace text = n.chars ++ rest) :
    ∃ node, readValue (fuel + 1) text = (node, .ok rest)
      ∧ ReadAs (.number n) node := by
  have hread := read_figure n hrest
  obtain ⟨c, cs, hchars, hc⟩ := n.chars_eq_cons
  rw [hchars, List.cons_append] at htext hread
  exact ⟨_, readValue_numeral hc htext hread, readAs_number n⟩

theorem readValue_string_layout (ss : List Stroke) {fuel : Nat}
    {text rest : List Char}
    (htext : skipSpace text = (Layout.string ss).chars ++ rest) :
    ∃ node, readValue (fuel + 1) text = (node, .ok rest)
      ∧ ReadAs (.string ss) node := by
  obtain ⟨content, hread, hsays⟩ := readString_spell ss rest
  rw [Layout.chars, List.cons_append, List.append_assoc,
    List.singleton_append] at htext
  rw [readValue, htext]
  simp only [hread]
  cases content with
  | ok s => exact ⟨_, rfl, .string hsays.symm⟩
  | error spot => exact ⟨_, rfl, .unpaired hsays.symm spot⟩

mutual

/-- A layout is read as a tree of its own, whatever space stands in front of
it. -/
theorem readValue_layout (l : Layout) {text rest : List Char} (fuel : Nat)
    (hrest : Ends rest) (hfuel : 2 * l.chars.length ≤ fuel)
    (htext : skipSpace text = l.chars ++ rest) :
    ∃ node, readValue fuel text = (node, .ok rest) ∧ ReadAs l node := by
  have hpos := l.length_pos
  -- A part of a list costs two steps of fuel, one to come to it and one to read
  -- it.
  obtain ⟨fuel, rfl⟩ : ∃ n, fuel = n + 2 := ⟨fuel - 2, by omega⟩
  match l with
  | .null =>
      rw [Layout.chars] at htext
      exact ⟨_, readValue_word (by simp) htext, .null⟩
  | .bool true =>
      rw [Layout.chars] at htext
      exact ⟨_, readValue_word (by simp) htext, .bool true⟩
  | .bool false =>
      rw [Layout.chars] at htext
      exact ⟨_, readValue_word (by simp) htext, .bool false⟩
  | .number n =>
      rw [Layout.chars] at htext
      exact readValue_number_layout n hrest htext
  | .string ss => exact readValue_string_layout ss htext
  | .array items close =>
      rw [Layout.chars] at hfuel htext
      rw [List.length_cons] at hfuel
      obtain ⟨nodes, hread, hnodes⟩ :=
        readItems_layouts true close items (fuel + 1) rest
          (by omega)
      exact ⟨_, readValue_array htext hread, .array hnodes⟩
  | .object members close =>
      rw [Layout.chars] at hfuel htext
      rw [List.length_cons] at hfuel
      obtain ⟨nodes, hread, hnodes⟩ :=
        readMembers_layouts true close members (fuel + 1) rest
          (by omega)
      exact ⟨_, readValue_object htext hread, .object hnodes⟩
termination_by structural l

/-- The items of a layout are read up to the bracket. -/
theorem readItems_layouts (first : Bool) (close : Gap)
    (items : List (Item Layout)) (fuel : Nat) (rest : List Char)
    (hfuel : 2 * (itemsChars first close items).length ≤ fuel) :
    ∃ nodes, readItems fuel first (itemsChars first close items ++ rest)
        = (nodes, .ok rest)
      ∧ ItemsReadAs items nodes := by
  have hpos := length_itemsChars_pos first close items
  obtain ⟨fuel, rfl⟩ : ∃ n, fuel = n + 2 := ⟨fuel - 2, by omega⟩
  match items with
  | [] =>
      rw [itemsChars, List.append_assoc]
      exact ⟨[], readItems_end close.2 _ first rest, .nil⟩
  | ⟨front, lead, value⟩ :: items =>
      have hvaluepos := value.length_pos
      have hmorepos := length_itemsChars_pos false close items
      simp only [itemsChars, List.length_append] at hfuel
      obtain ⟨node, hvalue, hnode⟩ := readValue_layout value fuel
        (ends_itemsChars close items rest) (by omega) (value.skipSpace_chars _)
      obtain ⟨nodes, hitems, hnodes⟩ :=
        readItems_layouts false close items fuel rest (by omega)
      refine ⟨node :: nodes, ?_, .cons hnode hnodes⟩
      rw [readItems_layout, readItem_eq hvalue, hitems]
termination_by structural items

/-- The members of a layout are read up to the brace. -/
theorem readMembers_layouts (first : Bool) (close : Gap)
    (members : List (Member Layout)) (fuel : Nat) (rest : List Char)
    (hfuel : 2 * (membersChars first close members).length ≤ fuel) :
    ∃ nodes, readMembers fuel first (membersChars first close members ++ rest)
        = (nodes, .ok rest)
      ∧ MembersReadAs members nodes := by
  match members with
  | [] =>
      obtain ⟨fuel, rfl⟩ : ∃ n, fuel = n + 1 :=
        ⟨fuel - 1, by simp [membersChars] at hfuel; omega⟩
      rw [membersChars, List.append_assoc]
      exact ⟨[], readMembers_end close.2 _ first rest, .nil⟩
  | ⟨front, lead, key, behind, ahead, value⟩ :: members =>
      have hvaluepos := value.length_pos
      simp only [membersChars, List.length_append, List.length_cons] at hfuel
      obtain ⟨fuel, rfl⟩ : ∃ n, fuel = n + 2 := ⟨fuel - 2, by omega⟩
      obtain ⟨content, hkey, hsays⟩ := readString_spell key (behind.1 ++ ':' ::
          (ahead.1
            ++ (value.chars ++ (membersChars false close members ++ rest))))
      obtain ⟨node, hvalue, hnode⟩ := readValue_layout value fuel
        (ends_membersChars close members rest) (by omega)
        (value.skipSpace_append ahead _)
      obtain ⟨nodes, hmembers, hnodes⟩ :=
        readMembers_layouts false close members fuel rest
          (by omega)
      refine ⟨(content, node) :: nodes, ?_, .cons hsays hnode hnodes⟩
      rw [readMembers_layout, readMember, hkey]
      simp only [skipSpace_append behind.2 (show isSpace ':' = false by decide),
        hvalue, hmembers]
termination_by structural members

end

/-! ## The layout of what was read -/

theorem exists_gap (cs : List Char) : ∃ gap : Gap, cs = gap.1 ++ skipSpace cs :=
  ⟨⟨cs.takeWhile isSpace, fun _ hc => List.mem_takeWhile_imp hc⟩,
    List.takeWhile_append_dropWhile.symm⟩

theorem of_readWord {word cs rest : List Char}
    (h : readWord word cs = .ok rest) :
    cs = word ++ rest := by
  induction word generalizing cs with
  | nil => exact Except.ok.inj h
  | cons w word ih =>
      cases cs with
      | nil => cases h
      | cons c cs =>
          rw [readWord] at h
          split at h
          · next heq => rw [List.cons_append, heq, ih h]
          · cases h

theorem of_wordNode {first : Char} {node node' : Node}
    {word cs rest : List Char}
    (h : wordNode first node word cs = (node', .ok rest)) :
    node' = node ∧ cs = word ++ rest := by
  rw [wordNode] at h
  split at h
  · next hword =>
      obtain ⟨rfl, hrest⟩ := Prod.mk.inj h
      obtain rfl := Except.ok.inj hrest
      exact ⟨rfl, of_readWord hword⟩
  · cases (Prod.mk.inj h).2

/-- One space behind another. -/
def Gap.append (a b : Gap) : Gap :=
  ⟨a.1 ++ b.1, fun c hc => (List.mem_append.1 hc).elim (a.2 c) (b.2 c)⟩

theorem exists_layout_string {text rest : List Char} {content : StringContent}
    (h : readString text = .ok (content, rest)) :
    ∃ ss : List Stroke, '"' :: text = (Layout.string ss).chars ++ rest
      ∧ Says ss content := by
  obtain ⟨ss, rfl, hsays⟩ := exists_says h
  exact ⟨ss, by simp [Layout.chars], hsays⟩

theorem exists_layout_number {text rest : List Char} {numeral : Numeral}
    (h : Numeral.read text = .ok (numeral, rest)) :
    ∃ l : Layout, text = l.chars ++ rest
      ∧ ReadAs l (numeral.value?.elim .outOfRange .number) := by
  obtain ⟨n, hchars, rfl⟩ := exists_figure h
  exact ⟨.number n, by rw [hchars, Layout.chars], readAs_number n⟩

/-- A text is some space and a layout that is read as a tree, in front of the
rest. -/
def Lays (rest cs : List Char) (node : Node) : Prop :=
  ∃ (gap : Gap) (l : Layout), cs = gap.1 ++ (l.chars ++ rest) ∧ ReadAs l node

mutual

/-- Every value that was read to its end has a layout. -/
theorem lays_of_readValue (fuel : Nat) {cs rest : List Char} {node : Node}
    (h : readValue fuel cs = (node, .ok rest)) : Lays rest cs node := by
  match fuel with
  | 0 => exact nomatch (Prod.mk.inj h).2
  | fuel + 1 =>
      obtain ⟨gap, hgap⟩ := exists_gap cs
      suffices hlayout :
          ∃ l : Layout, skipSpace cs = l.chars ++ rest ∧ ReadAs l node by
            obtain ⟨l, hl, hread⟩ := hlayout
            exact ⟨gap, l, hl ▸ hgap, hread⟩
      rw [readValue] at h
      split at h
      · exact nomatch (Prod.mk.inj h).2
      · next hcs =>
          obtain ⟨rfl, rfl⟩ := of_wordNode h
          exact ⟨.null, hcs, .null⟩
      · next hcs =>
          obtain ⟨rfl, rfl⟩ := of_wordNode h
          exact ⟨.bool true, hcs, .bool true⟩
      · next hcs =>
          obtain ⟨rfl, rfl⟩ := of_wordNode h
          exact ⟨.bool false, hcs, .bool false⟩
      · next hcs =>
          split at h
          · next hstring =>
              obtain ⟨rfl, hrest⟩ := Prod.mk.inj h
              obtain rfl := Except.ok.inj hrest
              obtain ⟨ss, htext, hsays⟩ := exists_layout_string hstring
              exact ⟨.string ss, hcs.trans htext, .string hsays.symm⟩
          · next spot _ hstring =>
              obtain ⟨rfl, hrest⟩ := Prod.mk.inj h
              obtain rfl := Except.ok.inj hrest
              obtain ⟨ss, htext, hsays⟩ := exists_layout_string hstring
              exact ⟨.string ss, hcs.trans htext, .unpaired hsays.symm spot⟩
          · exact nomatch (Prod.mk.inj h).2
      · next text hcs =>
          cases hitems : readItems fuel true text with
          | mk nodes result =>
              rw [hitems] at h
              obtain ⟨rfl, rfl⟩ := Prod.mk.inj h
              obtain ⟨items, close, rfl, hread⟩ := lays_of_readItems fuel hitems
              exact ⟨.array items close, by rw [hcs, Layout.chars]; rfl,
                .array hread⟩
      · next text hcs =>
          cases hmembers : readMembers fuel true text with
          | mk nodes result =>
              rw [hmembers] at h
              obtain ⟨rfl, rfl⟩ := Prod.mk.inj h
              obtain ⟨members, close, rfl, hread⟩ :=
                lays_of_readMembers fuel hmembers
              exact ⟨.object members close, by rw [hcs, Layout.chars]; rfl,
                .object hread⟩
      · next c text hcs =>
          split at h
          · split at h
            · next numeral rest' hnumeral =>
                obtain ⟨rfl, hrest⟩ := Prod.mk.inj h
                obtain rfl := Except.ok.inj hrest
                obtain ⟨l, htext, hl⟩ := exists_layout_number hnumeral
                exact ⟨l, hcs.trans htext, hl⟩
            · exact nomatch (Prod.mk.inj h).2
          · exact nomatch (Prod.mk.inj h).2
termination_by structural fuel

theorem lays_of_readItems (fuel : Nat) {first : Bool} {cs rest : List Char}
    {nodes : List Node} (h : readItems fuel first cs = (nodes, .ok rest)) :
    ∃ items close, cs = itemsChars first close items ++ rest
      ∧ ItemsReadAs items nodes := by
  match fuel with
  | 0 => exact nomatch (Prod.mk.inj h).2
  | fuel + 1 =>
      obtain ⟨gap, hgap⟩ := exists_gap cs
      rw [readItems.eq_def] at h
      dsimp only at h
      split at h
      · exact nomatch (Prod.mk.inj h).2
      · next hcs =>
          obtain ⟨rfl, hrest⟩ := Prod.mk.inj h
          obtain rfl := Except.ok.inj hrest
          exact ⟨[], gap, hgap.trans (by rw [hcs]; simp [itemsChars]), .nil⟩
      · obtain ⟨lead, value, items, close, htext, hread⟩ :=
          lays_of_readItem fuel h
        refine ⟨⟨gap, lead, value⟩ :: items, close,
          hgap.trans ?_, hread gap lead⟩
        rw [htext]
        simp [itemsChars, comma]
      · next text hcs =>
          obtain ⟨gap', hgap'⟩ := exists_gap text
          split at h
          · exact nomatch (Prod.mk.inj h).2
          · obtain ⟨lead, value, items, close, htext, hread⟩ :=
              lays_of_readItem fuel h
            refine ⟨⟨gap, gap'.append lead, value⟩ :: items, close,
              hgap.trans ?_, hread _ _⟩
            rw [hcs, hgap', htext]
            simp [itemsChars, comma, Gap.append]
      · exact nomatch (Prod.mk.inj h).2
termination_by structural fuel

theorem lays_of_readItem (fuel : Nat) {cs rest : List Char} {nodes : List Node}
    (h : readItem fuel cs = (nodes, .ok rest)) :
    ∃ (lead : Gap) (value : Layout) (items : List (Item Layout)) (close : Gap),
      cs = lead.1 ++ (value.chars ++ (itemsChars false close items ++ rest))
        ∧ ∀ front lead, ItemsReadAs (⟨front, lead, value⟩ :: items) nodes := by
  match fuel with
  | 0 => exact nomatch (Prod.mk.inj h).2
  | fuel + 1 =>
      rw [readItem] at h
      split at h
      · exact nomatch (Prod.mk.inj h).2
      · next node text hvalue =>
          cases hitems : readItems fuel false text with
          | mk more result =>
              rw [hitems] at h
              obtain ⟨rfl, rfl⟩ := Prod.mk.inj h
              obtain ⟨lead, value, rfl, hnode⟩ := lays_of_readValue fuel hvalue
              obtain ⟨items, close, rfl, hread⟩ := lays_of_readItems fuel hitems
              exact ⟨lead, value, items, close, rfl,
                fun _ _ => .cons hnode hread⟩
termination_by structural fuel

theorem lays_of_readMembers (fuel : Nat) {first : Bool} {cs rest : List Char}
    {nodes : List (StringContent × Node)}
    (h : readMembers fuel first cs = (nodes, .ok rest)) :
    ∃ members close, cs = membersChars first close members ++ rest
      ∧ MembersReadAs members nodes := by
  match fuel with
  | 0 => exact nomatch (Prod.mk.inj h).2
  | fuel + 1 =>
      obtain ⟨gap, hgap⟩ := exists_gap cs
      rw [readMembers.eq_def] at h
      dsimp only at h
      split at h
      · exact nomatch (Prod.mk.inj h).2
      · next hcs =>
          obtain ⟨rfl, hrest⟩ := Prod.mk.inj h
          obtain rfl := Except.ok.inj hrest
          exact ⟨[], gap, hgap.trans (by rw [hcs]; simp [membersChars]), .nil⟩
      · next hcs =>
          obtain ⟨key, behind, ahead, value, members, close, rfl, hread⟩ :=
            lays_of_readMember fuel h
          refine ⟨⟨gap, ⟨[], spaces_nil⟩, key, behind, ahead, value⟩ :: members,
            close, hgap.trans ?_, hread _ _⟩
          rw [hcs]
          simp [membersChars, comma]
      · exact nomatch (Prod.mk.inj h).2
      · next text hcs =>
          obtain ⟨lead, hlead⟩ := exists_gap text
          split at h
          · exact nomatch (Prod.mk.inj h).2
          · next hquote =>
              obtain ⟨key, behind, ahead, value, members, close, rfl, hread⟩ :=
                lays_of_readMember fuel h
              refine ⟨⟨gap, lead, key, behind, ahead, value⟩ :: members, close,
                hgap.trans ?_, hread _ _⟩
              rw [hcs, hlead, hquote]
              simp [membersChars, comma]
          · exact nomatch (Prod.mk.inj h).2
          · exact nomatch (Prod.mk.inj h).2
      · exact nomatch (Prod.mk.inj h).2
termination_by structural fuel

theorem lays_of_readMember (fuel : Nat) {cs rest : List Char}
    {nodes : List (StringContent × Node)}
    (h : readMember fuel cs = (nodes, .ok rest)) :
    ∃ (key : List Stroke) (behind ahead : Gap) (value : Layout)
    (members : List (Member Layout))
        (close : Gap),
      cs = spell key ++ '"' :: (behind.1 ++ ':' ::
          (ahead.1
            ++ (value.chars ++ (membersChars false close members ++ rest))))
        ∧ ∀ front lead,
            MembersReadAs (⟨front, lead, key, behind, ahead, value⟩ :: members)
              nodes := by
  match fuel with
  | 0 => exact nomatch (Prod.mk.inj h).2
  | fuel + 1 =>
      rw [readMember] at h
      split at h
      · exact nomatch (Prod.mk.inj h).2
      · next content text hkey =>
          obtain ⟨key, rfl, hsays⟩ := exists_says hkey
          obtain ⟨behind, hbehind⟩ := exists_gap text
          split at h
          · exact nomatch (Prod.mk.inj h).2
          · next text' hcolon =>
              split at h
              · exact nomatch (Prod.mk.inj h).2
              · next node more hvalue =>
                  cases hmembers : readMembers fuel false more with
                  | mk others result =>
                      rw [hmembers] at h
                      obtain ⟨rfl, rfl⟩ := Prod.mk.inj h
                      obtain ⟨ahead, value, rfl, hnode⟩ :=
                        lays_of_readValue fuel hvalue
                      obtain ⟨members, close, rfl, hread⟩ :=
                        lays_of_readMembers fuel hmembers
                      refine ⟨key, behind, ahead, value, members, close, ?_,
                        fun _ _ => .cons hsays hnode hread⟩
                      rw [← hcolon, ← hbehind]
          · exact nomatch (Prod.mk.inj h).2
termination_by structural fuel

end

/-! ## Whole texts -/

/-- A text with one value, and the space around it. -/
structure Sheet where
  lead : Gap
  value : Layout
  trail : Gap

/-- The text itself. -/
def Sheet.text (s : Sheet) : String :=
  String.ofList (s.lead.1 ++ (s.value.chars ++ s.trail.1))

/-- A decoder that is given a text meets a tree of its layout. -/
theorem Sheet.decodeText_eq (s : Sheet) :
    ∃ node, ReadAs s.value node
      ∧ ∀ {α : Type} (decode : Source → Node → Decoded α),
      decodeText decode s.text = decode .wholeText node := by
  have htext : s.text.toList = s.lead.1 ++ (s.value.chars ++ s.trail.1) :=
    String.toList_ofList
  have htrail : Ends (s.trail.1 ++ []) :=
    ends_spaces_append s.trail.2 fun _ h => nomatch h
  rw [List.append_nil] at htrail
  obtain ⟨node, hread, hnode⟩ :=
    readValue_layout s.value (2 * s.text.toList.length + 2) htrail
      (by rw [htext]; simp only [List.length_append]; omega)
      (s.value.skipSpace_append s.lead s.trail.1)
  rw [← htext] at hread
  refine ⟨node, hnode, fun decode => ?_⟩
  have hempty : skipSpace s.trail.1 = [] :=
    List.dropWhile_eq_nil_iff.2 s.trail.2
  rw [decodeText, Reading.of, hread]
  dsimp only
  rw [hempty]
  cases decode .wholeText node with
  | error refusal => rfl
  | ok a => rfl

/-- Every text that was decoded has a layout. -/
theorem exists_sheet {α : Type} {decode : Source → Node → Decoded α}
    {text : String} {a : α} (h : decodeText decode text = .ok a) :
    ∃ s : Sheet, s.text = text := by
  cases hread : readValue (2 * text.toList.length + 2) text.toList with
  | mk node result =>
      rw [decodeText, Reading.of, hread] at h
      obtain ⟨b, -, h⟩ := bind_eq_ok h
      dsimp only at h
      cases result with
      | error stop => cases h
      | ok rest =>
          dsimp only at h
          split at h
          · next hrest =>
              obtain ⟨lead, value, htext, -⟩ := lays_of_readValue _ hread
              refine ⟨⟨lead, value, rest, List.dropWhile_eq_nil_iff.1 hrest⟩,
                ?_⟩
              rw [Sheet.text, ← htext, String.ofList_toList]
          · cases h

/-! ## Trees of one layout -/

mutual

/-- A layout that is read as a value is read as one tree only. -/
theorem ReadAs.eq_of_holds {l : Layout} {node node' : Node} {v : Json}
    (h : ReadAs l node) (h' : ReadAs l node') (hv : node.Holds v) :
    node' = node := by
  match h with
  | .null => cases h'; rfl
  | .bool b => cases h'; rfl
  | .number hk =>
      cases h' with
      | number hk' => rw [Option.some.inj (hk.symm.trans hk')]
      | outOfRange hk' => exact nomatch hk.symm.trans hk'
  | .outOfRange _ => exact nomatch hv
  | .string hs =>
      cases h' with
      | string hs' => rw [Option.some.inj (hs.symm.trans hs')]
      | unpaired hs' => exact nomatch hs.symm.trans hs'
  | .unpaired _ _ => exact nomatch hv
  | .array hitems =>
      cases h' with
      | array hitems' =>
          obtain ⟨-, vs, hvs, -⟩ := holds_array_iff.1 hv
          rw [hitems.eq_of_holds hitems' hvs]
  | .object hmembers =>
      cases h' with
      | object hmembers' =>
          obtain ⟨-, ms, vs, hnamed, hvs, -⟩ := holds_object_iff.1 hv
          rw [hmembers.eq_of_holds hmembers' hnamed hvs]

theorem ItemsReadAs.eq_of_holds {items : List (Item Layout)}
    {nodes nodes' : List Node} {vs : List Json} (h : ItemsReadAs items nodes)
    (h' : ItemsReadAs items nodes') (hv : List.Forall₂ Node.Holds nodes vs) :
    nodes' = nodes := by
  match h with
  | .nil => cases h'; rfl
  | .cons hnode hnodes =>
      cases h' with
      | cons hnode' hnodes' =>
          cases hv with
          | cons hv hvs =>
              rw [hnode.eq_of_holds hnode' hv, hnodes.eq_of_holds hnodes' hvs]

theorem MembersReadAs.eq_of_holds {members : List (Member Layout)}
    {nodes nodes' : List (StringContent × Node)} {ms : List (String × Node)}
    {vs : List (String × Json)} (h : MembersReadAs members nodes)
    (h' : MembersReadAs members nodes') (hnamed : nodes = named ms)
    (hv : NamedValues ms vs) :
    nodes' = nodes := by
  match h with
  | .nil => cases h'; rfl
  | .cons hkey hnode hnodes =>
      cases h' with
      | cons hkey' hnode' hnodes' =>
          cases hv with
          | nil => exact nomatch hnamed
          | cons hv hvs =>
              obtain ⟨heq, htail⟩ := List.cons.inj hnamed
              obtain ⟨rfl, rfl⟩ := Prod.mk.inj heq
              rw [hkey.eq_ok hkey', hnode.eq_of_holds hnode' hv.2,
                hnodes.eq_of_holds hnodes' htail hvs]

end

/-! ## Values that can be passed over, and values that can be held -/

mutual

/-- A value that was read to its end can be passed over. -/
theorem ReadAs.skipFault?_eq {l : Layout} {node : Node} (h : ReadAs l node) :
    skipFault? node = none := by
  match h with
  | .null | .bool _ | .number _ | .outOfRange _ | .string
      _ | .unpaired _ _ => rfl
  | .array hitems => rw [skipFault?, hitems.skipItems?_eq]; rfl
  | .object hmembers => rw [skipFault?, hmembers.skipMembers?_eq]; rfl

theorem ItemsReadAs.skipItems?_eq {items : List (Item Layout)}
    {nodes : List Node} (h : ItemsReadAs items nodes) :
    skipItems? nodes = none := by
  match h with
  | .nil => rfl
  | .cons hnode hnodes =>
    rw [skipItems?, hnode.skipFault?_eq, hnodes.skipItems?_eq]; rfl

theorem MembersReadAs.skipMembers?_eq {members : List (Member Layout)}
    {nodes : List (StringContent × Node)} (h : MembersReadAs members nodes) :
    skipMembers? nodes = none := by
  match h with
  | .nil => rfl
  | .cons _ hnode hnodes =>
    rw [skipMembers?, hnode.skipFault?_eq, hnodes.skipMembers?_eq]; rfl

end

/-- A value of at most so many levels of lists and objects, all of whose numbers
can be held. -/
inductive Layout.Fits : Nat → Layout → Prop where
  | null {n : Nat} : Fits n .null
  | bool {n : Nat} (b : Bool) : Fits n (.bool b)
  | number {n : Nat} {k : Figure} (h : k.numeral.value? ≠ none) :
      Fits n (.number k)
  | string {n : Nat} (ss : List Stroke) : Fits n (.string ss)
  | array {n : Nat} {items : List (Item Layout)} {close : Gap}
      (h : ∀ item ∈ items, Fits n item.value) :
      Fits (n + 1) (.array items close)
  | object {n : Nat} {members : List (Member Layout)} {close : Gap}
      (h : ∀ m ∈ members, Fits n m.value) : Fits (n + 1) (.object members close)

/-- A value in whose strings and keys every code unit that needs a partner has
one. -/
inductive Layout.Paired : Layout → Prop where
  | null : Paired .null
  | bool (b : Bool) : Paired (.bool b)
  | number (k : Figure) : Paired (.number k)
  | string {ss : List Stroke} (h : text? ss ≠ none) : Paired (.string ss)
  | array {items : List (Item Layout)} {close : Gap}
      (h : ∀ item ∈ items, Paired item.value) :
      Paired (.array items close)
  | object {members : List (Member Layout)} {close : Gap}
      (hkeys : ∀ m ∈ members, text? m.key ≠ none)
      (h : ∀ m ∈ members, Paired m.value) :
      Paired (.object members close)

mutual

/-- Such a value can be read as a value of any kind. -/
theorem ReadAs.decodeAny_eq_ok {l : Layout} {node : Node} (h : ReadAs l node)
    {n : Nat} (hfits : l.Fits n) (hpaired : l.Paired) {source : Source}
    (hs : source.Admits n) :
    ∃ v, decodeAny source node = .ok v := by
  match h with
  | .null => exact ⟨_, rfl⟩
  | .bool b => exact ⟨_, rfl⟩
  | .number _ => exact ⟨_, rfl⟩
  | .outOfRange hk =>
      cases hfits with
      | number hne => exact absurd hk hne
  | .string _ => exact ⟨_, rfl⟩
  | .unpaired hs _ =>
      cases hpaired with
      | string hne => exact absurd hs hne
  | .array hitems =>
      cases hfits with
      | array hfits =>
          cases hpaired with
          | array hpaired =>
              obtain ⟨inner, henter, hinner⟩ := hs.enter
              obtain ⟨vs, hvs⟩ :=
                hitems.decodeAnyItems_eq_ok hfits hpaired hinner 0
              refine ⟨.array vs, ?_⟩
              rw [decodeAny, henter, ok_bind, hvs]
              rfl
  | .object hmembers =>
      cases hfits with
      | object hfits =>
          cases hpaired with
          | object hkeys hpaired =>
              obtain ⟨inner, henter, hinner⟩ := hs.enter
              obtain ⟨vs, hvs⟩ :=
                hmembers.decodeAnyMembers_eq_ok hfits hkeys hpaired hinner 0
              refine ⟨.object (sortMembers vs), ?_⟩
              rw [decodeAny, henter, ok_bind, hvs]
              rfl

theorem ItemsReadAs.decodeAnyItems_eq_ok {items : List (Item Layout)}
    {nodes : List Node} (h : ItemsReadAs items nodes) {n : Nat}
    (hfits : ∀ item ∈ items, item.value.Fits n)
    (hpaired : ∀ item ∈ items, item.value.Paired) {source : Source}
    (hs : source.Admits n) (index : Nat) :
    ∃ vs, decodeAnyItems source index nodes = .ok vs := by
  match h with
  | .nil => exact ⟨[], rfl⟩
  | .cons hnode hnodes =>
      obtain ⟨hfit, hfits⟩ := List.forall_mem_cons.1 hfits
      obtain ⟨hpair, hpaired⟩ := List.forall_mem_cons.1 hpaired
      obtain ⟨v, hv⟩ := hnode.decodeAny_eq_ok hfit hpair hs
      obtain ⟨vs, hvs⟩ :=
        hnodes.decodeAnyItems_eq_ok hfits hpaired hs (index + 1)
      refine ⟨v :: vs, ?_⟩
      rw [decodeAnyItems, hv, hvs]
      rfl

theorem MembersReadAs.decodeAnyMembers_eq_ok {members : List (Member Layout)}
    {nodes : List (StringContent × Node)} (h : MembersReadAs members nodes)
    {n : Nat} (hfits : ∀ m ∈ members, m.value.Fits n)
    (hkeys : ∀ m ∈ members, text? m.key ≠ none)
    (hpaired : ∀ m ∈ members, m.value.Paired) {source : Source}
    (hs : source.Admits n) (index : Nat) :
    ∃ vs, decodeAnyMembers source index nodes = .ok vs := by
  match h with
  | .nil => exact ⟨[], rfl⟩
  | .cons hkey hnode hnodes =>
      obtain ⟨hfit, hfits⟩ := List.forall_mem_cons.1 hfits
      obtain ⟨htext, hkeys⟩ := List.forall_mem_cons.1 hkeys
      obtain ⟨hpair, hpaired⟩ := List.forall_mem_cons.1 hpaired
      obtain ⟨s, hs'⟩ := Option.ne_none_iff_exists'.1 htext
      obtain rfl := hkey.eq_ok_of_text? hs'
      obtain ⟨v, hv⟩ := hnode.decodeAny_eq_ok hfit hpair hs
      obtain ⟨vs, hvs⟩ :=
        hnodes.decodeAnyMembers_eq_ok hfits hkeys hpaired hs (index + 1)
      refine ⟨(s, v) :: vs, ?_⟩
      rw [decodeAnyMembers, decodeKey, ok_bind, hv, hvs]
      rfl

end

end FlowAtlas.Json
