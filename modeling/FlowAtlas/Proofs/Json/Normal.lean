import FlowAtlas.Proofs.Json.Decoding
import FlowAtlas.Proofs.Json.Numbers
import FlowAtlas.Text.Ascending

/-!
# Values that are read as themselves

A value that is read as a value of any kind need not come out as it went in: of
several members with one key the last one counts, and the members are put in
order. What comes out has its members in order already, each key once, and is
read as itself from then on (`Normal`). It has no more levels than the text had
left to enter, so there is room for it wherever there was room for what it was
read from.

The other half of the module goes from a decoder that has succeeded to its
parts: each item of a list was decoded from an item of the tree, and whatever
holds of a blank record and is kept by every field holds of the record.
-/

namespace FlowAtlas.Json

variable {α β : Type}

/-! ## Decoders that have succeeded -/

theorem bind_eq_ok {r : Decoded α} {f : α → Decoded β} {b : β}
    (h : (r >>= f) = .ok b) : ∃ a, r = .ok a ∧ f a = .ok b := by
  cases r with
  | error refusal => cases h
  | ok a => exact ⟨a, rfl, h⟩

theorem map_eq_ok {r : Decoded α} {f : α → β} {b : β} (h : r.map f = .ok b) :
    ∃ a, r = .ok a ∧ f a = b := by
  cases r with
  | error refusal => cases h
  | ok a => exact ⟨a, rfl, Except.ok.inj h⟩

theorem of_under_eq_ok {index : Nat} {r : Decoded α} {a : α}
    (h : under index r = .ok a) : r = .ok a := by
  cases r with
  | error refusal => cases h
  | ok b => exact h

theorem exists_of_decodeItems {decode : Node → Decoded α} {index : Nat}
    {nodes : List Node} {as : List α}
    (h : decodeItems decode index nodes = .ok as) :
    ∀ a ∈ as, ∃ node ∈ nodes, decode node = .ok a := by
  induction nodes generalizing index as with
  | nil =>
      cases h
      exact fun a ha => absurd ha List.not_mem_nil
  | cons node nodes ih =>
      obtain ⟨b, hb, h⟩ := bind_eq_ok h
      obtain ⟨bs, hbs, h⟩ := bind_eq_ok h
      cases h
      intro a ha
      rcases List.mem_cons.1 ha with rfl | ha
      · exact ⟨node, List.mem_cons_self, of_under_eq_ok hb⟩
      · obtain ⟨x, hx, hdecode⟩ := ih hbs a ha
        exact ⟨x, List.mem_cons_of_mem _ hx, hdecode⟩

theorem exists_of_decodeEntries {decode : Node → Decoded α} {index : Nat}
    {members : List (StringContent × Node)} {es : List (String × α)}
    (h : decodeEntries decode index members = .ok es) :
    ∀ e ∈ es, ∃ m ∈ members, decode m.2 = .ok e.2 := by
  induction members generalizing index es with
  | nil =>
      cases h
      exact fun e he => absurd he List.not_mem_nil
  | cons m members ih =>
      obtain ⟨key, -, h⟩ := bind_eq_ok h
      obtain ⟨b, hb, h⟩ := bind_eq_ok h
      obtain ⟨bs, hbs, h⟩ := bind_eq_ok h
      cases h
      intro e he
      rcases List.mem_cons.1 he with rfl | he
      · exact ⟨m, List.mem_cons_self, of_under_eq_ok hb⟩
      · obtain ⟨x, hx, hdecode⟩ := ih hbs e he
        exact ⟨x, List.mem_cons_of_mem _ hx, hdecode⟩

theorem enter_text {n : Nat} {inner : Source}
    (h : (Source.text (n + 1)).enter = .ok inner) :
    ∃ m, n = m + 1 ∧ inner = .text (m + 1) := by
  rw [Source.enter] at h
  split at h
  · cases h
  · cases h
    exact ⟨n - 1, by omega, by congr 1; omega⟩

/-! ## Members in order -/

theorem pairwise_foldl_update {acc : List (String × Json)}
    (h : acc.Pairwise (·.1 < ·.1)) (ms : List (String × Json)) :
    (ms.foldl (fun acc m => Text.update m.1 m.2 (fun _ => m.2) acc)
      acc).Pairwise (·.1 < ·.1) := by
  induction ms generalizing acc with
  | nil => exact h
  | cons m ms ih =>
      rw [List.foldl_cons]
      exact ih (Text.pairwise_update h)

theorem mem_foldl_update {acc ms : List (String × Json)} {e : String × Json}
    (h : e
      ∈ ms.foldl (fun acc m => Text.update m.1 m.2 (fun _ => m.2) acc) acc) :
    e ∈ acc ∨ e ∈ ms := by
  induction ms generalizing acc with
  | nil => exact .inl h
  | cons m ms ih =>
      rw [List.foldl_cons] at h
      rcases ih h with h | h
      · rcases Text.mem_update h with h | ⟨hkey, hvalue⟩
        · exact .inl h
        · have hm : e = m :=
            Prod.ext hkey (hvalue.elim id fun ⟨_, _, hsame⟩ => hsame)
          exact .inr (hm ▸ List.mem_cons_self)
      · exact .inr (List.mem_cons_of_mem _ h)

theorem foldl_update_of_pairwise {acc ms : List (String × Json)}
    (h : (acc ++ ms).Pairwise (·.1 < ·.1)) :
    ms.foldl (fun acc m => Text.update m.1 m.2 (fun _ => m.2) acc) acc
      = acc ++ ms := by
  induction ms generalizing acc with
  | nil => simp
  | cons m ms ih =>
      have hlt : ∀ e ∈ acc, e.1 < m.1 := fun e he =>
        (List.pairwise_append.1 h).2.2 e he m List.mem_cons_self
      rw [List.foldl_cons, Text.update_of_forall_lt hlt,
        ih (by simpa using h), List.append_assoc, List.singleton_append]

/-! ## Normal values -/

/-- A value of at most so many levels that has exact numbers only, and whose
members stand in ascending order of their keys. -/
inductive Normal : Nat → Json → Prop where
  | null {n : Nat} : Normal n .null
  | bool {n : Nat} (b : Bool) : Normal n (.bool b)
  | number {n : Nat} {k : Number} (h : k.Exact) : Normal n (.number k)
  | string {n : Nat} (s : String) : Normal n (.string s)
  | array {n : Nat} {items : List Json} (h : ∀ j ∈ items, Normal n j) :
      Normal (n + 1) (.array items)
  | object {n : Nat} {members : List (String × Json)}
      (h : ∀ m ∈ members, Normal n m.2)
      (horder : members.Pairwise (·.1 < ·.1)) : Normal (n + 1) (.object members)

theorem Normal.exact {n : Nat} {j : Json} (h : Normal n j) : Exact j := by
  induction h with
  | null | bool | string => trivial
  | number h => exact h
  | @array n items _ ih =>
      have hitems : ExactItems (items.map id) := exactItems_map ih
      rwa [List.map_id] at hitems
  | @object n members _ _ ih =>
      have hmembers := exactMembers_map id ih
      exact (List.map_id members) ▸ hmembers

theorem decodeAnyItems_eq (source : Source) (index : Nat) (nodes : List Node) :
    decodeAnyItems source index nodes
      = decodeItems (decodeAny source) index nodes := by
  induction nodes generalizing index with
  | nil => rfl
  | cons node nodes ih => rw [decodeAnyItems, decodeItems, ih]

theorem decodeAnyMembers_eq (source : Source) (index : Nat)
    (members : List (StringContent × Node)) :
    decodeAnyMembers source index members
      = decodeEntries (decodeAny source) index members := by
  induction members generalizing index with
  | nil => rfl
  | cons m members ih => rw [decodeAnyMembers, decodeEntries, ih]

theorem Normal.restores {n : Nat} {j : Json} (h : Normal n j) :
    Restores decodeAny n j j := by
  induction h with
  | null | bool | string | number => exact fun _ _ => rfl
  | @array n items _ ih =>
      intro source hs
      obtain ⟨inner, henter, hinner⟩ := hs.enter
      have hitems :
          decodeItems (decodeAny inner) 0 (nodesOfItems (items.map id))
            = .ok (items.map id) :=
        decodeItems_map (fun j hj => ih j hj inner hinner) 0
      rw [List.map_id] at hitems
      rw [Node.ofJson, decodeAny, henter, ok_bind, decodeAnyItems_eq, hitems]
      rfl
  | @object n members _ horder ih =>
      intro source hs
      obtain ⟨inner, henter, hinner⟩ := hs.enter
      have hmembers : decodeEntries (decodeAny inner) 0
          (nodesOfMembers (members.map fun e => (e.1, id e.2))) = .ok members :=
        decodeEntries_map (fun m hm => ih m hm inner hinner) 0
      rw [show members.map (fun e => (e.1, id e.2))
        = members from List.map_id members]
        at hmembers
      have hsort : sortMembers members = [] ++ members :=
        foldl_update_of_pairwise horder
      rw [Node.ofJson, decodeAny, henter, ok_bind, decodeAnyMembers_eq,
        hmembers, ok_bind]
      show Except.ok (Json.object (sortMembers members)) = _
      rw [hsort, List.nil_append]

/-- Whatever a text is read as is a normal value, unless there is a double word
in it. -/
theorem normal_of_decodeAny {n : Nat} {node : Node} {v : Json}
    (hnode : node.Exact) (h : decodeAny (.text (n + 1)) node = .ok v) :
    Normal n v := by
  match node with
  | .null => cases h; exact .null
  | .bool b => cases h; exact .bool b
  | .number k =>
      cases h
      exact .number (hnode k (by simp [Node.numbers]))
  | .outOfRange => cases h
  | .string s => cases h; exact .string s
  | .unpaired _ => cases h
  | .unread _ _ => cases h
  | .array items cut =>
      rw [decodeAny] at h
      obtain ⟨inner, henter, h⟩ := bind_eq_ok h
      obtain ⟨n, rfl, rfl⟩ := enter_text henter
      obtain ⟨vs, hvs, h⟩ := bind_eq_ok h
      obtain ⟨-, -, h⟩ := bind_eq_ok h
      cases h
      rw [decodeAnyItems_eq] at hvs
      refine .array fun j hj => ?_
      obtain ⟨x, hx, hdecode⟩ := exists_of_decodeItems hvs j hj
      exact normal_of_decodeAny (hnode.item hx) hdecode
  | .object members cut =>
      rw [decodeAny] at h
      obtain ⟨inner, henter, h⟩ := bind_eq_ok h
      obtain ⟨n, rfl, rfl⟩ := enter_text henter
      obtain ⟨vs, hvs, h⟩ := bind_eq_ok h
      obtain ⟨-, -, h⟩ := bind_eq_ok h
      cases h
      rw [decodeAnyMembers_eq] at hvs
      refine .object (fun e he => ?_) (pairwise_foldl_update .nil vs)
      have he := (mem_foldl_update he).resolve_left List.not_mem_nil
      obtain ⟨m, hm, hdecode⟩ := exists_of_decodeEntries hvs e he
      exact normal_of_decodeAny (hnode.member hm) hdecode
termination_by sizeOf node
decreasing_by
  · have hlt := List.sizeOf_lt_of_mem hx
    simp only [Node.array.sizeOf_spec]
    omega
  · have hlt := List.sizeOf_lt_of_mem hm
    obtain ⟨key, x⟩ := m
    simp only [Prod.mk.sizeOf_spec] at hlt
    simp only [Node.object.sizeOf_spec]
    omega

theorem decodeAny_ne_null {source : Source} {node : Node} {v : Json}
    (h : decodeAny source node = .ok v) (hnode : node ≠ .null) : v ≠ .null := by
  rintro rfl
  cases node with
  | null => exact hnode rfl
  | array items cut =>
      rw [decodeAny] at h
      obtain ⟨_, -, h⟩ := bind_eq_ok h
      obtain ⟨_, -, h⟩ := bind_eq_ok h
      obtain ⟨_, -, h⟩ := bind_eq_ok h
      cases h
  | object members cut =>
      rw [decodeAny] at h
      obtain ⟨_, -, h⟩ := bind_eq_ok h
      obtain ⟨_, -, h⟩ := bind_eq_ok h
      obtain ⟨_, -, h⟩ := bind_eq_ok h
      cases h
  | _ => cases h

/-! ## Lists and records that were decoded -/

theorem of_decodeOption {decode : Node → Decoded α} {node : Node} {a : α}
    (h : decodeOption decode node = .ok (some a)) :
    node ≠ .null ∧ decode node = .ok a := by
  by_cases hnode : node = .null
  · subst hnode
    cases h
  · rw [decodeOption_of_ne_null hnode] at h
    obtain ⟨b, hb, hsome⟩ := map_eq_ok h
    cases hsome
    exact ⟨hnode, hb⟩

/-- What holds of every value that an item is decoded as holds of the values of
a list. -/
theorem of_decodeList {decode : Source → Node → Decoded α} {P : α → Prop}
    {n : Nat}
    (hitem : ∀ node a, node.Exact → decode (.text n) node = .ok a → P a)
    {node : Node} (hnode : node.Exact) {as : List α}
    (h : decodeList decode (.text (n + 1)) node = .ok as) :
    ∀ a ∈ as, P a := by
  cases node with
  | array items cut =>
      rw [decodeList] at h
      obtain ⟨inner, henter, h⟩ := bind_eq_ok h
      obtain ⟨n, rfl, rfl⟩ := enter_text henter
      obtain ⟨bs, hbs, h⟩ := bind_eq_ok h
      obtain ⟨-, -, h⟩ := bind_eq_ok h
      cases h
      intro a ha
      obtain ⟨x, hx, hdecode⟩ := exists_of_decodeItems hbs a ha
      exact hitem x a (hnode.item hx) hdecode
  | _ => cases h

namespace Record

variable {r : Record α} {P : α → Prop} {source : Source}

section

variable (hput : ∀ key node a b,
  node.Exact → P a → r.put key source node a = .ok b → P b)

include hput

theorem of_putMembers {members : List (StringContent × Node)}
    (hmembers : ∀ m ∈ members, m.2.Exact) {index : Nat}
    {seen seen' : List String} {a b : α} (ha : P a)
    (h : r.putMembers source index seen a members = .ok (b, seen')) : P b := by
  induction members generalizing index seen a with
  | nil =>
      cases h
      exact ha
  | cons m members ih =>
      have htail : ∀ x ∈ members, x.2.Exact :=
        fun x hx => hmembers x (List.mem_cons_of_mem _ hx)
      rw [putMembers] at h
      obtain ⟨key, -, h⟩ := bind_eq_ok h
      split at h
      · split at h
        · cases h
        · obtain ⟨c, hc, h⟩ := bind_eq_ok h
          have hstored :=
            hput key m.2 a c (hmembers m List.mem_cons_self) ha
              (of_under_eq_ok hc)
          exact ih htail hstored h
      · obtain ⟨-, -, h⟩ := bind_eq_ok h
        exact ih htail ha h

theorem of_putItems {fields : List (String × Bool)} {items : List Node}
    (hitems : ∀ node ∈ items, node.Exact) {index : Nat} {a b : α}
    {surplus : List Node} {unfilled : List (String × Bool)} (ha : P a)
    (h : r.putItems source index a fields items = .ok (b, surplus, unfilled)) :
    P b := by
  induction items generalizing fields index a with
  | nil =>
      cases fields <;> cases h <;> exact ha
  | cons node items ih =>
      cases fields with
      | nil =>
          cases h
          exact ha
      | cons field fields =>
          rw [putItems] at h
          obtain ⟨c, hc, h⟩ := bind_eq_ok h
          have hstored :=
            hput field.1 node a c (hitems node List.mem_cons_self) ha
              (of_under_eq_ok hc)
          exact ih (fun x hx => hitems x (List.mem_cons_of_mem _ hx)) hstored h

end

/-- What holds of the blank record and is kept by every field holds of a record
that was decoded, from an object or from a list. -/
theorem of_decode {n : Nat} {node : Node} {a : α} (hnode : node.Exact)
    (hblank : P r.blank)
    (hput : ∀ key node a b,
      node.Exact → P a → r.put key (.text n) node a = .ok b → P b)
    (h : r.decode (.text (n + 1)) node = .ok a) : P a := by
  cases node with
  | object members cut =>
      rw [decode] at h
      obtain ⟨inner, henter, h⟩ := bind_eq_ok h
      obtain ⟨n, rfl, rfl⟩ := enter_text henter
      obtain ⟨⟨b, seen⟩, hb, h⟩ := bind_eq_ok h
      obtain ⟨-, -, h⟩ := bind_eq_ok h
      split at h
      · cases h
      · cases h
        exact of_putMembers hput (fun m hm => hnode.member hm) hblank hb
  | array items cut =>
      rw [decode] at h
      obtain ⟨inner, henter, h⟩ := bind_eq_ok h
      obtain ⟨n, rfl, rfl⟩ := enter_text henter
      obtain ⟨⟨b, surplus, unfilled⟩, hb, h⟩ := bind_eq_ok h
      have hP : P b := of_putItems hput (fun x hx => hnode.item hx) hblank hb
      dsimp only at h
      split at h
      · obtain ⟨-, -, h⟩ := bind_eq_ok h
        cases h
        exact hP
      · obtain ⟨-, -, h⟩ := bind_eq_ok h
        split at h
        · cases h
        · cases h
          exact hP
  | _ => cases h

end Record

/-- A text that was decoded has a value that was decoded. -/
theorem of_decodeText {decode : Source → Node → Decoded α} {text : String}
    {a : α} (h : decodeText decode text = .ok a) :
    decode .wholeText (Reading.of text.toList).root = .ok a := by
  rw [decodeText] at h
  obtain ⟨b, hb, h⟩ := bind_eq_ok h
  split at h
  · cases h
  · split at h
    · cases h
      exact hb
    · cases h

end FlowAtlas.Json
