import FlowAtlas.Proofs.Json.Normal
import Mathlib.Data.List.Forall2

/-!
# Members that are named twice

A value of any kind keeps the last of several members with one key, and forgets
that there were others. This is the only thing about a tree that the value does
not tell, apart from the order of members, so the tree without the members that
do not count (`Node.lastMembers`) is read as the same value
(`Node.Holds.lastMembers`) and names no member twice
(`Node.distinct_lastMembers`).

The value's members are put in order as they are read. What that comes to for
the list of them is said once, up to order (`sortMembers_perm`): the members
that count.
-/

namespace FlowAtlas.Json

/-! ## The last of several entries -/

section

variable {κ β : Type} [DecidableEq κ]

/-- The entries of a list without those that have an entry of the same key after
them. -/
def lastOnes : List (κ × β) → List (κ × β)
  | [] => []
  | e :: es => if e.1 ∈ es.map Prod.fst then lastOnes es else e :: lastOnes es

theorem sublist_lastOnes (es : List (κ × β)) : (lastOnes es).Sublist es := by
  induction es with
  | nil => exact List.Sublist.refl _
  | cons e es ih =>
      rw [lastOnes]
      split_ifs
      · exact ih.cons e
      · exact ih.cons_cons e

theorem pairwise_lastOnes (es : List (κ × β)) :
    (lastOnes es).Pairwise (·.1 ≠ ·.1) := by
  induction es with
  | nil => exact .nil
  | cons e es ih =>
      rw [lastOnes]
      split_ifs with hlater
      · exact ih
      · refine .cons (fun x hx heq => hlater ?_) ih
        rw [heq]
        exact List.mem_map_of_mem ((sublist_lastOnes es).subset hx)

theorem lastOnes_eq_self {es : List (κ × β)} (h : es.Pairwise (·.1 ≠ ·.1)) :
    lastOnes es = es := by
  induction es with
  | nil => rfl
  | cons e es ih =>
      obtain ⟨hhead, htail⟩ := List.pairwise_cons.1 h
      have hnone : e.1 ∉ es.map Prod.fst := by
        intro hmem
        obtain ⟨x, hx, heq⟩ := List.mem_map.1 hmem
        exact hhead x hx heq.symm
      rw [lastOnes, if_neg hnone, ih htail]

theorem lastOnes_map {κ' β' : Type} [DecidableEq κ'] {f : κ → κ'}
    (hf : Function.Injective f) (g : β → β') (es : List (κ × β)) :
    lastOnes (es.map fun e => (f e.1, g e.2)) = (lastOnes es).map fun e =>
      (f e.1, g e.2) := by
  induction es with
  | nil => rfl
  | cons e es ih =>
      have hmem : f e.1 ∈ (es.map fun e => (f e.1, g e.2)).map Prod.fst
          ↔ e.1 ∈ es.map Prod.fst := by
        rw [List.map_map, show (Prod.fst ∘ fun e : κ × β => (f e.1, g e.2))
          = f ∘ Prod.fst from rfl,
          ← List.map_map, List.mem_map_of_injective hf]
      rw [List.map_cons, lastOnes, lastOnes, ih, if_congr hmem rfl rfl]
      split_ifs <;> rfl

/-- Entries are left out by their keys before or after with the same result. -/
theorem filter_lastOnes (p : κ → Bool) (es : List (κ × β)) :
    (lastOnes es).filter (fun e => p e.1)
      = lastOnes (es.filter fun e => p e.1) := by
  induction es with
  | nil => rfl
  | cons e es ih =>
      obtain ⟨k, b⟩ := e
      by_cases hp : p k = true
      · have hmem : k ∈ (es.filter fun e => p e.1).map Prod.fst
            ↔ k ∈ es.map Prod.fst := by
          simp only [List.mem_map, List.mem_filter]
          constructor
          · rintro ⟨x, ⟨hx, -⟩, heq⟩
            exact ⟨x, hx, heq⟩
          · rintro ⟨x, hx, heq⟩
            exact ⟨x, ⟨hx, heq ▸ hp⟩, heq⟩
        rw [List.filter_cons_of_pos (by exact hp), lastOnes, lastOnes, ← ih,
          if_congr hmem rfl rfl]
        split_ifs
        · rfl
        · rw [List.filter_cons_of_pos (by exact hp)]
      · rw [List.filter_cons_of_neg (by exact hp), lastOnes, ← ih]
        split_ifs
        · rfl
        · rw [List.filter_cons_of_neg (by exact hp)]

end

/-! ## Members in order -/

theorem update_perm {key : String} {value : Json} {ms : List (String × Json)}
    (h : ms.Pairwise (·.1 < ·.1)) :
    (Text.update key value (fun _ => value) ms).Perm
      ((key, value) :: ms.filter fun m => m.1 ≠ key) := by
  induction ms with
  | nil => exact .refl _
  | cons m ms ih =>
      obtain ⟨k, v⟩ := m
      obtain ⟨hhead, htail⟩ := List.pairwise_cons.1 h
      rw [Text.update]
      split_ifs with hlt heq
      · have hall : ∀ m ∈ (k, v) :: ms, m.1 ≠ key := by
          rintro m hm rfl
          rcases List.mem_cons.1 hm with rfl | hm
          · exact String.lt_irrefl _ hlt
          · exact String.lt_asymm hlt (hhead m hm)
        rw [List.filter_eq_self.2 fun m hm => decide_eq_true (hall m hm)]
      · subst heq
        have hall : ∀ m ∈ ms, m.1 ≠ key := fun m hm =>
          (String.ne_of_lt (hhead m hm)).symm
        rw [List.filter_cons_of_neg (by simp),
          List.filter_eq_self.2 fun m hm => decide_eq_true (hall m hm)]
      · rw [List.filter_cons_of_pos (by simpa using Ne.symm heq)]
        exact ((ih htail).cons _).trans (.swap _ _ _)

theorem foldl_update_perm {acc ms : List (String × Json)}
    (h : acc.Pairwise (·.1 < ·.1)) :
    (ms.foldl (fun acc m => Text.update m.1 m.2 (fun _ => m.2) acc) acc).Perm
      (acc.filter (fun a => a.1 ∉ ms.map Prod.fst) ++ lastOnes ms) := by
  induction ms generalizing acc with
  | nil =>
      rw [List.filter_eq_self.2 (by simp), lastOnes, List.append_nil]
      exact .refl _
  | cons m ms ih =>
      refine (ih (Text.pairwise_update h)).trans ?_
      -- What is left of the entries before is the same, the new one is put in
      -- front.
      have hold : (acc.filter fun a => a.1 ≠ m.1).filter
            (fun a => a.1 ∉ ms.map Prod.fst)
          = acc.filter fun a => a.1 ∉ (m :: ms).map Prod.fst := by
        rw [List.filter_filter]
        refine List.filter_congr fun a _ => ?_
        rw [List.map_cons, ← Bool.decide_and]
        exact decide_eq_decide.2 (by rw [List.mem_cons, not_or, and_comm])
      have hperm := ((@update_perm m.1 m.2 acc h).filter
        fun a => a.1 ∉ ms.map Prod.fst).append_right (lastOnes ms)
      refine hperm.trans ?_
      rw [lastOnes]
      split_ifs with hlater
      · rw [List.filter_cons_of_neg (by simpa using hlater), hold]
      · rw [List.filter_cons_of_pos (by simpa using hlater), hold]
        exact List.perm_middle.symm

/-- The members that are put in order are those that count. -/
theorem sortMembers_perm (ms : List (String × Json)) :
    (sortMembers ms).Perm (lastOnes ms) :=
  foldl_update_perm List.Pairwise.nil

theorem pairwise_sortMembers (ms : List (String × Json)) :
    (sortMembers ms).Pairwise (·.1 < ·.1) :=
  pairwise_foldl_update .nil ms

theorem sortMembers_lastOnes (ms : List (String × Json)) :
    sortMembers (lastOnes ms) = sortMembers ms := by
  have hperm : (sortMembers (lastOnes ms)).Perm (sortMembers ms) := by
    refine (sortMembers_perm _).trans ?_
    rw [lastOnes_eq_self (pairwise_lastOnes ms)]
    exact (sortMembers_perm ms).symm
  refine hperm.eq_of_pairwise (fun a b _ _ hab hba => ?_)
    (pairwise_sortMembers _) (pairwise_sortMembers _)
  exact absurd hba (String.lt_asymm hab)

/-! ## Trees and their values -/

/-- A tree is read as a value of any kind. -/
def Node.Holds (node : Node) (v : Json) : Prop := decodeAny .value node = .ok v

theorem decodeItems_eq_ok_iff {α : Type} {decode : Node → Decoded α}
    {index : Nat} {nodes : List Node} {as : List α} :
    decodeItems decode index nodes = .ok as
      ↔ List.Forall₂ (fun node a => decode node = .ok a) nodes as := by
  induction nodes generalizing index as with
  | nil =>
      rw [decodeItems, List.forall₂_nil_left_iff]
      exact ⟨fun h => (Except.ok.inj h).symm, fun h => congrArg _ h.symm⟩
  | cons node nodes ih =>
      rw [decodeItems, List.forall₂_cons_left_iff]
      constructor
      · intro h
        obtain ⟨b, hb, h⟩ := bind_eq_ok h
        obtain ⟨bs, hbs, h⟩ := bind_eq_ok h
        exact ⟨b, bs, of_under_eq_ok hb, ih.1 hbs, (Except.ok.inj h).symm⟩
      · rintro ⟨b, bs, hb, hbs, rfl⟩
        rw [hb, ih.2 hbs]
        rfl

theorem ending_eq_ok {cut : Option Stop} {u : Unit} (h : ending cut = .ok u) :
    cut = none := by
  cases cut with
  | none => rfl
  | some stop => cases h

/-- The members of an object whose keys could be read, as members of a tree. -/
def named (ms : List (String × Node)) : List (StringContent × Node) :=
  ms.map fun m => (.ok m.1, m.2)

/-- What the members of a tree come to: their keys, and the values that their
trees hold. -/
def NamedValues (ms : List (String × Node)) (vs : List (String × Json)) :
    Prop :=
  List.Forall₂ (fun m v => m.1 = v.1 ∧ m.2.Holds v.2) ms vs

theorem exists_named_of_decodeEntries {index : Nat}
    {members : List (StringContent × Node)} {vs : List (String × Json)}
    (h : decodeEntries (decodeAny .value) index members = .ok vs) :
    ∃ ms, members = named ms ∧ NamedValues ms vs := by
  induction members generalizing index vs with
  | nil =>
      cases h
      exact ⟨[], rfl, .nil⟩
  | cons m members ih =>
      obtain ⟨key, hkey, h⟩ := bind_eq_ok h
      obtain ⟨v, hv, h⟩ := bind_eq_ok h
      obtain ⟨rest, hrest, h⟩ := bind_eq_ok h
      obtain rfl := Except.ok.inj h
      obtain ⟨ms, rfl, hms⟩ := ih hrest
      obtain ⟨k, node⟩ := m
      cases k with
      | error spot => cases hkey
      | ok k =>
          obtain rfl := Except.ok.inj hkey
          exact ⟨(k, node) :: ms, rfl, .cons ⟨rfl, of_under_eq_ok hv⟩ hms⟩

theorem decodeEntries_named {index : Nat} {ms : List (String × Node)}
    {vs : List (String × Json)} (h : NamedValues ms vs) :
    decodeEntries (decodeAny .value) index (named ms) = .ok vs := by
  induction h generalizing index with
  | nil => rfl
  | @cons m v ms vs hm _ ih =>
      obtain ⟨k, j⟩ := v
      obtain ⟨rfl, hholds⟩ := hm
      show decodeEntries (decodeAny .value) index
        ((.ok m.1, m.2) :: named ms) = _
      rw [decodeEntries, decodeKey, show decodeAny .value m.2
        = .ok j from hholds, ih]
      rfl

theorem holds_array_iff {items : List Node} {cut : Option Stop} {v : Json} :
    (Node.array items cut).Holds v
      ↔ cut = none
        ∧ ∃ vs, List.Forall₂ Node.Holds items vs ∧ v = .array vs := by
  rw [Node.Holds, decodeAny, Source.enter, ok_bind, decodeAnyItems_eq]
  constructor
  · intro h
    obtain ⟨vs, hvs, h⟩ := bind_eq_ok h
    obtain ⟨u, hcut, h⟩ := bind_eq_ok h
    exact ⟨ending_eq_ok hcut, vs, decodeItems_eq_ok_iff.1 hvs,
      (Except.ok.inj h).symm⟩
  · rintro ⟨rfl, vs, hvs, rfl⟩
    rw [decodeItems_eq_ok_iff.2 hvs]
    rfl

theorem holds_object_iff {members : List (StringContent × Node)}
    {cut : Option Stop} {v : Json} :
    (Node.object members cut).Holds v
      ↔ cut = none ∧ ∃ ms vs, members = named ms ∧ NamedValues ms vs
        ∧ v = .object (sortMembers vs) := by
  rw [Node.Holds, decodeAny, Source.enter, ok_bind, decodeAnyMembers_eq]
  constructor
  · intro h
    obtain ⟨vs, hvs, h⟩ := bind_eq_ok h
    obtain ⟨u, hcut, h⟩ := bind_eq_ok h
    obtain ⟨ms, hmembers, hms⟩ := exists_named_of_decodeEntries hvs
    exact ⟨ending_eq_ok hcut, ms, vs, hmembers, hms, (Except.ok.inj h).symm⟩
  · rintro ⟨rfl, ms, vs, rfl, hms, rfl⟩
    rw [decodeEntries_named hms]
    rfl

mutual

/-- Where a tree comes from decides how deep it may be, and nothing else. -/
theorem holds_of_decodeAny {source : Source} {v : Json} :
    (node : Node) → decodeAny source node = .ok v → node.Holds v
  | .null, h | .bool _, h | .number _, h | .string _, h => h
  | .outOfRange, h | .unpaired _, h | .unread _ _, h => nomatch h
  | .array items cut, h => by
      rw [decodeAny] at h
      obtain ⟨inner, -, h⟩ := bind_eq_ok h
      obtain ⟨vs, hvs, h⟩ := bind_eq_ok h
      rw [Node.Holds, decodeAny, Source.enter, ok_bind,
        decodeAnyItems_value items hvs]
      exact h
  | .object members cut, h => by
      rw [decodeAny] at h
      obtain ⟨inner, -, h⟩ := bind_eq_ok h
      obtain ⟨vs, hvs, h⟩ := bind_eq_ok h
      rw [Node.Holds, decodeAny, Source.enter, ok_bind,
        decodeAnyMembers_value members hvs]
      exact h

theorem decodeAnyItems_value {source : Source} {index : Nat} {vs : List Json} :
    (nodes : List Node) → decodeAnyItems source index nodes = .ok vs →
      decodeAnyItems .value index nodes = .ok vs
  | [], h => h
  | node :: nodes, h => by
      obtain ⟨v, hv, h⟩ := bind_eq_ok h
      obtain ⟨rest, hrest, h⟩ := bind_eq_ok h
      have hnode : decodeAny .value node = .ok v :=
        holds_of_decodeAny node (of_under_eq_ok hv)
      rw [decodeAnyItems, hnode, decodeAnyItems_value nodes hrest]
      exact h

theorem decodeAnyMembers_value {source : Source} {index : Nat}
    {vs : List (String × Json)} :
    (members : List (StringContent × Node)) →
      decodeAnyMembers source index members = .ok vs →
      decodeAnyMembers .value index members = .ok vs
  | [], h => h
  | (key, node) :: members, h => by
      obtain ⟨k, hk, h⟩ := bind_eq_ok h
      obtain ⟨v, hv, h⟩ := bind_eq_ok h
      obtain ⟨rest, hrest, h⟩ := bind_eq_ok h
      have hnode : decodeAny .value node = .ok v :=
        holds_of_decodeAny node (of_under_eq_ok hv)
      rw [decodeAnyMembers, hk, ok_bind, hnode,
        decodeAnyMembers_value members hrest]
      exact h

end

mutual

/-- What can be read can be passed over. -/
theorem skipFault?_of_holds
    {v : Json} : (node : Node) → node.Holds v → skipFault? node = none
  | .null, _ | .bool _, _ | .number _, _ | .string _, _ => rfl
  | .outOfRange, h | .unpaired _, h | .unread _ _, h => nomatch h
  | .array items cut, h => by
      obtain ⟨rfl, vs, hvs, -⟩ := holds_array_iff.1 h
      rw [skipFault?, skipItems?_of_holds items hvs]
      rfl
  | .object members cut, h => by
      obtain ⟨rfl, ms, vs, hmembers, hms, -⟩ := holds_object_iff.1 h
      rw [skipFault?, skipMembers?_of_holds members hmembers hms]
      rfl

theorem skipItems?_of_holds {vs : List Json} :
    (nodes : List Node) → List.Forall₂ Node.Holds nodes vs →
    skipItems? nodes = none
  | [], _ => rfl
  | node :: nodes, h => by
      obtain ⟨v, rest, hv, hrest, -⟩ := List.forall₂_cons_left_iff.1 h
      rw [skipItems?, skipFault?_of_holds node hv,
        skipItems?_of_holds nodes hrest]
      rfl

theorem skipMembers?_of_holds {ms : List (String × Node)}
    {vs : List (String × Json)} :
    (members : List (StringContent × Node)) → members = named ms →
      NamedValues ms vs →
      skipMembers? members = none
  | [], _, _ => rfl
  | (key, node) :: members, hmembers, h => by
      cases h with
      | nil => exact nomatch hmembers
      | cons hm hrest =>
          obtain ⟨heq, htail⟩ := List.cons.inj hmembers
          obtain ⟨-, rfl⟩ := Prod.mk.inj heq
          rw [skipMembers?, skipFault?_of_holds _ hm.2,
            skipMembers?_of_holds members htail hrest]
          rfl

end

/-! ## Values as trees -/

theorem nodesOfItems_eq (items : List Json) :
    nodesOfItems items = items.map Node.ofJson := by
  induction items with
  | nil => rfl
  | cons j items ih => rw [nodesOfItems, ih, List.map_cons]

theorem nodesOfMembers_eq (ms : List (String × Json)) :
    nodesOfMembers ms = named (ms.map fun m => (m.1, Node.ofJson m.2)) := by
  induction ms with
  | nil => rfl
  | cons m ms ih => rw [nodesOfMembers, ih]; rfl

mutual

theorem exists_holds_ofJson : (j : Json) → ∃ v, (Node.ofJson j).Holds v
  | .null | .bool _ | .number _ | .string _ => ⟨_, rfl⟩
  | .array items => by
      obtain ⟨vs, hvs⟩ := exists_holds_items items
      exact ⟨_, holds_array_iff.2 ⟨rfl, vs, hvs, rfl⟩⟩
  | .object members => by
      obtain ⟨vs, hvs⟩ := exists_namedValues members
      exact ⟨_, holds_object_iff.2
        ⟨rfl, _, vs, nodesOfMembers_eq members, hvs, rfl⟩⟩

theorem exists_holds_items : (items : List Json) →
    ∃ vs, List.Forall₂ Node.Holds (nodesOfItems items) vs
  | [] => ⟨[], .nil⟩
  | j :: items => by
      obtain ⟨v, hv⟩ := exists_holds_ofJson j
      obtain ⟨vs, hvs⟩ := exists_holds_items items
      exact ⟨v :: vs, .cons hv hvs⟩

theorem exists_namedValues : (members : List (String × Json)) →
    ∃ vs, NamedValues (members.map fun m => (m.1, Node.ofJson m.2)) vs
  | [] => ⟨[], .nil⟩
  | (key, j) :: members => by
      obtain ⟨v, hv⟩ := exists_holds_ofJson j
      obtain ⟨vs, hvs⟩ := exists_namedValues members
      exact ⟨(key, v) :: vs, .cons ⟨rfl, hv⟩ hvs⟩

end

/-- A tree that holds a value is a scalar, and then it is the value's own tree,
or it is a list or an object of such trees. -/
theorem Node.Holds.cases {node : Node} {v : Json} (h : node.Holds v) :
    Node.ofJson v = node
      ∨ (∃ items vs, node = .array items none ∧ v = .array vs
          ∧ List.Forall₂ Node.Holds items vs)
      ∨ ∃ ms vs, node = .object (named ms) none ∧ v = .object (sortMembers vs)
          ∧ NamedValues ms vs := by
  cases node with
  | array items cut =>
      obtain ⟨rfl, vs, hvs, rfl⟩ := holds_array_iff.1 h
      exact .inr (.inl ⟨items, vs, rfl, rfl, hvs⟩)
  | object members cut =>
      obtain ⟨rfl, ms, vs, rfl, hms, rfl⟩ := holds_object_iff.1 h
      exact .inr (.inr ⟨ms, vs, rfl, rfl, hms⟩)
  | null | bool | number | string =>
      obtain rfl := Except.ok.inj h
      exact .inl rfl
  | outOfRange | unpaired | unread => cases h

/-! ## The members that count -/

mutual

/-- A tree without the members that have one of the same key after them. -/
def Node.lastMembers : Node → Node
  | .array items cut => .array (lastMembersOfItems items) cut
  | .object members cut => .object (lastOnes (lastMembersOfMembers members)) cut
  | node => node

/-- The same for each item. -/
def lastMembersOfItems : List Node → List Node
  | [] => []
  | node :: nodes => node.lastMembers :: lastMembersOfItems nodes

/-- The same below each member. -/
def lastMembersOfMembers :
    List (StringContent × Node) → List (StringContent × Node)
  | [] => []
  | (key, node) :: members =>
    (key, node.lastMembers) :: lastMembersOfMembers members

end

mutual

/-- No object of a tree names a member twice. -/
def Node.Distinct : Node → Prop
  | .array items _ => DistinctItems items
  | .object members _ => members.Pairwise (·.1 ≠ ·.1) ∧ DistinctMembers members
  | _ => True

/-- The same for each item. -/
def DistinctItems : List Node → Prop
  | [] => True
  | node :: nodes => node.Distinct ∧ DistinctItems nodes

/-- The same below each member. -/
def DistinctMembers : List (StringContent × Node) → Prop
  | [] => True
  | (_, node) :: members => node.Distinct ∧ DistinctMembers members

end

theorem distinctItems_iff {nodes : List Node} :
    DistinctItems nodes ↔ ∀ node ∈ nodes, node.Distinct := by
  induction nodes with
  | nil => simp [DistinctItems]
  | cons node nodes ih => rw [DistinctItems, ih, List.forall_mem_cons]

theorem distinctMembers_iff {members : List (StringContent × Node)} :
    DistinctMembers members ↔ ∀ m ∈ members, m.2.Distinct := by
  induction members with
  | nil => simp [DistinctMembers]
  | cons m members ih =>
      obtain ⟨key, node⟩ := m
      rw [DistinctMembers, ih, List.forall_mem_cons]

mutual

theorem Node.distinct_lastMembers : (node : Node) → node.lastMembers.Distinct
  | .null | .bool _ | .number _ | .string _ | .outOfRange | .unpaired
      _ | .unread _ _ => by
      simp [Node.lastMembers, Node.Distinct]
  | .array items cut => by
      rw [Node.lastMembers, Node.Distinct]
      exact distinct_lastMembersOfItems items
  | .object members cut => by
      rw [Node.lastMembers, Node.Distinct]
      refine ⟨pairwise_lastOnes _, distinctMembers_iff.2 fun m hm => ?_⟩
      exact distinctMembers_iff.1 (distinct_lastMembersOfMembers members) m
        ((sublist_lastOnes _).subset hm)

theorem distinct_lastMembersOfItems : (nodes : List Node) →
    DistinctItems (lastMembersOfItems nodes)
  | [] => trivial
  | node :: nodes =>
    ⟨node.distinct_lastMembers, distinct_lastMembersOfItems nodes⟩

theorem distinct_lastMembersOfMembers :
    (members : List (StringContent × Node)) →
    DistinctMembers (lastMembersOfMembers members)
  | [] => trivial
  | (_, node) :: members =>
    ⟨node.distinct_lastMembers, distinct_lastMembersOfMembers members⟩

end

theorem NamedValues.keys_eq {ms : List (String × Node)}
    {vs : List (String × Json)} (h : NamedValues ms vs) :
    ms.map Prod.fst = vs.map Prod.fst := by
  induction h with
  | nil => rfl
  | cons hm _ ih => rw [List.map_cons, List.map_cons, hm.1, ih]

theorem namedValues_lastOnes {ms : List (String × Node)}
    {vs : List (String × Json)} (h : NamedValues ms vs) :
    NamedValues (lastOnes ms) (lastOnes vs) := by
  induction h with
  | nil => exact .nil
  | @cons m v ms vs hm hrest ih =>
      rw [lastOnes, lastOnes, NamedValues.keys_eq hrest, hm.1]
      split_ifs
      · exact ih
      · exact .cons hm ih

theorem lastOnes_named (ms : List (String × Node)) :
    lastOnes (named ms) = named (lastOnes ms) :=
  lastOnes_map (fun _ _ h => Except.ok.inj h) id ms

mutual

/-- The members that do not count are no loss to the value. -/
theorem Node.Holds.lastMembers {v : Json} : (node : Node) → node.Holds v →
    node.lastMembers.Holds v
  | .null, h | .bool _, h | .number _, h | .string _, h => h
  | .outOfRange, h | .unpaired _, h | .unread _ _, h => nomatch h
  | .array items cut, h => by
      obtain ⟨rfl, vs, hvs, rfl⟩ := holds_array_iff.1 h
      exact holds_array_iff.2 ⟨rfl, vs, holds_lastMembersOfItems items hvs, rfl⟩
  | .object members cut, h => by
      obtain ⟨rfl, ms, vs, hmembers, hms, rfl⟩ := holds_object_iff.1 h
      obtain ⟨ms', hmembers', hms'⟩ :=
        namedValues_lastMembersOfMembers members hmembers hms
      rw [Node.lastMembers, hmembers', lastOnes_named]
      exact holds_object_iff.2 ⟨rfl, _, _, rfl, namedValues_lastOnes hms',
        by rw [sortMembers_lastOnes]⟩

theorem holds_lastMembersOfItems {vs : List Json} : (nodes : List Node) →
    List.Forall₂ Node.Holds nodes vs →
    List.Forall₂ Node.Holds (lastMembersOfItems nodes) vs
  | [], h => h
  | node :: nodes, h => by
      obtain ⟨v, rest, hv, hrest, rfl⟩ := List.forall₂_cons_left_iff.1 h
      exact .cons (Node.Holds.lastMembers node hv)
        (holds_lastMembersOfItems nodes hrest)

theorem namedValues_lastMembersOfMembers {ms : List (String × Node)}
    {vs : List (String × Json)} : (members : List (StringContent × Node)) →
      members = named ms → NamedValues ms vs →
      ∃ ms', lastMembersOfMembers members = named ms' ∧ NamedValues ms' vs
  | [], hmembers, h => by
      cases h with
      | nil => exact ⟨[], rfl, .nil⟩
      | cons => exact nomatch hmembers
  | (key, node) :: members, hmembers, h => by
      cases h with
      | nil => exact nomatch hmembers
      | @cons m v ms vs hm hrest =>
          obtain ⟨heq, htail⟩ := List.cons.inj hmembers
          obtain ⟨rfl, rfl⟩ := Prod.mk.inj heq
          obtain ⟨ms', hms', hvalues⟩ :=
            namedValues_lastMembersOfMembers members htail hrest
          refine ⟨(m.1, m.2.lastMembers) :: ms', ?_,
            .cons ⟨hm.1, Node.Holds.lastMembers _ hm.2⟩ hvalues⟩
          rw [lastMembersOfMembers, hms']
          rfl

end

end FlowAtlas.Json
