import FlowAtlas.Proofs.Json.Written

/-!
# Decoders that give back what was encoded

`Restores decode n j a` says that a decoder makes the value `a` of the JSON
value `j`, whether it meets `j` in a text or apart from one, as long as `n`
levels of lists and objects may still be entered. The number of levels is part
of the law because a text has only so many of them. It is what the parts of a
record are combined by: a list or a record needs one level more than its parts.

A decoder that has to see a value as a value of any kind first, whatever it then
makes of it, needs no more than that the value is not nested too deep
(`Within`).
-/

namespace FlowAtlas.Json

variable {α β : Type}

theorem ok_bind (a : α) (f : α → Decoded β) : (Except.ok a >>= f) = f a := rfl

/-! ## Levels -/

/-- Lists and objects may be entered so many levels deep. -/
def Source.Admits : Source → Nat → Prop
  | .text levels, n => n < levels
  | .value, _ => True

theorem Source.Admits.mono {source : Source} {n m : Nat} (h : source.Admits n)
    (hle : m ≤ n) :
    source.Admits m := by
  cases source with
  | text levels => exact Nat.lt_of_le_of_lt hle h
  | value => trivial

theorem Source.Admits.enter {source : Source} {n : Nat}
    (h : source.Admits (n + 1)) :
    ∃ inner, source.enter = .ok inner ∧ inner.Admits n := by
  cases source with
  | text levels =>
      have hlevels : n + 1 < levels := h
      refine ⟨.text (levels - 1), ?_, show n < levels - 1 by omega⟩
      rw [Source.enter, if_neg (by omega)]
  | value => exact ⟨.value, rfl, trivial⟩

/-- A value with lists and objects in at most so many levels. -/
inductive Within : Nat → Json → Prop where
  | null {n : Nat} : Within n .null
  | bool {n : Nat} (b : Bool) : Within n (.bool b)
  | number {n : Nat} (k : Number) : Within n (.number k)
  | string {n : Nat} (s : String) : Within n (.string s)
  | array {n : Nat} {items : List Json} (h : ∀ j ∈ items, Within n j) :
      Within (n + 1) (.array items)
  | object {n : Nat} {members : List (String × Json)}
      (h : ∀ m ∈ members, Within n m.2) :
      Within (n + 1) (.object members)

theorem decodeAnyItems_eq_ok {source : Source} {items : List Json}
    (h : ∀ j ∈ items, ∃ v, decodeAny source (Node.ofJson j) = .ok v)
    (index : Nat) :
    ∃ vs, decodeAnyItems source index (nodesOfItems items) = .ok vs := by
  induction items generalizing index with
  | nil => exact ⟨[], rfl⟩
  | cons j items ih =>
      obtain ⟨v, hv⟩ := h j List.mem_cons_self
      obtain ⟨vs, hvs⟩ :=
        ih (fun x hx => h x (List.mem_cons_of_mem _ hx)) (index + 1)
      refine ⟨v :: vs, ?_⟩
      rw [nodesOfItems, decodeAnyItems, hv, hvs]
      rfl

theorem decodeAnyMembers_eq_ok {source : Source}
    {members : List (String × Json)}
    (h : ∀ m ∈ members, ∃ v, decodeAny source (Node.ofJson m.2) = .ok v)
    (index : Nat) :
    ∃ vs, decodeAnyMembers source index (nodesOfMembers members) = .ok vs := by
  induction members generalizing index with
  | nil => exact ⟨[], rfl⟩
  | cons m members ih =>
      obtain ⟨v, hv⟩ := h m List.mem_cons_self
      obtain ⟨vs, hvs⟩ :=
        ih (fun x hx => h x (List.mem_cons_of_mem _ hx)) (index + 1)
      refine ⟨(m.1, v) :: vs, ?_⟩
      rw [nodesOfMembers, decodeAnyMembers, decodeKey, hv, hvs]
      rfl

/-- A value that is not nested too deep can be read as a value of any kind. -/
theorem Within.decodeAny_eq_ok {n : Nat} {j : Json} (h : Within n j)
    {source : Source} (hs : source.Admits n) :
    ∃ v, decodeAny source (Node.ofJson j) = .ok v := by
  induction h generalizing source with
  | null => exact ⟨_, rfl⟩
  | bool b => exact ⟨_, rfl⟩
  | number k => exact ⟨_, rfl⟩
  | string s => exact ⟨_, rfl⟩
  | array _ ih =>
      obtain ⟨inner, henter, hinner⟩ := hs.enter
      obtain ⟨vs, hvs⟩ := decodeAnyItems_eq_ok (fun j hj => ih j hj hinner) 0
      refine ⟨.array vs, ?_⟩
      rw [Node.ofJson, decodeAny, henter, ok_bind, hvs]
      rfl
  | object _ ih =>
      obtain ⟨inner, henter, hinner⟩ := hs.enter
      obtain ⟨vs, hvs⟩ := decodeAnyMembers_eq_ok (fun m hm => ih m hm hinner) 0
      refine ⟨.object (sortMembers vs), ?_⟩
      rw [Node.ofJson, decodeAny, henter, ok_bind, hvs]
      rfl

theorem Within.items {n : Nat} {toJson : α → Json} {as : List α}
    (h : ∀ a ∈ as, Within n (toJson a)) :
    Within (n + 1) (.array (as.map toJson)) := by
  refine .array fun j hj => ?_
  obtain ⟨a, ha, rfl⟩ := List.mem_map.1 hj
  exact h a ha

/-! ## Exact parts -/

theorem exactItems_map {toJson : α → Json} {as : List α}
    (h : ∀ a ∈ as, Exact (toJson a)) :
    ExactItems (as.map toJson) := by
  induction as with
  | nil => trivial
  | cons a as ih =>
      exact ⟨h a List.mem_cons_self,
        ih fun x hx => h x (List.mem_cons_of_mem _ hx)⟩

theorem exactItems_strings (ts : List String) : ExactItems (ts.map .string) :=
  exactItems_map fun _ _ => trivial

theorem exactMembers_map (toJson : α → Json) {es : List (String × α)}
    (h : ∀ e ∈ es, Exact (toJson e.2)) :
    ExactMembers (es.map fun e => (e.1, toJson e.2)) := by
  induction es with
  | nil => trivial
  | cons e es ih =>
      exact ⟨h e List.mem_cons_self,
        ih fun x hx => h x (List.mem_cons_of_mem _ hx)⟩

/-! ## The law of the decoders -/

/-- A decoder makes the value of what was encoded, if so many levels may be
entered. -/
def Restores (decode : Source → Node → Decoded α) (n : Nat) (j : Json) (a : α) :
    Prop :=
  ∀ source : Source, source.Admits n → decode source (Node.ofJson j) = .ok a

theorem Restores.mono {decode : Source → Node → Decoded α} {n m : Nat}
    {j : Json} {a : α} (h : Restores decode n j a) (hle : n ≤ m) :
    Restores decode m j a :=
  fun source hs => h source (hs.mono hle)

/-- What a record does with a field that is given back. -/
theorem Restores.map_eq {decode : Source → Node → Decoded α} {n m : Nat}
    {j : Json} {a : α} (h : Restores decode n j a) {source : Source}
    (hs : source.Admits m) (hle : n ≤ m) (f : α → β) :
    (decode source (Node.ofJson j)).map f = .ok (f a) := by
  rw [h source (hs.mono hle)]
  rfl

theorem restores_string
    (s : String) : Restores (fun _ => decodeString) 0 (.string s) s :=
  fun _ _ => rfl

theorem restores_choice {choices : List (String × α)} {name : String} {a : α}
    (h : choices.lookup name = some a) :
    Restores (decodeChoice choices) 0 (.string name) a := by
  intro source _
  cases source
    <;> simp [decodeChoice, decodeChoiceText, decodeChoiceValue,
      Node.ofJson, choose, h]

theorem ofJson_ne_null {j : Json} (h : j ≠ .null) : Node.ofJson j ≠ .null := by
  cases j with
  | null => exact absurd rfl h
  | _ => intro hnode; rw [Node.ofJson] at hnode; exact Node.noConfusion hnode

theorem decodeOption_of_ne_null {decode : Node → Decoded α} {node : Node}
    (h : node ≠ .null) :
    decodeOption decode node = (decode node).map some := by
  cases node with
  | null => exact absurd rfl h
  | _ => rfl

/-- A value that is there and is not written as the word for nothing. -/
theorem Restores.some {decode : Source → Node → Decoded α} {n : Nat} {j : Json}
    {a : α} (h : Restores decode n j a) (hnull : j ≠ .null) :
    Restores (fun source => decodeOption (decode source)) n j (some a) := by
  intro source hs
  show decodeOption (decode source) (Node.ofJson j) = _
  rw [decodeOption_of_ne_null (ofJson_ne_null hnull)]
  exact h.map_eq hs (Nat.le_refl n) Option.some

theorem restores_none (decode : Source → Node → Decoded α) :
    Restores (fun source => decodeOption (decode source)) 0 .null none :=
  fun _ _ => rfl

theorem decodeItems_map {decode : Node → Decoded β} {toJson : α → Json}
    {f : α → β} {as : List α}
    (h : ∀ a ∈ as, decode (Node.ofJson (toJson a)) = .ok (f a)) (index : Nat) :
    decodeItems decode index (nodesOfItems (as.map toJson))
      = .ok (as.map f) := by
  induction as generalizing index with
  | nil => rfl
  | cons a as ih =>
      rw [List.map_cons, nodesOfItems, decodeItems, h a List.mem_cons_self,
        ih (fun x hx => h x (List.mem_cons_of_mem _ hx)) (index + 1)]
      rfl

/-- The items may come back as other values than the ones that were written. -/
theorem restores_list_map {decode : Source → Node → Decoded β}
    {toJson : α → Json} {f : α → β} {n : Nat} {as : List α}
    (h : ∀ a ∈ as, Restores decode n (toJson a) (f a)) :
    Restores (decodeList decode) (n + 1) (.array (as.map toJson))
      (as.map f) := by
  intro source hs
  obtain ⟨inner, henter, hinner⟩ := hs.enter
  rw [Node.ofJson, decodeList, henter, ok_bind,
    decodeItems_map (fun a ha => h a ha inner hinner) 0]
  rfl

theorem restores_list {decode : Source → Node → Decoded α} {toJson : α → Json}
    {n : Nat} {as : List α} (h : ∀ a ∈ as, Restores decode n (toJson a) a) :
    Restores (decodeList decode) (n + 1) (.array (as.map toJson)) as := by
  have hmap := restores_list_map (f := id) h
  rwa [List.map_id] at hmap

theorem restores_strings (ts : List String) :
    Restores (decodeList fun _ => decodeString) 1
      (.array (ts.map .string)) ts :=
  restores_list fun t _ => restores_string t

theorem decodeEntries_map {decode : Node → Decoded α} {toJson : α → Json}
    {es : List (String × α)}
    (h : ∀ e ∈ es, decode (Node.ofJson (toJson e.2)) = .ok e.2) (index : Nat) :
    decodeEntries decode index
      (nodesOfMembers (es.map fun e => (e.1, toJson e.2))) = .ok es := by
  induction es generalizing index with
  | nil => rfl
  | cons e es ih =>
      rw [List.map_cons, nodesOfMembers, decodeEntries, decodeKey,
        h e List.mem_cons_self,
        ih (fun x hx => h x (List.mem_cons_of_mem _ hx)) (index + 1)]
      rfl

theorem restores_table {decode : Source → Node → Decoded α} (toJson : α → Json)
    {n : Nat} {es : List (String × α)}
    (h : ∀ e ∈ es, Restores decode n (toJson e.2) e.2) :
    Restores (decodeTable decode) (n + 1)
      (.object (es.map fun e => (e.1, toJson e.2))) es := by
  intro source hs
  obtain ⟨inner, henter, hinner⟩ := hs.enter
  rw [Node.ofJson, decodeTable, henter, ok_bind,
    decodeEntries_map (fun e he => h e he inner hinner) 0]
  rfl

/-! ## Records -/

namespace Record

variable {r : Record α}

/-- A member that names a field for the first time is stored, and the members
behind it are stored after it. -/
theorem putMembers_field {source : Source} {index : Nat} {seen : List String}
    {a b : α} {key : String} {j : Json} {ms : List (String × Json)}
    (hkey : (r.fields.map Prod.fst).contains key = true)
    (hnew : seen.contains key = false)
    (hput : r.put key source (Node.ofJson j) a = .ok b) :
    r.putMembers source index seen a (nodesOfMembers ((key, j) :: ms))
      = r.putMembers source (index + 1) (key :: seen) b
        (nodesOfMembers ms) := by
  rw [nodesOfMembers, putMembers, decodeKey, ok_bind, if_pos hkey,
    if_neg (Bool.eq_false_iff.1 hnew), hput]
  rfl

/-- A record is restored if its members, stored one after the other, make it
up. -/
theorem restores_of_putMembers {n : Nat} {members : List (String × Json)}
    {a : α} (seen : List String) (hmissing : r.missing? seen = none)
    (hput : ∀ inner : Source, inner.Admits n →
      r.putMembers inner 0 [] r.blank (nodesOfMembers members)
        = .ok (a, seen)) :
    Restores r.decode (n + 1) (.object members) a := by
  intro source hs
  obtain ⟨inner, henter, hinner⟩ := hs.enter
  rw [Node.ofJson, decode, henter, ok_bind, hput inner hinner, ok_bind]
  dsimp only
  rw [hmissing]
  rfl

end Record

/-! ## Whole texts -/

section

variable {decode : Source → Node → Decoded α} {n : Nat} {j : Json} {a : α}

/-- The text of a restored value is read as that value. -/
theorem Restores.decodeText_compact (h : Restores decode n j a)
    (hexact : Exact j)
    (hn : n < 128) : decodeText decode j.compact = .ok a := by
  rw [Json.decodeText_compact hexact]
  exact h .wholeText hn

theorem Restores.decodeText_indented (h : Restores decode n j a)
    (hexact : Exact j)
    (hn : n < 128) : decodeText decode j.indented = .ok a := by
  rw [Json.decodeText_indented hexact]
  exact h .wholeText hn

end

end FlowAtlas.Json
