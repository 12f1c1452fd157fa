import FlowAtlas.Proofs.Json.Layout

/-!
# Texts with a part overwritten

In a layout a part can be overwritten: an item of a list by its index, a field
of a record by its name. The question is what becomes of the value that a
decoder makes of the text. The answer is put together in the same way as the
decoder. `Transfers R decode f` says that `decode` makes something of the layout
after `f` whenever it makes something of the layout before, and that the two are
related by `R`. A list and a record transfer what their parts transfer.

The two layouts stand in different texts. So what is compared is never one tree
with another one but two trees that are read from the two layouts. For a part
that stays as it is, this comes down to one tree again if the part is read as a
value (`transfers_of_holds`); a member that a record passes over needs no more
than to be complete.
-/

namespace FlowAtlas.Json

variable {α : Type}

/-! ## Overwriting -/

/-- The items of a list with new values, each of them by its index. -/
def overEach (f : Nat → Layout → Layout) :
    List (Item Layout) → List (Item Layout)
  | [] => []
  | item :: items =>
    { item with value := f 0 item.value } :: overEach (fun i => f (i + 1)) items

/-- The items of a list with new values, as far as there are names for them. -/
def overNamed (f : String → Layout → Layout) :
    List String → List (Item Layout) → List (Item Layout)
  | name :: names, item :: items =>
    { item with value := f name item.value } :: overNamed f names items
  | _, items => items

/-- The members of an object with new values, each of them by what its key
says. -/
def overKeyed (f : String → Layout → Layout) (members : List (Member Layout)) :
    List (Member Layout) :=
  members.map fun m =>
    { m with value := (text? m.key).elim m.value fun key => f key m.value }

/-- A list with its items overwritten. -/
def Layout.overItems (f : Nat → Layout → Layout) : Layout → Layout
  | .array items close => .array (overEach f items) close
  | l => l

/-- A record with its fields overwritten, whether it is written as an object or
as a list of its fields in order. -/
def Layout.overFields (names : List String)
    (f : String → Layout → Layout) : Layout → Layout
  | .object members close => .object (overKeyed f members) close
  | .array items close => .array (overNamed f names items) close
  | l => l

/-! ## Lists place by place -/

/-- Two lists are equally long, and what stands at the same place is related. -/
def Placewise (R : Nat → α → α → Prop) (as bs : List α) : Prop :=
  ∀ i : Nat, Option.Rel (R i) as[i]? bs[i]?

theorem placewise_nil
    (R : Nat → α → α → Prop) : Placewise R [] [] := fun _ => .none

theorem Placewise.cons {R : Nat → α → α → Prop} {a b : α} {as bs : List α}
    (h : R 0 a b) (hs : Placewise (fun i => R (i + 1)) as bs) :
    Placewise R (a :: as) (b :: bs) := by
  intro i
  cases i with
  | zero => exact .some h
  | succ i => exact hs i

/-! ## Decoders on both sides of a change -/

/-- Whatever a decoder makes of a layout, it makes something related of the
layout after a change. -/
def Transfers (R : α → α → Prop) (decode : Node → Decoded α)
    (f : Layout → Layout) : Prop :=
  ∀ l node node' a, ReadAs l node → ReadAs (f l) node' → decode node = .ok a →
    ∃ a', decode node' = .ok a' ∧ R a a'

theorem transfers_of_holds {decode : Node → Decoded α}
    (h : ∀ node a, decode node = .ok a → ∃ v, node.Holds v) :
    Transfers Eq decode id := by
  intro l node node' a hread hread' hdecode
  obtain ⟨v, hv⟩ := h node a hdecode
  rw [hread.eq_of_holds hread' hv]
  exact ⟨a, hdecode, rfl⟩

/-- What is stored in a record is transferred with the value that was decoded
for it. -/
theorem Transfers.map_eq {β : Type} {R : β → β → Prop}
    {decode : Node → Decoded β} {f : Layout → Layout} (h : Transfers R decode f)
    {l : Layout} {node node' : Node} (hread : ReadAs l node)
    (hread' : ReadAs (f l) node') {set : β → α} {a : α}
    (hput : (decode node).map set = .ok a) (set' : β → α) :
    ∃ b b', a = set b ∧ (decode node').map set' = .ok (set' b') ∧ R b b' := by
  obtain ⟨b, hb, rfl⟩ := map_eq_ok hput
  obtain ⟨b', hb', hrel⟩ := h l node node' b hread hread' hb
  exact ⟨b, b', rfl, by rw [hb']; rfl, hrel⟩

/-! ## Decoders of values that stay as they are -/

theorem transfers_string : Transfers Eq decodeString id :=
  transfers_of_holds fun node a h => by
    cases node with
    | string s => exact ⟨.string s, rfl⟩
    | _ => exact nomatch h

theorem transfers_bool : Transfers Eq decodeBool id :=
  transfers_of_holds fun node a h => by
    cases node with
    | bool b => exact ⟨.bool b, rfl⟩
    | _ => exact nomatch h

theorem mismatch_ne_ok {node : Node} {expected : String} {a : α} :
    mismatch node expected ≠ .ok a := by
  intro h
  cases node <;> exact nomatch h

theorem noChoiceName_ne_ok {cut : Option Stop} {a : α} :
    noChoiceName cut ≠ .ok a := by
  intro h
  cases cut with
  | none => exact nomatch h
  | some stop =>
      rw [noChoiceName] at h
      split at h
      · split at h <;> exact mismatch_ne_ok h
      · split at h <;> exact nomatch h

theorem transfers_choice (choices : List (String × α)) (levels : Nat) :
    Transfers Eq (decodeChoice choices (.text levels)) id := by
  refine transfers_of_holds fun node a h => ?_
  rw [decodeChoice] at h
  cases node with
  | string s => exact ⟨.string s, rfl⟩
  | object members cut =>
      obtain ⟨-, -, hmembers⟩ := bind_eq_ok h
      cases members with
      | nil => exact absurd hmembers noChoiceName_ne_ok
      | cons m others =>
          obtain ⟨key, payload⟩ := m
          obtain ⟨name, hkey, hname⟩ := bind_eq_ok hmembers
          obtain ⟨b, -, hchoice⟩ := bind_eq_ok hname
          obtain ⟨⟨⟩, hpayload, hend⟩ := bind_eq_ok hchoice
          clear h hmembers hname hchoice
          obtain rfl : key = .ok name := by
            cases key with
            | ok s => exact congrArg _ (Except.ok.inj hkey)
            | error spot => cases hkey
          obtain rfl : payload = .null := by
            cases payload with
            | null => rfl
            | _ => cases hpayload
          cases others with
          | cons _ _ => cases hend
          | nil =>
              cases cut with
              | none => exact ⟨_, rfl⟩
              | some stop =>
                  dsimp only at hend
                  split at hend <;> cases hend
  | unread first stop =>
      rw [decodeChoiceText] at h
      split at h <;> cases h
  | _ => cases h

theorem transfers_strings (source : Source) :
    Transfers Eq (decodeList (fun _ => decodeString) source) id := by
  refine transfers_of_holds fun node as h => ?_
  cases node with
  | array items cut =>
      obtain ⟨inner, -, h⟩ := bind_eq_ok h
      obtain ⟨bs, hbs, h⟩ := bind_eq_ok h
      obtain ⟨⟨⟩, hcut, -⟩ := bind_eq_ok h
      refine ⟨.array (bs.map .string),
        holds_array_iff.2 ⟨ending_eq_ok hcut, _, ?_, rfl⟩⟩
      rw [List.forall₂_map_right_iff]
      refine (decodeItems_eq_ok_iff.1 hbs).imp fun node s hs => ?_
      cases node with
      | string s' =>
          exact congrArg (fun s => Except.ok (Json.string s)) (Except.ok.inj hs)
      | _ => exact nomatch hs
  | _ => exact nomatch h

theorem transfers_items {decode : Node → Decoded α} {R : Nat → α → α → Prop}
    {f : Nat → Layout → Layout} (h : ∀ i, Transfers (R i) decode (f i))
    {items : List (Item Layout)} {nodes nodes' : List Node} {as : List α}
    (hread : ItemsReadAs items nodes)
    (hread' : ItemsReadAs (overEach f items) nodes')
    (hdecode : List.Forall₂ (fun node a => decode node = .ok a) nodes as) :
    ∃ as', List.Forall₂ (fun node a => decode node = .ok a) nodes' as'
      ∧ Placewise R as as' := by
  induction items generalizing R f nodes nodes' as with
  | nil =>
      cases hread
      cases hread'
      cases hdecode
      exact ⟨[], .nil, placewise_nil R⟩
  | cons item items ih =>
      cases hread with
      | cons hnode hnodes =>
          cases hread' with
          | cons hnode' hnodes' =>
              cases hdecode with
              | cons ha has =>
                  obtain ⟨a', ha', hrel⟩ := h 0 _ _ _ _ hnode hnode' ha
                  obtain ⟨as', has', hrels⟩ :=
                    ih (fun i => h (i + 1)) hnodes hnodes' has
                  exact ⟨a' :: as', .cons ha' has', .cons hrel hrels⟩

theorem Transfers.list {decode : Source → Node → Decoded α}
    {R : Nat → α → α → Prop} {f : Nat → Layout → Layout} {source inner : Source}
    (henter : source.enter = .ok inner)
    (h : ∀ i, Transfers (R i) (decode inner) (f i)) :
    Transfers (Placewise R) (decodeList decode source)
      (Layout.overItems f) := by
  intro l node node' as hread hread' hdecode
  cases hread with
  | array hitems =>
      rw [decodeList, henter, ok_bind] at hdecode
      obtain ⟨bs, hbs, hdecode⟩ := bind_eq_ok hdecode
      obtain rfl := Except.ok.inj hdecode
      cases hread' with
      | array hitems' =>
          obtain ⟨as', has', hrel⟩ :=
            transfers_items h hitems hitems' (decodeItems_eq_ok_iff.1 hbs)
          refine ⟨as', ?_, hrel⟩
          rw [decodeList, henter, ok_bind, decodeItems_eq_ok_iff.2 has']
          rfl
  | _ => cases hdecode

/-! ## Records -/

namespace Record

/-- Storing a field keeps a relation between two records, if the field is
changed on the side of the second one. -/
def Retains (r : Record α) (R : α → α → Prop) (source : Source)
    (f : String → Layout → Layout) : Prop :=
  ∀ key l node node' a a' b, ReadAs l node → ReadAs (f key l) node' → R a a' →
    r.put key source node a
      = .ok b → ∃ b', r.put key source node' a' = .ok b' ∧ R b b'

variable {r : Record α} {R : α → α → Prop} {source : Source}
  {f : String → Layout → Layout}

theorem Retains.putMembers (h : r.Retains R source f)
    {members : List (Member Layout)}
    {nodes nodes' : List (StringContent × Node)}
    (hread : MembersReadAs members nodes)
    (hread' : MembersReadAs (overKeyed f members) nodes') {index : Nat}
    {seen seen' : List String} {a a' b : α} (ha : R a a')
    (hput : r.putMembers source index seen a nodes = .ok (b, seen')) :
    ∃ b', r.putMembers source index seen a' nodes' = .ok (b', seen')
      ∧ R b b' := by
  induction members generalizing nodes nodes' index seen a a' with
  | nil =>
      cases hread
      cases hread'
      obtain ⟨rfl, rfl⟩ := Prod.mk.inj (Except.ok.inj hput)
      exact ⟨a', rfl, ha⟩
  | cons m members ih =>
      cases hread with
      | @cons _ _ content node _ hkey hnode hnodes =>
          cases hread' with
          | @cons _ _ content' node' _ hkey' hnode' hnodes' =>
              rw [Record.putMembers] at hput
              obtain ⟨key, hcontent, hput⟩ := bind_eq_ok hput
              obtain ⟨s, rfl⟩ : ∃ s, content = .ok s := by
                cases content with
                | ok s => exact ⟨s, rfl⟩
                | error spot => cases hcontent
              obtain rfl := Except.ok.inj hcontent
              obtain rfl := hkey.eq_ok hkey'
              have htext : text? m.key = some s := hkey.symm
              dsimp only at hnode'
              rw [htext, Option.elim_some] at hnode'
              rw [Record.putMembers, decodeKey, ok_bind]
              split at hput
              · next hknown =>
                  rw [if_pos hknown]
                  split at hput
                  · cases hput
                  · next hseen =>
                      rw [if_neg hseen]
                      obtain ⟨c, hc, hput⟩ := bind_eq_ok hput
                      obtain ⟨c', hc', hrel⟩ :=
                        h s _ _ _ _ _ _ hnode hnode' ha (of_under_eq_ok hc)
                      rw [hc']
                      exact ih hnodes hnodes' hrel hput
              · next hknown =>
                  -- A member that is passed over need not be a value that can
                  -- be held.
                  obtain ⟨-, -, hput⟩ := bind_eq_ok hput
                  rw [if_neg hknown, decodeIgnored, hnode'.skipFault?_eq]
                  exact ih hnodes hnodes' ha hput

theorem Retains.putItems (h : r.Retains R source f)
    {fields unfilled : List (String × Bool)} {items : List (Item Layout)}
    {nodes nodes' surplus : List Node} (hread : ItemsReadAs items nodes)
    (hread' : ItemsReadAs (overNamed f (fields.map Prod.fst) items) nodes')
    {index : Nat} {a a' b : α} (ha : R a a')
    (hput : r.putItems source index a fields nodes
      = .ok (b, surplus, unfilled)) :
    ∃ b' surplus', r.putItems source index a' fields nodes'
        = .ok (b', surplus', unfilled)
      ∧ surplus'.isEmpty = surplus.isEmpty ∧ R b b' := by
  induction items generalizing nodes nodes' fields index a a' with
  | nil =>
      cases hread
      cases fields <;> cases hread' <;> cases hput
        <;> exact ⟨a', [], rfl, rfl, ha⟩
  | cons item items ih =>
      cases hread with
      | cons hnode hnodes =>
          cases fields with
          | nil =>
              cases hread' with
              | cons hnode' hnodes' =>
                  cases hput
                  exact ⟨a', _, rfl, rfl, ha⟩
          | cons field fields =>
              cases hread' with
              | cons hnode' hnodes' =>
                  rw [Record.putItems] at hput
                  obtain ⟨c, hc, hput⟩ := bind_eq_ok hput
                  obtain ⟨c', hc', hrel⟩ :=
                    h field.1 _ _ _ _ _ _ hnode hnode' ha (of_under_eq_ok hc)
                  rw [Record.putItems, hc']
                  exact ih hnodes hnodes' hrel hput

theorem listEnding_eq_ok_iff {length : Nat} {surplus : Bool} :
    r.listEnding source length surplus none = .ok () ↔ surplus = false := by
  cases surplus with
  | false => exact iff_of_true (by cases source <;> rfl) rfl
  | true =>
      exact iff_of_false (by cases source <;> exact fun h => nomatch h)
        Bool.noConfusion

/-- A record transfers a relation that holds of the blank record and is kept by
its fields. -/
theorem Retains.transfers {inner : Source} (henter : source.enter = .ok inner)
    (hblank : R r.blank r.blank) (h : r.Retains R inner f) :
    Transfers R (r.decode source)
      (Layout.overFields (r.fields.map Prod.fst) f) := by
  intro l node node' a hread hread' hdecode
  cases hread with
  | object hmembers =>
      cases hread' with
      | object hmembers' =>
          rw [decode, henter, ok_bind] at hdecode ⊢
          obtain ⟨⟨b, seen⟩, hput, hdecode⟩ := bind_eq_ok hdecode
          obtain ⟨b', hput', hrel⟩ :=
            h.putMembers hmembers hmembers' hblank hput
          rw [hput', ok_bind]
          obtain ⟨-, -, hdecode⟩ := bind_eq_ok hdecode
          dsimp only [ending] at hdecode ⊢
          rw [ok_bind]
          split at hdecode
          · cases hdecode
          · obtain rfl := Except.ok.inj hdecode
            exact ⟨b', rfl, hrel⟩
  | array hitems =>
      cases hread' with
      | array hitems' =>
          rw [decode, henter, ok_bind] at hdecode ⊢
          obtain ⟨⟨b, surplus, unfilled⟩, hput, hdecode⟩ := bind_eq_ok hdecode
          obtain ⟨b', surplus', hput', hempty, hrel⟩ :=
            h.putItems hitems hitems' hblank hput
          cases unfilled with
          | nil =>
              obtain ⟨⟨⟩, hending, hdecode⟩ := bind_eq_ok hdecode
              obtain rfl := Except.ok.inj hdecode
              refine ⟨b', ?_, hrel⟩
              rw [hput', ok_bind]
              dsimp only
              rw [hempty, listEnding_eq_ok_iff.1 hending,
                listEnding_eq_ok_iff.2 rfl]
              rfl
          | cons field fields =>
              obtain ⟨⟨⟩, -, hdecode⟩ := bind_eq_ok hdecode
              split at hdecode
              · cases hdecode
              · next hneeded =>
                  obtain rfl := Except.ok.inj hdecode
                  refine ⟨b', ?_, hrel⟩
                  rw [hput', ok_bind]
                  dsimp only [ending]
                  rw [ok_bind, if_neg hneeded]
                  rfl
  | _ => cases hdecode

end Record

end FlowAtlas.Json
