import FlowAtlas.Proofs.Json.Repeated

/-!
# Decoders that see a tree and its value alike

A tree may be decoded directly, or be read as a value of any kind first and
decoded from that. The two differ where an object names a member twice: a record
refuses such a member, and the value does not tell that there was one. A decoder
for which this is the only difference is faithful (`Faithful`): what it makes of
a tree it makes of the value, and what it makes of the value it makes of the
tree if no object of it names a member twice.

Lists, options and choices keep the law, one lemma each. A record keeps it if
its fields do and do not depend on each other (`Record.Independent`), for the
members of a value stand in another order than those of its tree. Members that
are not among the fields do no harm even if they are named twice, so all that is
compared are the members that a record knows (`Record.known`).
-/

namespace FlowAtlas.Json

variable {α β : Type}

/-- A decoder that sees a tree and the value it holds alike, as far as no member
is named twice. -/
structure Faithful (decode : Node → Decoded α) : Prop where
  forth : ∀ {node v a},
    node.Holds v → decode node = .ok a → decode (Node.ofJson v) = .ok a
  back : ∀ {node v a},
    node.Holds v → node.Distinct → decode (Node.ofJson v) = .ok a →
      decode node = .ok a

theorem Faithful.eq_ok_iff {decode : Node → Decoded α}
    (hfaithful : Faithful decode) {node : Node} {v : Json} (h : node.Holds v)
    (hdistinct : node.Distinct) (a : α) :
    decode (Node.ofJson v) = .ok a ↔ decode node = .ok a :=
  ⟨hfaithful.back h hdistinct, hfaithful.forth h⟩

theorem error_ne_ok {refusal : Refusal}
    {a : α} : (.error refusal : Decoded α) ≠ .ok a := by
  intro h
  cases h

/-! ## Scalars and choices -/

theorem faithful_string : Faithful decodeString where
  forth h hdecode := by
    rcases h.cases with heq | ⟨_, _, rfl, rfl, -⟩ | ⟨_, _, rfl, rfl, -⟩
    · rwa [heq]
    · exact absurd hdecode error_ne_ok
    · exact absurd hdecode error_ne_ok
  back h _ hdecode := by
    rcases h.cases with heq | ⟨_, _, rfl, rfl, -⟩ | ⟨_, _, rfl, rfl, -⟩
    · rwa [heq] at hdecode
    · exact absurd hdecode error_ne_ok
    · exact absurd hdecode error_ne_ok

theorem faithful_ok
    (a : α) : Faithful fun _ => .ok a := ⟨fun _ h => h, fun _ _ h => h⟩

theorem Faithful.map {decode : Node → Decoded α} (h : Faithful decode)
    (f : α → β) :
    Faithful fun node => (decode node).map f where
  forth hnode hdecode := by
    obtain ⟨a, ha, rfl⟩ := map_eq_ok hdecode
    rw [h.forth hnode ha]
    rfl
  back hnode hdistinct hdecode := by
    obtain ⟨a, ha, rfl⟩ := map_eq_ok hdecode
    rw [h.back hnode hdistinct ha]
    rfl

theorem Node.Holds.eq_null {node : Node} (h : node.Holds .null) :
    node = .null := by
  by_contra hne
  exact decodeAny_ne_null h hne rfl

theorem Faithful.option {decode : Node → Decoded α} (h : Faithful decode) :
    Faithful (decodeOption decode) where
  forth {node v a} hnode hdecode := by
    by_cases hnull : node = .null
    · subst hnull
      obtain rfl := Except.ok.inj hnode
      exact hdecode
    · rw [decodeOption_of_ne_null hnull] at hdecode
      rw [decodeOption_of_ne_null
        (ofJson_ne_null (decodeAny_ne_null hnode hnull))]
      exact (h.map some).forth hnode hdecode
  back {node v a} hnode hdistinct hdecode := by
    by_cases hnull : node = .null
    · subst hnull
      obtain rfl := Except.ok.inj hnode
      exact hdecode
    · rw [decodeOption_of_ne_null
        (ofJson_ne_null (decodeAny_ne_null hnode hnull))] at hdecode
      rw [decodeOption_of_ne_null hnull]
      exact (h.map some).back hnode hdistinct hdecode

/-- An object whose only member has no payload. -/
def bare (key : String) : Node := .object [(.ok key, .null)] none

theorem Node.Holds.ofJson_of_bare {key : String} {v : Json}
    (h : (bare key).Holds v) :
    Node.ofJson v = bare key := by
  obtain rfl := Except.ok.inj h
  rfl

theorem pairwise_named {ms : List (String × Node)}
    (h : (named ms).Pairwise (·.1 ≠ ·.1)) :
    ms.Pairwise (·.1 ≠ ·.1) :=
  (List.pairwise_map.1 h).imp fun hne heq => hne (congrArg Except.ok heq)

/-- Keys that differ in a tree differ in what its members hold. -/
theorem NamedValues.pairwise {ms : List (String × Node)}
    {vs : List (String × Json)} (h : NamedValues ms vs)
    (hms : ms.Pairwise (·.1 ≠ ·.1)) : vs.Pairwise (·.1 ≠ ·.1) := by
  have hkeys : (ms.map Prod.fst).Pairwise (· ≠ ·) := List.pairwise_map.2 hms
  rw [h.keys_eq] at hkeys
  exact List.pairwise_map.1 hkeys

theorem Node.Holds.eq_bare {node : Node} {key : String} {v : Json}
    (h : node.Holds v) (hdistinct : node.Distinct)
    (hv : Node.ofJson v = bare key) : node = bare key := by
  rcases h.cases with heq | ⟨_, _, rfl, rfl, -⟩ | ⟨ms, vs, rfl, rfl, hms⟩
  · rw [← heq, hv]
  · exact nomatch hv
  · have hvs := hms.pairwise (pairwise_named hdistinct.1)
    obtain ⟨hmembers, -⟩ := Node.object.inj hv
    rw [nodesOfMembers_eq] at hmembers
    obtain ⟨e, hsort, hkey⟩ := List.map_eq_singleton_iff.1
      ((List.map_map ..).symm.trans hmembers)
    obtain ⟨hkey, hnull⟩ := Prod.mk.inj hkey
    have hperm := sortMembers_perm vs
    rw [lastOnes_eq_self hvs, hsort] at hperm
    obtain rfl := List.perm_singleton.1 hperm.symm
    obtain ⟨m, rest, hm, hrest, rfl⟩ := List.forall₂_cons_right_iff.1 hms
    obtain rfl := List.forall₂_nil_right_iff.1 hrest
    obtain ⟨k, payload⟩ := m
    obtain ⟨rfl, hpayload⟩ := hm
    obtain ⟨k, j⟩ := e
    cases j with
    | null =>
        obtain rfl := hpayload.eq_null
        obtain rfl := Except.ok.inj hkey
        rfl
    | _ => exact nomatch hnull

theorem decodeChoiceValue_eq_ok_iff {choices : List (String × α)} {node : Node}
    {v : Json} {a : α} (h : node.Holds v) :
    decodeChoiceValue choices node = .ok a
      ↔ ∃ name, choices.lookup name = some a
        ∧ (node = .string name ∨ node = bare name) := by
  have hchoose : ∀ {name point}, choose choices name point = .ok a
      ↔ choices.lookup name = some a := by
    intro name point
    rw [choose]
    cases choices.lookup name with
    | none => exact iff_of_false error_ne_ok (Option.some_ne_none a).symm
    | some b =>
        exact ⟨fun h => congrArg _ (Except.ok.inj h),
          fun h => congrArg _ (Option.some.inj h)⟩
  constructor
  · intro hdecode
    unfold decodeChoiceValue at hdecode
    split at hdecode
    · exact ⟨_, hchoose.1 hdecode, .inl rfl⟩
    · next key payload cut =>
        obtain ⟨rfl, -⟩ := holds_object_iff.1 h
        obtain ⟨name, hname, hdecode⟩ := bind_eq_ok hdecode
        obtain ⟨b, hb, hdecode⟩ := bind_eq_ok hdecode
        obtain ⟨u, hu, hdecode⟩ := bind_eq_ok hdecode
        obtain rfl := Except.ok.inj hdecode
        cases key with
        | error spot => exact absurd hname error_ne_ok
        | ok k =>
            obtain rfl := Except.ok.inj hname
            have hunit := of_under_eq_ok hu
            cases payload with
            | null => exact ⟨k, hchoose.1 hb, .inr rfl⟩
            | _ => exact absurd hunit error_ne_ok
    · exact absurd hdecode error_ne_ok
    · cases node <;> exact absurd hdecode error_ne_ok
  · rintro ⟨name, hlookup, rfl | rfl⟩
    · exact hchoose.2 hlookup
    · show (do
        let a ← choose choices name (.afterKey 0)
        under 0 (decodeUnit .null)
        pure a) = _
      rw [hchoose.2 hlookup]
      rfl

theorem faithful_choice (choices : List (String × α)) :
    Faithful (decodeChoice choices .value) where
  forth h hdecode := by
    obtain ⟨name, hlookup, rfl | rfl⟩ :=
      (decodeChoiceValue_eq_ok_iff h).1 hdecode
    · obtain rfl := Except.ok.inj h
      exact hdecode
    · rwa [h.ofJson_of_bare]
  back {node v a} h hdistinct hdecode := by
    obtain ⟨w, hw⟩ := exists_holds_ofJson v
    obtain ⟨name, hlookup, hname | hname⟩ :=
      (decodeChoiceValue_eq_ok_iff hw).1 hdecode
    · rcases h.cases with heq | ⟨_, _, rfl, rfl, -⟩ | ⟨_, _, rfl, rfl, -⟩
      · rwa [heq] at hdecode
      · exact nomatch hname
      · exact nomatch hname
    · obtain rfl := h.eq_bare hdistinct hname
      rwa [hname] at hdecode

/-! ## Lists -/

theorem forall₂_comp {α β γ : Type} {R : α → β → Prop} {S : β → γ → Prop}
    {T : α → γ → Prop} (h : ∀ {a b c}, R a b → S b c → T a c) {as : List α}
    {bs : List β} {cs : List γ} (hR : List.Forall₂ R as bs)
    (hS : List.Forall₂ S bs cs) : List.Forall₂ T as cs := by
  induction hR generalizing cs with
  | nil =>
      cases hS
      exact .nil
  | cons hab _ ih =>
      cases hS with
      | cons hbc hrest => exact .cons (h hab hbc) (ih hrest)

theorem decodeList_array_iff {decode : Source → Node → Decoded α}
    {items : List Node} {as : List α} :
    decodeList decode .value (.array items none) = .ok as
      ↔ List.Forall₂ (fun node a => decode .value node = .ok a) items as := by
  have hitems : decodeItems (decode .value) 0 items = .ok as
      ↔ List.Forall₂ (fun node a => decode .value node = .ok a) items as :=
    decodeItems_eq_ok_iff
  rw [← hitems]
  show (decodeItems (decode .value) 0 items >>= fun as => pure as) = _ ↔ _
  rw [bind_pure]

theorem Faithful.list {decode : Source → Node → Decoded α}
    (h : Faithful (decode .value)) :
    Faithful (decodeList decode .value) where
  forth hnode hdecode := by
    rcases hnode.cases with
      heq | ⟨items, vs, rfl, rfl, hvs⟩ | ⟨_, _, rfl, rfl, -⟩
    · rwa [heq]
    · rw [Node.ofJson, nodesOfItems_eq]
      refine decodeList_array_iff.2 (List.forall₂_map_left_iff.2 ?_)
      refine forall₂_comp (fun hheld hitem => ?_) hvs.flip
        (decodeList_array_iff.1 hdecode)
      exact h.forth hheld hitem
    · exact absurd hdecode error_ne_ok
  back hnode hdistinct hdecode := by
    rcases hnode.cases with
      heq | ⟨items, vs, rfl, rfl, hvs⟩ | ⟨_, _, rfl, rfl, -⟩
    · rwa [heq] at hdecode
    · rw [Node.ofJson, nodesOfItems_eq] at hdecode
      have hitems :=
        (List.forall₂_and_left _ _).2 ⟨distinctItems_iff.1 hdistinct, hvs⟩
      refine decodeList_array_iff.2 (forall₂_comp (fun hheld hitem => ?_) hitems
        (List.forall₂_map_left_iff.1 (decodeList_array_iff.1 hdecode)))
      exact h.back hheld.2 hheld.1 hitem
    · exact absurd hdecode error_ne_ok

/-! ## Records -/

namespace Record

/-- The fields of a record are faithful, and the order in which two of them are
stored does not matter. -/
structure Independent (r : Record α) : Prop where
  faithful : ∀ key a, Faithful fun node => r.put key .value node a
  commute : ∀ {key key' node node' a b c},
    key ≠ key' → r.put key .value node a = .ok b →
      r.put key' .value node' b = .ok c →
      ∃ b', r.put key' .value node' a = .ok b'
        ∧ r.put key .value node b' = .ok c

variable {r : Record α}

/-- Fields are independent if each of them sets a part of the record, whatever
the record was before, and what different ones set is set in either order. -/
theorem Independent.of_sets {sets : String → (α → α) → Prop}
    (hfaithful : ∀ key a, Faithful fun node => r.put key .value node a)
    (hput : ∀ {key node a b}, r.put key .value node a = .ok b →
      ∃ f, sets key f ∧ ∀ c, r.put key .value node c = .ok (f c))
    (hsets : ∀ {key key' f g},
      key ≠ key' → sets key f → sets key' g → ∀ a, g (f a) = f (g a)) :
    r.Independent where
  faithful := hfaithful
  commute {key key' node node' a b c} hne h h' := by
    obtain ⟨f, hf, hkey⟩ := hput h
    obtain ⟨g, hg, hkey'⟩ := hput h'
    rw [hkey] at h
    obtain rfl := Except.ok.inj h
    rw [hkey'] at h'
    obtain rfl := Except.ok.inj h'
    exact ⟨g a, hkey' a, by rw [hkey, hsets hne hf hg]⟩

/-- Whether a key is that of a field. -/
def knows (r : Record α)
    (key : String) : Bool := (r.fields.map Prod.fst).contains key

/-- The members that a record does not pass over. -/
def known (r : Record α) (ms : List (String × Node)) : List (String × Node) :=
  ms.filter fun m => r.knows m.1

theorem known_cons_of_knows {m : String × Node} (ms : List (String × Node))
    (h : r.knows m.1 = true) : r.known (m :: ms) = m :: r.known ms :=
  List.filter_cons_of_pos h

theorem known_cons_of_not {m : String × Node} (ms : List (String × Node))
    (h : ¬ r.knows m.1 = true) : r.known (m :: ms) = r.known ms :=
  List.filter_cons_of_neg h

/-- Storing members one after the other makes one record of another. -/
def Stores (r : Record α) : List (String × Node) → α → α → Prop
  | [], a, b => a = b
  | m :: ms, a, b => ∃ c, r.put m.1 .value m.2 a = .ok c ∧ r.Stores ms c b

theorem Stores.perm (hr : r.Independent) {ms ms' : List (String × Node)}
    (hperm : ms.Perm ms') (hkeys : ms.Pairwise (·.1 ≠ ·.1)) {a b : α}
    (h : r.Stores ms a b) : r.Stores ms' a b := by
  induction hperm generalizing a with
  | nil => exact h
  | cons m _ ih =>
      obtain ⟨c, hc, h⟩ := h
      exact ⟨c, hc, ih (List.pairwise_cons.1 hkeys).2 h⟩
  | swap m m' _ =>
      obtain ⟨c, hc, d, hd, h⟩ := h
      have hne := (List.pairwise_cons.1 hkeys).1 m List.mem_cons_self
      obtain ⟨c', hc', hd'⟩ := hr.commute hne hc hd
      exact ⟨c', hc', d, hd', h⟩
  | trans hfirst _ ih ih' =>
      exact ih' ((hfirst.pairwise_iff Ne.symm).1 hkeys) (ih hkeys h)

theorem Stores.carry {ms ms' : List (String × Node)}
    (hcarry : List.Forall₂ (fun m m' : String × Node => m.1 = m'.1 ∧ ∀ {a b},
      r.put m.1 .value m.2 a = .ok b → r.put m.1 .value m'.2 a = .ok b) ms ms')
    {a b : α} (h : r.Stores ms a b) : r.Stores ms' a b := by
  induction hcarry generalizing a with
  | nil => exact h
  | @cons m m' _ _ hm _ ih =>
      obtain ⟨c, hc, h⟩ := h
      exact ⟨c, hm.1 ▸ hm.2 hc, ih h⟩

theorem putMembers_eq_ok_iff {ms : List (String × Node)}
    (hskip : ∀ m ∈ ms, skipFault? m.2 = none) {index : Nat}
    {seen seen' : List String} {a b : α} :
    r.putMembers .value index seen a (named ms) = .ok (b, seen')
      ↔ (r.known ms).Pairwise (·.1 ≠ ·.1) ∧ (∀ m ∈ r.known ms, m.1 ∉ seen)
        ∧ r.Stores (r.known ms) a b
        ∧ seen' = ((r.known ms).map Prod.fst).reverse ++ seen := by
  induction ms generalizing index seen a with
  | nil =>
      constructor
      · intro h
        obtain ⟨rfl, rfl⟩ := Prod.mk.inj (Except.ok.inj h)
        exact ⟨.nil, fun m hm => absurd hm List.not_mem_nil, rfl, rfl⟩
      · rintro ⟨-, -, rfl, rfl⟩
        rfl
  | cons m ms ih =>
      obtain ⟨key, node⟩ := m
      have htail := fun {index seen a} =>
        @ih (fun m hm => hskip m (List.mem_cons_of_mem _ hm))
          index seen a
      show r.putMembers .value index seen a
        ((.ok key, node) :: named ms) = _ ↔ _
      rw [putMembers, decodeKey, ok_bind]
      by_cases hknown : r.knows key = true
      · have hcons : r.known ((key, node) :: ms) = (key, node) :: r.known ms :=
          known_cons_of_knows ms hknown
        rw [if_pos
          (show (r.fields.map Prod.fst).contains key = true from hknown), hcons]
        by_cases hseen : key ∈ seen
        · rw [if_pos (List.contains_iff_mem.2 hseen)]
          exact iff_of_false error_ne_ok
            fun h => h.2.1 _ List.mem_cons_self hseen
        · rw [if_neg fun h => hseen (List.contains_iff_mem.1 h)]
          constructor
          · intro h
            obtain ⟨c, hc, h⟩ := bind_eq_ok h
            obtain ⟨hpairwise, hunseen, hstores, rfl⟩ := htail.1 h
            refine ⟨.cons (fun m hm heq => hunseen m hm ?_) hpairwise, ?_,
              ⟨c, of_under_eq_ok hc, hstores⟩, ?_⟩
            · exact heq ▸ List.mem_cons_self
            · intro m hm hmem
              rcases List.mem_cons.1 hm with rfl | hm
              · exact hseen hmem
              · exact hunseen m hm (List.mem_cons_of_mem _ hmem)
            · simp
          · rintro ⟨hpairwise, hunseen, ⟨c, hc, hstores⟩, rfl⟩
            obtain ⟨hhead, hpairwise⟩ := List.pairwise_cons.1 hpairwise
            rw [show r.put key .value node a = .ok c from hc]
            refine htail.2 ⟨hpairwise, fun m hm hmem => ?_, hstores, by simp⟩
            rcases List.mem_cons.1 hmem with heq | hmem
            · exact hhead m hm heq.symm
            · exact hunseen m (List.mem_cons_of_mem _ hm) hmem
      · have hcons : r.known ((key, node) :: ms) = r.known ms :=
          known_cons_of_not ms hknown
        rw [if_neg
          (show ¬ (r.fields.map Prod.fst).contains key = true from hknown),
          hcons, decodeIgnored, hskip _ List.mem_cons_self]
        exact htail

theorem missing?_eq_none_iff {seen : List String} :
    r.missing? seen = none ↔ ∀ f ∈ r.fields, f.2 = true → f.1 ∈ seen := by
  rw [missing?, Option.map_eq_none_iff, List.find?_eq_none]
  refine forall₂_congr fun f _ => ?_
  simp

/-- A record is made of an object that names none of its fields twice and all
that have to be given. -/
theorem decode_object_iff {ms : List (String × Node)}
    (hskip : ∀ m ∈ ms, skipFault? m.2 = none) {b : α} :
    r.decode .value (.object (named ms) none) = .ok b
      ↔ (r.known ms).Pairwise (·.1 ≠ ·.1) ∧ r.Stores (r.known ms) r.blank b
        ∧ ∀ f ∈ r.fields, f.2 = true → f.1 ∈ (r.known ms).map Prod.fst := by
  rw [decode, Source.enter, ok_bind]
  constructor
  · intro h
    obtain ⟨⟨c, seen⟩, hput, h⟩ := bind_eq_ok h
    obtain ⟨hpairwise, -, hstores, hseen⟩ := (putMembers_eq_ok_iff hskip).1 hput
    dsimp only [ending] at h
    rw [ok_bind] at h
    split at h
    · exact absurd h error_ne_ok
    · next hmissing =>
        obtain rfl := Except.ok.inj h
        refine ⟨hpairwise, hstores, fun f hf hneeded => ?_⟩
        have hmem := missing?_eq_none_iff.1 hmissing f hf hneeded
        rw [hseen, List.append_nil] at hmem
        exact List.mem_reverse.1 hmem
  · rintro ⟨hpairwise, hstores, hneeded⟩
    have hput : r.putMembers .value 0 [] r.blank (named ms) = _ :=
      (putMembers_eq_ok_iff hskip).2
        ⟨hpairwise, fun _ _ => List.not_mem_nil, hstores, rfl⟩
    have hmissing :
        r.missing? (((r.known ms).map Prod.fst).reverse ++ []) = none := by
      refine missing?_eq_none_iff.2 fun f hf hmust => ?_
      rw [List.append_nil, List.mem_reverse]
      exact hneeded f hf hmust
    rw [hput, ok_bind]
    dsimp only [ending]
    rw [ok_bind, hmissing]
    rfl

/-- Whatever a field makes of one tree it makes of another one. -/
def Carries (r : Record α) (node node' : Node) : Prop :=
  ∀ {key a b}, r.put key .value node a = .ok b →
    r.put key .value node' a = .ok b

theorem putItems_carries {items items' : List Node}
    (hcarry : List.Forall₂ (fun node node' => r.Carries node node')
      items items')
    {index : Nat} {fields unfilled : List (String × Bool)} {surplus : List Node}
    {a b : α}
    (h : r.putItems .value index a fields items = .ok (b, surplus, unfilled)) :
    ∃ surplus', r.putItems .value index a fields items'
        = .ok (b, surplus', unfilled)
      ∧ surplus'.isEmpty = surplus.isEmpty := by
  induction hcarry generalizing index a fields with
  | nil => exact ⟨surplus, h, rfl⟩
  | cons hnode _ ih =>
      cases fields with
      | nil =>
          cases h
          exact ⟨_, rfl, rfl⟩
      | cons field fields =>
          rw [putItems] at h
          obtain ⟨c, hc, h⟩ := bind_eq_ok h
          obtain ⟨surplus', hrest, hempty⟩ := ih h
          refine ⟨surplus', ?_, hempty⟩
          rw [putItems, hnode (of_under_eq_ok hc)]
          exact hrest

theorem decode_array_carries {items items' : List Node}
    (hcarry : List.Forall₂ (fun node node' => r.Carries node node')
      items items')
    {b : α} (h : r.decode .value (.array items none) = .ok b) :
    r.decode .value (.array items' none) = .ok b := by
  rw [decode, Source.enter, ok_bind] at h ⊢
  obtain ⟨⟨c, surplus, unfilled⟩, hput, h⟩ := bind_eq_ok h
  obtain ⟨surplus', hput', hempty⟩ := putItems_carries hcarry hput
  rw [hput', ok_bind]
  cases unfilled with
  | nil =>
      obtain ⟨u, hending, h⟩ := bind_eq_ok h
      show (r.listEnding .value items'.length (!surplus'.isEmpty) none
        >>= fun _ => pure c) = _
      rw [hempty]
      have hsurplus : (!surplus.isEmpty) = false := by
        by_contra htrue
        rw [Bool.not_eq_false] at htrue
        rw [htrue] at hending
        exact absurd hending error_ne_ok
      rw [hsurplus]
      exact h
  | cons field fields =>
      obtain ⟨u, hending, h⟩ := bind_eq_ok h
      split at h
      · exact absurd h error_ne_ok
      · next hneeded =>
          show (if ((field :: fields).any Prod.snd) = true then _ else pure c)
            = _
          rw [if_neg hneeded]
          exact h

/-- A member of a value as a member of a tree. -/
def asMember (v : String × Json) : String × Node := (v.1, Node.ofJson v.2)

/-- What a record knows of a value in order is what it knows of the members that
the value was read from, if it knows none of them twice. -/
theorem known_sortMembers_perm {vs : List (String × Json)}
    (h : (vs.filter fun v => r.knows v.1).Pairwise (·.1 ≠ ·.1)) :
    (r.known ((sortMembers vs).map asMember)).Perm
      ((vs.filter fun v => r.knows v.1).map asMember) := by
  have hsame : ((lastOnes vs).filter fun v => r.knows v.1) = vs.filter fun v =>
      r.knows v.1 := by
    rw [filter_lastOnes, lastOnes_eq_self h]
  rw [known, List.filter_map, ← hsame]
  exact ((sortMembers_perm vs).filter _).map _

theorem namedValues_known {ms : List (String × Node)}
    {vs : List (String × Json)} (h : NamedValues ms vs) :
    NamedValues (r.known ms) (vs.filter fun v => r.knows v.1) := by
  induction h with
  | nil => exact .nil
  | @cons m v ms vs hm _ ih =>
      by_cases hknown : r.knows m.1 = true
      · rw [known_cons_of_knows ms hknown,
          List.filter_cons_of_pos (by rwa [← hm.1])]
        exact .cons hm ih
      · rw [known_cons_of_not ms hknown,
          List.filter_cons_of_neg (by rwa [← hm.1])]
        exact ih

theorem skipFault?_named {ms : List (String × Node)} {vs : List (String × Json)}
    (h : NamedValues ms vs) : ∀ m ∈ ms, skipFault? m.2 = none := by
  induction h with
  | nil => exact fun m hm => absurd hm List.not_mem_nil
  | cons hm _ ih =>
      exact List.forall_mem_cons.2 ⟨skipFault?_of_holds _ hm.2, ih⟩

theorem skipFault?_asMember (vs : List (String × Json)) :
    ∀ m ∈ vs.map asMember, skipFault? m.2 = none := by
  intro m hm
  obtain ⟨v, -, rfl⟩ := List.mem_map.1 hm
  obtain ⟨w, hw⟩ := exists_holds_ofJson v.2
  exact skipFault?_of_holds _ hw

theorem ofJson_object (vs : List (String × Json)) :
    Node.ofJson (.object vs) = .object (named (vs.map asMember)) none := by
  rw [Node.ofJson, nodesOfMembers_eq]
  rfl

theorem Independent.decode_forth (hr : r.Independent) {node : Node} {v : Json}
    {a : α} (h : node.Holds v) (hdecode : r.decode .value node = .ok a) :
    r.decode .value (Node.ofJson v) = .ok a := by
  have hforth : ∀ {node v}, node.Holds v → r.Carries node (Node.ofJson v) :=
    fun hnode _ _ _ hput => (hr.faithful _ _).forth hnode hput
  rcases h.cases with heq | ⟨items, vs, rfl, rfl, hvs⟩ | ⟨ms, vs, rfl, rfl, hms⟩
  · rwa [heq]
  · rw [Node.ofJson, nodesOfItems_eq]
    exact decode_array_carries
      (List.forall₂_map_right_iff.2 (hvs.imp fun _ _ => hforth)) hdecode
  · obtain ⟨hkeys, hstores, hneeded⟩ :=
      (decode_object_iff (skipFault?_named hms)).1 hdecode
    have hvalues : NamedValues (r.known ms) _ := namedValues_known hms
    have hvs := hvalues.pairwise hkeys
    have hperm := known_sortMembers_perm hvs
    have hpairwise :
        ((vs.filter fun v => r.knows v.1).map asMember).Pairwise (·.1 ≠ ·.1) :=
      List.pairwise_map.2 hvs
    have hcarry :
        r.Stores ((vs.filter fun v => r.knows v.1).map asMember) r.blank a :=
      hstores.carry (List.forall₂_map_right_iff.2
        (hvalues.imp fun _ _ hm => ⟨hm.1, hforth hm.2⟩))
    rw [ofJson_object]
    refine (decode_object_iff (skipFault?_asMember _)).2
      ⟨(hperm.pairwise_iff Ne.symm).2 hpairwise,
        hcarry.perm hr hperm.symm hpairwise, fun f hf hmust => ?_⟩
    have hmem := hneeded f hf hmust
    rw [hvalues.keys_eq] at hmem
    rw [(hperm.map Prod.fst).mem_iff, List.map_map]
    exact hmem

theorem Independent.decode_back (hr : r.Independent) {node : Node} {v : Json}
    {a : α} (h : node.Holds v) (hdistinct : node.Distinct)
    (hdecode : r.decode .value (Node.ofJson v) = .ok a) :
    r.decode .value node = .ok a := by
  have hback : ∀ {node v},
      node.Distinct ∧ node.Holds v → r.Carries (Node.ofJson v) node :=
    fun hnode _ _ _ hput => (hr.faithful _ _).back hnode.2 hnode.1 hput
  rcases h.cases with heq | ⟨items, vs, rfl, rfl, hvs⟩ | ⟨ms, vs, rfl, rfl, hms⟩
  · rwa [heq] at hdecode
  · rw [Node.ofJson, nodesOfItems_eq] at hdecode
    have hitems :=
      (List.forall₂_and_left _ _).2 ⟨distinctItems_iff.1 hdistinct, hvs⟩
    exact decode_array_carries
      (List.forall₂_map_left_iff.2 (hitems.imp fun _ _ => hback).flip) hdecode
  · rw [ofJson_object] at hdecode
    obtain ⟨-, hstores, hneeded⟩ :=
      (decode_object_iff (skipFault?_asMember _)).1 hdecode
    have hkeys : (r.known ms).Pairwise (·.1 ≠ ·.1) :=
      (pairwise_named hdistinct.1).filter _
    have hvalues : NamedValues (r.known ms) _ := namedValues_known hms
    have hvs := hvalues.pairwise hkeys
    have hperm := known_sortMembers_perm hvs
    have hpairwise :
        ((vs.filter fun v => r.knows v.1).map asMember).Pairwise (·.1 ≠ ·.1) :=
      List.pairwise_map.2 hvs
    have hall : ∀ m ∈ r.known ms, m.2.Distinct := fun m hm =>
      distinctMembers_iff.1 hdistinct.2 _
        (List.mem_map_of_mem (List.mem_of_mem_filter hm))
    have hboth := (List.forall₂_and_left _ _).2 ⟨hall, hvalues⟩
    have hcarry :=
      (hstores.perm hr hperm ((hperm.pairwise_iff Ne.symm).2 hpairwise)).carry
        (List.forall₂_map_left_iff.2 (hboth.imp fun _ _ hm =>
          ⟨hm.2.1.symm, hback ⟨hm.1, hm.2.2⟩⟩).flip)
    refine (decode_object_iff (skipFault?_named hms)).2
      ⟨hkeys, hcarry, fun f hf hmust => ?_⟩
    have hmem := hneeded f hf hmust
    rw [(hperm.map Prod.fst).mem_iff, List.map_map] at hmem
    rw [hvalues.keys_eq]
    exact hmem

/-- A record whose fields are faithful and independent is faithful. -/
theorem Independent.faithful_decode (hr : r.Independent) :
    Faithful (r.decode .value) :=
  ⟨hr.decode_forth, hr.decode_back⟩

end Record

end FlowAtlas.Json
