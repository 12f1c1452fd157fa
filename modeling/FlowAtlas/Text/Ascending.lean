/-!
# Ascending lists of texts

A finite set of texts, kept as the ascending list of its members, and a table
from texts to values, kept in ascending order of its keys. Both have one form
only, so equal sets are equal lists.
-/

namespace FlowAtlas.Text

/-- Each text comes before the ones behind it. -/
def Ascending (ts : List String) : Prop := ts.Pairwise (· < ·)

/-- Adds a text where it belongs, unless it is there. -/
def insert (s : String) : List String → List String
  | [] => [s]
  | t :: ts =>
    if s < t then s :: t :: ts
    else if s = t then t :: ts
    else t :: insert s ts

/-- Adds texts one after the other. -/
def insertAll (new : List String) (ts : List String) : List String :=
  new.foldl (fun ts s => insert s ts) ts

/-- Changes the value of a key, which is `base` as long as the key is not
there. -/
def update {α : Type} (key : String) (base : α) (change : α → α) :
    List (String × α) → List (String × α)
  | [] => [(key, change base)]
  | (k, a) :: rest =>
    if key < k then (key, change base) :: (k, a) :: rest
    else if key = k then (k, change a) :: rest
    else (k, a) :: update key base change rest

theorem lt_of_not_lt_of_ne {s t : String} (h : ¬ s < t) (hne : s ≠ t) :
    t < s := by
  rcases Std.lt_trichotomy t s with h' | h' | h'
  · exact h'
  · exact absurd h'.symm hne
  · exact absurd h' h

@[simp] theorem mem_insert {x s : String} {ts : List String} :
    x ∈ insert s ts ↔ x = s ∨ x ∈ ts := by
  induction ts with
  | nil => simp [insert]
  | cons t ts ih =>
    unfold insert
    split
    · simp
    · split
      · rename_i h; subst h; simp
      · simp only [List.mem_cons, ih]
        exact or_left_comm

theorem Ascending.insert {ts : List String} (h : Ascending ts) (s : String) :
    Ascending (Text.insert s ts) := by
  induction ts with
  | nil => simp [Text.insert, Ascending]
  | cons t ts ih =>
    have ht := List.pairwise_cons.1 h
    unfold Text.insert
    split
    · rename_i hlt
      refine List.pairwise_cons.2 ⟨?_, h⟩
      intro x hx
      rcases List.mem_cons.1 hx with rfl | hx
      · exact hlt
      · exact String.lt_trans hlt (ht.1 x hx)
    · split
      · exact h
      · rename_i hlt hne
        refine List.pairwise_cons.2 ⟨?_, ih ht.2⟩
        intro x hx
        rcases mem_insert.1 hx with rfl | hx
        · exact lt_of_not_lt_of_ne hlt hne
        · exact ht.1 x hx

theorem Ascending.insertAll {ts : List String} (h : Ascending ts)
    (new : List String) :
    Ascending (Text.insertAll new ts) := by
  unfold Text.insertAll
  induction new generalizing ts with
  | nil => exact h
  | cons s new ih => exact ih (h.insert s)

@[simp] theorem mem_insertAll {x : String} {new ts : List String} :
    x ∈ insertAll new ts ↔ x ∈ new ∨ x ∈ ts := by
  unfold insertAll
  induction new generalizing ts with
  | nil => simp
  | cons s new ih =>
    simp only [List.foldl_cons, ih, mem_insert, List.mem_cons]
    rw [← or_assoc, or_comm (a := x ∈ new), or_assoc, or_comm (a := x = s),
      or_assoc, or_comm]

theorem mem_update {α : Type} {key : String} {base : α} {change : α → α}
    {l : List (String × α)} {e : String × α}
    (h : e ∈ update key base change l) :
    e ∈ l
      ∨ (e.1 = key
        ∧ (e.2 = change base ∨ ∃ a, (key, a) ∈ l ∧ e.2 = change a)) := by
  induction l with
  | nil =>
    simp only [update, List.mem_singleton] at h
    subst h
    exact .inr ⟨rfl, .inl rfl⟩
  | cons p rest ih =>
    obtain ⟨k, a⟩ := p
    unfold update at h
    split at h
    · rcases List.mem_cons.1 h with rfl | h
      · exact .inr ⟨rfl, .inl rfl⟩
      · exact .inl h
    · split at h
      · rename_i hk
        subst hk
        rcases List.mem_cons.1 h with rfl | h
        · exact .inr ⟨rfl, .inr ⟨a, List.mem_cons_self, rfl⟩⟩
        · exact .inl (List.mem_cons_of_mem _ h)
      · rcases List.mem_cons.1 h with rfl | h
        · exact .inl List.mem_cons_self
        · rcases ih h with h | ⟨hk, h | ⟨b, hb, h⟩⟩
          · exact .inl (List.mem_cons_of_mem _ h)
          · exact .inr ⟨hk, .inl h⟩
          · exact .inr ⟨hk, .inr ⟨b, List.mem_cons_of_mem _ hb, h⟩⟩

theorem pairwise_update {α : Type} {key : String} {base : α} {change : α → α}
    {l : List (String × α)} (h : l.Pairwise (·.1 < ·.1)) :
    (update key base change l).Pairwise (·.1 < ·.1) := by
  induction l with
  | nil => simp [update]
  | cons p rest ih =>
    obtain ⟨k, a⟩ := p
    have hp := List.pairwise_cons.1 h
    unfold update
    split
    · rename_i hlt
      refine List.pairwise_cons.2 ⟨?_, h⟩
      intro e he
      rcases List.mem_cons.1 he with rfl | he
      · exact hlt
      · exact String.lt_trans hlt (hp.1 e he)
    · split
      · refine List.pairwise_cons.2 ⟨hp.1, hp.2⟩
      · rename_i hlt hne
        refine List.pairwise_cons.2 ⟨?_, ih hp.2⟩
        intro e he
        rcases mem_update he with he | ⟨hk, _⟩
        · exact hp.1 e he
        · show k < e.1
          rw [hk]
          exact lt_of_not_lt_of_ne hlt hne

theorem lookup_eq_none_of_lt {α : Type} {key : String} {l : List (String × α)}
    (h : ∀ e ∈ l, key < e.1) : l.lookup key = none := by
  induction l with
  | nil => rfl
  | cons p rest ih =>
    obtain ⟨k, a⟩ := p
    have hk : key < k := h (k, a) List.mem_cons_self
    have hne : (key == k) = false := by
      simp only [beq_eq_false_iff_ne, ne_eq]
      rintro rfl
      exact String.lt_irrefl key hk
    rw [List.lookup_cons, hne]
    exact ih fun e he => h e (List.mem_cons_of_mem _ he)

theorem mem_of_lookup_eq_some {α : Type} {k : String} {a : α}
    {l : List (String × α)} (h : l.lookup k = some a) : (k, a) ∈ l := by
  induction l with
  | nil => simp at h
  | cons p rest ih =>
    obtain ⟨j, b⟩ := p
    rw [List.lookup_cons] at h
    split at h
    · rename_i hk
      simp only [beq_iff_eq] at hk
      simp only [Option.some.injEq] at h
      subst hk h
      exact List.mem_cons_self
    · exact List.mem_cons_of_mem _ (ih h)

theorem lookup_eq_some_of_mem {α : Type} {k : String} {a : α}
    {l : List (String × α)} (hl : l.Pairwise (·.1 < ·.1)) (h : (k, a) ∈ l) :
    l.lookup k = some a := by
  induction l with
  | nil => simp at h
  | cons p rest ih =>
    obtain ⟨j, b⟩ := p
    have hp := List.pairwise_cons.1 hl
    rw [List.lookup_cons]
    rcases List.mem_cons.1 h with h | h
    · simp only [Prod.mk.injEq] at h
      simp [h.1, h.2]
    · have hj := hp.1 _ h
      have : (k == j) = false := by
        simp only [beq_eq_false_iff_ne, ne_eq]
        rintro rfl
        exact String.lt_irrefl _ hj
      rw [this]
      exact ih hp.2 h

/-- What a key leads to after the change of one key. -/
theorem lookup_update {α : Type} {key : String} {base : α} {change : α → α}
    {l : List (String × α)} (h : l.Pairwise (·.1 < ·.1)) (k : String) :
    (update key base change l).lookup k
      = if k = key then some (change ((l.lookup key).getD base))
        else l.lookup k := by
  induction l with
  | nil =>
    by_cases hk : k = key
    · simp [update, hk]
    · have : (k == key) = false := by simpa using hk
      simp [update, List.lookup_cons, this, hk]
  | cons p rest ih =>
    obtain ⟨j, a⟩ := p
    have hp := List.pairwise_cons.1 h
    unfold update
    split
    · rename_i hlt
      have hnone : List.lookup key ((j, a) :: rest) = none :=
        lookup_eq_none_of_lt fun e he => by
          rcases List.mem_cons.1 he with rfl | he
          · exact hlt
          · exact String.lt_trans hlt (hp.1 e he)
      by_cases hk : k = key
      · subst hk; simp [hnone]
      · have : (k == key) = false := by simpa using hk
        rw [List.lookup_cons, this]
        simp [hk]
    · split
      · rename_i hj
        subst hj
        by_cases hk : k = key
        · subst hk; simp
        · have : (k == key) = false := by simpa using hk
          simp [List.lookup_cons, this, hk]
      · rename_i hlt hne
        have hne' : (key == j) = false := by simpa using hne
        rw [List.lookup_cons, ih hp.2]
        by_cases hk : k = key
        · subst hk
          simp [hne', List.lookup_cons]
        · simp [hk, List.lookup_cons]

/-! ## Putting things in order that are in order -/

theorem not_lt_of_lt {s t : String} (h : s < t) : ¬ t < s := fun h' =>
  String.lt_irrefl s (String.lt_trans h h')

theorem ne_of_lt {s t : String} (h : s < t) : s ≠ t := by
  rintro rfl
  exact String.lt_irrefl s h

theorem insert_of_forall_lt {s : String} {ts : List String}
    (h : ∀ t ∈ ts, t < s) :
    insert s ts = ts ++ [s] := by
  induction ts with
  | nil => rfl
  | cons t ts ih =>
      have ht := h t List.mem_cons_self
      rw [insert, if_neg (not_lt_of_lt ht), if_neg (ne_of_lt ht).symm,
        ih fun x hx => h x (List.mem_cons_of_mem _ hx), List.cons_append]

theorem insertAll_of_ascending {new ts : List String}
    (h : Ascending (ts ++ new)) :
    insertAll new ts = ts ++ new := by
  induction new generalizing ts with
  | nil => rw [List.append_nil]; rfl
  | cons s new ih =>
      have hlt : ∀ t ∈ ts, t < s := fun t ht =>
        (List.pairwise_append.1 h).2.2 t ht s List.mem_cons_self
      have hstep : insertAll (s :: new) ts = insertAll new (insert s ts) := rfl
      rw [hstep, insert_of_forall_lt hlt, ih (by simpa using h),
        List.append_assoc, List.singleton_append]

theorem update_of_forall_lt {α : Type} {key : String} {base : α}
    {change : α → α} {l : List (String × α)} (h : ∀ e ∈ l, e.1 < key) :
    update key base change l = l ++ [(key, change base)] := by
  induction l with
  | nil => rfl
  | cons e l ih =>
      obtain ⟨k, a⟩ := e
      have hk : k < key := h (k, a) List.mem_cons_self
      rw [update, if_neg (not_lt_of_lt hk), if_neg (ne_of_lt hk).symm,
        ih fun x hx => h x (List.mem_cons_of_mem _ hx), List.cons_append]

end FlowAtlas.Text
