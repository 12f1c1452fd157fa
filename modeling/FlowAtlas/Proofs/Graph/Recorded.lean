import FlowAtlas.Graph.Recorded
import FlowAtlas.Proofs.Json.Faithful

/-!
# What becomes of a recorded graph

A graph is decoded twice. When a snapshot is read, its record is tried as a
graph, and where that fails it is kept as a value; when the graph is asked for,
the value is tried. All decoders of a graph are faithful, so the two trials come
out alike unless the record names a member twice: that makes the first trial
fail and is gone from the value. What the second trial sees is the record
without the members that do not count, and this alone decides whether there is a
graph (`RecordedGraph.read_eq_ok_iff`).

The fields of a block are independent because each of them sets a part of its
own (`BasicBlock.Sets`). Conditions and graphs are records of the same kind,
smaller ones.
-/

namespace FlowAtlas

open Json

/-! ## Edges -/

/-- An object that stands for an edge is bare. -/
theorem Successor.eq_bare_of_ofNode? {members : List (StringContent × Node)}
    {cut : Option Stop} {s : Successor}
    (h : ofNode? (.object members cut) = some s) :
    Node.object members cut = bare "exit" := by
  unfold ofNode? at h
  split at h
  · next heq => exact nomatch heq
  · next heq => exact nomatch heq
  · next heq => exact heq
  · exact nomatch h

theorem Successor.decode_eq_ok_iff {node : Node} {v : Json} (h : node.Holds v)
    {s : Successor} :
    Successor.decode .value node = .ok s ↔ ofNode? node = some s := by
  rw [Successor.decode, show decodeAny .value node = .ok v from h, ok_bind]
  cases ofNode? node with
  | none => exact iff_of_false error_ne_ok (Option.some_ne_none s).symm
  | some t =>
      exact ⟨fun h => congrArg _ (Except.ok.inj h),
        fun h => congrArg _ (Option.some.inj h)⟩

theorem Successor.faithful_decode : Faithful (Successor.decode .value) where
  forth {node v s} h hdecode := by
    rcases h.cases with heq | ⟨items, _, rfl, rfl, -⟩ | ⟨ms, _, rfl, rfl, -⟩
    · rwa [heq]
    · exact nomatch (decode_eq_ok_iff h).1 hdecode
    · have hbare := eq_bare_of_ofNode? ((decode_eq_ok_iff h).1 hdecode)
      rw [hbare] at h hdecode
      rwa [h.ofJson_of_bare]
  back {node v s} h hdistinct hdecode := by
    obtain ⟨w, hw⟩ := exists_holds_ofJson v
    have hnode := (decode_eq_ok_iff hw).1 hdecode
    rcases h.cases with heq | ⟨_, _, rfl, rfl, -⟩ | ⟨_, _, rfl, rfl, -⟩
    · rwa [heq] at hdecode
    · exact nomatch hnode
    · rw [Node.ofJson] at hnode
      have hbare := eq_bare_of_ofNode? hnode
      rw [h.eq_bare hdistinct hbare]
      exact hbare ▸ hdecode

/-! ## Conditions, blocks and graphs -/

/-- What the fields of a condition set. -/
inductive Condition.Sets : String → (Condition → Condition) → Prop
  | text (text : Option String) : Sets "syntax" fun b => { b with text }
  | sense (sense : Sense) : Sets "kind" fun b => { b with sense }
  | other (key : String) : Sets key id

theorem Condition.Sets.comm {key key' : String} {f g : Condition → Condition}
    (hne : key ≠ key') (hf : Sets key f) (hg : Sets key' g) (b : Condition) :
    g (f b) = f (g b) := by
  cases hf <;> cases hg <;> first | rfl | exact absurd rfl hne

theorem Condition.sets_of_put {key : String} {node : Node} {b b' : Condition}
    (h : record.put key .value node b = .ok b') :
    ∃ f, Sets key f ∧ ∀ c, record.put key .value node c = .ok (f c) := by
  simp only [record] at h ⊢
  split at h
  · obtain ⟨text, hread, -⟩ := map_eq_ok h
    exact ⟨_, .text text, fun c => by rw [hread]; rfl⟩
  · obtain ⟨sense, hread, -⟩ := map_eq_ok h
    exact ⟨_, .sense sense, fun c => by rw [hread]; rfl⟩
  · exact ⟨_, .other _, fun c => rfl⟩

theorem Condition.faithful_put (key : String) (b : Condition) :
    Faithful fun node => record.put key .value node b := by
  by_cases htext : key = "syntax"
  · subst htext
    exact faithful_string.option.map fun text => { b with text }
  by_cases hsense : key = "kind"
  · subst hsense
    exact (faithful_choice Sense.choices).map fun sense => { b with sense }
  · simp only [record]
    exact faithful_ok b

theorem Condition.independent : record.Independent :=
  .of_sets faithful_put sets_of_put Sets.comm

/-- What the fields of a block set. -/
inductive BasicBlock.Sets : String → (BasicBlock → BasicBlock) → Prop
  | operations (operations : List String) :
      Sets "operations" fun b => { b with operations }
  | branch (branch : Option Condition) :
      Sets "branch" fun b => { b with branch }
  | fallthrough (fallthrough : Option Successor) :
      Sets "fallthrough" fun b => { b with fallthrough }
  | conditional (conditional : Option Successor) :
      Sets "conditional" fun b => { b with conditional }
  | other (key : String) : Sets key id

theorem BasicBlock.Sets.comm {key key' : String} {f g : BasicBlock → BasicBlock}
    (hne : key ≠ key') (hf : Sets key f) (hg : Sets key' g) (b : BasicBlock) :
    g (f b) = f (g b) := by
  cases hf <;> cases hg <;> first | rfl | exact absurd rfl hne

theorem BasicBlock.sets_of_put {key : String} {node : Node} {b b' : BasicBlock}
    (h : record.put key .value node b = .ok b') :
    ∃ f, Sets key f ∧ ∀ c, record.put key .value node c = .ok (f c) := by
  simp only [record] at h ⊢
  split at h
  · obtain ⟨operations, hread, -⟩ := map_eq_ok h
    exact ⟨_, .operations operations, fun c => by rw [hread]; rfl⟩
  · obtain ⟨branch, hread, -⟩ := map_eq_ok h
    exact ⟨_, .branch branch, fun c => by rw [hread]; rfl⟩
  · obtain ⟨fallthrough, hread, -⟩ := map_eq_ok h
    exact ⟨_, .fallthrough fallthrough, fun c => by rw [hread]; rfl⟩
  · obtain ⟨conditional, hread, -⟩ := map_eq_ok h
    exact ⟨_, .conditional conditional, fun c => by rw [hread]; rfl⟩
  · exact ⟨_, .other _, fun c => rfl⟩

theorem BasicBlock.faithful_put (key : String) (b : BasicBlock) :
    Faithful fun node => record.put key .value node b := by
  by_cases hoperations : key = "operations"
  · subst hoperations
    have hlist : Faithful (decodeList (fun _ => decodeString) .value) :=
      Faithful.list (by exact faithful_string)
    exact hlist.map fun operations => { b with operations }
  by_cases hbranch : key = "branch"
  · subst hbranch
    exact Condition.independent.faithful_decode.option.map fun branch =>
      { b with branch }
  by_cases hfallthrough : key = "fallthrough"
  · subst hfallthrough
    exact Successor.faithful_decode.option.map fun fallthrough =>
      { b with fallthrough }
  by_cases hconditional : key = "conditional"
  · subst hconditional
    exact Successor.faithful_decode.option.map fun conditional =>
      { b with conditional }
  · simp only [record]
    exact faithful_ok b

theorem BasicBlock.independent : record.Independent :=
  .of_sets faithful_put sets_of_put Sets.comm

/-- A graph has its list of blocks to set and nothing else. -/
theorem ControlFlowGraph.faithful_put (key : String) (g : ControlFlowGraph) :
    Faithful fun node => record.put key .value node g := by
  by_cases hblocks : key = "blocks"
  · subst hblocks
    exact (Faithful.list BasicBlock.independent.faithful_decode).map
      fun blocks => { g with blocks }
  · simp only [record]
    exact faithful_ok g

theorem ControlFlowGraph.independent : record.Independent where
  faithful := faithful_put
  commute {key key' node node' g _ _} hne h h' := by
    simp only [record] at h h' ⊢
    split at h
    · split at h'
      · exact absurd rfl hne
      · exact ⟨g, rfl, by rw [h, Except.ok.inj h']⟩
    · obtain rfl := Except.ok.inj h
      exact ⟨_, h', rfl⟩

theorem ControlFlowGraph.faithful_decode :
    Faithful (ControlFlowGraph.decode .value) :=
  independent.faithful_decode

/-! ## Records of graphs -/

namespace RecordedGraph

variable {source : Source} {node : Node} {r : RecordedGraph}

theorem isGraph_iff (h : decode source node = .ok r) :
    r.isGraph = true ↔ ∃ g, ControlFlowGraph.decode .value node = .ok g := by
  obtain ⟨value, -, h⟩ := bind_eq_ok h
  split at h
  · next g hg =>
      obtain rfl := Except.ok.inj h
      exact iff_of_true rfl ⟨g, hg⟩
  · next refusal hrefusal =>
      obtain rfl := Except.ok.inj h
      refine iff_of_false (fun h => nomatch h) fun ⟨g, hg⟩ => ?_
      rw [hg] at hrefusal
      exact nomatch hrefusal

/-- Only the members that count decide whether there is a graph, and which. -/
theorem read_eq_ok_iff (h : decode source node = .ok r) (method : String)
    (g : ControlFlowGraph) :
    r.read method = .ok g
      ↔ ControlFlowGraph.decode .value node.lastMembers = .ok g := by
  obtain ⟨value, hvalue, h⟩ := bind_eq_ok h
  have hnode : node.Holds value := holds_of_decodeAny node hvalue
  -- The value is the same without the members that do not count, and without
  -- them no member is named twice.
  rw [← ControlFlowGraph.faithful_decode.eq_ok_iff hnode.lastMembers
    node.distinct_lastMembers]
  split at h
  · next g' hg' =>
      obtain rfl := Except.ok.inj h
      rw [ControlFlowGraph.faithful_decode.forth hnode hg', read,
        Except.ok.injEq, Except.ok.injEq]
  · obtain rfl := Except.ok.inj h
    rw [read]
    split
    · next hread => rw [hread, Except.ok.injEq, Except.ok.injEq]
    · next hrefusal =>
        rw [hrefusal]
        exact iff_of_false (fun h => nomatch h) fun h => nomatch h

theorem fault_of_read {method : String} {fault : Fault}
    (h : r.read method = .error fault) :
    fault.kind = .graphBuildFailed ∧ fault.status = .recoverable
      ∧ fault.valueOf? "method" = some method := by
  unfold read at h
  split at h
  · exact nomatch h
  · split at h
    · exact nomatch h
    · obtain rfl := Except.error.inj h
      exact ⟨rfl, rfl, rfl⟩

theorem isGraph_iff_of_distinct (h : decode source node = .ok r)
    (hdistinct : node.Distinct) (method : String) :
    r.isGraph = true ↔ ∃ g, r.read method = .ok g := by
  obtain ⟨value, hvalue, -⟩ := bind_eq_ok h
  have hnode : node.Holds value := holds_of_decodeAny node hvalue
  rw [isGraph_iff h]
  refine exists_congr fun g => ?_
  rw [read_eq_ok_iff h,
    ← ControlFlowGraph.faithful_decode.eq_ok_iff hnode hdistinct,
    ← ControlFlowGraph.faithful_decode.eq_ok_iff hnode.lastMembers
      node.distinct_lastMembers]

/-- A record whose graph is asked for gives the graph that its last members
make, or a fault of its own method. Whether the snapshot took the record for a
graph says the same, as long as no member is named twice. -/
theorem read_of_last_members {text : String}
    (h : decodeText decode text = .ok r) (method : String) :
    (∀ g, r.read method = .ok g
      ↔ ControlFlowGraph.decode .value (Reading.of text.toList).root.lastMembers
        = .ok g)
    ∧ (∀ fault, r.read method = .error fault →
        fault.kind = .graphBuildFailed ∧ fault.status = .recoverable
          ∧ fault.valueOf? "method" = some method)
    ∧ (r.isGraph = true
      ↔ ∃ g, ControlFlowGraph.decode .value
        (Reading.of text.toList).root = .ok g)
    ∧ ((Reading.of text.toList).root.Distinct →
        (r.isGraph = true ↔ ∃ g, r.read method = .ok g)) := by
  have hroot := of_decodeText h
  exact ⟨read_eq_ok_iff hroot method, fun _ => fault_of_read, isGraph_iff hroot,
    fun hdistinct => isGraph_iff_of_distinct hroot hdistinct method⟩

/-- A record that is no graph and names no member twice. -/
def blocklessRecord : Json := .object [("blocks", .number (.whole 7))]

theorem blocklessRecord_fails_its_method :
    decodeText decode blocklessRecord.compact = .ok (.raw blocklessRecord)
      ∧ (Node.ofJson blocklessRecord).Distinct
      ∧ ¬ ∃ g, (raw blocklessRecord).read "M" = .ok g := by
  have hexact : Exact blocklessRecord := by
    simp [blocklessRecord, Exact, ExactMembers, Number.Exact, Numeral.wordMax]
  have hread : decodeText decode blocklessRecord.compact
      = .ok (.raw blocklessRecord) := by
    rw [decodeText_compact hexact]
    decide +kernel
  have hroot : (Reading.of blocklessRecord.compact.toList).root
      = Node.ofJson blocklessRecord := by
    rw [compact, String.toList_ofList,
      reading_of_writes (writes_compactChars hexact)]
  have hdistinct : (Node.ofJson blocklessRecord).Distinct :=
    ⟨List.pairwise_singleton _ _, trivial, trivial⟩
  obtain ⟨-, -, -, hagrees⟩ := read_of_last_members hread "M"
  rw [hroot] at hagrees
  exact ⟨hread, hdistinct,
    fun h => absurd ((hagrees hdistinct).2 h) Bool.false_ne_true⟩

/-- The record of a graph that lists its blocks twice. -/
def twofoldText : String := "\x7b\"blocks\": [], \"blocks\": []\x7d"

/-- It is not taken for a graph, and is read as one all the same. -/
theorem twofold_record_is_read :
    decodeText decode twofoldText = .ok (.raw (.object [("blocks", .array [])]))
      ∧ (raw (.object [("blocks", .array [])])).isGraph = false
      ∧ (raw (.object [("blocks", .array [])])).read "M" = .ok ⟨[]⟩ := by
  decide +kernel

end RecordedGraph

end FlowAtlas
