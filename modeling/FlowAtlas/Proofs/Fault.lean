import FlowAtlas.Fault

/-!
# What is known of a fault stays known

A fault is made in one place and annotated on its way up: the operation that
failed is named, and named again by the one that has called it, entries are
added to the context, and a fault that a step cannot survive is made fatal.
However many remarks there are, in whatever order, nothing that was known is
lost (`remarks_lose_nothing`).

The context holds two things in one list: what was said about the input, and the
operations that were replaced. Their key tells the latter apart, so each of the
two is read off by itself (`entries`, `trail`). A remark then adds to the end of
one of them and leaves the other alone (`annotate_keeps`), and what a remark
keeps, a sequence of them keeps (`annotateAll_keeps`).

The trail is what carries the induction. The operations in the context are not
enough: the one that is named last goes there only when it is replaced.
-/

namespace FlowAtlas.Fault

/-! ## One remark -/

@[simp] theorem kind_addContext (f : Fault) (key value : String) :
    (f.addContext key value).kind = f.kind := rfl

@[simp] theorem kind_addOperation (f : Fault) (operation : String) :
    (f.addOperation operation).kind = f.kind := by
  show (if f.operation = "" then f else f.addContext calledKey f.operation).kind
    = f.kind
  split <;> rfl

@[simp] theorem message_addOperation (f : Fault) (operation : String) :
    (f.addOperation operation).message = f.message := by
  show (if f.operation = "" then f
    else f.addContext calledKey f.operation).message = f.message
  split <;> rfl

@[simp] theorem status_addContext (f : Fault) (key value : String) :
    (f.addContext key value).status = f.status := rfl

@[simp] theorem status_withSource (f : Fault) (source : SystemError) :
    (f.withSource source).status = f.status := rfl

@[simp] theorem status_addOperation (f : Fault) (operation : String) :
    (f.addOperation operation).status = f.status := by
  show (if f.operation = "" then f
    else f.addContext calledKey f.operation).status = f.status
  split <;> rfl

/-- An entry is found unless there is an earlier one under its key. -/
theorem valueOf?_addContext (f : Fault) (key value wanted : String) :
    (f.addContext key value).valueOf? wanted
      = (f.valueOf? wanted).or (if wanted = key then some value else none) := by
  show (f.context ++ [(key, value)]).lookup wanted = _
  rw [List.lookup_append]
  by_cases h : wanted = key
  · simp [valueOf?, h]
  · simp [valueOf?, List.lookup_cons, h, beq_false_of_ne h]

theorem valueOf?_addContext_of_ne {f : Fault} {key value wanted : String}
    (h : wanted ≠ key) :
    (f.addContext key value).valueOf? wanted = f.valueOf? wanted := by
  rw [valueOf?_addContext, if_neg h, Option.or_none]

theorem valueOf?_addContext_of_none {f : Fault} {key : String}
    (h : f.valueOf? key = none) (value : String) :
    (f.addContext key value).valueOf? key = some value := by
  rw [valueOf?_addContext, if_pos rfl, h, Option.none_or]

/-- An operation that is replaced goes under a key of its own. -/
theorem valueOf?_addOperation {f : Fault} {wanted : String}
    (h : wanted ≠ calledKey) (operation : String) :
    (f.addOperation operation).valueOf? wanted = f.valueOf? wanted := by
  show (if f.operation = "" then f
    else f.addContext calledKey f.operation).valueOf? wanted = _
  split
  · rfl
  · exact valueOf?_addContext_of_ne h

/-! ## The two parts of the context -/

/-- The operations on record: those that were called, and behind them the one
that failed, if it has a name. -/
def trail (f : Fault) : List String :=
  (f.context.filter fun e => e.1 = calledKey).map Prod.snd
    ++ if f.operation = "" then [] else [f.operation]

/-- The entries of the context that are no operations. -/
def entries (f : Fault) : List (String × String) :=
  f.context.filter fun e => e.1 ≠ calledKey

theorem trail_addOperation (f : Fault) (operation : String) :
    (f.addOperation operation).trail
      = f.trail ++ if operation = "" then [] else [operation] := by
  by_cases h : f.operation = ""
  · simp [trail, addOperation, h]
  · simp [trail, addOperation, addContext, h]

theorem entries_addOperation (f : Fault) (operation : String) :
    (f.addOperation operation).entries = f.entries := by
  by_cases h : f.operation = ""
  · simp [entries, addOperation, h]
  · simp [entries, addOperation, addContext, h]

theorem trail_addContext {f : Fault} {key : String} (h : key ≠ calledKey)
    (value : String) :
    (f.addContext key value).trail = f.trail := by
  have hcalled : (f.context ++ [(key, value)]).filter (fun e => e.1 = calledKey)
      = f.context.filter fun e => e.1 = calledKey := by
    simp [h]
  show ((f.context ++ [(key, value)]).filter fun e => e.1 = calledKey).map
    Prod.snd ++ _ = _
  rw [hcalled]
  rfl

theorem entries_addContext {f : Fault} {key : String} (h : key ≠ calledKey)
    (value : String) :
    (f.addContext key value).entries = f.entries ++ [(key, value)] := by
  simp [entries, addContext, h]

/-- Operations do not come between an entry and the one who looks for it. -/
theorem valueOf?_eq_lookup_entries (f : Fault) {key : String}
    (h : key ≠ calledKey) :
    f.valueOf? key = f.entries.lookup key := by
  rw [valueOf?, entries]
  induction f.context with
  | nil => rfl
  | cons e rest ih =>
      by_cases hkey : e.1 = calledKey
      · have hne : (key == e.1) = false :=
          beq_false_of_ne fun heq => h (heq.trans hkey)
        rw [List.lookup_cons, hne,
          List.filter_cons_of_neg (by simpa using hkey)]
        exact ih
      · rw [List.filter_cons_of_pos (by simpa using hkey), List.lookup_cons,
          List.lookup_cons, ih]

/-! ## Sequences of remarks -/

/-- Something that is noted on a fault. -/
inductive Remark where
  /-- The operation that failed has this name. -/
  | operation (name : String)
  | context (key value : String)
  /-- The run cannot go on. -/
  | fatal
  deriving DecidableEq, Repr

namespace Remark

/-- The operation that a remark names. -/
def operation? : Remark → Option String
  | .operation name => some name
  | _ => none

/-- The entry that a remark adds to the context. -/
def entry? : Remark → Option (String × String)
  | .context key value => some (key, value)
  | _ => none

/-- The remark keeps off the key that is kept for operations. -/
def Free (a : Remark) : Prop := a.entry?.map Prod.fst ≠ some calledKey
  deriving Decidable

end Remark

/-- Notes something on a fault. -/
def annotate (f : Fault) : Remark → Fault
  | .operation name => f.addOperation name
  | .context key value => f.addContext key value
  | .fatal => f.asFatal

/-- Notes one thing after the other on a fault. -/
def annotateAll (f : Fault) (remarks : List Remark) : Fault :=
  remarks.foldl annotate f

/-- One fault is another one with remarks: it has on record what the other one
had, and behind that what was noted. -/
structure Keeps (f : Fault) (remarks : List Remark) (g : Fault) : Prop where
  kind : g.kind = f.kind
  message : g.message = f.message
  trail :
    g.trail = f.trail ++ (remarks.filterMap Remark.operation?).filter (· ≠ "")
  entries : g.entries = f.entries ++ remarks.filterMap Remark.entry?
  status : g.status = .fatal ↔ f.status = .fatal ∨ .fatal ∈ remarks

theorem Keeps.refl (f : Fault) : Keeps f [] f where
  kind := rfl
  message := rfl
  trail := (List.append_nil _).symm
  entries := (List.append_nil _).symm
  status := (or_iff_left List.not_mem_nil).symm

theorem Keeps.trans {f g h : Fault} {as bs : List Remark} (hfg : Keeps f as g)
    (hgh : Keeps g bs h) : Keeps f (as ++ bs) h where
  kind := hgh.kind.trans hfg.kind
  message := hgh.message.trans hfg.message
  trail := by
    rw [hgh.trail, hfg.trail, List.filterMap_append, List.filter_append,
      List.append_assoc]
  entries := by
    rw [hgh.entries, hfg.entries, List.filterMap_append, List.append_assoc]
  status := by rw [hgh.status, hfg.status, List.mem_append, or_assoc]

theorem annotate_keeps (f : Fault) {a : Remark} (h : a.Free) :
    Keeps f [a] (f.annotate a) := by
  cases a with
  | operation name =>
      refine ⟨kind_addOperation f name, message_addOperation f name, ?_, ?_, ?_⟩
      · rw [annotate, trail_addOperation]
        by_cases hname : name = ""
        · simp [Remark.operation?, hname]
        · simp [Remark.operation?, hname]
      · rw [annotate, entries_addOperation]
        exact (List.append_nil _).symm
      · rw [annotate, status_addOperation]
        simp
  | context key value =>
      have hkey : key ≠ calledKey := fun heq => h (congrArg some heq)
      refine ⟨rfl, rfl, ?_, ?_, ?_⟩
      · rw [annotate, trail_addContext hkey]
        exact (List.append_nil _).symm
      · rw [annotate, entries_addContext hkey]
        rfl
      · rw [annotate, status_addContext]
        simp
  | fatal =>
      exact ⟨rfl, rfl, (List.append_nil _).symm, (List.append_nil _).symm,
        iff_of_true rfl (.inr List.mem_cons_self)⟩

theorem annotateAll_keeps (f : Fault) {remarks : List Remark}
    (h : ∀ a ∈ remarks, a.Free) : Keeps f remarks (f.annotateAll remarks) := by
  induction remarks generalizing f with
  | nil => exact .refl f
  | cons a remarks ih =>
      exact (annotate_keeps f (h a List.mem_cons_self)).trans
        (ih (f.annotate a) fun b hb => h b (List.mem_cons_of_mem a hb))

/-! ## Where faults come from -/

/-- The ways in which a fault is made. -/
inductive Cause where
  | of (kind : Kind) (message : String)
  | unexpected (message : String)
  | configInvalid (message : String)
  | invariantViolation (message : String)
  | graphBuildFailed (method message : String)
  | hierarchyOpenFailed (root message : String)
  | projectCompileFailed (project message : String)
  | graphUnavailable (document method : String)
  | rendererUnavailable (program : String)
  | renderFailed (path message : String)
  | system (e : SystemError)
  deriving DecidableEq, Repr

/-- The fault that is made. -/
def Cause.fault : Cause → Fault
  | .of kind message => Fault.of kind message
  | .unexpected message => Fault.unexpected message
  | .configInvalid message => Fault.configInvalid message
  | .invariantViolation message => Fault.invariantViolation message
  | .graphBuildFailed method message => Fault.graphBuildFailed method message
  | .hierarchyOpenFailed root message => Fault.hierarchyOpenFailed root message
  | .projectCompileFailed project message =>
    Fault.projectCompileFailed project message
  | .graphUnavailable document method => Fault.graphUnavailable document method
  | .rendererUnavailable program => Fault.rendererUnavailable program
  | .renderFailed path message => Fault.renderFailed path message
  | .system e => Fault.ofSystem e

theorem status_of_eq_fatal_iff (kind : Kind) (message : String) :
    (of kind message).status = .fatal ↔ kind.isFatal = true := by
  show (if kind.isFatal = true then Status.fatal else Status.recoverable)
    = .fatal ↔ _
  cases kind.isFatal <;> decide

namespace Cause

/-- No fault is made with an operation in its context. -/
theorem entries_fault (c : Cause) : c.fault.entries = c.fault.context := by
  cases c <;> rfl

theorem trail_fault
    (c : Cause) : c.fault.trail = [c.fault.operation].filter (· ≠ "") := by
  cases c <;> rfl

/-- The kind of a fault that was just made decides on its status. -/
theorem status_fault
    (c : Cause) : c.fault.status = .fatal ↔ c.fault.kind.isFatal = true := by
  have hstatus :
      c.fault.status = (Fault.of c.fault.kind c.fault.message).status := by
    cases c <;> rfl
  rw [hstatus, status_of_eq_fatal_iff]

end Cause

/-- The first value that some entries have under a key. -/
def FirstUnder (key value : String) (entries : List (String × String)) : Prop :=
  ∃ before after, entries = before ++ (key, value) :: after
    ∧ ∀ e ∈ before, e.1 ≠ key

theorem lookup_eq_some_iff_firstUnder {key value : String}
    {entries : List (String × String)} :
    entries.lookup key = some value ↔ FirstUnder key value entries := by
  rw [List.lookup_eq_some_iff]
  refine exists₂_congr fun before after => and_congr_right fun _ =>
    forall₂_congr fun e _ => ?_
  rw [bne_iff_ne, ne_comm]

/-- However a fault was made, and whatever was noted on it since: the operations
that were named are all on record, in the order in which they were named; so are
the entries of the context, and the first one under a key is the one that is
found; the fault is of the kind, and has the message, with which it was made;
and it is fatal if its kind is, or if it was made so. -/
theorem remarks_lose_nothing (c : Cause) (remarks : List Remark)
    (h : ∀ a ∈ remarks, a.Free) :
    let f := c.fault.annotateAll remarks
    let given := c.fault.context ++ remarks.filterMap Remark.entry?
    f.trail
        = (c.fault.operation :: remarks.filterMap Remark.operation?).filter
          (· ≠ "")
      ∧ f.entries = given
      ∧ (∀ key value, key ≠ calledKey →
          (f.valueOf? key = some value ↔ FirstUnder key value given))
      ∧ f.kind = c.fault.kind ∧ f.message = c.fault.message
      ∧ (f.status = .fatal
        ↔ c.fault.kind.isFatal = true ∨ .fatal ∈ remarks) := by
  intro f given
  have hkeeps : Keeps c.fault remarks f := annotateAll_keeps c.fault h
  have hentries : f.entries = given := by rw [hkeeps.entries, c.entries_fault]
  refine ⟨?_, hentries, fun key value hkey => ?_, hkeeps.kind,
    hkeeps.message, ?_⟩
  · rw [hkeeps.trail, c.trail_fault, ← List.filter_append,
      List.singleton_append]
  · rw [f.valueOf?_eq_lookup_entries hkey, hentries,
      lookup_eq_some_iff_firstUnder]
  · rw [hkeeps.status, c.status_fault]

/-- A refused write on its way up. One operation gives no name, one is named
twice, and a path is told twice. -/
theorem refused_write_keeps_trail :
    (∀ a ∈ [.operation "write_text", .context "path" "out/a", .operation "",
          .operation "put", .operation "put", .context "path" "out/b", .fatal],
        Remark.Free a)
      ∧ ((Cause.system (.coded .noEntry)).fault.annotateAll
          [.operation "write_text", .context "path" "out/a", .operation "",
            .operation "put", .operation "put", .context "path" "out/b",
            .fatal]).trail
        = ["io", "write_text", "put", "put"]
      ∧ ((Cause.system (.coded .noEntry)).fault.annotateAll
          [.operation "write_text", .context "path" "out/a", .operation "",
            .operation "put", .operation "put", .context "path" "out/b",
            .fatal]).valueOf? "path" = some "out/a"
      ∧ ((Cause.system (.coded .noEntry)).fault.annotateAll
          [.operation "write_text", .context "path" "out/a", .operation "",
            .operation "put", .operation "put", .context "path" "out/b",
            .fatal]).status = .fatal := by
  have hfree :
      ∀ a ∈ [.operation "write_text", .context "path" "out/a", .operation "",
        .operation "put", .operation "put", .context "path" "out/b", .fatal],
      Remark.Free a := by
    decide
  obtain ⟨htrail, -, hvalue, -, -, hstatus⟩ :=
    remarks_lose_nothing (.system (.coded .noEntry)) _ hfree
  refine ⟨hfree, htrail, (hvalue "path" "out/a" (by decide)).2 ?_,
    hstatus.2 (.inr (by decide))⟩
  exact ⟨[], [("path", "out/b")], rfl, fun _ he => absurd he List.not_mem_nil⟩

end FlowAtlas.Fault
