import Mathlib.Data.List.Induction
import XmlTable.Proofs.Entities
import XmlTable.Proofs.Partition
import XmlTable.Proofs.SiblingLinks

/-!
# A machine with a stack

A builder finds its way out of an element by the record of the element. The machine here does so by
a stack: it keeps the elements that are open, each with the last child that was produced in it, and
numbers the nodes as they come. What such a stack says of a table is that the elements on it are
nested, each of them being the last child of the one around it.
-/

namespace XmlTable

open Node

/-! ### The machine -/

/-- The elements that are open, innermost first. -/
inductive StackMachine.Stack where
  /-- No element is open. What is known is the last child of the document node. -/
  | ground (last : Option (NodeId × Kind))
  /-- An element is open, with its last child, in what is open around it. -/
  | level (element : NodeId) (last : Option (NodeId × Kind)) (outer : Stack)
  deriving DecidableEq, Repr

/-- A machine that is told the events of a document. -/
structure StackMachine where
  /-- What was seen of the document. -/
  stage : Stage := .idle
  /-- The number of nodes. -/
  size : Nat := 0
  /-- The elements that are open. -/
  stack : StackMachine.Stack := .ground none
  /-- Characters that are no node yet. -/
  pending : Option (String × TextFlags) := none
  /-- The entities that were introduced, with their values. -/
  entities : List (String × String) := []
  deriving DecidableEq, Repr

namespace StackMachine

namespace Stack

/-- The node under which things come: the innermost element, or the document node. -/
def cursor : Stack → NodeId
  | ground _ => documentId
  | level element .. => element

/-- The last child of that node. -/
def last : Stack → Option (NodeId × Kind)
  | ground last | level _ last _ => last

/-- How many elements are open. -/
def height : Stack → Nat
  | ground _ => 0
  | level _ _ outer => outer.height + 1

/-- The nodes around the one under which things come, innermost first. -/
def enclosing : Stack → List NodeId
  | ground _ => []
  | level _ _ outer => outer.cursor :: outer.enclosing

/-- A child is produced. -/
def put (child : NodeId × Kind) : Stack → Stack
  | ground _ => ground (some child)
  | level element _ outer => level element (some child) outer

/-- The innermost element ends. -/
def pop : Stack → Stack
  | ground last => ground last
  | level _ _ outer => outer

variable (stack : Stack) (child : NodeId × Kind)

@[simp] theorem cursor_put : (stack.put child).cursor = stack.cursor := by
  cases stack <;> rfl

@[simp] theorem last_put : (stack.put child).last = some child := by
  cases stack <;> rfl

@[simp] theorem height_put : (stack.put child).height = stack.height := by
  cases stack <;> rfl

@[simp] theorem length_enclosing : stack.enclosing.length = stack.height := by
  induction stack with
  | ground => rfl
  | level _ _ outer ih => rw [enclosing, List.length_cons, ih, height]

end Stack

variable (strip : Bool) (m : StackMachine)

/-- The characters that become a node, if any. -/
def held : Option (String × TextFlags) :=
  NodeTree.keptText strip m.pending

/-- A child is produced, and nodes that come with it. -/
def addChild (kind : Kind) (width : Nat) : StackMachine :=
  { m with size := m.size + width, stack := m.stack.put (m.size, kind) }

/-- The characters that are pending come to their end. -/
def flush : StackMachine :=
  match m.held strip with
  | none => { m with pending := none }
  | some _ => { m.addChild .text 1 with pending := none }

/-- An element begins. It has two nodes for each attribute. -/
def enter (attributes : Nat) : StackMachine :=
  { m.addChild .element (1 + 2 * attributes) with
    stack := .level m.size none (m.stack.put (m.size, .element)) }

/-- An entity is declared. If its name is not known, it has a node and another one for its value,
neither of them a child. -/
def declare (name value : String) : StackMachine :=
  if (Entity.predefined.lookup name).isSome ∨ name ∈ m.entities.map (·.1) then m
  else { m with size := m.size + 2, entities := m.entities ++ [(name, value)] }

/-- The construction ends with a failure, unless it has ended. -/
def abandon : StackMachine :=
  match m.stage with
  | .idle | .documentOpen => { m with stage := .failed }
  | .documentClosed | .failed => m

/-- What an event does. Characters outside the document element are dropped. -/
def step : Event → StackMachine
  | .startDocument => { m with stage := .documentOpen, size := m.size + 1 }
  | .endDocument => { m.flush strip with stage := .documentClosed }
  | .startElement _ attributes => (m.flush strip).enter attributes.length
  | .endElement => { m.flush strip with stack := (m.flush strip).stack.pop }
  | .characters text flags =>
    if m.stack.height = 0 then m
    else { m with pending := Builder.holding m.pending text flags }
  | .comment _ => (m.flush strip).addChild .comment 1
  | .instruction .. => (m.flush strip).addChild .instruction 1
  | .entityDeclaration name value => (m.flush strip).declare name value
  | .entityReference _ => (m.flush strip).addChild .reference 1
  | .fatalError _ => m.abandon

/-- The machine after some events. -/
def after (events : List Event) : StackMachine :=
  events.foldl (step strip) {}

variable {strip m}

theorem after_concat (strip : Bool) (events : List Event) (event : Event) :
    after strip (events ++ [event]) = (after strip events).step strip event := by
  rw [after, List.foldl_append]
  rfl

/-! ### What stays -/

section AddChild

variable (kind : Kind) (width : Nat)

@[simp] theorem stage_addChild : (m.addChild kind width).stage = m.stage := rfl

@[simp] theorem size_addChild : (m.addChild kind width).size = m.size + width := rfl

@[simp] theorem stack_addChild :
    (m.addChild kind width).stack = m.stack.put (m.size, kind) := rfl

@[simp] theorem pending_addChild : (m.addChild kind width).pending = m.pending := rfl

@[simp] theorem entities_addChild : (m.addChild kind width).entities = m.entities := rfl

end AddChild

@[simp] theorem stage_flush : (m.flush strip).stage = m.stage := by
  unfold flush
  split <;> rfl

@[simp] theorem pending_flush : (m.flush strip).pending = none := by
  unfold flush
  split <;> rfl

@[simp] theorem entities_flush : (m.flush strip).entities = m.entities := by
  unfold flush
  split <;> rfl

@[simp] theorem cursor_flush : (m.flush strip).stack.cursor = m.stack.cursor := by
  unfold flush
  split <;> simp

@[simp] theorem height_flush : (m.flush strip).stack.height = m.stack.height := by
  unfold flush
  split <;> simp

theorem size_flush : (m.flush strip).size = m.size + (m.held strip).toList.length := by
  unfold flush
  split <;> simp [*]

theorem last_flush : (m.flush strip).stack.last =
    ((m.held strip).map fun _ => (m.size, Kind.text)).or m.stack.last := by
  unfold flush
  split <;> simp [*]

/-- What an element leaves open when it ends was open around it. -/
theorem pop_flush {element : NodeId} {last : Option (NodeId × Kind)} {outer : Stack}
    (h : m.stack = .level element last outer) : (m.flush strip).stack.pop = outer := by
  unfold flush
  split <;> simp [h, Stack.put, Stack.pop]

theorem entities_declare (name value : String) : (m.declare name value).entities =
    if (Entity.predefined.lookup name).isSome ∨ name ∈ m.entities.map (·.1) then m.entities
    else m.entities ++ [(name, value)] := by
  unfold declare
  split <;> rfl

/-- Only a declaration introduces an entity. -/
theorem entities_step {event : Event} (plain : event.declared? = none) :
    (m.step strip event).entities = m.entities := by
  cases event with
  | entityDeclaration => cases plain
  | characters =>
    rw [step]
    split <;> rfl
  | fatalError =>
    rw [step, abandon]
    split <;> rfl
  | _ => simp [step, enter]

/-- The entities of the machine are those that the events introduced. -/
theorem entities_after (strip : Bool) (events : List Event) :
    (after strip events).entities = Event.introduced events := by
  induction events using List.reverseRecOn with
  | nil => rfl
  | append_singleton events event ih =>
    rw [after_concat]
    cases declared : event.declared? with
    | none => rw [entities_step declared, ih, Event.introduced_of_not_declared declared]
    | some entity =>
      cases event with
      | entityDeclaration name value =>
        rw [step, entities_declare, entities_flush, ih, Event.introduced_declaration]
      | _ => cases declared

end StackMachine

open StackMachine

/-! ### What a stack says of a table -/

namespace Node.Table

variable {t t' : Table} {p n : Nat} {k : Kind} {last last' : Option (Nat × Kind)} {stack : Stack}

/-- What is said of the last child of a node is right: which node it is, if there is one, and its
kind. -/
def EndsWith (t : Table) (p : Nat) (last : Option (Nat × Kind)) : Prop :=
  ∀ n k, last = some (n, k) ↔ t.IsLastChild p n ∧ t.kind? n = some k

theorem EndsWith.unique (h : t.EndsWith p last) (h' : t.EndsWith p last') : last = last' := by
  ext ⟨n, k⟩
  rw [h n k, h' n k]

theorem IsLastChild.endsWith (h : t.IsLastChild p n) (hk : t.kind? n = some k) :
    t.EndsWith p (some (n, k)) := by
  intro m j
  constructor
  · rintro ⟨⟩
    exact ⟨h, hk⟩
  · rintro ⟨hm, hj⟩
    obtain rfl := h.unique hm
    rw [Option.some.inj (hk.symm.trans hj)]

theorem endsWith_none (h : ∀ n, ¬ t.IsChild p n) : t.EndsWith p none := by
  intro n k
  exact iff_of_false (by simp) fun last => h n last.1.1

/-- What a producer remembers of the last child is right. -/
theorem Frontier.endsWith {lastEntity : Option Nat} {closed : Bool}
    (f : t.Frontier p last lastEntity closed) : t.EndsWith p last := by
  intro n k
  constructor
  · intro hp
    have hk := (f.child hp).2
    exact ⟨(f.isLastChild_iff hk).2 hp, hk⟩
  · rintro ⟨hn, hk⟩
    exact (f.isLastChild_iff hk).1 hn

/-- The last child stays while no other one comes. -/
theorem EndsWith.of_continues (h : t.EndsWith p last) (layout : t.Layout) (c : t.Continues t')
    (new : ∀ n, t.size ≤ n → ¬ t'.IsChild p n) : t'.EndsWith p last := by
  have child : ∀ n, t'.IsChild p n ↔ t.IsChild p n := by
    intro n
    by_cases hn : n < t.size
    · exact c.isChild_iff layout hn
    · exact iff_of_false (new n (Nat.le_of_not_lt hn)) fun hc => hn hc.1.lt_size
  intro n k
  rw [h n k]
  simp only [IsLastChild, child]
  apply and_congr_right
  intro hn
  rw [(c n hn.1.1.lt_size).1]

/-- The elements on a stack are nested in a table: each is the last child of the one around it. -/
inductive Nested (t : Table) : Stack → Prop
  | ground {last : Option (NodeId × Kind)} : Nested t (.ground last)
  | level {element : NodeId} {last : Option (NodeId × Kind)} {outer : Stack} :
      t.parent? element = some outer.cursor → outer.last = some (element, .element) →
      Nested t outer → Nested t (.level element last outer)

namespace Nested

theorem mono (h : t.Nested stack) (c : t.Continues t') : t'.Nested stack := by
  induction h with
  | ground => exact .ground
  | level parent last _ ih => exact .level (c.parent? parent) last ih

/-- Which child is the last one in the innermost element plays no part. -/
theorem put (h : t.Nested stack) (child : NodeId × Kind) : t.Nested (stack.put child) := by
  cases h with
  | ground => exact .ground
  | level parent last outer => exact .level parent last outer

theorem flush {m : StackMachine} (h : t.Nested m.stack) (strip : Bool) :
    t.Nested (m.flush strip).stack := by
  unfold StackMachine.flush
  split
  · exact h
  · exact h.put _

/-- Things come under the document node exactly while no element is open. -/
theorem cursor_eq_iff (h : t.Nested stack) (layout : t.Layout) :
    stack.cursor = documentId ↔ stack.height = 0 := by
  cases h with
  | ground => exact iff_of_true rfl rfl
  | level parent =>
    have := layout.parent_lt parent
    exact iff_of_false (Nat.ne_of_gt (Nat.zero_lt_of_lt this)) (Nat.succ_ne_zero _)

/-- The node under which things come is in the table, once there is one. -/
theorem cursor_lt (h : t.Nested stack) (nonempty : 0 < t.size) : stack.cursor < t.size := by
  cases h with
  | ground => exact nonempty
  | level parent => exact lt_size_of_parent? parent

/-- Before there is a node no element is open. -/
theorem cursor_of_empty (h : t.Nested stack) (empty : t.size = 0) :
    stack.cursor = documentId := by
  cases h with
  | ground => rfl
  | level parent =>
    have := lt_size_of_parent? parent
    omega

/-- No more elements are open than there are nodes before the innermost one. -/
theorem height_le (h : t.Nested stack) (layout : t.Layout) : stack.height ≤ stack.cursor := by
  induction h with
  | ground => exact Nat.zero_le _
  | level parent _ _ ih => exact Nat.lt_of_le_of_lt ih (layout.parent_lt parent)

end Nested

end Node.Table

namespace Query

variable {d : Document} {stack : Stack}

/-- The way up from the node under which things come is the stack. -/
theorem leads_of_nested (layout : d.nodes.Layout) (h : d.nodes.Nested stack)
    (hn : stack.cursor < d.nodes.size) :
    Leads d (fun node => ExceptT.lift (parent node)) stack.cursor stack.enclosing := by
  induction h with
  | ground =>
    have root : d.nodes.parent? documentId = none := by
      cases hp : d.nodes.parent? documentId with
      | none => rfl
      | some p => exact absurd (layout.parent_lt hp) (Nat.not_lt_zero p)
    have hrun := run_parent hn
    rw [Stack.cursor, root] at hrun
    exact run_lift hrun
  | level hp _ _ ih =>
    have hrun := run_parent hn
    rw [Stack.cursor, hp] at hrun
    exact ⟨run_lift hrun, ih (Nat.lt_trans (layout.parent_lt hp) hn)⟩

theorem run_ancestors_of_nested (hd : d.WellFormed) (h : d.nodes.Nested stack)
    (hn : stack.cursor < d.nodes.size) :
    (ancestors stack.cursor).run d = .answer stack.enclosing := by
  have bound : stack.enclosing.length ≤ indexBound := by
    rw [Stack.length_enclosing]
    have inside : stack.height ≤ d.nodes.size :=
      Nat.le_trans (h.height_le hd.layout) (Nat.le_of_lt hn)
    exact Nat.le_trans inside hd.size_le_indexBound
  have leads := leads_of_nested hd.layout h hn
  exact run_bind_of_answer (leads.run_walkFrom bound []) fun walked => pure walked.nodes

end Query

end XmlTable
