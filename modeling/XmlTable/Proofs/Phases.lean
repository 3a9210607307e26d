import XmlTable.Tree

/-!
# Events in order

Which events may come next depends on how many elements are open, and on whether the document
element has begun and ended. Events that come in this order are the first of those of some tree, and
events that come to the end of the document are those of a tree: what is opened is closed in the
reverse order.
-/

namespace XmlTable

/-- An element begins. -/
def Event.isStart : Event → Bool
  | startElement .. => true
  | _ => false

/-- An element ends. -/
def Event.isEnd : Event → Bool
  | endElement => true
  | _ => false

/-- How far the events of a document have come. -/
inductive Phase where
  /-- The document has not begun. -/
  | before
  /-- The document has begun, the document element has not. -/
  | prolog
  /-- The document element is open, and so many elements in it. -/
  | inside (depth : Nat)
  /-- The document element has ended. -/
  | epilog
  /-- The document has ended. -/
  | ended
  deriving DecidableEq, Repr

namespace Phase

/-- Where the end of an element leads that is so many levels below the document element. -/
def outside : Nat → Phase
  | 0 => epilog
  | depth + 1 => inside depth

/-- Where an event leads, if it may come now. -/
def next? : Phase → Event → Option Phase
  | before, .startDocument => some prolog
  | prolog, .comment _ | prolog, .instruction .. | prolog, .entityDeclaration .. => some prolog
  | prolog, .startElement .. => some (inside 0)
  | inside depth, .startElement .. => some (inside (depth + 1))
  | inside depth, .endElement => some (outside depth)
  | inside depth, .characters .. | inside depth, .entityReference _ | inside depth, .comment _
  | inside depth, .instruction .. => some (inside depth)
  | epilog, .comment _ | epilog, .instruction .. => some epilog
  | epilog, .endDocument => some ended
  | _, _ => none

/-- Where events lead that may come one after the other. -/
def after? (phase : Phase) : List Event → Option Phase
  | [] => some phase
  | event :: rest => (phase.next? event).bind (·.after? rest)

theorem after?_append (phase : Phase) (events later : List Event) :
    phase.after? (events ++ later) = (phase.after? events).bind (·.after? later) := by
  induction events generalizing phase with
  | nil => rfl
  | cons event rest ih =>
    rw [List.cons_append, after?, after?]
    cases phase.next? event with
    | none => rfl
    | some next => exact ih next

theorem after?_snoc {phase next last : Phase} {events : List Event} {event : Event}
    (h : phase.after? events = some next) (hn : next.next? event = some last) :
    phase.after? (events ++ [event]) = some last := by
  rw [after?_append, h, Option.bind_some, after?, hn]
  rfl

/-! ### What is open when an event comes -/

/-- How many elements are open in a phase. -/
def opens : Phase → Nat
  | inside depth => depth + 1
  | before | prolog | epilog | ended => 0

/-- The document element has not begun. -/
def IsEarly : Phase → Prop
  | before | prolog => True
  | inside _ | epilog | ended => False

theorem opens_outside (depth : Nat) : (outside depth).opens = depth := by
  cases depth <;> rfl

/-- An element that begins is open, and one that ends is not. -/
theorem opens_next? {phase next : Phase} {event : Event} (h : phase.next? event = some next) :
    [event].countP (·.isStart) + phase.opens = [event].countP (·.isEnd) + next.opens := by
  cases event with
  | startElement name attributes =>
    cases phase <;> cases h
    · rfl
    · show 1 + (_ + 1) = 0 + (_ + 1 + 1)
      omega
  | endElement =>
    cases phase <;> cases h
    rw [opens_outside]
    show 0 + (_ + 1) = 1 + _
    omega
  | _ => cases phase <;> cases h <;> rfl

/-- As many elements are open as have begun and not ended. -/
theorem opens_after? {phase last : Phase} {events : List Event}
    (h : phase.after? events = some last) :
    events.countP (·.isStart) + phase.opens = events.countP (·.isEnd) + last.opens := by
  induction events generalizing phase with
  | nil =>
    cases h
    rfl
  | cons event rest ih =>
    obtain ⟨next, hn, hr⟩ := Option.bind_eq_some_iff.1 h
    have first := opens_next? hn
    have later := ih hr
    rw [← List.singleton_append, List.countP_append, List.countP_append]
    omega

/-- No element has begun before the document element. -/
theorem isStart_of_isEarly {phase last : Phase} {events : List Event}
    (h : phase.after? events = some last) (early : last.IsEarly) :
    phase.IsEarly ∧ ∀ event ∈ events, event.isStart = false := by
  induction events generalizing phase with
  | nil =>
    cases h
    exact ⟨early, nofun⟩
  | cons event rest ih =>
    obtain ⟨next, hn, hr⟩ := Option.bind_eq_some_iff.1 h
    obtain ⟨still, plain⟩ := ih hr
    have first : phase.IsEarly ∧ event.isStart = false := by
      cases phase with
      | before => cases event <;> cases hn; exact ⟨trivial, rfl⟩
      | prolog => cases event <;> cases hn <;> first | exact ⟨trivial, rfl⟩ | exact still.elim
      | inside depth => cases depth <;> cases event <;> cases hn <;> exact still.elim
      | epilog => cases event <;> cases hn <;> exact still.elim
      | ended => cases event <;> cases hn
    exact ⟨first.1, List.forall_mem_cons.2 ⟨first.2, plain⟩⟩

/-! ### Trees from events -/

/-- Events that end the document from within an element are those of some trees, the end of that
element, and events that end the document from there. -/
theorem exists_trees_of_inside {depth : Nat} {events : List Event}
    (h : (inside depth).after? events = some ended) :
    ∃ trees rest, events = NodeTree.eventsAll trees ++ .endElement :: rest ∧
      (outside depth).after? rest = some ended := by
  -- What follows a start tag within is shorter, and so is what follows the end tag for it.
  induction hn : events.length using Nat.strongRecOn generalizing depth events with
  | ind n ih =>
    cases events with
    | nil => cases h
    | cons event later =>
      subst hn
      have single : ∀ tree : NodeTree Event.Attribute, tree.events = [event] →
          (inside depth).next? event = some (inside depth) → ∃ trees rest,
            event :: later = NodeTree.eventsAll trees ++ .endElement :: rest ∧
              (outside depth).after? rest = some ended := by
        intro tree htree stays
        rw [after?, stays] at h
        obtain ⟨trees, rest, rfl, hrest⟩ := ih _ (Nat.lt_succ_self _) h rfl
        refine ⟨tree :: trees, rest, ?_, hrest⟩
        rw [NodeTree.eventsAll, htree, List.append_assoc, List.singleton_append]
      cases event with
      | startElement name attributes =>
        change (inside (depth + 1)).after? later = some ended at h
        obtain ⟨children, rest, rfl, hrest⟩ := ih _ (Nat.lt_succ_self _) h rfl
        change (inside depth).after? rest = some ended at hrest
        have shorter : rest.length <
            (NodeTree.eventsAll children ++ .endElement :: rest).length + 1 := by
          rw [List.length_append, List.length_cons]
          omega
        obtain ⟨trees, rest', rfl, hrest'⟩ := ih _ shorter hrest rfl
        refine ⟨.element name attributes children :: trees, rest', ?_, hrest'⟩
        simp only [NodeTree.eventsAll, NodeTree.events, List.cons_append, List.append_assoc]
        rfl
      | endElement => exact ⟨[], later, rfl, h⟩
      | characters text flags => exact single (.text text flags) rfl rfl
      | comment text => exact single (.comment text) rfl rfl
      | instruction target data => exact single (.instruction target data) rfl rfl
      | entityReference name => exact single (.reference name) rfl rfl
      | _ => cases h

/-- Events that end the document after the document element are comments and processing
instructions, and the end. -/
theorem exists_asides_of_epilog {events : List Event} (h : epilog.after? events = some ended) :
    ∃ asides : List Aside, events = asides.map (·.event) ++ [.endDocument] := by
  induction events with
  | nil => cases h
  | cons event later ih =>
    cases event with
    | comment text =>
      obtain ⟨asides, rfl⟩ := ih h
      exact ⟨.comment text :: asides, rfl⟩
    | instruction target data =>
      obtain ⟨asides, rfl⟩ := ih h
      exact ⟨.instruction target data :: asides, rfl⟩
    | endDocument =>
      cases later with
      | nil => exact ⟨[], rfl⟩
      | cons _ _ => cases h
    | _ => cases h

/-- Events that end the document from before the document element are those of the rest of a
tree. -/
theorem exists_tree_of_prolog {events : List Event} (h : prolog.after? events = some ended) :
    ∃ tree : DocumentTree, .startDocument :: events = tree.events := by
  induction events with
  | nil => cases h
  | cons event later ih =>
    have first : ∀ part : Prelude, part.event = event → prolog.next? event = some prolog →
        ∃ tree : DocumentTree, .startDocument :: event :: later = tree.events := by
      intro part hpart stays
      rw [after?, stays] at h
      obtain ⟨tree, htree⟩ := ih h
      refine ⟨{ tree with before := part :: tree.before }, ?_⟩
      rw [DocumentTree.events, List.cons.injEq] at htree
      rw [htree.2, DocumentTree.events, ← hpart]
      rfl
    cases event with
    | comment text => exact first (.aside (.comment text)) rfl rfl
    | instruction target data => exact first (.aside (.instruction target data)) rfl rfl
    | entityDeclaration name value => exact first (.entity name value) rfl rfl
    | startElement name attributes =>
      obtain ⟨children, rest, rfl, hrest⟩ := exists_trees_of_inside h
      obtain ⟨asides, rfl⟩ := exists_asides_of_epilog hrest
      refine ⟨{ name, attributes, children, after := asides }, ?_⟩
      simp only [DocumentTree.events, DocumentTree.root, NodeTree.events, List.map_nil,
        List.nil_append, List.cons_append, List.append_assoc]
    | _ => cases h

/-- Events that come to the end of the document are those of a tree. -/
theorem exists_tree_of_ended {events : List Event} (h : before.after? events = some ended) :
    ∃ tree : DocumentTree, events = tree.events := by
  cases events with
  | nil => cases h
  | cons event later =>
    cases event with
    | startDocument => exact exists_tree_of_prolog h
    | _ => cases h

/-- Events that end the document from a phase. -/
def completion : Phase → List Event
  | before => [.startDocument, .startElement "" [], .endElement, .endDocument]
  | prolog => [.startElement "" [], .endElement, .endDocument]
  | inside depth => List.replicate (depth + 1) .endElement ++ [.endDocument]
  | epilog => [.endDocument]
  | ended => []

theorem after?_completion (phase : Phase) : phase.after? phase.completion = some ended := by
  cases phase with
  | inside depth =>
    induction depth with
    | zero => rfl
    | succ depth ih => exact ih
  | _ => rfl

/-- Events that come in order are the first events of a tree. -/
theorem exists_tree_of_after? {events : List Event} {phase : Phase}
    (h : before.after? events = some phase) : ∃ tree : DocumentTree, events <+: tree.events := by
  have ends : before.after? (events ++ phase.completion) = some ended := by
    rw [after?_append, h]
    exact phase.after?_completion
  obtain ⟨tree, htree⟩ := exists_tree_of_ended ends
  exact ⟨tree, htree ▸ List.prefix_append _ _⟩

end Phase

end XmlTable
