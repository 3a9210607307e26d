import XmlTable.Proofs.NormalTexts
import XmlTable.Proofs.StackMachine

/-!
# A builder needs no stack

Whatever events a builder takes, it is where the machine with the stack is: its cursor is what is on
top of the stack, the child that it remembers is the last one produced there, and as many namespace
scopes are open as there are elements on the stack. What the builder reads off the record of an
element that ends is what the machine has on its stack, because an open element is the last child of
the one around it.
-/

namespace XmlTable

open Node

namespace Builder

open Reporting StackMachine

variable {config : Config} {s s' : Builder × Journal} {m m' : StackMachine}

/-- A builder is where the machine is. -/
structure Mirrors (m : StackMachine) (s : Builder × Journal) : Prop where
  /-- They have seen the same. -/
  stage : s.1.stage = m.stage
  /-- There are as many nodes. -/
  size : s.1.document.nodes.size = m.size
  /-- The cursor is on top of the stack. -/
  cursor : s.1.cursor = m.stack.cursor
  /-- There is a scope for each element that is open. -/
  depth : s.1.scopes.depth = m.stack.height
  /-- The same characters are held back. -/
  pending : s.1.pending = m.pending
  /-- The last child is the one that is remembered. -/
  previous : s.1.previous = m.stack.last
  /-- It is the last child indeed. -/
  last : s.1.document.nodes.EndsWith s.1.cursor m.stack.last
  /-- The elements on the stack are nested. -/
  nested : s.1.document.nodes.Nested m.stack

theorem mirrors_start (config : Config) (journal : Journal) :
    Mirrors {} (start config, journal) where
  stage := rfl
  size := rfl
  cursor := rfl
  depth := rfl
  pending := rfl
  previous := rfl
  last := Table.endsWith_none fun _ child => Nat.not_lt_zero _ child.1.lt_size
  nested := .ground

/-- While content is accepted, the child that is remembered is the last one. -/
theorem Mirrors.ofOpen (ho : s'.1.Open config) (stage : m'.stage = .documentOpen)
    (size : s'.1.document.nodes.size = m'.size) (cursor : s'.1.cursor = m'.stack.cursor)
    (depth : s'.1.scopes.depth = m'.stack.height) (pending : s'.1.pending = m'.pending)
    (last : s'.1.document.nodes.EndsWith s'.1.cursor m'.stack.last)
    (nested : s'.1.document.nodes.Nested m'.stack) : Mirrors m' s' where
  stage := ho.open_stage.trans stage.symm
  size := size
  cursor := cursor
  depth := depth
  pending := pending
  previous := ho.frontier.endsWith.unique last
  last := last
  nested := nested

/-! ### Events -/

/-- Characters that are appended are the last child, if nothing of what is appended with them is
part of the tree. -/
theorem Flushes.endsWith {texts own : List Record} {last : Option (Nat × Kind)}
    (h : Flushes config texts own s s') (ho : s.1.Open config)
    (before : s.1.document.nodes.EndsWith s.1.cursor last)
    (plain : ∀ {n : Nat}, s.1.document.nodes.size + texts.length ≤ n →
      ¬ s'.1.document.nodes.IsStructural n) :
    s'.1.document.nodes.EndsWith s'.1.cursor
      ((s.1.held.map fun _ => (s.1.document.nodes.size, Kind.text)).or last) := by
  have text := h.text
  have continues := h.adds.keeps.extension.continues
  rw [h.cursor]
  cases kept : s.1.held with
  | none =>
    rw [kept] at text
    obtain rfl : texts = [] := text
    exact before.of_continues ho.layout continues fun n hn child => plain hn child.1
  | some content =>
    rw [kept] at text
    obtain ⟨payload, rfl, -⟩ := text
    have holds := h.adds.holds_left (i := 0) rfl
    obtain ⟨k, hk, value⟩ : ∃ k, s.1.document.nodes.kind? s.1.cursor = some k ∧
        k.hasValueNode = false := by
      rcases ho.frontier.cursor with hk | hk <;> exact ⟨_, hk, rfl⟩
    have structural :=
      Document.isStructural_of_text holds.kind? holds.parent? (continues.kind? hk) value
    have last : s'.1.document.nodes.IsLastChild s.1.cursor s.1.document.nodes.size :=
      ⟨⟨structural, holds.parent?⟩, fun n child => Nat.le_of_not_lt fun hn => plain hn child.1⟩
    exact last.endsWith holds.kind?

section Events

variable (ho : s.1.Open config) (h : Mirrors m s)
include ho h

theorem Mirrors.stage_eq : m.stage = .documentOpen :=
  h.stage.symm.trans ho.open_stage

/-- The characters that will be appended are the same. -/
theorem Mirrors.held_eq : s.1.held = m.held config.stripIgnorable := by
  rw [ho.sound.held_eq, h.pending, StackMachine.held]

/-- The cursor is on the document node exactly while no element is open. -/
theorem Mirrors.cursor_eq_iff : s.1.cursor = documentId ↔ m.stack.height = 0 := by
  rw [h.cursor, h.nested.cursor_eq_iff ho.layout]

/-- What comes after the characters has the nodes after theirs. -/
theorem Mirrors.size_flush {d : Document} {c : Nat} {texts : List Record}
    (text : TextRecords d c s.1.held texts) :
    (m.flush config.stripIgnorable).size = s.1.document.nodes.size + texts.length := by
  rw [StackMachine.size_flush, text.length_eq, h.held_eq ho, h.size]

/-- Characters are appended, and then what is not part of the tree. -/
theorem Mirrors.flushes {texts own : List Record} (flushes : Flushes config texts own s s')
    (scopes : s'.1.scopes = s.1.scopes)
    (plain : ∀ {n : Nat}, s.1.document.nodes.size + texts.length ≤ n →
      ¬ s'.1.document.nodes.IsStructural n) (entities : List (String × String)) :
    Mirrors { m.flush config.stripIgnorable with
      size := (m.flush config.stripIgnorable).size + own.length, entities } s' := by
  have last := flushes.endsWith ho h.last plain
  rw [h.held_eq ho, h.size, ← last_flush] at last
  refine .ofOpen flushes.adds.isOpen ?_ ?_ ?_ ?_ ?_ last ?_
  · simp [h.stage_eq ho]
  · simp [h.size_flush ho flushes.text, flushes.adds.size, Nat.add_assoc]
  · simp [flushes.cursor, h.cursor]
  · simp [scopes, h.depth]
  · simp [flushes.pending]
  · exact (h.nested.mono flushes.adds.keeps.extension.continues).flush _

theorem Mirrors.flushed {texts : List Record} (flushes : Flushes config texts [] s s')
    (scopes : s'.1.scopes = s.1.scopes) : Mirrors (m.flush config.stripIgnorable) s' :=
  h.flushes ho flushes scopes flushes.nothing_after (m.flush config.stripIgnorable).entities

theorem Mirrors.addLeaf {event : Event} {texts : List Record} {own : Record}
    (flushes : Flushes config texts [own] s s')
    (leaf : LeafRecord s'.1.document s.1.cursor event own) (scopes : s'.1.scopes = s.1.scopes) :
    Mirrors ((m.flush config.stripIgnorable).addChild own.kind 1) s' := by
  obtain ⟨last, kind⟩ := flushes.isLastChild leaf
  have size := h.size_flush ho flushes.text
  refine .ofOpen flushes.adds.isOpen ?_ ?_ ?_ ?_ ?_ ?_ ?_
  · simp [h.stage_eq ho]
  · simp [size, flushes.adds.size, Nat.add_assoc]
  · simp [flushes.cursor, h.cursor]
  · simp [scopes, h.depth]
  · simp [flushes.pending]
  · rw [stack_addChild, Stack.last_put, size]
    exact last.endsWith kind
  · exact ((h.nested.mono flushes.adds.keeps.extension.continues).flush _).put _

theorem Mirrors.startElement {name : String} {attributes : List Event.Attribute}
    {texts : List Record} {own : Record} {stored : List StoredAttribute}
    (starts : StartsElement config name attributes texts own stored s s') :
    Mirrors (m.step config.stripIgnorable (.startElement name attributes)) s' := by
  have size := h.size_flush ho starts.text
  have element := starts.cursor.trans size.symm
  have holds := starts.holds
  obtain ⟨frame, pushed, -⟩ := starts.scopes
  obtain ⟨namespaceId, id, rfl, -⟩ := starts.own
  refine .ofOpen starts.adds.isOpen ?_ ?_ element ?_ ?_ ?_ (.level ?_ ?_ ?_)
  · exact stage_flush.trans (h.stage_eq ho)
  · rw [← starts.next_eq, element, Nat.add_assoc]
    rfl
  · simp [step, enter, Stack.height, pushed, h.depth]
  · exact starts.pending.trans pending_flush.symm
  · exact Table.endsWith_none starts.not_isChild
  · rw [Stack.cursor_put, cursor_flush, ← h.cursor, ← element]
    exact holds.parent?
  · exact Stack.last_put ..
  · exact ((h.nested.mono starts.adds.keeps.extension.continues).flush _).put _

theorem Mirrors.endElement {texts : List Record} (ends : EndsElement config texts s s') :
    Mirrors (m.step config.stripIgnorable .endElement) s' := by
  have nested := h.nested.mono ends.adds.keeps.extension.continues
  have cursor := h.cursor
  generalize hs : m.stack = stack at nested cursor
  cases nested with
  | ground => exact absurd cursor ends.inside
  | @level element _ outer parent child nested =>
    have last := (ends.isLastChild ho).endsWith ends.kind
    have outside := ends.parent
    rw [cursor] at last outside
    have pop : (m.step config.stripIgnorable .endElement).stack = outer := pop_flush hs
    refine .ofOpen ends.adds.isOpen ?_ ?_ ?_ ?_ ?_ ?_ ?_
    · exact stage_flush.trans (h.stage_eq ho)
    · exact ends.adds.size.trans (h.size_flush ho ends.text).symm
    · rw [pop]
      exact Option.some.inj (outside.symm.trans parent)
    · simp [pop, ends.scopes, h.depth, hs, Stack.height]
    · exact ends.pending.trans pending_flush.symm
    · rw [pop, child]
      exact last
    · rw [pop]
      exact nested

theorem Mirrors.endDocument {texts : List Record} (ends : EndsDocument config texts s s') :
    Mirrors (m.step config.stripIgnorable .endDocument) s' := by
  obtain ⟨s₁, flushes, extension, size, place⟩ := ends.flushed
  have before := h.flushed ho flushes (place.scopes.symm.trans ends.scopes)
  have layout := flushes.adds.isOpen.layout
  have last := before.last.of_continues layout extension.continues fun n hn child => by
    have hlt := child.1.lt_size
    omega
  rw [← place.cursor] at last
  exact
    { stage := ends.stage
      size := size.trans before.size
      cursor := place.cursor.trans before.cursor
      depth := (congrArg _ place.scopes).trans before.depth
      pending := place.pending.trans before.pending
      previous := place.previous.trans before.previous
      last := last
      nested := before.nested.mono extension.continues }

theorem Mirrors.content {event : Event}
    (known : ∀ name, s.1.document.entities.contains name = true ↔
      (Entity.predefined.lookup name).isSome ∨ name ∈ m.entities.map (·.1))
    (contributes : Contributes config s s' event) (quiet : Quiet s s') :
    Mirrors (m.step config.stripIgnorable event) s' := by
  cases contributes with
  | @characters text flags same =>
    subst same
    have outside := h.cursor_eq_iff ho
    show Mirrors (if m.stack.height = 0 then m else _) (s.1.afterCharacters text flags, s.2)
    unfold afterCharacters
    by_cases hc : s.1.cursor = documentId
    · rw [if_pos hc, if_pos (outside.1 hc)]
      exact h
    · rw [if_neg hc, if_neg (mt outside.2 hc), ← h.pending]
      exact { h with pending := rfl }
  | leaf adds =>
    obtain ⟨texts, own, flushes, leaf⟩ := adds
    have mirrors := h.addLeaf ho flushes leaf quiet.scopes
    cases leaf <;> exact mirrors
  | @entity name value declares =>
    cases declares with
    | known flushes _ contains =>
      rw [step, declare, entities_flush, if_pos ((known name).1 contains)]
      exact h.flushed ho flushes quiet.scopes
    | new flushes _ records contains =>
      have mirrors := h.flushes ho flushes quiet.scopes (flushes.not_isStructural records)
        (m.entities ++ [(name, value)])
      obtain ⟨id, payload, rfl, -⟩ := records
      have unknown := mt (known name).2 (Bool.eq_false_iff.1 contains)
      rw [step, declare, entities_flush, if_neg unknown]
      exact mirrors

end Events

theorem Mirrors.startDocument (idle : s.1.Idle config) (starts : StartsDocument config s s')
    (h : Mirrors m s) : Mirrors (m.step config.stripIgnorable .startDocument) s' := by
  have outside := h.nested.cursor_of_empty idle.size
  have last : m.stack.last = none := h.previous.symm.trans idle.previous
  refine .ofOpen starts.isOpen rfl ?_ ?_ ?_ ?_ ?_ ?_
  · rw [starts.size, step, ← h.size, idle.size]
  · exact starts.cursor.trans outside.symm
  · exact (congrArg _ starts.quiet.scopes).trans h.depth
  · exact starts.pending.trans (idle.pending.symm.trans h.pending)
  · show s'.1.document.nodes.EndsWith _ m.stack.last
    rw [last]
    refine Table.endsWith_none fun n child => ?_
    have hlt := child.1.lt_size
    have := starts.isOpen.layout.parent_lt child.2
    rw [starts.size] at hlt
    omega
  · exact h.nested.mono starts.keeps.extension.continues

/-- A failure leaves a builder where it is. -/
theorem Mirrors.abandon (h : Mirrors m s) (cause : Failure) :
    Mirrors m.abandon (failed cause s) := by
  have nodes := nodes_failed cause s
  unfold failed at nodes ⊢
  unfold StackMachine.abandon
  rw [← h.stage]
  cases hs : s.1.stage with
  | idle | documentOpen =>
    rw [hs] at nodes
    exact
      { h with
        stage := rfl
        size := (congrArg _ nodes).trans h.size
        last := by
          rw [nodes]
          exact h.last
        nested := by
          rw [nodes]
          exact h.nested }
  | documentClosed | failed => exact h

/-- A builder and the machine take an event the same way. -/
theorem Effect.mirrors {event : Event} (effect : Effect config s s' event)
    (known : ∀ name, s.1.document.entities.contains name = true ↔
      (Entity.predefined.lookup name).isSome ∨ name ∈ m.entities.map (·.1))
    (h : Mirrors m s) : Mirrors (m.step config.stripIgnorable event) s' := by
  cases effect with
  | startDocument idle starts => exact h.startDocument idle starts
  | endDocument ho ends => exact h.endDocument ho ends
  | startElement ho starts => exact h.startElement ho starts
  | endElement ho ends => exact h.endElement ho ends
  | content ho contributes quiet => exact h.content ho known contributes quiet
  | fatalError same =>
    subst same
    exact h.abandon _

/-! ### Runs -/

/-- A builder knows the entities that the machine knows. -/
theorem Takes.knows {journal : Journal} {events : List Event}
    (h : Takes (start config, journal) events s) (name : String) :
    s.1.document.entities.contains name = true ↔ (Entity.predefined.lookup name).isSome ∨
      name ∈ (StackMachine.after config.stripIgnorable events).entities.map (·.1) := by
  rw [entities_after]
  exact h.declares.contains_iff (Event.nodup_introduced events) name

/-- A builder goes on to be where the machine is, event by event. -/
theorem Mirrors.acceptAll {journal : Journal} {events later : List Event}
    (taken : Takes (start config, journal) events s)
    (h : Mirrors (StackMachine.after config.stripIgnorable events) s)
    (run : (acceptAll later).run.run s = (.ok (), s')) :
    Mirrors (StackMachine.after config.stripIgnorable (events ++ later)) s' := by
  induction later generalizing events s with
  | nil =>
    cases run
    rwa [List.append_nil]
  | cons event rest ih =>
    rw [Builder.acceptAll, run_bind] at run
    rcases first : (accept event).run.run s with ⟨_ | _, s₁⟩
    · rw [first] at run
      cases run
    · rw [first] at run
      have consistent := taken.reaches.consistent (consistent_start config)
      have step := ((accept_meets consistent event).of_ok first).mirrors taken.knows h
      rw [← after_concat] at step
      have := ih (taken.accept first) step run
      rwa [List.append_assoc] at this

/-! ### Ends -/

theorem Effect.endsElement (h : Effect config s s' .endElement) :
    s.1.Open config ∧ ∃ texts, EndsElement config texts s s' := by
  cases h with
  | endElement ho ends => exact ⟨ho, _, ends⟩
  | content _ contributes => exact absurd rfl contributes.not_end.1

theorem Effect.endsDocument (h : Effect config s s' .endDocument) :
    s.1.Open config ∧ ∃ texts, EndsDocument config texts s s' := by
  cases h with
  | endDocument ho ends => exact ⟨ho, _, ends⟩
  | content _ contributes => exact absurd rfl contributes.not_end.2

section Ends

variable (hs : s.1.Consistent config) (h : Mirrors m s)
include hs h

/-- The end of an element is taken exactly if one is open, and there is room for the characters held
back. -/
theorem Mirrors.run_endElement_iff : ((accept .endElement).run.run s).1 = .ok () ↔
    m.stage = .documentOpen ∧ 0 < m.stack.height ∧
      m.size + (m.held config.stripIgnorable).toList.length ≤
        s.1.document.nodes.capacity := by
  constructor
  · intro ok
    obtain ⟨ho, texts, ends⟩ :=
      ((accept_meets hs .endElement).of_ok (Prod.ext ok rfl)).endsElement
    have room := ends.adds.isOpen.sound.wellFormed.size_le
    rw [ends.adds.size, ends.adds.keeps.capacity, ends.text.length_eq, h.held_eq ho,
      h.size] at room
    exact ⟨h.stage_eq ho, Nat.pos_of_ne_zero (mt (h.cursor_eq_iff ho).2 ends.inside), room⟩
  · rintro ⟨going, inside, room⟩
    have ho := hs.isOpen (h.stage.trans going)
    rw [← h.held_eq ho, ← h.size] at room
    have element := mt (h.cursor_eq_iff ho).1 (Nat.ne_of_gt inside)
    have meets : (accept .endElement).Meets s
        (fun _ s' => ∃ texts, EndsElement config texts s s') fun _ _ => False :=
      accept_meets_of_isOpen ho rfl (endElement_meets ho (fun _ => room) fun _ => element)
    obtain ⟨_, _, run, -⟩ := meets.exists_ok
    rw [run]

/-- The end of the document is taken exactly if no element is open. Characters are not held back
then. -/
theorem Mirrors.run_endDocument_iff (normal : s.1.IsNormal) :
    ((accept .endDocument).run.run s).1 = .ok () ↔
      m.stage = .documentOpen ∧ m.stack.height = 0 := by
  constructor
  · intro ok
    obtain ⟨ho, texts, ends⟩ :=
      ((accept_meets hs .endDocument).of_ok (Prod.ext ok rfl)).endsDocument
    exact ⟨h.stage_eq ho, (h.cursor_eq_iff ho).1 ends.outside⟩
  · rintro ⟨going, ground⟩
    have ho := hs.isOpen (h.stage.trans going)
    have outside := (h.cursor_eq_iff ho).2 ground
    have nothing : s.1.held = none := by
      rw [held, Option.filter_eq_none_iff]
      intro text pending
      exact absurd outside ((normal.holds ho.open_stage).pending pending).2
    have room : s.1.document.nodes.size + s.1.held.toList.length ≤
        s.1.document.nodes.capacity := by
      rw [nothing]
      exact ho.sound.wellFormed.size_le
    have meets : (accept .endDocument).Meets s
        (fun _ s' => ∃ texts, EndsDocument config texts s s') fun _ _ => False :=
      accept_meets_of_isOpen ho rfl (endDocument_meets ho (fun _ => room) fun _ => outside)
    obtain ⟨_, _, run, -⟩ := meets.exists_ok
    rw [run]

end Ends

/-- A builder that keeps no stack behaves like the machine that keeps one. Whatever events it has
taken, its cursor is the element on top of the stack, or the document node; as many scopes are open
as the stack has elements, and as many nodes are above the cursor; the child that it remembers is
the last one under the cursor. While the document is open, the end of an element is taken exactly if
the stack is not empty, unless there is no room for characters held back, and the end of the
document exactly if the stack is empty. -/
theorem behaves_like_a_stack_machine {journal : Journal} {events : List Event}
    (run : (acceptAll events).run.run (start config, journal) = (.ok (), s)) :
    let m := StackMachine.after config.stripIgnorable events
    s.1.stage = m.stage ∧ s.1.cursor = m.stack.cursor ∧ s.1.scopes.depth = m.stack.height ∧
      (0 < s.1.document.nodes.size → ∃ above,
        (Query.ancestors s.1.cursor).run s.1.document = .answer above ∧
          above.length = m.stack.height) ∧
      s.1.previous = m.stack.last ∧
      (∀ n k, s.1.previous = some (n, k) ↔
        s.1.document.nodes.IsLastChild s.1.cursor n ∧ s.1.document.nodes.kind? n = some k) ∧
      (((accept .endElement).run.run s).1 = .ok () ↔
        m.stage = .documentOpen ∧ 0 < m.stack.height ∧
          m.size + (m.held config.stripIgnorable).toList.length ≤
            s.1.document.nodes.capacity) ∧
      (((accept .endDocument).run.run s).1 = .ok () ↔
        m.stage = .documentOpen ∧ m.stack.height = 0) := by
  intro m
  have fresh : Mirrors (StackMachine.after config.stripIgnorable []) (start config, journal) :=
    mirrors_start config journal
  have mirrors : Mirrors m s := fresh.acceptAll .refl run
  have reached := (takes_acceptAll run).reaches
  have consistent := reached.consistent (consistent_start config)
  refine ⟨mirrors.stage, mirrors.cursor, mirrors.depth, fun nonempty => ?_, mirrors.previous, ?_,
    mirrors.run_endElement_iff consistent, mirrors.run_endDocument_iff consistent reached.isNormal⟩
  · have above := Query.run_ancestors_of_nested consistent.sound.wellFormed mirrors.nested
      (mirrors.nested.cursor_lt nonempty)
    rw [← mirrors.cursor] at above
    exact ⟨_, above, m.stack.length_enclosing⟩
  · rw [mirrors.previous]
    exact mirrors.last

/-- An element with an attribute and a text in it was ended within another one. The other one is on
top of the stack again, and the element is its last child. -/
theorem behaves_like_a_stack_machine_of_closed_child :
    let events : List Event := [.startDocument, .comment "c", .startElement "a" [],
      .characters "t" {}, .startElement "b" [{ name := "x", value := "1" }], .characters "u" {},
      .endElement]
    let s := ((acceptAll events).run.run (start .standard, { handler := .lenient })).2
    (acceptAll events).run.run (start .standard, { handler := .lenient }) = (.ok (), s) ∧
      s.1.cursor = 2 ∧ s.1.scopes.depth = 1 ∧ s.1.previous = some (4, .element) ∧
      s.1.document.nodes.IsLastChild 2 4 ∧ ((accept .endElement).run.run s).1 = .ok () ∧
      ((accept .endDocument).run.run s).1 ≠ .ok () := by
  intro events s
  have run : (acceptAll events).run.run (start .standard, { handler := .lenient }) = (.ok (), s) :=
    Prod.ext (by decide +kernel) rfl
  obtain ⟨-, cursor, depth, -, previous, last, ends, closes⟩ := behaves_like_a_stack_machine run
  have child := ((last 4 .element).1 previous).1
  rw [cursor] at child
  exact ⟨run, cursor, depth, previous, child, ends.2 ⟨rfl, by decide, by decide +kernel⟩,
    mt closes.1 (by decide)⟩

/-- When the document has ended, the stack is empty, but the end of the document is not taken a
second time: no content is taken any more. -/
theorem not_endDocument_of_closed :
    let events : List Event := [.startDocument, .startElement "a" [], .endElement, .endDocument]
    let s := ((acceptAll events).run.run (start .standard, { handler := .lenient })).2
    (acceptAll events).run.run (start .standard, { handler := .lenient }) = (.ok (), s) ∧
      ((accept .endDocument).run.run s).1 = .error (.protocol "DocumentClosed" "end_document") ∧
      ¬ (((accept .endDocument).run.run s).1 = .ok () ↔
        (StackMachine.after Config.standard.stripIgnorable events).stack.height = 0) := by
  intro events s
  have run : (acceptAll events).run.run (start .standard, { handler := .lenient }) = (.ok (), s) :=
    Prod.ext (by decide +kernel) rfl
  have refused : ((accept .endDocument).run.run s).1 =
      .error (.protocol "DocumentClosed" "end_document") := by decide +kernel
  refine ⟨run, refused, fun taken => ?_⟩
  rw [refused] at taken
  cases taken.2 rfl

end Builder

end XmlTable
