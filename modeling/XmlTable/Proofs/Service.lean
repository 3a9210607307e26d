import XmlTable.Proofs.Refusals

/-!
# Builders that are served well

A builder that is told the events of a document in order is never told one out of place. Its stage
and its cursor follow the phase: the cursor is as deep below the document as elements are open, and
entities are taken until the document element begins. So an event is refused only because something
is full or because a prefix is not declared.
-/

namespace XmlTable

open Node

/-- The stage of a builder in a phase. -/
def Phase.stage : Phase → Stage
  | before => .idle
  | prolog | inside _ | epilog => .documentOpen
  | ended => .documentClosed

/-- A node is so many levels below the document. -/
def Node.Table.AtDepth (t : Table) : Nat → Nat → Prop
  | 0, n => n = documentId
  | depth + 1, n => n ≠ documentId ∧ ∃ p, t.parent? n = some p ∧ t.AtDepth depth p

/-- A node stays as deep as it is. -/
theorem Node.Table.AtDepth.mono {t t' : Table} {depth n : Nat} (h : t.AtDepth depth n)
    (c : t.Continues t') : t'.AtDepth depth n := by
  induction depth generalizing n with
  | zero => exact h
  | succ depth ih =>
    obtain ⟨below, p, hp, above⟩ := h
    exact ⟨below, p, c.parent? hp, ih above⟩

namespace Builder

open Reporting

/-- Why an event is refused that may come next. -/
inductive Refusal : Event → Failure → Prop
  /-- Something is full. -/
  | full (event : Event) (what : String) : Refusal event (.capacity what)
  /-- A prefix is not declared, and the error handler did not recover from that. -/
  | undeclared (name : String) (attributes : List Event.Attribute) (lead : String) :
    Refusal (.startElement name attributes)
      (.construction ("undeclared namespace prefix '" ++ lead ++ "'"))

/-- A builder that was told the events up to a phase. -/
structure Serves (config : Config) (phase : Phase) (b : Builder) : Prop where
  /-- It is consistent. -/
  consistent : b.Consistent config
  /-- It has seen as much of the document. -/
  stage : b.stage = phase.stage
  /-- The cursor is on the innermost open element. -/
  cursor : phase.stage = .documentOpen → b.document.nodes.AtDepth phase.opens b.cursor
  /-- Entities are taken until the document element begins. -/
  entities : phase = .prolog → b.entitiesClosed = false

variable {config : Config} {phase next : Phase} {event : Event} {journal : Journal}
  {s s' : Builder × Journal}

theorem serves_start (config : Config) : Serves config .before (start config) where
  consistent := consistent_start config
  stage := rfl
  cursor := nofun
  entities := nofun

namespace Serves

theorem isOpen (h : Serves config phase s.1) (hp : phase.stage = .documentOpen) :
    s.1.Open config :=
  h.consistent.isOpen (h.stage.trans hp)

/-- In an element the cursor is not on the document. -/
theorem cursor_ne {depth : Nat} (h : Serves config (.inside depth) s.1) :
    s.1.cursor ≠ documentId :=
  (h.cursor rfl).1

/-- Content other than elements leaves the phase as it is. -/
theorem flushes (h : Serves config phase s.1) (hp : phase.stage = .documentOpen)
    {texts own : List Record} (f : Flushes config texts own s s') : Serves config phase s'.1 where
  consistent := f.adds.isOpen.consistent
  stage := f.adds.isOpen.open_stage.trans hp.symm
  cursor _ := by
    rw [f.cursor]
    exact (h.cursor hp).mono f.adds.keeps.extension.continues
  entities hp' := by rw [f.entitiesClosed, h.entities hp']

/-- Characters in an element leave the phase as it is. -/
theorem afterCharacters {depth : Nat} (h : Serves config (.inside depth) s.1) (text : String)
    (flags : TextFlags) : Serves config (.inside depth) (s.1.afterCharacters text flags) := by
  rw [Builder.afterCharacters, if_neg h.cursor_ne]
  exact
    { consistent := ((h.isOpen rfl).of_pending _).consistent
      stage := h.stage
      cursor := h.cursor
      entities := fun hp => by cases hp }

/-- The start of an element leads into it. -/
theorem startsElement (h : Serves config phase s.1) (hp : phase.stage = .documentOpen)
    {name : String} {attributes : List Event.Attribute} {texts : List Record} {own : Record}
    {stored : List StoredAttribute}
    (f : StartsElement config name attributes texts own stored s s') :
    Serves config (.inside phase.opens) s'.1 where
  consistent := f.adds.isOpen.consistent
  stage := f.adds.isOpen.open_stage
  cursor _ := by
    have nonempty : 0 < s.1.document.nodes.size :=
      Nat.zero_lt_of_lt (h.isOpen hp).frontier.cursor_lt
    have parent : s'.1.document.nodes.parent? s'.1.cursor = some s.1.cursor := by
      obtain ⟨namespaceId, id, rfl, -⟩ := f.own
      have held := (f.adds.holds_right (i := 0) rfl).parent?
      rwa [Nat.add_zero, ← f.cursor] at held
    refine ⟨?_, s.1.cursor, parent, (h.cursor hp).mono f.adds.keeps.extension.continues⟩
    rw [f.cursor]
    exact Nat.ne_of_gt (Nat.add_pos_left nonempty _)
  entities := nofun

/-- The end of an element leads out of it. -/
theorem endsElement {depth : Nat} (h : Serves config (.inside depth) s.1) {texts : List Record}
    (f : EndsElement config texts s s') : Serves config (.outside depth) s'.1 := by
  have cursor : s'.1.document.nodes.AtDepth depth s'.1.cursor := by
    obtain ⟨-, p, hp, above⟩ := (h.cursor rfl).mono f.adds.keeps.extension.continues
    rw [f.parent] at hp
    cases hp
    exact above
  cases depth with
  | zero =>
    exact
      { consistent := f.adds.isOpen.consistent
        stage := f.adds.isOpen.open_stage
        cursor := fun _ => cursor
        entities := nofun }
  | succ depth =>
    exact
      { consistent := f.adds.isOpen.consistent
        stage := f.adds.isOpen.open_stage
        cursor := fun _ => cursor
        entities := nofun }

end Serves

/-! ### Events that may come next -/

/-- Work for an event that may come next leads to the phase after it, or fails for one of the
reasons there are; nothing fatal is reported yet. -/
def Obeys (config : Config) (journal : Journal) (event : Event) (next : Phase)
    (work : Reporting Builder Unit) (s : Builder × Journal) : Prop :=
  work.Meets s (fun _ s' => Serves config next s'.1 ∧ journal.Continues s'.2)
    fun cause s' => s'.1.Active config ∧ journal.Continues s'.2 ∧ Refusal event cause

theorem Obeys.of_failsFor {work : Reporting Builder Unit} {P : Builder × Journal → Prop}
    {Q : Failure → Builder × Journal → Prop} (meets : work.Meets s (fun _ s' => P s') Q)
    (fails : FailsFor (Refusal event) journal work s)
    (ok : ∀ s', P s' → Serves config next s'.1)
    (active : ∀ cause s', Q cause s' → s'.1.Active config) :
    Obeys config journal event next work s :=
  (meets.and fails).mono (fun _ s' h => ⟨ok s' h.1, h.2⟩)
    fun cause s' h => ⟨active cause s' h.1, h.2⟩

theorem Breaks.active {clear : Prop} (h : Breaks config clear s s') : s'.1.Active config := by
  obtain ⟨_, _, adds, -⟩ := h.adds
  exact adds.isOpen.toActive

theorem Serves.perform (h : Serves config phase s.1) (hn : phase.next? event = some next)
    (told : journal.Continues s.2) : Obeys config journal event next (perform event) s := by
  -- An event that is content is taken where content is accepted.
  have content : ∀ {event : Event} {work : Unit → Reporting Builder Unit}
      {P : Builder × Journal → Prop}, phase.stage = .documentOpen →
      (work ()).Meets s (fun _ s' => P s') (fun _ s' => Breaks config False s s') →
      FailsFor (Refusal event) journal (work ()) s → (∀ s', P s' → Serves config next s'.1) →
      Obeys config journal event next (requireOpen event >>= work) s := by
    intro event work P hp meets fails ok
    refine (requireOpen_bind_meets event work).2 ?_
    rw [if_pos (h.stage.trans hp)]
    exact Obeys.of_failsFor meets fails ok fun _ _ hb => hb.active
  cases event with
  | startDocument =>
    cases phase <;> cases hn
    refine Obeys.of_failsFor (startDocument_meets (h.consistent.idle h.stage) h.stage False.elim)
      (startDocument_failsFor (.full _) h.stage told) (fun s' starts => ?_) ?_
    · exact
        { consistent := starts.isOpen.consistent
          stage := starts.isOpen.open_stage
          cursor := fun _ => starts.cursor
          entities := fun _ => starts.entitiesClosed }
    · rintro _ _ ⟨rfl, -⟩
      exact (h.consistent.idle h.stage).toActive
  | endDocument =>
    cases phase <;> cases hn
    refine content rfl (endDocument_meets (h.isOpen rfl) False.elim False.elim)
      (endDocument_failsFor (.full _) (h.isOpen rfl) (h.cursor rfl) told) ?_
    rintro s' ⟨texts, ends⟩
    exact
      { consistent := ends.consistent
        stage := ends.stage
        cursor := nofun
        entities := nofun }
  | startElement name attributes =>
    obtain ⟨hp, rfl⟩ : phase.stage = .documentOpen ∧ next = .inside phase.opens := by
      cases phase <;> cases hn <;> exact ⟨rfl, rfl⟩
    refine content hp (startElement_meets (h.isOpen hp) name attributes [] False.elim False.elim
      False.elim) (failsOnly_startElement (.full _) (.undeclared _ _) name attributes s _ told) ?_
    rintro s' ⟨texts, own, stored, starts⟩
    exact h.startsElement hp starts
  | endElement =>
    cases phase <;> cases hn
    refine content rfl (endElement_meets (h.isOpen rfl) False.elim False.elim)
      (endElement_failsFor (.full _) (h.isOpen rfl) h.cursor_ne told) ?_
    rintro s' ⟨texts, ends⟩
    exact h.endsElement ends
  | characters text flags =>
    cases phase <;> cases hn
    refine content rfl (characters_meets (h.isOpen rfl) text flags False.elim)
      (characters_failsFor h.cursor_ne text flags told) ?_
    rintro s' rfl
    exact h.afterCharacters text flags
  | comment text =>
    obtain ⟨hp, rfl⟩ : phase.stage = .documentOpen ∧ next = phase := by
      cases phase <;> cases hn <;> exact ⟨rfl, rfl⟩
    refine content hp (comment_meets (h.isOpen hp) False.elim text)
      (failsOnly_comment (.full _) text s _ told) ?_
    rintro s' ⟨texts, own, flushes, -⟩
    exact h.flushes hp flushes
  | instruction target data =>
    obtain ⟨hp, rfl⟩ : phase.stage = .documentOpen ∧ next = phase := by
      cases phase <;> cases hn <;> exact ⟨rfl, rfl⟩
    refine content hp (instruction_meets (h.isOpen hp) False.elim target data)
      (failsOnly_instruction (.full _) target data s _ told) ?_
    rintro s' ⟨texts, own, flushes, -⟩
    exact h.flushes hp flushes
  | entityDeclaration name value =>
    cases phase <;> cases hn
    refine content rfl (entityDeclaration_meets (h.isOpen rfl) name value False.elim False.elim)
      (entityDeclaration_failsFor (.full _) (h.isOpen rfl) (h.cursor rfl) (h.entities rfl) name
        value told) ?_
    rintro s' (⟨flushes⟩ | ⟨flushes⟩)
    · exact h.flushes rfl flushes
    · exact h.flushes rfl flushes
  | entityReference name =>
    cases phase <;> cases hn
    refine content rfl (entityReference_meets (h.isOpen rfl) False.elim name)
      (failsOnly_entityReference (.full _) name s _ told) ?_
    rintro s' ⟨texts, own, flushes, -⟩
    exact h.flushes rfl flushes
  | fatalError cause => cases phase <;> cases hn

/-- What is left of a builder that refused an event: the construction has ended with that failure,
which was reported as fatal, and nothing else was. -/
def Refused (config : Config) (journal : Journal) (cause : Failure) (s : Builder × Journal) :
    Prop :=
  ∃ s₁ : Builder × Journal, s₁.1.Active config ∧ journal.Continues s₁.2 ∧ s = failed cause s₁

/-- A builder that was told the events up to a phase takes an event that may come next, or refuses
it for one of the reasons there are. -/
theorem Serves.accept (h : Serves config phase s.1) (hn : phase.next? event = some next)
    (told : journal.Continues s.2) :
    (Builder.accept event).Meets s
      (fun _ s' => Serves config next s'.1 ∧ journal.Continues s'.2)
      fun cause s' => Refused config journal cause s' ∧ Refusal event cause := by
  unfold Builder.accept guarded
  rw [meets_tryCatch]
  refine (h.perform hn told).mono (fun _ _ hp => hp) fun cause s₁ hp => ?_
  rw [meets_bind, fail_meets, meets_throw]
  exact ⟨⟨s₁, hp.1, hp.2.1, rfl⟩, hp.2.2⟩

/-- Failing always succeeds. -/
theorem run_fail (cause : Failure) (s : Builder × Journal) :
    (fail cause).run.run s = (.ok (), failed cause s) := by
  obtain ⟨⟨_, _, stage, _, _, _, _, _, _⟩, _⟩ := s
  cases stage <;> rfl

/-- A builder can always be told of a failure. -/
theorem run_accept_fatalError (cause : Failure) (s : Builder × Journal) :
    (accept (.fatalError cause)).run.run s = (.ok (), failed cause s) := by
  rw [accept, guarded, run_tryCatch, perform, run_fail]

/-- The contract that a builder keeps with those who tell it the events of a document in order. -/
def service (config : Config) (journal : Journal) : Contract sink sink where
  holds phase s s' := s' = s ∧ Serves config phase s.1 ∧ journal.Continues s.2
  refused _ event cause s s' := s' = s ∧ Refused config journal cause s ∧ Refusal event cause
  journal h := by rw [h.1]
  tell h more := ⟨by rw [h.1], h.2.1, h.2.2.trans more⟩
  accept := by
    rintro phase next event s s' ⟨same, serves, told⟩ hn
    subst same
    have meets := serves.accept hn told
    unfold Meets at meets
    show EndAlike _ _ _ ((Builder.accept event).run.run s') ((Builder.accept event).run.run s')
    generalize (Builder.accept event).run.run s' = r at meets ⊢
    obtain ⟨_ | _, t⟩ := r
    · exact .fail ⟨rfl, meets⟩
    · exact .ok ⟨rfl, meets⟩

end Builder

end XmlTable
