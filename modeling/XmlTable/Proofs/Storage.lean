import XmlTable.Proofs.SameAnswers
import XmlTable.Proofs.Twins

/-!
# The storage of a document does not show

Where the records of a document are kept, and whether equal texts share a symbol, is a matter of
space and speed. Builders that differ in nothing else answer every event alike, and readers of their
documents cannot tell them apart at any moment, except that the symbols of text payloads are others.
How often readers are woken does not show either: they may look at any moment anyway.
-/

namespace XmlTable

open Node

/-- Two settings are the same but for how records and texts are kept and how often readers are
woken. -/
structure Config.SameButStorage (config config' : Config) : Prop where
  /-- Waits are bounded alike. -/
  waitTimeout : config'.waitTimeout = config.waitTimeout
  /-- The document is handed out at the same time. -/
  mode : config'.mode = config.mode
  /-- The same characters are left out. -/
  stripIgnorable : config'.stripIgnorable = config.stripIgnorable
  /-- As much replacement text may be expanded. -/
  expansionLimit : config'.expansionLimit = config.expansionLimit

namespace Document

/-- Readers cannot tell two documents apart: records are the same but for the symbols of payloads,
which stand for the same text, and all questions have the same answers, whether or not waits were
cancelled. -/
structure Indistinguishable (d d' : Document) : Prop where
  /-- There are as many nodes. -/
  nodeCount : d'.nodeCount = d.nodeCount
  /-- They have come equally far. -/
  progress : d'.progress = d.progress
  /-- The records are the same but for the symbols of payloads. -/
  record : ∀ n, (∃ r r', (Query.record n).run d = .answer r ∧ (Query.record n).run d' = .answer r' ∧
      r.Resembles (d.SameText d') r') ∨
    ∃ cause, (Query.record n).run d = .misuse cause ∧ (Query.record n).run d' = .misuse cause
  /-- All questions have the same answers. -/
  answer : ∀ (cancelled : Bool) {α : Type} (q : Question α),
    q.ask.run { d' with isCancelled := cancelled } = q.ask.run { d with isCancelled := cancelled }
  /-- The listings are the same. -/
  listing : Listing.dump d' = Listing.dump d

variable {d d' : Document}

/-- Documents that tally cannot be told apart. -/
theorem Tallies.indistinguishable (h : d.Tallies d') (hd : d.WellFormed) :
    d.Indistinguishable d' where
  nodeCount := h.size
  progress := h.progress
  record n := by
    rcases h.get?_cases n with ⟨r, r', hr, hr', same⟩ | ⟨hr, hr'⟩
    · refine .inl ⟨r, r', ?_, ?_, same⟩
      · rw [Query.record, Query.run, hr, Query.run]
      · rw [Query.record, Query.run, hr', Query.run]
    · refine .inr ⟨.missingNode n d.nodeCount, ?_, ?_⟩
      · rw [Query.record, Query.run, hr, Query.run]
      · rw [Query.record, Query.run, hr', Query.run, nodeCount, nodeCount, h.size]
  answer cancelled {α} q := by
    have cancelledAlike : Tallies { d with isCancelled := cancelled }
        { d' with isCancelled := cancelled } := { h with isCancelled := rfl }
    exact cancelledAlike.run_ask hd.root cancelledAlike.standstill q
  listing := h.dump_eq

end Document

namespace Builder

/-- What becomes of events that are taken one after the other, whether or not some are refused: the
answer to each, and the state that it leaves. -/
def responses : List Event → Builder × Journal → List (Except Failure Unit × (Builder × Journal))
  | [], _ => []
  | event :: rest, s =>
    (accept event).run.run s :: responses rest ((accept event).run.run s).2

/-- The failures with which events were refused. -/
def refusals (responses : List (Except Failure Unit × (Builder × Journal))) : List Failure :=
  responses.filterMap fun
    | (.ok (), _) => none
    | (.error cause, _) => some cause

/-- Two builders responded alike: with the same answer, the same state and the same reports, and
their documents cannot be told apart, neither now nor at any moment of their histories. -/
structure RespondAlike (config config' : Config)
    (r r' : Except Failure Unit × (Builder × Journal)) : Prop where
  /-- The answer is the same. -/
  result : r'.1 = r.1
  /-- The same was reported. -/
  journal : r'.2.2 = r.2.2
  /-- The builders remember the same. -/
  builder : r'.2.1 = { r.2.1 with document := r'.2.1.document, history := r'.2.1.history }
  /-- The documents cannot be told apart. -/
  document : r.2.1.document.Indistinguishable r'.2.1.document
  /-- They could not at any earlier moment. -/
  moments : ∀ k, ((Document.initial config).moment r.2.1.history.toList k).Indistinguishable
    ((Document.initial config').moment r'.2.1.history.toList k)
  /-- A query that reads at several moments comes to the same answers. -/
  readsAlong : ∀ {α : Type} (q : Question α) (k j : Nat) (a : α),
    ReadsAlong ((Document.initial config).moment r.2.1.history.toList) k q.ask a j ↔
      ReadsAlong ((Document.initial config').moment r'.2.1.history.toList) k q.ask a j

namespace Pairing.Twins

variable {P : Pairing} {held : SymbolId → SymbolId → Prop} {s s' : Builder × Journal}

/-- The documents of twins at all moments of their histories. -/
def parallel (h : P.Twins held s s') (left : s.1.Sound P.left) (right : s'.1.Sound P.right) :
    Parallel where
  left := (Document.initial P.left).moment s.1.history.toList
  right := (Document.initial P.right).moment s'.1.history.toList
  resembles k := (h.lockstep.moments k).toResembles
  sameText hjk _ _ := fun ⟨text, hs, hs'⟩ =>
    ⟨text, (left.grows.extension hjk).text hs, (right.grows.extension hjk).text hs'⟩
  root := (left.grows.wellFormed (Document.wellFormed_initial _) _).root

/-- Twins respond alike. -/
theorem respondAlike (h : P.Twins held s s') (left : s.1.Sound P.left) (right : s'.1.Sound P.right)
    (result : Except Failure Unit) : RespondAlike P.left P.right (result, s) (result, s') where
  result := rfl
  journal := h.journal
  builder := h.own
  document := h.lockstep.tallies.indistinguishable left.wellFormed
  moments k := (h.lockstep.moments k).indistinguishable
    (left.grows.wellFormed (Document.wellFormed_initial _) k)
  readsAlong {α} q k j a := by
    constructor
    · intro hr
      obtain ⟨a', hr', same⟩ := (q.inStep (T := h.parallel left right)).readsAlong hr
      obtain rfl : a = a' := same.elim id fun ⟨_, same, _⟩ => same.symm
      exact hr'
    · intro hr
      obtain ⟨a', hr', same⟩ := (q.inStep (T := (h.parallel left right).symm)).readsAlong hr
      obtain rfl : a = a' := same.elim id fun ⟨_, same, _⟩ => same.symm
      exact hr'

/-- Twins respond alike to all events, unless the table of one of them is full. -/
theorem responses_alike (h : P.Twins held s s') (left : s.1.Consistent P.left)
    (right : s'.1.Consistent P.right) (events : List Event)
    (room : tableFull ∉ refusals (responses events s))
    (room' : tableFull ∉ refusals (responses events s')) :
    List.Forall₂ (RespondAlike P.left P.right) (responses events s) (responses events s') := by
  induction events generalizing held s s' with
  | nil => exact .nil
  | cons event rest ih =>
    have consistent : ∀ {config : Config} {t : Builder × Journal}, t.1.Consistent config →
        ((accept event).run.run t).2.1.Consistent config := fun ht =>
      (Reaches.accept .refl event).consistent ht
    have left := consistent left
    have right := consistent right
    have alike := tandem_accept event s s' h
    rw [responses, responses] at *
    generalize (accept event).run.run s = r, (accept event).run.run s' = r' at *
    cases alike with
    | ok ht =>
      obtain ⟨held', -, ht, -⟩ := ht
      exact .cons (ht.respondAlike left.sound right.sound _) (ih ht left right room room')
    | fail ht =>
      exact .cons (ht.respondAlike left.sound right.sound _)
        (ih ht left right (fun hm => room (.tail _ hm)) fun hm => room' (.tail _ hm))
    | left ht =>
      obtain ⟨-, rfl⟩ := ht
      exact absurd (.head _) room
    | right ht =>
      obtain ⟨-, rfl⟩ := ht
      exact absurd (.head _) room'

end Pairing.Twins

/-- Builders whose settings differ only in how records and texts are kept and in how often readers
are woken respond to all events alike, whether or not some are refused, unless the table of one of
them is full: with the same answer, state and reports, and with documents that no reader can tell
apart at any moment. -/
theorem storage_is_not_observable {config config' : Config} (same : config.SameButStorage config')
    (journal : Journal) (events : List Event)
    (room : tableFull ∉ refusals (responses events (start config, journal)))
    (room' : tableFull ∉ refusals (responses events (start config', journal))) :
    List.Forall₂ (RespondAlike config config') (responses events (start config, journal))
      (responses events (start config', journal)) :=
  (Pairing.Twins.start ⟨config, config', True⟩ same.waitTimeout same.stripIgnorable (.inl trivial)
    journal).responses_alike (consistent_start config) (consistent_start config') events room room'

/-- Two equal texts have one symbol in the one document and two in the other. -/
theorem storage_is_not_observable_of_equal_texts :
    let config := Config.standard
    let config' := ((Config.standard.withStorage .appended).withChunkBits 1).withMaxChunks 9
    let events : List Event := [.startDocument, .startElement "a" [], .comment "x", .comment "x",
      .endElement, .endElement, .endDocument]
    let journal : Journal := { handler := .lenient }
    let payloads := fun config => (responses events (start config, journal)).getLast?.map fun r =>
      r.2.1.document.nodes.toList.map (·.payload)
    payloads config ≠ payloads config' ∧
      List.Forall₂ (RespondAlike config config') (responses events (start config, journal))
        (responses events (start config', journal)) := by
  intro config config' events journal payloads
  have same : config.SameButStorage config' := ⟨rfl, rfl, rfl, rfl⟩
  exact ⟨by decide +kernel, storage_is_not_observable same journal events (by decide +kernel)
    (by decide +kernel)⟩

end Builder

end XmlTable
