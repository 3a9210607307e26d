import XmlTable.Proofs.Timeline

/-!
# Documents that look the same

Two documents look the same if they differ in nothing but the symbols of text payloads, the
settings, and how a wait for more of them ends. Readers of two such documents, or of two documents
that grow in step and look the same at every moment, go the same way: every read finds the same,
and a wait that is over in one is over in the other.
-/

namespace XmlTable

open Node

/-! ### Records and documents -/

namespace Node.Record

variable {P : SymbolId → SymbolId → Prop} {r r' : Record}

/-- Two records are the same but for their payloads, which are related. -/
structure Resembles (P : SymbolId → SymbolId → Prop) (r r' : Record) : Prop where
  /-- The kind is the same. -/
  kind : r'.kind = r.kind
  /-- The flags are the same. -/
  flags : r'.flags = r.flags
  /-- The namespace is the same. -/
  namespaceId : r'.namespaceId = r.namespaceId
  /-- The parent is the same. -/
  parent : r'.parent = r.parent
  /-- The name is the same. -/
  name : r'.name = r.name
  /-- The link is the same, if there is one. -/
  link? : r'.link? = r.link?
  /-- The payloads are related, if there are any. -/
  payload : r.kind ≠ .document → r.link? = none → P r.payload r'.payload

namespace Resembles

/-- A record looks like itself if its payload is related to itself. -/
theorem refl (h : r.kind ≠ .document → r.link? = none → P r.payload r.payload) :
    r.Resembles P r where
  kind := rfl
  flags := rfl
  namespaceId := rfl
  parent := rfl
  name := rfl
  link? := rfl
  payload := h

/-- A record without a payload looks like itself. -/
theorem rfl_of (h : r.link?.isSome ∨ r.kind = .document) : r.Resembles P r :=
  refl fun hk hl => by
    rcases h with h | h
    · rw [hl] at h
      cases h
    · exact absurd h hk

/-- Two records with related payloads look the same. -/
theorem leaf {p p' : SymbolId} (h : P p p') (kind : Kind) (flags : TextFlags) (parent : NodeId)
    (name : SymbolId) :
    (Record.leaf kind flags parent p name).Resembles P (.leaf kind flags parent p' name) where
  kind := rfl
  flags := rfl
  namespaceId := rfl
  parent := rfl
  name := rfl
  link? := rfl
  payload _ _ := h

theorem mono {Q : SymbolId → SymbolId → Prop} (h : r.Resembles P r')
    (hPQ : ∀ p p', P p p' → Q p p') : r.Resembles Q r' :=
  { h with payload := fun hk hl => hPQ _ _ (h.payload hk hl) }

theorem symm {Q : SymbolId → SymbolId → Prop} (h : r.Resembles P r')
    (hPQ : ∀ p p', P p p' → Q p' p) : r'.Resembles Q r where
  kind := h.kind.symm
  flags := h.flags.symm
  namespaceId := h.namespaceId.symm
  parent := h.parent.symm
  name := h.name.symm
  link? := h.link?.symm
  payload hk hl := hPQ _ _ (h.payload (h.kind ▸ hk) (h.link? ▸ hl))

/-- Records that look the same do so after their links were replaced. -/
theorem withLink (h : r.Resembles P r') (l : Link) :
    (r.withLink l).Resembles P (r'.withLink l) := by
  have link : (r'.withLink l).link? = (r.withLink l).link? ∧
      ((r.withLink l).link? = none → r.link? = none) := by
    have same := h.link?
    unfold Record.withLink Record.link? at *
    cases hr : r.link <;> cases hr' : r'.link <;> simp_all
  exact
    { kind := by simp only [kind_withLink, h.kind]
      flags := by simp only [flags_withLink, h.flags]
      namespaceId := by simp only [namespaceId_withLink, h.namespaceId]
      parent := by simp only [parent_withLink, h.parent]
      name := by simp only [name_withLink, h.name]
      link? := link.1
      payload := fun hk hl => by
        rw [payload_withLink, payload_withLink]
        exact h.payload (by rwa [kind_withLink] at hk) (link.2 hl) }

end Resembles

end Node.Record

namespace Document

variable {d d' : Document} {n : Nat}

/-- Two symbols stand for the same text payload. -/
def SameText (d d' : Document) (p p' : SymbolId) : Prop :=
  ∃ s, d.texts.resolve p = some s ∧ d'.texts.resolve p' = some s

theorem SameText.symm {p p' : SymbolId} (h : d.SameText d' p p') : d'.SameText d p' p := by
  obtain ⟨s, hs, hs'⟩ := h
  exact ⟨s, hs', hs⟩

/-- Two documents look the same. -/
structure Resembles (d d' : Document) : Prop where
  /-- There are as many nodes. -/
  size : d'.nodes.size = d.nodes.size
  /-- The records look the same. -/
  record : ∀ {n : Nat} {r r' : Record}, d.nodes.get? n = some r → d'.nodes.get? n = some r' →
    r.Resembles (d.SameText d') r'
  /-- The names are the same. -/
  names : d'.names = d.names
  /-- The namespaces are the same. -/
  namespaceUris : d'.namespaceUris = d.namespaceUris
  /-- The identifiers are the same. -/
  identifiers : d'.identifiers = d.identifiers
  /-- The entities are the same. -/
  entities : d'.entities = d.entities
  /-- Both are complete or none is. -/
  done : d'.isDone = d.isDone

namespace Resembles

theorem symm (h : d.Resembles d') : d'.Resembles d where
  size := h.size.symm
  record hr hr' := (h.record hr' hr).symm fun _ _ => SameText.symm
  names := h.names.symm
  namespaceUris := h.namespaceUris.symm
  identifiers := h.identifiers.symm
  entities := h.entities.symm
  done := h.done.symm

/-- A node has a record in both documents or in none. -/
theorem get?_cases (h : d.Resembles d') (n : Nat) :
    (∃ r r', d.nodes.get? n = some r ∧ d'.nodes.get? n = some r' ∧
      r.Resembles (d.SameText d') r') ∨
    d.nodes.get? n = none ∧ d'.nodes.get? n = none := by
  have same : (d.nodes.get? n).isSome ↔ (d'.nodes.get? n).isSome := by
    rw [Table.isSome_get?_iff, Table.isSome_get?_iff, h.size]
  cases hr : d.nodes.get? n <;> cases hr' : d'.nodes.get? n
  · exact .inr ⟨rfl, rfl⟩
  · rw [hr, hr'] at same
    exact absurd (same.2 rfl) nofun
  · rw [hr, hr'] at same
    exact absurd (same.1 rfl) nofun
  · exact .inl ⟨_, _, rfl, rfl, h.record hr hr'⟩

theorem isSome_get? (h : d.Resembles d') (n : Nat) :
    (d'.nodes.get? n).isSome = (d.nodes.get? n).isSome := by
  rcases h.get?_cases n with ⟨r, r', hr, hr', -⟩ | ⟨hr, hr'⟩
  · rw [hr, hr', Option.isSome_some, Option.isSome_some]
  · rw [hr, hr']

theorem link?_eq (h : d.Resembles d') (n : Nat) : d'.nodes.link? n = d.nodes.link? n := by
  unfold Table.link?
  rcases h.get?_cases n with ⟨r, r', hr, hr', same⟩ | ⟨hr, hr'⟩
  · rw [hr, hr', Option.bind_some, Option.bind_some, same.link?]
  · rw [hr, hr']

end Resembles

/-- A record without a payload is shown without a text. -/
theorem text_payload_of_link? {r : Record} (h : r.link?.isSome) : d.text r.payload = "" := by
  have zero : d.texts.resolve 0 = some "" := by
    cases ht : d.texts with
    | pool p => exact p.entries_zero
    | buffer b => exact b.entries_zero
  obtain ⟨l, hl⟩ := Option.isSome_iff_exists.1 h
  rcases r with ⟨_, _, _, _, link, _⟩
  cases link with
  | sibling l =>
    show (d.texts.resolve 0).getD "" = ""
    rw [zero, Option.getD_some]
  | payload s => cases hl

/-- The payloads of records that look the same are the same text. -/
theorem text_eq_of_resembles {r r' : Record} (h : r.Resembles (d.SameText d') r')
    (hk : r.kind ≠ .document) : d'.text r'.payload = d.text r.payload := by
  cases hl : r.link? with
  | some l =>
    rw [text_payload_of_link? (by rw [h.link?, hl]; rfl), text_payload_of_link? (by rw [hl]; rfl)]
  | none =>
    obtain ⟨s, hs, hs'⟩ := h.payload hk hl
    show (d'.texts.resolve r'.payload).getD "" = (d.texts.resolve r.payload).getD ""
    rw [hs, hs']

end Document

/-- Only the first node is the document. -/
theorem Document.WellFormed.root {d : Document} (h : d.WellFormed) {n : Nat} {r : Record}
    (hr : d.nodes.get? n = some r) (hk : r.kind = .document) : n = 0 :=
  (h.layout (Table.kind?_of_get? hr)).document_iff.1 hk

/-- A document looks the same as one with the same tables. -/
theorem Document.WellFormed.resembles {d d' : Document} (h : d.WellFormed)
    (nodes : d'.nodes = d.nodes) (names : d'.names = d.names) (texts : d'.texts = d.texts)
    (namespaceUris : d'.namespaceUris = d.namespaceUris)
    (identifiers : d'.identifiers = d.identifiers) (entities : d'.entities = d.entities)
    (done : d'.isDone = d.isDone) : d.Resembles d' where
  size := congrArg Table.size nodes
  record {n r r'} hr hr' := by
    rw [nodes] at hr'
    obtain rfl : r = r' := Option.some.inj (hr.symm.trans hr')
    refine .refl fun hk hl => ?_
    have payload : r.link = .payload r.payload := by
      unfold Record.link? at hl
      unfold Record.payload
      cases hlink : r.link with
      | payload symbol => rfl
      | sibling link =>
        rw [hlink] at hl
        cases hl
    obtain ⟨text, ht⟩ := Option.isSome_iff_exists.1 ((h.resolves hr).payload hk _ payload)
    exact ⟨text, ht, by rw [texts, ht]⟩
  names := names
  namespaceUris := namespaceUris
  identifiers := identifiers
  entities := entities
  done := done

/-! ### Readers that go the same way -/

/-- Two documents at all moments of their growth, which look the same at each. -/
structure Parallel where
  /-- The one document. -/
  left : Nat → Document
  /-- The other document. -/
  right : Nat → Document
  /-- They look the same. -/
  resembles : ∀ k, (left k).Resembles (right k)
  /-- Symbols that stand for one text do so later. -/
  sameText : ∀ {j k : Nat}, j ≤ k → ∀ p p', (left j).SameText (right j) p p' →
    (left k).SameText (right k) p p'
  /-- Only the first node is the document. -/
  root : ∀ {k n : Nat} {r : Record}, (left k).nodes.get? n = some r → r.kind = .document → n = 0

namespace Parallel

variable {α β : Type} {T : Parallel} {k j : Nat}

/-- The same documents the other way round. -/
def symm (T : Parallel) : Parallel where
  left := T.right
  right := T.left
  resembles k := (T.resembles k).symm
  sameText h _ _ same := (T.sameText h _ _ same.symm).symm
  root {k n r'} hr' hk := by
    rcases (T.resembles k).get?_cases n with ⟨r, _, hr, hr'', same⟩ | ⟨-, hnone⟩
    · obtain rfl := Option.some.inj (hr''.symm.trans hr')
      exact T.root hr (same.kind.symm.trans hk)
    · rw [hnone] at hr'
      cases hr'

/-- Two documents that stay as they are. -/
def still {d d' : Document} (h : d.Resembles d')
    (root : ∀ {n : Nat} {r : Record}, d.nodes.get? n = some r → r.kind = .document → n = 0) :
    Parallel where
  left _ := d
  right _ := d'
  resembles _ := h
  sameText _ _ _ same := same
  root := root

/-- Two queries that read the two documents from one moment on go the same way: they come to
answers that are related at the moment at which they are given, and a wait that ends with a failure
ends both with answers that are related to it. -/
inductive InStep (T : Parallel) (R : Nat → α → α → Prop) (F : Failure → α → α → Prop) :
    Nat → Query α → Query α → Prop
  | answer {k : Nat} {a a' : α} : R k a a' → InStep T R F k (.answer a) (.answer a')
  | misuse {k : Nat} (cause : Misuse) : InStep T R F k (.misuse cause) (.misuse cause)
  | look {k : Nat} {next next' : Document → Query α} :
    (∀ j, k ≤ j → InStep T R F j (next (T.left j)) (next' (T.right j))) →
    InStep T R F k (.look next) (.look next')
  | await {k reads : Nat} {isReady isReady' : (Fin reads → Document) → Bool}
    {next next' : (Fin reads → Document) → Query α} {stopped stopped' : Failure → Query α} :
    (∀ (times : Fin reads → Nat) (j : Nat), Timeline.IsAttempt k j times →
      (isReady' fun i => T.right (times i)) = isReady fun i => T.left (times i)) →
    (∀ (times : Fin reads → Nat) (j : Nat), Timeline.IsAttempt k j times →
      (isReady fun i => T.left (times i)) = true →
      InStep T R F j (next fun i => T.left (times i)) (next' fun i => T.right (times i))) →
    (∀ failure, ∃ a a', stopped failure = .answer a ∧ stopped' failure = .answer a' ∧
      F failure a a') →
    InStep T R F k (.await reads isReady next stopped) (.await reads isReady' next' stopped')

namespace InStep

variable {R : Nat → α → α → Prop} {F : Failure → α → α → Prop} {S : Nat → β → β → Prop}
  {G : Failure → β → β → Prop} {q q' : Query α}

/-- Queries that go on with the answers of others go the same way if the answers lead the same
way. -/
theorem bind {f f' : α → Query β} (h : T.InStep R F k q q')
    (ok : ∀ j a a', k ≤ j → R j a a' → T.InStep S G j (f a) (f' a'))
    (stop : ∀ failure a a', F failure a a' →
      ∃ b b', f a = .answer b ∧ f' a' = .answer b' ∧ G failure b b') :
    T.InStep S G k (q.bind f) (q'.bind f') := by
  induction h with
  | answer ha => exact ok _ _ _ (Nat.le_refl _) ha
  | misuse cause => exact .misuse cause
  | look _ ih =>
    exact .look fun j hj => ih j hj fun i a a' hi => ok i a a' (Nat.le_trans hj hi)
  | await ready _ stops ih =>
    refine .await ready (fun times j ha hr => ?_) fun failure => ?_
    · exact ih times j ha hr fun i a a' hi => ok i a a' (Nat.le_trans ha.le hi)
    · obtain ⟨a, a', hs, hs', hF⟩ := stops failure
      obtain ⟨b, b', hb, hb', hG⟩ := stop failure a a' hF
      refine ⟨b, b', ?_, ?_, hG⟩
      · rw [hs, Query.bind, hb]
      · rw [hs', Query.bind, hb']

theorem mono {R' : Nat → α → α → Prop} {F' : Failure → α → α → Prop} (h : T.InStep R F k q q')
    (ok : ∀ j a a', k ≤ j → R j a a' → R' j a a')
    (stop : ∀ failure a a', F failure a a' → F' failure a a') : T.InStep R' F' k q q' := by
  induction h with
  | answer ha => exact .answer (ok _ _ _ (Nat.le_refl _) ha)
  | misuse cause => exact .misuse cause
  | look _ ih =>
    exact .look fun j hj => ih j hj fun i a a' hi => ok i a a' (Nat.le_trans hj hi)
  | await ready _ stops ih =>
    refine .await ready (fun times j ha hr => ?_) fun failure => ?_
    · exact ih times j ha hr fun i a a' hi => ok i a a' (Nat.le_trans ha.le hi)
    · obtain ⟨a, a', hs, hs', hF⟩ := stops failure
      exact ⟨a, a', hs, hs', stop failure a a' hF⟩

end InStep

end Parallel

/-- What comes of a query whose wait is not over, given what it makes of a failure. -/
def Standstill.outcome {α : Type} (answerTo : Failure → α) : Standstill → Outcome α
  | stopped failure => .answer (answerTo failure)
  | overdue => .misuse .neverReady
  | waiting => .blocked

namespace Parallel.InStep

variable {α : Type} {T : Parallel} {k : Nat} {R : Nat → α → α → Prop}
  {F : Failure → α → α → Prop} {q q' : Query α}

/-- Queries that go the same way come to related ends when they are asked at one moment: related
answers, one mistake, or one wait that is not over. -/
theorem run_cases (h : T.InStep R F k q q') :
    (∃ a a', q.run (T.left k) = .answer a ∧ q'.run (T.right k) = .answer a' ∧ R k a a') ∨
    (∃ cause, q.run (T.left k) = .misuse cause ∧ q'.run (T.right k) = .misuse cause) ∨
    ∃ answerTo answerTo' : Failure → α, (∀ failure, F failure (answerTo failure)
        (answerTo' failure)) ∧
      q.run (T.left k) = (T.left k).standstill.outcome answerTo ∧
      q'.run (T.right k) = (T.right k).standstill.outcome answerTo' := by
  induction h with
  | answer ha => exact .inl ⟨_, _, rfl, rfl, ha⟩
  | misuse cause => exact .inr (.inl ⟨cause, rfl, rfl⟩)
  | look _ ih => exact ih _ (Nat.le_refl _)
  | @await k reads isReady isReady' next next' stopped stopped' ready _ stops ih =>
    have attempt := Timeline.isAttempt_const (Nat.le_refl k) reads
    have same := ready _ k attempt
    simp only [Query.run]
    by_cases hr : isReady (fun _ => T.left k) = true
    · rw [if_pos hr, if_pos (same.trans hr)]
      exact ih _ k attempt hr
    · rw [if_neg hr, if_neg fun hr' => hr (same.symm.trans hr')]
      obtain ⟨answerTo, stops⟩ := Classical.axiomOfChoice stops
      obtain ⟨answerTo', stops⟩ := Classical.axiomOfChoice stops
      refine .inr (.inr ⟨answerTo, answerTo', fun failure => (stops failure).2.2, ?_, ?_⟩)
      · cases (T.left k).standstill with
        | stopped failure => exact congrArg (Query.run _) (stops failure).1
        | overdue => rfl
        | waiting => rfl
      · cases (T.right k).standstill with
        | stopped failure => exact congrArg (Query.run _) (stops failure).2.1
        | overdue => rfl
        | waiting => rfl

/-- Whatever one reader comes to by reading along its document, the other can come to by reading
along its own at the same moments. -/
theorem readsAlong {j : Nat} {a : α} (h : T.InStep R F k q q') (hr : ReadsAlong T.left k q a j) :
    ∃ a', ReadsAlong T.right k q' a' j ∧ (R j a a' ∨ ∃ failure, F failure a a') := by
  induction hr generalizing q' with
  | answer =>
    cases h with
    | answer ha => exact ⟨_, .answer, .inl ha⟩
  | look hj _ ih =>
    cases h with
    | look hnext =>
      obtain ⟨a', hr', ha'⟩ := ih (hnext _ hj)
      exact ⟨a', .look hj hr', ha'⟩
  | ready times ha hready _ ih =>
    cases h with
    | await same goesOn _ =>
      obtain ⟨a', hr', ha'⟩ := ih (goesOn times _ ha hready)
      exact ⟨a', .ready times ha ((same times _ ha).trans hready) hr', ha'⟩
  | stopped failure hj hr ih =>
    cases h with
    | await _ _ stops =>
      obtain ⟨b, b', hs, hs', hF⟩ := stops failure
      rw [hs] at hr
      cases hr
      exact ⟨b', .stopped failure hj (hs' ▸ .answer), .inr ⟨failure, hF⟩⟩

end Parallel.InStep

/-! ### Queries that do not wait, and readings -/

namespace Parallel

variable {α β : Type} (T : Parallel) {k : Nat}

/-- Queries that do not wait go the same way. -/
abbrev Agrees (k : Nat) (q q' : Query α) (R : Nat → α → α → Prop) : Prop :=
  T.InStep R (fun _ _ _ => False) k q q'

/-- Two readings went well and their answers are related. -/
def OkRel (R : Nat → α → α → Prop) (k : Nat) (r r' : Except Failure α) : Prop :=
  ∃ a a', r = .ok a ∧ r' = .ok a' ∧ R k a a'

/-- Two readings failed with the failure that ended their wait. -/
def Stopped (failure : Failure) (r r' : Except Failure α) : Prop :=
  r = .error failure ∧ r' = .error failure

/-- Readings go the same way, and fail only with the failure that ends a wait. -/
abbrev AgreesOk (k : Nat) (x x' : Reading α) (R : Nat → α → α → Prop) : Prop :=
  T.InStep (OkRel R) Stopped k x.run x'.run

variable {T} {R : Nat → α → α → Prop} {S : Nat → β → β → Prop}

namespace Agrees

variable {q q' : Query α}

theorem pure {a a' : α} (h : R k a a') : T.Agrees k (pure a) (pure a') R :=
  .answer h

theorem bind {f f' : α → Query β} (h : T.Agrees k q q' R)
    (hf : ∀ j a a', k ≤ j → R j a a' → T.Agrees j (f a) (f' a') S) :
    T.Agrees k (q >>= f) (q' >>= f') S :=
  InStep.bind h hf fun _ _ _ hF => hF.elim

/-- What goes on with the same answer goes the same way. -/
theorem bind_eq {f f' : α → Query β} (h : T.Agrees k q q' fun _ => Eq)
    (hf : ∀ j a, k ≤ j → T.Agrees j (f a) (f' a) S) : T.Agrees k (q >>= f) (q' >>= f') S :=
  h.bind fun j a _ hj same => same ▸ hf j a hj

/-- Facts about the documents are related if they are at every moment. -/
theorem observe {f f' : Document → α} (h : ∀ j, k ≤ j → R j (f (T.left j)) (f' (T.right j))) :
    T.Agrees k (Query.observe f) (Query.observe f') R :=
  .look fun j hj => .answer (h j hj)

end Agrees

namespace AgreesOk

variable {x x' : Reading α}

theorem pure {a a' : α} (h : R k a a') : T.AgreesOk k (pure a) (pure a') R :=
  .answer ⟨a, a', rfl, rfl, h⟩

theorem bind {f f' : α → Reading β} (h : T.AgreesOk k x x' R)
    (hf : ∀ j a a', k ≤ j → R j a a' → T.AgreesOk j (f a) (f' a') S) :
    T.AgreesOk k (x >>= f) (x' >>= f') S := by
  refine InStep.bind h ?_ ?_
  · rintro j _ _ hj ⟨a, a', rfl, rfl, ha⟩
    exact hf j a a' hj ha
  · rintro failure _ _ ⟨rfl, rfl⟩
    exact ⟨_, _, rfl, rfl, rfl, rfl⟩

theorem bind_eq {f f' : α → Reading β} (h : T.AgreesOk k x x' fun _ => Eq)
    (hf : ∀ j a, k ≤ j → T.AgreesOk j (f a) (f' a) S) :
    T.AgreesOk k (x >>= f) (x' >>= f') S :=
  h.bind fun j a _ hj same => same ▸ hf j a hj

/-- A query that does not wait goes the same way as a reading. -/
theorem lift {q q' : Query α} (h : T.Agrees k q q' R) :
    T.AgreesOk k (liftM q) (liftM q') R :=
  InStep.bind h (fun _ a a' _ ha => .answer ⟨a, a', rfl, rfl, ha⟩) fun _ _ _ hF => hF.elim

/-- A wait goes the same way if whether it is over depends on what looks the same. -/
theorem await {reads : Nat} {isReady : (Fin reads → Document) → Bool}
    {f : (Fin reads → Document) → α}
    (ready : ∀ (times : Fin reads → Nat),
      (isReady fun i => T.right (times i)) = isReady fun i => T.left (times i))
    (answer : ∀ (times : Fin reads → Nat) (j : Nat), Timeline.IsAttempt k j times →
      R j (f fun i => T.left (times i)) (f fun i => T.right (times i))) :
    T.AgreesOk k (Reading.await isReady f) (Reading.await isReady f) R :=
  InStep.await (fun times _ _ => ready times)
    (fun times j ha _ => .answer ⟨_, _, rfl, rfl, answer times j ha⟩)
    fun _ => ⟨_, _, rfl, rfl, rfl, rfl⟩

end AgreesOk

end Parallel

end XmlTable
