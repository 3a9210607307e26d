import XmlTable.Proofs.Growth
import XmlTable.Query.Basic

/-!
# Reading along a run

A reader looks at a document at moments of its own choosing, so the reads of one query may see many
stages of the document. What is said of a query here is said of all moments at which it may read,
and an answer lasts if whoever asks later, all at once, gets the same one. Such statements are put
together along the query, one read after the other.
-/

namespace XmlTable

/-- Only a complete document should not have been waited for. -/
theorem Document.standstill_ne_overdue {doc : Document} (h : doc.isDone = false) :
    doc.standstill ≠ .overdue := by
  unfold standstill
  split
  · simp
  · next hp =>
    rw [isDone, hp] at h
    cases h
  · split
    · simp
    · split <;> simp

/-- Nobody waits for a complete document. -/
theorem Document.standstill_ne_waiting {doc : Document} (h : doc.isDone = true) :
    doc.standstill ≠ .waiting := by
  unfold standstill
  split
  · nofun
  · nofun
  · next hp =>
    rw [isDone, hp] at h
    cases h

/-- A document at all moments of a run, each of which extends the ones before. -/
structure Timeline where
  /-- The document at a moment. -/
  moment : Nat → Document
  /-- It is well formed. -/
  wellFormed : ∀ k, (moment k).WellFormed
  /-- It extends the earlier ones. -/
  extension : ∀ {j k : Nat}, j ≤ k → (moment j).Extends (moment k)
  /-- Queries may wait. -/
  waits : Prop
  /-- The moments at which waits may end with a failure. -/
  stops : Nat → Prop
  /-- Readers do not name nodes that are missing. -/
  careful : Prop

/-- A wait at a document that is ready is answered at once. -/
theorem Reading.run_await {doc : Document} {α : Type} {reads : Nat}
    {isReady : (Fin reads → Document) → Bool} {f : (Fin reads → Document) → α}
    (h : isReady (fun _ => doc) = true) :
    Query.run doc (Reading.await isReady f).run = .answer (.ok (f fun _ => doc)) := by
  show Query.run doc (.await reads isReady _ _) = _
  rw [Query.run, if_pos h, Query.run]

namespace Timeline

variable {α β : Type} (T : Timeline) {k j : Nat}

/-- The moments of the reads of one attempt that begins after `k` and ends before `j`. -/
structure IsAttempt (k j : Nat) {reads : Nat} (times : Fin reads → Nat) : Prop where
  /-- The attempt takes its time. -/
  le : k ≤ j
  /-- The reads are within it. -/
  within : ∀ i, k ≤ times i ∧ times i ≤ j
  /-- One read comes after the other. -/
  sorted : ∀ {i i' : Fin reads}, i ≤ i' → times i ≤ times i'

theorem isAttempt_const (h : k ≤ j) (reads : Nat) :
    IsAttempt k j (fun _ : Fin reads => j) :=
  ⟨h, fun _ => ⟨h, Nat.le_refl _⟩, fun _ => Nat.le_refl _⟩

/-- Whenever a query reads from the moment `k` on, it is no mistake, a complete document ends its
waits, and its answer meets a condition at the moment at which it is given. -/
def Fine : Query α → Nat → (Nat → α → Prop) → Prop
  | .answer a, k, Q => Q k a
  | .misuse _, _, _ => ¬ T.careful
  | .look next, k, Q => ∀ j, k ≤ j → Fine (next (T.moment j)) j Q
  | .await reads isReady next stopped, k, Q =>
    T.waits ∧ (∀ j, k ≤ j → (T.moment j).isDone = true → isReady (fun _ => T.moment j) = true) ∧
    (∀ (times : Fin reads → Nat) (j : Nat), IsAttempt k j times →
      isReady (fun i => T.moment (times i)) = true →
      Fine (next fun i => T.moment (times i)) j Q) ∧
    ∀ (failure : Failure) (j : Nat), k ≤ j → T.stops j → Fine (stopped failure) j Q

variable {T}

/-- Conditions may be weakened, and use that answers are not given earlier. -/
theorem Fine.mono {q : Query α} {Q Q' : Nat → α → Prop} (h : T.Fine q k Q)
    (hQ : ∀ k' a, k ≤ k' → Q k' a → Q' k' a) : T.Fine q k Q' := by
  induction q generalizing k with
  | answer a => exact hQ k a (Nat.le_refl _) h
  | misuse _ => exact h
  | look next ih =>
    intro j hj
    exact ih _ (h j hj) fun k' a hk => hQ k' a (Nat.le_trans hj hk)
  | await reads isReady next stopped ihn ihs =>
    obtain ⟨waits, done, ready, stop⟩ := h
    refine ⟨waits, done, fun times j ha hr => ?_, fun failure j hj hs => ?_⟩
    · exact ihn _ (ready times j ha hr) fun k' a hk => hQ k' a (Nat.le_trans ha.le hk)
    · exact ihs _ (stop failure j hj hs) fun k' a hk => hQ k' a (Nat.le_trans hj hk)

/-- A query that goes on with the answer of another reads after it. -/
theorem Fine.bind {q : Query α} {f : α → Query β} {Q : Nat → β → Prop}
    (h : T.Fine q k fun k' a => T.Fine (f a) k' Q) : T.Fine (q.bind f) k Q := by
  induction q generalizing k with
  | answer a => exact h
  | misuse _ => exact h
  | look next ih =>
    intro j hj
    exact ih _ (h j hj)
  | await reads isReady next stopped ihn ihs =>
    obtain ⟨waits, done, ready, stop⟩ := h
    exact ⟨waits, done, fun times j ha hr => ihn _ (ready times j ha hr),
      fun failure j hj hs => ihs _ (stop failure j hj hs)⟩

/-- Conditions may be met together. -/
theorem Fine.forall {ι : Type} (i₀ : ι) {q : Query α} {Q : ι → Nat → α → Prop}
    (h : ∀ i, T.Fine q k (Q i)) : T.Fine q k fun k' a => ∀ i, Q i k' a := by
  induction q generalizing k with
  | answer a => exact h
  | misuse _ => exact h i₀
  | look next ih =>
    intro j hj
    exact ih _ fun i => h i j hj
  | await reads isReady next stopped ihn ihs =>
    refine ⟨(h i₀).1, (h i₀).2.1, fun times j ha hr => ?_, fun failure j hj hs => ?_⟩
    · exact ihn _ fun i => (h i).2.2.1 times j ha hr
    · exact ihs _ fun i => (h i).2.2.2 failure j hj hs

/-- What is fine is fine all at once: there is an answer, unless a wait goes on. -/
theorem Fine.run {q : Query α} {Q : Nat → α → Prop} (h : T.Fine q k Q) (hc : T.careful)
    (hs : (T.moment k).isDone = false → T.stops k) :
    match q.run (T.moment k) with
    | .answer a => Q k a
    | .misuse _ => False
    | .blocked => T.waits ∧ (T.moment k).standstill = .waiting := by
  induction q with
  | answer a => exact h
  | misuse _ => exact absurd hc h
  | look next ih => exact ih _ (h k (Nat.le_refl _))
  | await reads isReady next stopped ihn ihs =>
    obtain ⟨waits, done, ready, stop⟩ := h
    rw [Query.run]
    by_cases hr : isReady (fun _ => T.moment k) = true
    · rw [if_pos hr]
      exact ihn _ (ready _ k (isAttempt_const (Nat.le_refl _) _) hr)
    · rw [if_neg hr]
      have unfinished : (T.moment k).isDone = false :=
        Bool.eq_false_iff.2 fun hd => hr (done k (Nat.le_refl _) hd)
      cases hst : (T.moment k).standstill with
      | stopped failure =>
        have meets := ihs _ (stop failure k (Nat.le_refl _) (hs unfinished))
        rw [hst] at meets
        exact meets
      | overdue => exact absurd hst (Document.standstill_ne_overdue unfinished)
      | waiting => exact ⟨waits, rfl⟩

end Timeline

/-- A query that reads along a run, from one moment on, comes to an answer by another. Each read is
at a moment not before the one in front of it, and a wait may end with any failure at any moment. -/
inductive ReadsAlong (moment : Nat → Document) {α : Type} : Nat → Query α → α → Nat → Prop
  | answer {k : Nat} {a : α} : ReadsAlong moment k (.answer a) a k
  | look {k j k' : Nat} {next : Document → Query α} {a : α} : k ≤ j →
      ReadsAlong moment j (next (moment j)) a k' → ReadsAlong moment k (.look next) a k'
  | ready {k j k' reads : Nat} {isReady : (Fin reads → Document) → Bool}
      {next : (Fin reads → Document) → Query α} {stopped : Failure → Query α} {a : α}
      (times : Fin reads → Nat) : Timeline.IsAttempt k j times →
      isReady (fun i => moment (times i)) = true →
      ReadsAlong moment j (next fun i => moment (times i)) a k' →
      ReadsAlong moment k (.await reads isReady next stopped) a k'
  | stopped {k j k' reads : Nat} {isReady : (Fin reads → Document) → Bool}
      {next : (Fin reads → Document) → Query α} {stopped : Failure → Query α} {a : α}
      (failure : Failure) : k ≤ j → ReadsAlong moment j (stopped failure) a k' →
      ReadsAlong moment k (.await reads isReady next stopped) a k'

/-- What is asked all at once is read at one moment. -/
theorem readsAlong_of_run {moment : Nat → Document} {k : Nat} {α : Type} {q : Query α} {a : α}
    (h : q.run (moment k) = .answer a) : ReadsAlong moment k q a k := by
  induction q with
  | answer b =>
    cases h
    exact .answer
  | misuse _ => cases h
  | look next ih => exact .look (Nat.le_refl k) (ih _ h)
  | await reads isReady next stopped ihn ihs =>
    rw [Query.run] at h
    by_cases hr : isReady (fun _ => moment k) = true
    · rw [if_pos hr] at h
      have attempt := Timeline.isAttempt_const (Nat.le_refl k) reads
      exact .ready _ attempt hr (ihn _ h)
    · rw [if_neg hr] at h
      cases hst : (moment k).standstill with
      | stopped failure =>
        rw [hst] at h
        exact .stopped failure (Nat.le_refl k) (ihs _ h)
      | overdue =>
        rw [hst] at h
        cases h
      | waiting =>
        rw [hst] at h
        cases h

namespace Timeline

variable {α β : Type} {T : Timeline} {k j : Nat}

/-- An answer that comes of reading along the run meets the condition. -/
theorem Fine.of_readsAlong {q : Query α} {Q : Nat → α → Prop} {a : α} (h : T.Fine q k Q)
    (hs : ∀ j, T.stops j) (hr : ReadsAlong T.moment k q a j) : Q j a := by
  induction hr with
  | answer => exact h
  | look hj _ ih => exact ih (h _ hj)
  | ready times ha hready _ ih => exact ih (h.2.2.1 times _ ha hready)
  | stopped failure hj _ ih => exact ih (h.2.2.2 failure _ hj (hs _))

/-! ### Answers that last -/

variable (T)

/-- Whoever asks `q'` after `q` was answered, all at once, gets an answer that is related to the
earlier one. -/
def Lasts (k : Nat) (q q' : Query α) (R : Nat → α → α → Prop) : Prop :=
  T.Fine q k fun k' a => ∀ j, k' ≤ j → ∃ a', q'.run (T.moment j) = .answer a' ∧ R k' a a'

/-- Waits are allowed, and when one ends with a failure the reading may. -/
structure Waits (fails : Nat → Prop) : Prop where
  /-- Queries may wait. -/
  waits : T.waits
  /-- Failures are allowed where waits may end with them. -/
  fails : ∀ {k : Nat}, T.stops k → fails k

/-- Readings may also end with a failure, at some moments. -/
def LastsOk (fails : Nat → Prop) (k : Nat) (q q' : Reading α) (R : Nat → α → α → Prop) : Prop :=
  T.Fine q.run k fun k' r =>
    match r with
    | .error _ => fails k'
    | .ok a => ∀ j, k' ≤ j → ∃ a', Query.run (T.moment j) q'.run = .answer (.ok a') ∧ R k' a a'

variable {T} {q q' : Query α} {R : Nat → α → α → Prop} {S : Nat → β → β → Prop}
  {fails : Nat → Prop}

theorem Lasts.pure {a a' : α} (h : R k a a') : T.Lasts k (pure a) (pure a') R :=
  fun _ _ => ⟨a', rfl, h⟩

theorem Lasts.mono {R' : Nat → α → α → Prop} (h : T.Lasts k q q' R)
    (hR : ∀ k' a a', k ≤ k' → R k' a a' → R' k' a a') : T.Lasts k q q' R' :=
  Fine.mono h fun k' a hk ha j hj => by
    obtain ⟨a', hr, hR'⟩ := ha j hj
    exact ⟨a', hr, hR k' a a' hk hR'⟩

/-- What was asked once and lasts may be followed by what lasts for both answers. -/
theorem Lasts.bind {f f' : α → Query β} (h : T.Lasts k q q' R)
    (hf : ∀ k' a a', k ≤ k' → R k' a a' → T.Lasts k' (f a) (f' a') S) :
    T.Lasts k (q >>= f) (q' >>= f') S := by
  refine Fine.bind (Fine.mono h fun k' a hk ha => ?_)
  obtain ⟨a₀, -, hR₀⟩ := ha k' (Nat.le_refl _)
  have all := Fine.forall (⟨a₀, hR₀⟩ : { a' // R k' a a' })
    fun a' => hf k' a a'.1 hk a'.2
  apply all.mono
  intro k'' b hk' hb j hj
  obtain ⟨a', hr, hR⟩ := ha j (Nat.le_trans hk' hj)
  obtain ⟨b', hr', hS⟩ := hb ⟨a', hR⟩ j hj
  refine ⟨b', ?_, hS⟩
  show Query.run (T.moment j) (q'.bind f') = _
  rw [Query.run_bind, hr]
  exact hr'

/-- A fact about the document lasts if it stays. -/
theorem Lasts.observe {f f' : Document → α}
    (h : ∀ k' j, k ≤ k' → k' ≤ j → R k' (f (T.moment k')) (f' (T.moment j))) :
    T.Lasts k (Query.observe f) (Query.observe f') R :=
  fun k' hk j hj => ⟨_, rfl, h k' j hk hj⟩

namespace LastsOk

variable {x x' : Reading α}

theorem pure {a a' : α} (h : R k a a') : T.LastsOk fails k (pure a) (pure a') R :=
  fun _ _ => ⟨a', rfl, h⟩

theorem mono {R' : Nat → α → α → Prop} (h : T.LastsOk fails k x x' R)
    (hR : ∀ k' a a', k ≤ k' → R k' a a' → R' k' a a') : T.LastsOk fails k x x' R' :=
  Fine.mono h fun k' r hk hr => by
    cases r with
    | error _ => exact hr
    | ok a =>
      intro j hj
      obtain ⟨a', ha', hR'⟩ := hr j hj
      exact ⟨a', ha', hR k' a a' hk hR'⟩

/-- What lasts for sure lasts as a reading. -/
theorem lift (h : T.Lasts k q q' R) : T.LastsOk fails k (liftM q) (liftM q') R := by
  refine Fine.bind (Fine.mono h fun k' a hk ha j hj => ?_)
  obtain ⟨a', hr, hR⟩ := ha j hj
  refine ⟨a', ?_, hR⟩
  show Query.run (T.moment j) (q'.bind _) = _
  rw [Query.run_bind, hr]
  rfl

theorem bind {f f' : α → Reading β} (h : T.LastsOk fails k x x' R)
    (hf : ∀ k' a a', k ≤ k' → R k' a a' → T.LastsOk fails k' (f a) (f' a') S) :
    T.LastsOk fails k (x >>= f) (x' >>= f') S := by
  refine Fine.bind (Fine.mono h fun k' r hk hr => ?_)
  cases r with
  | error _ => exact hr
  | ok a =>
    obtain ⟨a₀, -, hR₀⟩ := hr k' (Nat.le_refl _)
    have all := Fine.forall (⟨a₀, hR₀⟩ : { a' // R k' a a' })
      fun a' => hf k' a a'.1 hk a'.2
    apply all.mono
    intro k'' r' hk' hr'
    cases r' with
    | error _ => exact hr' ⟨a₀, hR₀⟩
    | ok b =>
      intro j hj
      obtain ⟨a', ha', hR⟩ := hr j (Nat.le_trans hk' hj)
      obtain ⟨b', hb', hS⟩ := hr' ⟨a', hR⟩ j hj
      refine ⟨b', ?_, hS⟩
      show Query.run (T.moment j) (Query.bind (ExceptT.run x') _) = _
      rw [Query.run_bind, ha']
      exact hb'

/-- A wait lasts if what ended it stays. -/
theorem await {reads : Nat} {isReady : (Fin reads → Document) → Bool}
    {f : (Fin reads → Document) → α} (hf : T.Waits fails)
    (done : ∀ j, k ≤ j → (T.moment j).isDone = true → isReady (fun _ => T.moment j) = true)
    (stays : ∀ (times : Fin reads → Nat) (k' j : Nat), IsAttempt k k' times →
      isReady (fun i => T.moment (times i)) = true → k' ≤ j →
      isReady (fun _ => T.moment j) = true ∧
        R k' (f fun i => T.moment (times i)) (f fun _ => T.moment j)) :
    T.LastsOk fails k (Reading.await isReady f) (Reading.await isReady f) R := by
  refine ⟨hf.waits, done, fun times k' ha hr j hj => ?_, fun failure j hj hst => hf.fails hst⟩
  obtain ⟨ready, hR⟩ := stays times k' j ha hr hj
  exact ⟨_, Reading.run_await ready, hR⟩

end LastsOk

/-! ### Documents that stay -/

/-- A document that stays as it is, with careful readers. A wait ends with a failure only if the
document is not complete. -/
def still (d : Document) (h : d.WellFormed) (waits : Prop) : Timeline where
  moment _ := d
  wellFormed _ := h
  extension _ := .refl d
  waits := waits
  stops _ := d.isDone = false
  careful := True

/-- A query that does not wait is answered. -/
theorem Fine.answer {d : Document} {h : d.WellFormed} {Q : Nat → α → Prop}
    (hq : (still d h False).Fine q k Q) : ∃ a, q.run d = .answer a ∧ Q k a := by
  have meets := hq.run trivial id
  change match q.run d with | .answer a => _ | .misuse _ => _ | .blocked => _ at meets
  split at meets
  · next a ha => exact ⟨a, ha, meets⟩
  · exact meets.elim
  · exact meets.1.elim

end Timeline

end XmlTable
