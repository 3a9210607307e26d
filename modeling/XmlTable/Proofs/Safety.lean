import XmlTable.Node.Packing
import XmlTable.Proofs.Finality

/-!
# No question is a mistake

Every question about nodes that are there is answered, except that only attributes have a next
attribute: no query comes upon a node that is missing, a link that should be known or a wait that
the end of the document does not end. A wait for more of the document may go on or fail, but not
when the document is complete, whether or not waits were cancelled or are limited. The words that a
record is packed into are always those of a record.
-/

namespace XmlTable

open Node Timeline

namespace Question

variable {d : Document} {α : Type}

/-- A question about nodes of a well-formed document has an answer, unless it is misplaced or waits
for more of the document. -/
theorem answered_or_blocked (hd : d.WellFormed) (q : Question α)
    (nodes : ∀ n ∈ q.nodes, n < d.nodes.size) (placed : ¬ q.IsMisplaced d) :
    (∃ a, q.ask.run d = .answer a ∧ (d.isDone = true → q.IsOk a)) ∨
      q.ask.run d = .blocked ∧ q.waits = true ∧ d.standstill = .waiting := by
  have hf : q.waits = true → (still d hd (q.waits = true)).Waits fun _ => d.isDone = false :=
    fun h => ⟨h, id⟩
  have fine := q.fine (k := 0) hf (fun _ => nodes) (fun n hn _ => nodes n hn) fun _ => placed
  have meets := fine.run trivial id
  rw [show (still d hd (q.waits = true)).moment 0 = d from rfl] at meets
  cases hrun : q.ask.run d with
  | answer a =>
    rw [hrun] at meets
    refine .inl ⟨a, rfl, fun done => ?_⟩
    rcases meets with ⟨-, hnot⟩ | ⟨ok, -⟩
    · cases hnot.symm.trans done
    · exact ok
  | misuse cause =>
    rw [hrun] at meets
    exact meets.elim
  | blocked =>
    rw [hrun] at meets
    exact .inr ⟨rfl, meets⟩

/-- The next attribute of a node that is none is a mistake. -/
theorem run_of_isMisplaced (q : Question α) (nodes : ∀ n ∈ q.nodes, n < d.nodes.size)
    (misplaced : q.IsMisplaced d) : ∃ cause, q.ask.run d = .misuse cause := by
  cases q with
  | waiting q => exact misplaced.elim
  | walking q => exact misplaced.elim
  | plain q =>
    cases q with
    | nextAttribute n =>
      obtain ⟨kind, hkind⟩ := Table.exists_kind?_iff.2 (nodes n (.head _))
      obtain ⟨r, hr, -⟩ := Table.exists_get?_of_kind? hkind
      have hne : r.kind ≠ .attr := by
        intro hattr
        exact misplaced ((Table.kind?_of_get? hr).trans (congrArg some hattr))
      refine ⟨.notAttribute r.kind n, ?_⟩
      show Query.run d (Query.bind (Query.record n) _) = _
      rw [Query.run_bind, Query.record, Query.run, hr]
      dsimp only [Query.run]
      rw [if_pos hne]
      rfl
    | _ => exact misplaced.elim

end Question

namespace Document.WellFormed

variable {d : Document} {n : Nat} {r : Record}

/-- The numbers of nodes fit into the words of a record. -/
theorem fits (hd : d.WellFormed) (hr : d.nodes.get? n = some r) : r.Fits := by
  have bound : ∀ {m : Nat}, m < d.nodes.size → m ≤ indexBound := fun hm =>
    Nat.le_trans (Nat.le_of_lt hm) hd.size_le_indexBound
  have hkind := Table.kind?_of_get? hr
  have link := hd.linked hkind
  have hlink := Table.link?_of_get? hr
  refine ⟨fun hp => ?_, ?_, fun hm => ?_⟩
  · have before := hd.layout.parent_lt ((Table.parent?_of_get? hr).trans hp)
    exact bound (Nat.lt_trans before (Table.lt_size_of_get? hr))
  · rw [← hlink]
    exact link.isSome_link?
  · have next := (link.next (hlink.trans hm)).1
    exact ⟨Nat.zero_lt_of_lt next.1, bound next.lt_size⟩

end Document.WellFormed

namespace Builder

variable {config : Config} {changes : List Change}

/-- At every moment of every run, a question about nodes that are there is a mistake only if it asks
for the next attribute of a node that is none. Any other question is answered, unless it waits for
more of the document without a bound, and when the document is complete the answer is no failure.
Every record is read without fault from the words that it is packed into. -/
theorem queries_are_answered (h : IsRun config changes) (j : Nat) {α : Type} (q : Question α)
    (nodes : ∀ n ∈ q.nodes, n < ((Document.initial config).moment changes j).nodes.size) :
    let d := (Document.initial config).moment changes j
    ((∃ cause, q.ask.run d = .misuse cause) ↔ q.IsMisplaced d) ∧
      (¬ q.IsMisplaced d → q.waits = false ∨ d.standstill ≠ .waiting →
        ∃ a, q.ask.run d = .answer a) ∧
      (¬ q.IsMisplaced d → d.isDone = true → ∃ a, q.ask.run d = .answer a ∧ q.IsOk a) ∧
      ∀ n < d.nodes.size, ∃ r read, (Query.record n).run d = .answer r ∧
        r.pack.unpack? = some read ∧ read.kind = r.kind ∧ read.flags = r.flags ∧
          read.parent = r.parent ∧ read.link? = r.link? := by
  intro d
  have hd : d.WellFormed := h.grows.wellFormed (Document.wellFormed_initial config) j
  have outcome := q.answered_or_blocked hd nodes
  refine ⟨⟨?_, q.run_of_isMisplaced nodes⟩, fun placed bounded => ?_, fun placed done => ?_,
    fun n hn => ?_⟩
  · rintro ⟨cause, hrun⟩
    apply Classical.byContradiction
    intro placed
    rcases outcome placed with ⟨a, answered, -⟩ | ⟨blocked, -⟩
    · cases hrun.symm.trans answered
    · cases hrun.symm.trans blocked
  · rcases outcome placed with ⟨a, answered, -⟩ | ⟨-, waits, standstill⟩
    · exact ⟨a, answered⟩
    · rcases bounded with hw | hs
      · cases hw.symm.trans waits
      · exact absurd standstill hs
  · rcases outcome placed with ⟨a, answered, ok⟩ | ⟨-, -, standstill⟩
    · exact ⟨a, answered, ok done⟩
    · exact absurd standstill (Document.standstill_ne_waiting done)
  · obtain ⟨kind, hkind⟩ := Table.exists_kind?_iff.2 hn
    obtain ⟨r, hr, -⟩ := Table.exists_get?_of_kind? hkind
    obtain ⟨read, hread⟩ := (hd.fits hr).unpack?_pack
    refine ⟨r, read, ?_, hread⟩
    rw [Query.record, Query.run, hr]
    rfl

/-- The first child of the root is asked for after the construction has failed: there is an answer,
and the failure is part of it where the document does not tell. -/
theorem queries_are_answered_of_failed :
    let changes := ((acceptAll [.startDocument, .startElement "a" [],
      .fatalError .cancelled]).run.run
        (start .standard, { handler := .lenient })).2.1.history.toList
    let d := (Document.initial .standard).moment changes changes.length
    d.isFailed = true ∧ (∃ a, (Question.waiting (.firstChild 0)).ask.run d = .answer a) ∧
      ∃ a, (Question.waiting (.firstChild 1)).ask.run d = .answer a := by
  intro changes d
  have isRun : IsRun .standard changes :=
    ⟨_, _, reaches_acceptAll _ _, List.filter_eq_self.2 (List.all_eq_true.1 (by decide +kernel))⟩
  have failed : d.isFailed = true := by decide +kernel
  have bounded : d.standstill ≠ .waiting := by decide +kernel
  have first := queries_are_answered isRun changes.length (.waiting (.firstChild 0))
    (List.forall_mem_singleton.2 (by decide +kernel))
  have second := queries_are_answered isRun changes.length (.waiting (.firstChild 1))
    (List.forall_mem_singleton.2 (by decide +kernel))
  exact ⟨failed, first.2.1 id (.inr bounded), second.2.1 id (.inr bounded)⟩

end Builder

end XmlTable
