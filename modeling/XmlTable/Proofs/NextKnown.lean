import XmlTable.Listing
import XmlTable.Proofs.Navigation
import XmlTable.Proofs.Resemblance
import XmlTable.Proofs.Runs

/-!
# What a listing says of next siblings

A listing says of each node what is known of its next sibling, and never waits for that. What it
says is what a reader is answered who asks for the next sibling at the same moment: the sibling that
it names, or that there is none, and the sibling is unknown exactly where the reader has to wait.
Both look at the nodes that come after one without a link, so the two scans are compared step by
step.
-/

namespace XmlTable

open Node

namespace Listing

/-- The listing of a document has one line for each node, in its place. -/
theorem map_some_ofDocument (d : Document) :
    (ofDocument d).map some =
      (List.range d.nodes.size).map fun n => (d.nodes.get? n).map (entry d n) := by
  have kept : ∀ nodes : List NodeId, (∀ n ∈ nodes, n < d.nodes.size) →
      (nodes.filterMap fun n => (d.nodes.get? n).map (entry d n)).map some =
        nodes.map fun n => (d.nodes.get? n).map (entry d n) := by
    intro nodes small
    induction nodes with
    | nil => rfl
    | cons n rest ih =>
      obtain ⟨r, hr⟩ := Option.isSome_iff_exists.1
        ((d.nodes.isSome_get?_iff n).2 (small n List.mem_cons_self))
      simp [hr, ih fun n hn => small n (List.mem_cons_of_mem _ hn)]
  exact kept (List.range d.nodes.size) fun n hn => List.mem_range.1 hn

theorem length_ofDocument (d : Document) : (ofDocument d).length = d.nodeCount := by
  have length := congrArg List.length (map_some_ofDocument d)
  rw [List.length_map, List.length_map, List.length_range] at length
  exact length

/-- The line for a node is made from its record. -/
theorem getElem?_ofDocument (d : Document) (n : NodeId) :
    (ofDocument d)[n]? = (d.nodes.get? n).map (entry d n) := by
  have here := congrArg (·[n]?) (map_some_ofDocument d)
  simp only [List.getElem?_map] at here
  by_cases hn : n < d.nodes.size
  · rw [List.getElem?_range hn, Option.map_some, Option.map_eq_some_iff] at here
    obtain ⟨e, he, same⟩ := here
    exact he.trans same
  · have past : d.nodes.size ≤ n := Nat.le_of_not_lt hn
    have none : (List.range d.nodes.size)[n]? = none :=
      List.getElem?_eq_none (List.length_range.trans_le past)
    rw [none, Option.map_none, Option.map_eq_none_iff] at here
    rw [here, (Table.get?_eq_none_iff ..).2 past]
    rfl

end Listing

namespace Query

variable {d : Document} {α β : Type} {n i fuel fuel' : Nat} {r : Record} {parent : Option NodeId}
  {l l' : Link}

/-! ### Readers that have to wait -/

/-- A reading has to wait for more of the document. It is answered the failure of the construction,
or that waits are cancelled or out of time, and goes on waiting otherwise. -/
def HasToWait (d : Document) (reading : Reading α) : Prop :=
  d.isDone = false ∧ reading.run.run d = d.standstill.outcome .error

/-- Whoever has to wait is not answered. -/
theorem HasToWait.ne_ok {reading : Reading α} (h : HasToWait d reading) (a : α) :
    reading.run.run d ≠ .answer (.ok a) := by
  rw [h.2]
  cases d.standstill <;> nofun

/-- A reading whose first part has to wait has to wait itself. -/
theorem HasToWait.bind {reading : Reading α} (h : HasToWait d reading) (f : α → Reading β) :
    HasToWait d (reading >>= f) := by
  refine ⟨h.1, ?_⟩
  show run d (Query.bind reading.run _) = _
  rw [run_bind, h.2]
  cases d.standstill <;> rfl

/-- Whoever waits for what is not ready has to wait, unless the document is complete. -/
theorem hasToWait_await {reads : Nat} {isReady : (Fin reads → Document) → Bool}
    {f : (Fin reads → Document) → α} (unready : isReady (fun _ => d) = false)
    (unfinished : d.isDone = false) : HasToWait d (Reading.await isReady f) := by
  refine ⟨unfinished, ?_⟩
  show run d (.await reads isReady _ _) = _
  rw [run, if_neg (Bool.eq_false_iff.1 unready)]
  cases d.standstill <;> rfl

/-! ### What is known and what is answered -/

/-- What a reader is answered who asks for a next sibling of which so much is known. -/
def Tells (d : Document) (reading : Reading (Option NodeId)) : Link → Prop
  | .next m => reading.run.run d = .answer (.ok (some m))
  | .last => reading.run.run d = .answer (.ok none)
  | .pending => HasToWait d reading

/-- Readings that come to the same tell the same. -/
theorem Tells.of_run_eq {reading other : Reading (Option NodeId)} (h : Tells d other l)
    (same : reading.run.run d = other.run.run d) : Tells d reading l := by
  cases l with
  | next m => exact same.trans h
  | last => exact same.trans h
  | pending => exact ⟨h.1, same.trans h.2⟩

/-- A reading tells one thing. -/
theorem Tells.eq_iff {reading : Reading (Option NodeId)} (h : Tells d reading l) (l' : Link) :
    l = l' ↔ Tells d reading l' := by
  refine ⟨fun same => same ▸ h, fun h' => ?_⟩
  cases l <;> cases l'
  case pending.pending => rfl
  case pending.last => exact absurd h' (HasToWait.ne_ok h none)
  case pending.next m => exact absurd h' (HasToWait.ne_ok h (some m))
  case last.pending => exact absurd h (HasToWait.ne_ok h' none)
  case next.pending m => exact absurd h (HasToWait.ne_ok h' (some m))
  case last.last => rfl
  case last.next m => cases h.symm.trans h'
  case next.last m => cases h.symm.trans h'
  case next.next m m' =>
    cases h.symm.trans h'
    rfl

/-! ### Scans -/

/-- Going on from readings that come to the same comes to the same. -/
theorem run_reading_bind_congr {reading other : Reading α}
    (same : reading.run.run d = other.run.run d) (f : α → Reading β) :
    (reading >>= f).run.run d = (other >>= f).run.run d := by
  show run d (Query.bind reading.run _) = run d (Query.bind other.run _)
  rw [run_bind, run_bind, same]

/-- A record that is there is not waited for. -/
theorem run_awaitRecord (h : d.nodes.get? n = some r) :
    (awaitRecord n).run.run d = .answer (.ok (some r)) := by
  rw [← h]
  exact Reading.run_await (by rw [h]; rfl)

/-- A complete document is not waited for. -/
theorem run_awaitRecord_of_isDone (h : d.nodes.get? n = none) (done : d.isDone = true) :
    (awaitRecord n).run.run d = .answer (.ok none) := by
  rw [← h]
  exact Reading.run_await (by rw [done, Bool.or_true])

section Scan

variable {judge : Option (NodeId × Record) → Reading (Option NodeId)}

/-- Where the records end, a complete document has no sibling and any other may get one. -/
theorem tells_scan_of_missing (missing : judge none = pure none) (h : d.nodes.get? i = none) :
    Tells d (structuralFrom (fuel' + 1) i >>= judge) (if d.isDone then .last else .pending) := by
  by_cases done : d.isDone = true
  · rw [if_pos done]
    have ended : (structuralFrom (fuel' + 1) i).run.run d = .answer (.ok none) :=
      run_reading_bind (run_awaitRecord_of_isDone h done) _
    refine Tells.of_run_eq ?_ (run_reading_bind ended judge)
    rw [missing]
    exact rfl
  · rw [if_neg done]
    rw [Bool.not_eq_true] at done
    have unready : ((d.nodes.get? i).isSome || d.isDone) = false := by rw [h, done]; rfl
    exact ((hasToWait_await unready done).bind _).bind judge

/-- The scan for a structural node tells a reader what the scan of a listing says. The reader's scan
may look at as many nodes as there can be, that of the listing at those that are there. -/
theorem tells_scan (missing : judge none = pure none)
    (found : ∀ m r, judge (some (m, r)) = pure (if r.parent = parent then some m else none))
    (start : i ≤ d.nodes.size + 1) (enough : d.nodes.size + 1 < i + fuel')
    (whole : d.nodes.size ≤ i + fuel) :
    Tells d (structuralFrom fuel' i >>= judge) (Listing.siblingFrom d parent fuel i) := by
  obtain ⟨rest, rfl⟩ : ∃ rest, fuel' = rest + 1 := Nat.exists_eq_add_one.2 (by omega)
  -- The listing's scan ends with the records, and by `enough` the reader's can still look then.
  induction fuel generalizing i rest with
  | zero =>
    have none : d.nodes.get? i = none := (Table.get?_eq_none_iff ..).2 whole
    exact tells_scan_of_missing missing none
  | succ fuel ih =>
    rw [Listing.siblingFrom]
    cases hr : d.nodes.get? i with
    | none => exact tells_scan_of_missing missing hr
    | some r =>
      dsimp only
      have seen : (structuralFrom (rest + 1) i).run.run d = _ :=
        run_reading_bind (run_awaitRecord hr) _
      have hi := Table.lt_size_of_get? hr
      refine Tells.of_run_eq ?_ (run_reading_bind_congr seen judge)
      dsimp only
      split
      · next value =>
        obtain ⟨rest, rfl⟩ : ∃ r, rest = r + 1 := Nat.exists_eq_add_one.2 (by omega)
        exact ih (by omega) (by omega) rest (by omega)
      · next plain =>
        refine Tells.of_run_eq ?_ (run_reading_bind (a := some (i, r)) rfl judge)
        rw [found]
        split
        · exact rfl
        · exact rfl

end Scan

/-! ### Next siblings -/

/-- The link of a record tells what the record says. -/
theorem tells_awaitLink (hd : d.WellFormed) (hl : d.nodes.link? n = some l) :
    Tells d (awaitLink n) l := by
  cases l with
  | pending =>
    have unfinished : d.isDone = false :=
      Bool.eq_false_iff.2 fun done => hd.settled done n hl
    exact hasToWait_await (by dsimp only; rw [hl]) unfinished
  | last => exact (Reading.run_await (by dsimp only; rw [hl])).trans (by rw [hl])
  | next m => exact (Reading.run_await (by dsimp only; rw [hl])).trans (by rw [hl])

/-- A record is the value of an attribute or entity if its parent is one. -/
theorem any_hasValueNode_iff (hd : d.WellFormed) (hr : d.nodes.get? n = some r) :
    (r.parent.bind d.nodes.get?).any (·.kind.hasValueNode) = true ↔ d.nodes.IsValue n := by
  have hk := Table.kind?_of_get? hr
  have hparent := Table.parent?_of_get? hr
  rw [Option.any_eq_true]
  constructor
  · rintro ⟨owner, howner, hv⟩
    obtain ⟨p, hp, howner⟩ := Option.bind_eq_some_iff.1 howner
    rw [hp] at hparent
    obtain ⟨kp, hkp, -, place⟩ := (hd.layout hk).parent_kind hparent
    obtain rfl := Option.some.inj (hkp.symm.trans (Table.kind?_of_get? howner))
    rw [(place hv).1] at hk
    exact ⟨hk, p, _, hparent, hkp, hv⟩
  · rintro ⟨-, p, kp, hp, hkp, hv⟩
    obtain ⟨owner, howner, rfl⟩ := Table.exists_get?_of_kind? hkp
    rw [hparent] at hp
    exact ⟨owner, by rw [hp]; exact howner, hv⟩

/-- What is known of a next sibling is what a reader is answered who asks for it. -/
theorem tells_nextSibling (hd : d.WellFormed) (hr : d.nodes.get? n = some r) :
    Tells d (nextSibling n) (Listing.nextKnown d n r) := by
  refine Tells.of_run_eq ?_ (run_startRecord_bind hr _)
  have hk := Table.kind?_of_get? hr
  have known := (hd.linked hk).isSome_link?
  rw [Table.link?_of_get? hr] at known
  rw [Listing.nextKnown]
  split
  · exact rfl
  next inner =>
  cases hl : r.link with
  | sibling l =>
    rw [Record.link?, hl] at known
    have linked : r.kind.isLinked = true := known.symm
    rw [if_pos linked]
    exact tells_awaitLink hd ((Table.link?_of_get? hr).trans (by rw [Record.link?, hl]))
  | payload payload =>
    rw [Record.link?, hl] at known
    have plain : r.kind.isLinked = false := known.symm
    rw [if_neg (Bool.eq_false_iff.1 plain)]
    obtain ⟨value, own, iff⟩ := run_isValueNode hd hr
    obtain rfl : (r.parent.bind d.nodes.get?).any (·.kind.hasValueNode) = value :=
      Bool.eq_iff_iff.2 ((any_hasValueNode_iff hd hr).trans iff.symm)
    refine Tells.of_run_eq ?_ (run_reading_bind (run_lift own) _)
    dsimp only
    split
    · exact rfl
    next sibling =>
    have hn := Table.lt_size_of_get? hr
    have bound := hd.size_le_indexBound
    have later : n ≠ 0 := fun zero => inner ((hd.layout hk).document_iff.2 zero)
    exact tells_scan rfl (fun _ _ => rfl) (by omega) (by omega) (by omega)

end Query

namespace Builder

variable {config : Config} {changes : List Change}

/-- At every moment of every run the listing of the document has a line for each node, and what it
says of the next sibling is what a reader is answered who asks for it: it names the sibling exactly
if that is the answer, says that there is none exactly if there is none, and says that the sibling
is unknown exactly if the reader would have to wait. -/
theorem listing_agrees_with_navigation (h : IsRun config changes) (j : Nat) {n : NodeId}
    (produced : n < ((Document.initial config).moment changes j).nodeCount) :
    let d := (Document.initial config).moment changes j
    let asked := (Query.nextSibling n).run.run d
    ∃ e, (Listing.ofDocument d)[n]? = some e ∧ e.index = n ∧
      (∀ m, e.next = .next m ↔ asked = .answer (.ok (some m))) ∧
      (e.next = .last ↔ asked = .answer (.ok none)) ∧
      (e.next = .pending ↔ Query.HasToWait d (Query.nextSibling n)) := by
  intro d asked
  have hd : d.WellFormed := h.grows.wellFormed (Document.wellFormed_initial config) j
  obtain ⟨k, hk⟩ := Table.exists_kind?_iff.2 produced
  obtain ⟨r, hr, -⟩ := Table.exists_get?_of_kind? hk
  have tells := Query.tells_nextSibling hd hr
  refine ⟨Listing.entry d n r, ?_, rfl, fun m => tells.eq_iff (.next m), tells.eq_iff .last,
    tells.eq_iff .pending⟩
  rw [Listing.getElem?_ofDocument]
  exact congrArg (Option.map _) hr

/-- Where two elements are open, the second of them after an attribute and a comment, the listing
names what follows the comment, knows that nothing follows the attribute, and does not know what
follows the second element. -/
theorem listing_agrees_with_navigation_of_open_element :
    let changes := ((acceptAll [.startDocument, .startElement "a" [{ name := "x", value := "1" }],
      .comment "c", .startElement "b" []]).run.run
        (start .standard, { handler := .lenient })).2.1.history.toList
    let d := (Document.initial .standard).moment changes changes.length
    (Query.nextSibling 4).run.run d = .answer (.ok (some 5)) ∧
      (Query.nextSibling 2).run.run d = .answer (.ok none) ∧
      Query.HasToWait d (Query.nextSibling 5) := by
  intro changes d
  have isRun : IsRun .standard changes :=
    ⟨_, _, reaches_acceptAll _ _, List.filter_eq_self.2 (List.all_eq_true.1 (by decide +kernel))⟩
  obtain ⟨comment, hc, -, next, -, -⟩ :=
    listing_agrees_with_navigation (n := 4) isRun changes.length (by decide +kernel)
  obtain ⟨attr, ha, -, -, last, -⟩ :=
    listing_agrees_with_navigation (n := 2) isRun changes.length (by decide +kernel)
  obtain ⟨inner, hi, -, -, -, pending⟩ :=
    listing_agrees_with_navigation (n := 5) isRun changes.length (by decide +kernel)
  have shown : (Listing.ofDocument d)[4]?.map (·.next) = some (.next 5) ∧
      (Listing.ofDocument d)[2]?.map (·.next) = some .last ∧
      (Listing.ofDocument d)[5]?.map (·.next) = some .pending := by decide +kernel
  rw [hc, ha, hi] at shown
  exact ⟨(next 5).1 (Option.some.inj shown.1), last.1 (Option.some.inj shown.2.1),
    pending.1 (Option.some.inj shown.2.2)⟩

end Builder

end XmlTable
