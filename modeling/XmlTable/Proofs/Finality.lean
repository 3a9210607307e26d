import XmlTable.Proofs.Properties
import XmlTable.Proofs.Runs
import XmlTable.Query.Question

/-!
# Answers are final

Every question that a reader gets an answer to while the document still grows has the same answer
at every later moment of the run, whenever the reads of the question were made. An answer that is a
failure says nothing about the document, and a walk that was cut short is not complete; what was
asked of a node that was not there without waiting for it is not final either.
-/

namespace XmlTable

open Node Timeline

namespace Question

variable {T : Timeline} {fails : Nat → Prop} {k : Nat} {α : Type}

/-- The same nodes are the same answer. -/
private theorem sameNodes {γ : Type} [Membership Nat γ] {P : Nat → Nat → Prop} {q q' : Query γ}
    (h : T.Lasts k q q' (AreNodes P)) : T.Lasts k q q' IsSame :=
  h.mono fun _ _ _ _ hs => hs.1

private theorem sameNode {x x' : Reading (Option NodeId)} (h : T.LastsOk fails k x x' T.IsNode) :
    T.LastsOk fails k x x' IsSame :=
  h.mono fun _ _ _ _ hs => hs.1

/-- The parent of an attribute is always the same. -/
private theorem exists_parent {n : Nat} (hn : n < (T.moment k).nodes.size) :
    ∃ e, ∀ {i : Nat}, k ≤ i → (T.moment i).nodes.kind? n = some .attr →
      (T.moment i).nodes.parent? n = some e := by
  by_cases hk : (T.moment k).nodes.kind? n = some .attr
  · obtain ⟨e, he, -⟩ := ((T.wellFormed k).layout hk).attr rfl
    exact ⟨e, fun hi _ => (T.extension hi).continues.parent? he⟩
  · refine ⟨0, fun hi hattr => absurd ?_ hk⟩
    rw [← ((T.extension hi).continues n hn).1]
    exact hattr

/-- A question about nodes that are there lasts if it does not wait. -/
theorem Plain.lasts (q : Plain α) (hn : ∀ n ∈ q.nodes, n < (T.moment k).nodes.size)
    (hq : T.careful → ¬ q.IsMisplaced (T.moment k)) : T.Lasts k q.ask q.ask IsSame := by
  have produced : ∀ n ∈ q.nodes, T.Produced k n := fun n h _ => hn n h
  cases q with
  | kind node => exact lasts_kind (produced node (.head _))
  | nodeName node => exact lasts_nodeName (produced node (.head _))
  | localName node => exact lasts_localName (produced node (.head _))
  | namePrefix node => exact lasts_namePrefix (produced node (.head _))
  | nodeValue node => exact lasts_nodeValue (produced node (.head _))
  | namespaceUri node => exact lasts_namespaceUri (produced node (.head _))
  | isIgnorable node => exact lasts_isIgnorable (produced node (.head _))
  | isCData node => exact lasts_isCData (produced node (.head _))
  | firstAttribute node => exact sameNodes (lasts_firstAttribute (produced node (.head _)))
  | nextAttribute node =>
    obtain ⟨e, he⟩ := exists_parent (hn node (.head _))
    exact sameNodes (lasts_nextAttribute (fun hc => Classical.not_not.1 (hq hc)) he)
  | attributeByName element name => exact sameNodes (lasts_attributeByName (hn element (.head _)))
  | parent node => exact sameNodes (lasts_parent (produced node (.head _)))
  | isAncestor ancestor node => exact lasts_isAncestor (produced node (.tail _ (.head _)))
  | nextPreceding context node =>
    exact sameNodes (lasts_nextPreceding (produced context (.head _))
      (produced node (.tail _ (.head _))))
  | before node => exact sameNodes (lasts_before (produced node (.head _)))
  | attributes element => exact sameNodes (lasts_attributes (produced element (.head _)))
  | ancestors node => exact sameNodes (lasts_ancestors (produced node (.head _)))
  | preceding node => exact sameNodes (lasts_preceding (produced node (.head _)))
  | allBefore node => exact sameNodes (lasts_allBefore (produced node (.head _)))

/-- A question that waits for what it needs lasts. -/
theorem Waiting.lasts (q : Waiting α) (hf : T.Waits fails) (hn : ∀ n ∈ q.nodes, T.Produced k n) :
    T.LastsOk fails k q.ask q.ask IsSame := by
  cases q with
  | firstChild node => exact sameNode (lasts_firstChild hf (hn node (.head _)).awaited)
  | lastChild node => exact sameNode (lasts_lastChild hf (hn node (.head _)))
  | nextSibling node => exact sameNode (lasts_nextSibling hf (hn node (.head _)))
  | previousSibling node => exact sameNode (lasts_previousSibling hf (hn node (.head _)))
  | nextDescendant root node =>
    exact sameNode (lasts_nextDescendant hf (hn node (.tail _ (.head _))))
  | nextFollowing context node =>
    exact sameNode (lasts_nextFollowing hf (hn node (.tail _ (.head _))))
  | stringValue node => exact lasts_stringValue hf (hn node (.head _))
  | elementById id => exact lasts_elementById hf
  | entity name => exact lasts_entity hf
  | entityValue name => exact lasts_entityValue hf
  | firstEntity => exact sameNode (lasts_firstEntity hf)
  | documentElement => exact sameNode (lasts_documentElement hf)
  | awaitDone => exact lasts_awaitDone hf

/-- A walk lasts if it is not cut short. -/
theorem Walking.fine (q : Walking) (hf : T.Waits fails) (hn : T.Produced k q.node) :
    T.Fine q.ask k fun k' w =>
      match w.stopped with
      | some _ => fails k'
      | none => ∀ j, k' ≤ j → q.ask.run (T.moment j) = .answer w := by
  cases q with
  | children node =>
    exact (fine_walkFrom (P := T.Produced) Produced.mono (fun _ _ hm => lasts_nextSibling hf hm)
      indexBound (List.forall_mem_nil _) (lasts_firstChild hf hn.awaited)).mono fun _ _ _ h => h.2
  | descendants node =>
    exact (fine_walkFrom (P := T.Produced) Produced.mono (fun _ _ hm => lasts_nextDescendant hf hm)
      indexBound (List.forall_mem_nil _) (lasts_nextDescendant hf hn)).mono fun _ _ _ h => h.2
  | following node =>
    exact (fine_walkFrom (P := T.Produced) Produced.mono (fun _ _ hm => lasts_nextFollowing hf hm)
      indexBound (List.forall_mem_nil _) (lasts_nextFollowing hf hn)).mono fun _ _ _ h => h.2

/-- Every question either fails, where a wait may fail, or has an answer that lasts. -/
theorem fine (q : Question α) (hf : q.waits = true → T.Waits fails)
    (hn : q.waits = false → ∀ n ∈ q.nodes, n < (T.moment k).nodes.size)
    (hp : ∀ n ∈ q.nodes, T.Produced k n) (hq : T.careful → ¬ q.IsMisplaced (T.moment k)) :
    T.Fine q.ask k fun k' a => ¬ q.IsOk a ∧ fails k' ∨
      q.IsOk a ∧ ∀ j, k' ≤ j → q.ask.run (T.moment j) = .answer a := by
  cases q with
  | plain q =>
    refine Fine.mono (q.lasts (hn rfl) hq) fun k' a _ ha => .inr ⟨trivial, fun j hj => ?_⟩
    obtain ⟨a', hrun, rfl⟩ := ha j hj
    exact hrun
  | waiting q =>
    apply Fine.mono (q.lasts (hf rfl) hp)
    intro k' r _ hr
    cases r with
    | error failure => exact .inl ⟨nofun, hr⟩
    | ok a =>
      refine .inr ⟨⟨a, rfl⟩, fun j hj => ?_⟩
      obtain ⟨a', hrun, rfl⟩ := hr j hj
      exact hrun
  | walking q =>
    apply Fine.mono (q.fine (hf rfl) (hp q.node (.head _)))
    intro k' w _ hw
    cases hs : w.stopped with
    | some failure =>
      rw [hs] at hw
      refine .inl ⟨fun ok => ?_, hw⟩
      cases hs.symm.trans ok
    | none =>
      rw [hs] at hw
      exact .inr ⟨hs, hw⟩

end Question

namespace Builder

variable {config : Config} {changes : List Change}

/-- A run before readers that may ask for anything, and whose waits may end at any moment. -/
def IsRun.timeline (h : IsRun config changes) : Timeline where
  moment := (Document.initial config).moment changes
  wellFormed := h.grows.wellFormed (Document.wellFormed_initial config)
  extension := h.grows.extension
  waits := True
  stops _ := True
  careful := False

/-- An answer to a question that was read along a run, at whatever moments and with whatever waits,
is the answer at every later moment of the run, unless it is a failure or was cut short by one. Only
what is asked without waiting has to be about nodes that are there. -/
theorem answers_are_final (h : IsRun config changes) {α : Type} (q : Question α) {k k' : Nat}
    {a : α} (produced : q.waits = false →
      ∀ n ∈ q.nodes, n < ((Document.initial config).moment changes k).nodes.size)
    (answered : ReadsAlong ((Document.initial config).moment changes) k q.ask a k')
    (ok : q.IsOk a) {j : Nat} (later : k' ≤ j) :
    q.ask.run ((Document.initial config).moment changes j) = .answer a := by
  have hf : h.timeline.Waits fun _ => True := ⟨trivial, fun _ => trivial⟩
  have fine := q.fine (T := h.timeline) (fun _ => hf) produced (fun _ _ => False.elim) False.elim
  rcases fine.of_readsAlong (fun _ => trivial) answered with ⟨notOk, -⟩ | ⟨-, lasts⟩
  · exact absurd ok notOk
  · exact lasts j later

/-- The first child of an element that is still open is its first child in the end. -/
theorem answers_are_final_of_open_element :
    let changes := ((acceptAll [.startDocument, .startElement "a" [], .startElement "b" [],
      .endElement, .endElement, .endDocument]).run.run
        (start .standard, { handler := .lenient })).2.1.history.toList
    let moment := (Document.initial .standard).moment changes
    (moment 7).isDone = false ∧ (moment 9).isDone = true ∧
      (Question.waiting (.firstChild 1)).ask.run (moment 9) = .answer (.ok (some 2)) := by
  intro changes moment
  have isRun : IsRun .standard changes :=
    ⟨_, _, reaches_acceptAll _ _, List.filter_eq_self.2 (List.all_eq_true.1 (by decide +kernel))⟩
  have early : (Question.waiting (.firstChild 1)).ask.run (moment 7) = .answer (.ok (some 2)) :=
    by with_unfolding_all rfl
  exact ⟨by decide +kernel, by decide +kernel, answers_are_final isRun (.waiting (.firstChild 1))
    nofun (readsAlong_of_run early) ⟨_, rfl⟩ (by decide)⟩

end Builder

end XmlTable
