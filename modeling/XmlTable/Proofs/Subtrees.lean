import Mathlib.Data.Nat.Find
import XmlTable.Proofs.Partition

/-!
# What is below a node stands together

Whatever a builder has published, a parent comes before its children, and what is below a node comes
right after it without a gap. So the way up from a node goes down in numbers until it ends at the
document node, and whether a node is above another can be told by comparing numbers on that way.
-/

namespace XmlTable

open Node

namespace Node.Table

variable {t : Table} {n m : Nat}

theorem Within.lt_size (w : t.Within n m) (below : n < m) : m < t.size := by
  rcases within_iff.1 w with rfl | ⟨p, hp, -⟩
  · exact absurd below (Nat.lt_irrefl m)
  · exact lt_size_of_parent? hp

/-- What is below a node are the nodes after it up to some index. -/
theorem Layout.exists_stop (h : t.Layout) (hn : n < t.size) :
    ∃ stop, n < stop ∧ stop ≤ t.size ∧ ∀ m, n < m ∧ t.Within n m ↔ n < m ∧ m < stop := by
  classical
  -- The first node that is not below it: the size of the table is none of its nodes.
  have outside : ∃ j, n < j ∧ ¬ t.Within n j :=
    ⟨t.size, hn, fun w => Nat.lt_irrefl _ (w.lt_size hn)⟩
  obtain ⟨after, apart⟩ := Nat.find_spec outside
  refine ⟨Nat.find outside, after, ?_, fun m => and_congr_right fun below => ?_⟩
  · exact Nat.find_min' outside ⟨hn, fun w => Nat.lt_irrefl _ (w.lt_size hn)⟩
  · constructor
    · intro w
      by_contra hle
      exact apart (w.between h (Nat.le_of_lt after) (Nat.le_of_not_lt hle))
    · intro hlt
      by_contra w
      exact Nat.find_min outside hlt ⟨below, w⟩

end Node.Table

/-- A list that goes down to 0 ends with it. -/
theorem getLast?_of_zero_mem {l : List Nat} (down : l.Pairwise (· > ·)) (h : 0 ∈ l) :
    l.getLast? = some 0 := by
  obtain ⟨above, below, rfl⟩ := List.append_of_mem h
  cases below with
  | nil => simp
  | cons m rest =>
    have later := List.pairwise_cons.1 (List.pairwise_append.1 down).2.1
    exact absurd (later.1 m List.mem_cons_self) (Nat.not_lt_zero m)

namespace Query

variable {d : Document} {a n m : Nat}

/-- The way up from a node comes to another. -/
def HasAncestor (d : Document) (n a : NodeId) : Prop :=
  ∃ above, (ancestors n).run d = .answer above ∧ a ∈ above

/-- The way up from a node comes to the nodes that it is below. -/
theorem hasAncestor_iff (hd : d.WellFormed) (hm : m < d.nodes.size) :
    HasAncestor d m a ↔ a < m ∧ d.nodes.Within a m := by
  obtain ⟨above, hrun, -, mem⟩ := run_ancestors hd hm
  rw [← mem]
  constructor
  · rintro ⟨above', hrun', ha⟩
    cases hrun.symm.trans hrun'
    exact ha
  · intro ha
    exact ⟨above, hrun, ha⟩

/-- What the way up from a node comes to is what is told to be above it. -/
theorem run_isAncestor_iff (hd : d.WellFormed) (hn : n < d.nodes.size) (a : NodeId) :
    ∃ b, (isAncestor a n).run d = .answer b ∧ (b = true ↔ HasAncestor d n a) := by
  obtain ⟨b, hrun, above⟩ := run_isAncestor hd (a := a) hn
  refine ⟨b, hrun, ?_⟩
  rw [above, hasAncestor_iff hd hn]
  constructor
  · rintro ⟨other, w⟩
    exact ⟨Nat.lt_of_le_of_ne (w.le hd.layout) other.symm, w⟩
  · rintro ⟨below, w⟩
    exact ⟨Nat.ne_of_gt below, w⟩

/-- The way up from a node goes down in numbers and ends at the document node. -/
theorem exists_ancestors (hd : d.WellFormed) (hn : n < d.nodes.size) :
    ∃ above, (ancestors n).run d = .answer above ∧ (n :: above).Pairwise (· > ·) ∧
      (n ≠ documentId → above.getLast? = some documentId) := by
  obtain ⟨above, hrun, down, mem⟩ := run_ancestors hd hn
  refine ⟨above, hrun, List.pairwise_cons.2 ⟨fun m hm => ((mem m).1 hm).1, down⟩, ?_⟩
  intro inner
  apply getLast?_of_zero_mem down
  exact (mem documentId).2 ⟨Nat.pos_of_ne_zero inner, hd.layout.within_documentId hn⟩

end Query

namespace Builder

variable {config : Config} {changes : List Change} {k n : Nat}

/-- Whatever has been published of a document, the way up from a node goes down in numbers and ends
at the document node, and another node is told to be above it exactly if it is on that way. The
nodes that are below a node, whatever their kind, are those after it up to some index. -/
theorem subtrees_stand_together (h : IsRun config changes)
    (hn : n < ((Document.initial config).moment changes k).nodes.size) :
    let d := (Document.initial config).moment changes k
    (∃ above, (Query.ancestors n).run d = .answer above ∧ (n :: above).Pairwise (· > ·) ∧
      (n ≠ documentId → above.getLast? = some documentId) ∧
      ∀ a, ∃ b, (Query.isAncestor a n).run d = .answer b ∧ (b = true ↔ a ∈ above)) ∧
      ∃ stop, n < stop ∧ stop ≤ d.nodes.size ∧
        ∀ m < d.nodes.size, Query.HasAncestor d m n ↔ n < m ∧ m < stop := by
  intro d
  have hd := h.grows.wellFormed (Document.wellFormed_initial config) k
  constructor
  · obtain ⟨above, hrun, down, top⟩ := Query.exists_ancestors hd hn
    refine ⟨above, hrun, down, top, fun a => ?_⟩
    obtain ⟨b, hb, iff⟩ := Query.run_isAncestor_iff hd hn a
    refine ⟨b, hb, iff.trans ?_⟩
    rw [Query.HasAncestor, hrun]
    simp
  · obtain ⟨stop, after, within, iff⟩ := hd.layout.exists_stop hn
    refine ⟨stop, after, within, fun m hm => ?_⟩
    rw [Query.hasAncestor_iff hd hm]
    exact iff m

/-- While an element with an attribute is open and has an element in it, the value of the attribute
is below it, since the other element is. -/
theorem subtrees_stand_together_of_attribute :
    let changes := ((acceptAll [.startDocument, .startElement "a" [{ name := "x", value := "1" }],
      .startElement "b" []]).run.run (start .standard, { handler := .lenient })).2.1.history.toList
    let d := (Document.initial .standard).moment changes changes.length
    (Query.ancestors 4).run d = .answer [1, 0] ∧ Query.HasAncestor d 3 1 := by
  intro changes d
  have isRun : IsRun .standard changes :=
    ⟨_, _, reaches_acceptAll _ _, List.filter_eq_self.2 (List.all_eq_true.1 (by decide +kernel))⟩
  have last : (Query.ancestors 4).run d = .answer [1, 0] := by decide +kernel
  obtain ⟨-, stop, -, -, below⟩ :=
    subtrees_stand_together (k := changes.length) (n := 1) isRun (by decide +kernel)
  have inside := ((below 4 (by decide +kernel)).1 ⟨_, last, by decide⟩).2
  exact ⟨last, (below 3 (by decide +kernel)).2 ⟨by decide, Nat.lt_trans (by decide) inside⟩⟩

end Builder

end XmlTable
