import XmlTable.Proofs.Children
import XmlTable.Proofs.NormalTexts
import XmlTable.Proofs.Partition

/-!
# String values of nodes

The string value of the document or of an element is put together on one way through all that is
below it, from text to text. What is below a node are its children, each followed by what is below
it, so that the string value is also put together from those of the children. Attributes and
entities are not on the way, and neither are their values.
-/

namespace XmlTable

open Node

namespace Node.Table

variable {t : Table} {n m p c : Nat}

theorem Within.trans {a : Nat} (w : t.Within a n) (w' : t.Within n m) : t.Within a m := by
  induction w' with
  | self => exact w
  | step hp _ ih => exact .step hp ih

/-- What is below a child comes before the next child. -/
theorem IsChild.lt_of_within (h : t.Layout) {c' : Nat} (hc : t.IsChild p c) (hc' : t.IsChild p c')
    (later : c < c') (w : t.Within c m) : m < c' := by
  by_contra beyond
  have between := w.between h (Nat.le_of_lt later) (Nat.le_of_not_lt beyond)
  rcases within_iff.1 between with rfl | ⟨q, hq, above⟩
  · omega
  · cases hc'.2.symm.trans hq
    have := above.le h
    have := h.parent_lt hc.2
    omega

/-- A structural node below another is within a child of that one. -/
theorem Layout.exists_isChild_within (h : t.Layout) (hm : t.IsStructural m) (w : t.Within n m)
    (below : n < m) : ∃ c, t.IsChild n c ∧ t.Within c m := by
  induction w with
  | self => omega
  | @step m p hp w ih =>
    rcases Nat.eq_or_lt_of_le (w.le h) with rfl | hnp
    · exact ⟨m, ⟨hm, hp⟩, .self⟩
    · have structural : t.IsStructural p := by
        rcases h.kind?_parent hp hm.2 with hk | hk
        · exact ⟨⟨_, hk, rfl⟩, fun value => by cases hk.symm.trans value.1⟩
        · exact ⟨⟨_, hk, rfl⟩, fun value => by cases hk.symm.trans value.1⟩
      obtain ⟨c, hc, wc⟩ := ih structural hnp
      exact ⟨c, hc, .step hp wc⟩

end Node.Table

namespace Document

variable {d : Document} {n : Nat} {r : Record}

/-- The text of a text node; other nodes have none. -/
def ownText (d : Document) (n : NodeId) : String :=
  (d.nodes.get? n).elim "" fun r => if r.kind = .text then d.text r.payload else ""

theorem ownText_eq (hr : d.nodes.get? n = some r) (hk : r.kind = .text) :
    d.ownText n = d.text r.payload := by
  simp [ownText, hr, hk]

theorem ownText_eq_empty (hr : d.nodes.get? n = some r) (hk : r.kind ≠ .text) :
    d.ownText n = "" := by
  simp [ownText, hr, hk]

end Document

namespace Query

variable {d : Document} {n m c root fuel : Nat} {nodes : List NodeId} {k : Kind}

/-! ### The way through all that is below -/

/-- The structural nodes below a node, in document order, and the way that leads to them. -/
structure Below (d : Document) (n : NodeId) (nodes : List NodeId) : Prop where
  /-- They are what the way leads to. -/
  leads : Leads d (nextDescendant n) n nodes
  /-- They are in order. -/
  sorted : nodes.Pairwise (· < ·)
  /-- They are all that are below. -/
  mem : ∀ m, m ∈ nodes ↔ n < m ∧ d.nodes.IsStructural m ∧ d.nodes.Within n m

theorem exists_below (hd : d.Quiescent) (done : d.isDone = true) (hn : n < d.nodes.size) :
    ∃ nodes, Below d n nodes := by
  obtain ⟨nodes, leads, sorted, mem⟩ := exists_leads_up done
    (P := fun m => m < d.nodes.size ∧ d.nodes.Within n m)
    (fun m hm => finds_nextDescendant hd hm.2 hm.1) (fun m hm => hm.1.lt_size)
    (fun _ _ hm => ⟨hm.1.lt_size, hm.2⟩) ⟨hn, .self⟩
  exact ⟨nodes, leads, sorted, mem⟩

namespace Below

theorem lt_size (h : Below d n nodes) (hm : m ∈ nodes) : m < d.nodes.size :=
  ((h.mem m).1 hm).2.1.lt_size

theorem length_le (h : Below d n nodes) : nodes.length ≤ d.nodes.size := by
  have inside : nodes ⊆ List.range d.nodes.size := fun m hm => List.mem_range.2 (h.lt_size hm)
  have := (List.subperm_of_subset (h.sorted.imp Nat.ne_of_lt) inside).length_le
  rwa [List.length_range] at this

/-- Nothing is below a node of a kind without children. -/
theorem eq_nil (h : Below d n nodes) (layout : d.nodes.Layout) (hk : d.nodes.kind? n = some k)
    (leaf : k.canHaveChildren = false) : nodes = [] := by
  apply List.eq_nil_iff_forall_not_mem.2
  intro m hm
  obtain ⟨below, structural, w⟩ := (h.mem m).1 hm
  obtain ⟨c, hc, -⟩ := layout.exists_isChild_within structural w below
  have plain : k.hasValueNode = false := by
    revert leaf
    cases k <;> decide
  exact layout.not_isListed hk leaf ((Table.isListed_iff hk plain).2 hc)

/-- What is below a node are its children, each followed by what is below it. -/
theorem eq_flatMap (h : Below d n nodes) (layout : d.nodes.Layout) {children : List NodeId}
    {below : NodeId → List NodeId} (sorted : children.Pairwise (· < ·))
    (mem : ∀ c, c ∈ children ↔ d.nodes.IsChild n c)
    (each : ∀ c ∈ children, Below d c (below c)) :
    nodes = children.flatMap fun c => c :: below c := by
  have within : ∀ c ∈ children, ∀ m, m ∈ c :: below c ↔
      d.nodes.IsStructural m ∧ d.nodes.Within c m := by
    intro c hc m
    rw [List.mem_cons, (each c hc).mem]
    constructor
    · rintro (rfl | ⟨-, hm⟩)
      · exact ⟨((mem m).1 hc).1, .self⟩
      · exact hm
    · rintro ⟨hm, w⟩
      rcases Nat.eq_or_lt_of_le (w.le layout) with same | lt
      · exact .inl same.symm
      · exact .inr ⟨lt, hm, w⟩
  apply h.sorted.eq_of_mem_iff
  · apply List.pairwise_flatMap.2
    constructor
    · intro c hc
      exact List.pairwise_cons.2 ⟨fun m hm => (((each c hc).mem m).1 hm).1, (each c hc).sorted⟩
    · apply sorted.imp_of_mem
      intro c c' hc hc' later m hm m' hm'
      have before := ((mem c).1 hc).lt_of_within layout ((mem c').1 hc') later
        ((within c hc m).1 hm).2
      exact Nat.lt_of_lt_of_le before (((within c' hc' m').1 hm').2.le layout)
  · intro m
    rw [List.mem_flatMap, h.mem]
    constructor
    · rintro ⟨lt, hm, w⟩
      obtain ⟨c, hc, wc⟩ := layout.exists_isChild_within hm w lt
      have hc := (mem c).2 hc
      exact ⟨c, hc, (within c hc m).2 ⟨hm, wc⟩⟩
    · rintro ⟨c, hc, hm⟩
      obtain ⟨structural, w⟩ := (within c hc m).1 hm
      have parent := ((mem c).1 hc).2
      exact ⟨Nat.lt_of_lt_of_le (layout.parent_lt parent) (w.le layout), structural,
        Table.Within.trans (.step parent .self) w⟩

end Below

/-! ### String values -/

/-- The texts on a way are put together. -/
theorem run_textBelow {node : NodeId} (leads : Leads d (nextDescendant root) node nodes)
    (there : ∀ m ∈ nodes, m < d.nodes.size) (hf : nodes.length ≤ fuel) (before : String) :
    (textBelow root fuel before node).run.run d =
      .answer (.ok (before ++ String.join (nodes.map d.ownText))) := by
  induction nodes generalizing fuel before node with
  | nil =>
    rw [List.map_nil, String.join_nil, String.append_empty]
    cases fuel with
    | zero => rfl
    | succ fuel =>
      rw [textBelow, run_reading_bind leads]
      rfl
  | cons next rest ih =>
    obtain ⟨fuel, rfl⟩ : ∃ fuel', fuel = fuel' + 1 := Nat.exists_eq_add_one.2 (by
      rw [List.length_cons] at hf
      omega)
    obtain ⟨k, hk⟩ := Table.exists_kind?_iff.2 (there next List.mem_cons_self)
    obtain ⟨r, hr, -⟩ := Table.exists_get?_of_kind? hk
    have later := ih leads.2 (fun m hm => there m (List.mem_cons_of_mem _ hm))
      (Nat.le_of_succ_le_succ hf)
    rw [textBelow, run_reading_bind leads.1, List.map_cons, String.join_cons]
    dsimp only
    rw [run_reading_bind (run_lift (run_record hr))]
    by_cases text : r.kind = .text
    · rw [if_pos text, Document.ownText_eq hr text, ← String.append_assoc]
      exact later _
    · rw [if_neg text, Document.ownText_eq_empty hr text, String.empty_append]
      exact later _

/-- The string value of the document or of an element is that of the texts below it. -/
theorem Below.run_stringValue (h : Below d n nodes) (hd : d.WellFormed)
    (hk : d.nodes.kind? n = some .document ∨ d.nodes.kind? n = some .element) :
    (stringValue n).run.run d = .answer (.ok (String.join (nodes.map d.ownText))) := by
  have length : nodes.length ≤ indexBound := Nat.le_trans h.length_le hd.size_le_indexBound
  have texts := run_textBelow h.leads (fun m hm => h.lt_size hm) length ""
  rw [String.empty_append] at texts
  rcases hk with hk | hk
  · obtain ⟨r, hr, kind⟩ := Table.exists_get?_of_kind? hk
    rw [stringValue, run_startRecord_bind hr, kind]
    exact texts
  · obtain ⟨r, hr, kind⟩ := Table.exists_get?_of_kind? hk
    rw [stringValue, run_startRecord_bind hr, kind]
    exact texts

theorem run_nodeValue?_text (hk : d.nodes.kind? n = some .text) :
    (nodeValue? n).run d = .answer (some (d.ownText n)) := by
  obtain ⟨r, hr, kind⟩ := Table.exists_get?_of_kind? hk
  rw [Document.ownText_eq hr kind, nodeValue?, run_record_bind hr, kind]
  rfl

/-- The string value of a text is its own. -/
theorem run_stringValue_text (hk : d.nodes.kind? n = some .text) :
    (stringValue n).run.run d = .answer (.ok (d.ownText n)) := by
  obtain ⟨r, hr, kind⟩ := Table.exists_get?_of_kind? hk
  rw [stringValue, run_startRecord_bind hr, kind]
  dsimp only
  rw [run_reading_bind (run_lift (run_nodeValue?_text hk))]
  rfl

/-- What a child contributes to the string value of its parent: its own string value if it is of one
of some kinds, and nothing otherwise. -/
def Contributes (d : Document) (kinds : List Kind) (child : NodeId) (value : String) : Prop :=
  ∃ k, d.nodes.kind? child = some k ∧
    if k ∈ kinds then (stringValue child).run.run d = .answer (.ok value) else value = ""

/-- A child contributes what is on the way from it on to the next child. -/
theorem Below.contributes {p : NodeId} (h : Below d c nodes) (hd : d.WellFormed)
    (hc : d.nodes.IsChild p c) :
    Contributes d [.text, .element] c (d.ownText c ++ String.join (nodes.map d.ownText)) := by
  obtain ⟨⟨k, hk, plain⟩, -⟩ := hc.1
  obtain ⟨r, hr, rfl⟩ := Table.exists_get?_of_kind? hk
  have inner : r.kind ≠ .document := fun root => by
    have := hd.layout.parent_lt hc.2
    have := (hd.layout hk).document_iff.1 root
    omega
  refine ⟨r.kind, hk, ?_⟩
  by_cases element : r.kind = .element
  · rw [if_pos (by simp [element]), Document.ownText_eq_empty hr (by simp [element]),
      String.empty_append]
    exact h.run_stringValue hd (.inr (by rw [hk, element]))
  have leaf : r.kind.canHaveChildren = false := by
    revert plain inner element
    cases r.kind <;> decide
  rw [h.eq_nil hd.layout hk leaf, List.map_nil, String.join_nil, String.append_empty]
  by_cases text : r.kind = .text
  · rw [if_pos (by simp [text])]
    exact run_stringValue_text (by rw [hk, text])
  · rw [if_neg (by simp [element, text])]
    exact Document.ownText_eq_empty hr text

/-- Where there are no texts, only elements contribute. -/
theorem Contributes.of_ne_text {value : String} (h : Contributes d [.text, .element] c value)
    (hc : d.nodes.kind? c ≠ some .text) : Contributes d [.element] c value := by
  obtain ⟨k, hk, contributed⟩ := h
  refine ⟨k, hk, ?_⟩
  have other : k ≠ .text := by
    rintro rfl
    exact hc hk
  simpa [other] using contributed

/-- Strings that are put together, each followed by some others. -/
theorem join_map_flatMap {α : Type} (f : α → String) (others : α → List α) (l : List α) :
    String.join ((l.flatMap fun a => a :: others a).map f) =
      String.join (l.map fun a => f a ++ String.join ((others a).map f)) := by
  induction l with
  | nil => rfl
  | cons a rest ih => simp [String.join_append, String.join_cons, ih, String.append_assoc]

/-- Empty strings need not be put together with others. -/
theorem join_map_filter {α : Type} (f : α → String) (P : α → Bool) (l : List α)
    (empty : ∀ a ∈ l, P a = false → f a = "") :
    String.join ((l.filter P).map f) = String.join (l.map f) := by
  induction l with
  | nil => rfl
  | cons a rest ih =>
    have later := ih fun b hb => empty b (List.mem_cons_of_mem _ hb)
    cases hP : P a with
    | true => simp [hP, String.join_cons, later]
    | false => simp [hP, String.join_cons, later, empty a List.mem_cons_self hP]

/-- All that counts of what is below a node are the texts, without the values of attributes and
entities. -/
theorem Below.exists_texts (h : Below d n nodes) :
    ∃ texts : List NodeId, texts.Pairwise (· < ·) ∧
      (∀ m, m ∈ texts ↔ n < m ∧ d.nodes.Within n m ∧ d.nodes.kind? m = some .text ∧
        ¬ d.nodes.IsValue m) ∧
      List.Forall₂ (fun m content => (nodeValue? m).run d = .answer (some content))
        texts (texts.map d.ownText) ∧
      String.join (nodes.map d.ownText) = String.join (texts.map d.ownText) := by
  refine ⟨nodes.filter fun m => d.nodes.kind? m = some .text, h.sorted.filter _, fun m => ?_, ?_,
    ?_⟩
  · rw [List.mem_filter, h.mem, decide_eq_true_iff]
    constructor
    · rintro ⟨⟨below, structural, w⟩, text⟩
      exact ⟨below, w, text, structural.2⟩
    · rintro ⟨below, w, text, value⟩
      exact ⟨⟨below, ⟨⟨_, text, rfl⟩, value⟩, w⟩, text⟩
  · apply List.forall₂_map_right_iff.2 (List.forall₂_same.2 _)
    intro m hm
    exact run_nodeValue?_text (of_decide_eq_true (List.mem_filter.1 hm).2)
  · symm
    apply join_map_filter
    intro m hm other
    obtain ⟨k, hk⟩ := Table.exists_kind?_iff.2 (h.lt_size hm)
    obtain ⟨r, hr, rfl⟩ := Table.exists_get?_of_kind? hk
    apply Document.ownText_eq_empty hr
    intro text
    exact of_decide_eq_false other (by rw [hk, text])

end Query

namespace Builder

variable {config : Config} {journal : Journal} {s : Builder × Journal}

/-- The string value of the document or of an element of a complete document consists of what its
children contribute, in order: texts and elements their own string values, and other nodes nothing.
The document has no texts, so only its elements contribute. It also consists of the values of all
texts below the node, in order; the values of attributes and entities are not among them. -/
theorem string_values_are_compositional (h : Reaches (start config, journal) s)
    (done : s.1.document.isDone = true) (x : Bool) {n : NodeId}
    (hn : s.1.document.nodes.kind? n = some .document ∨
      s.1.document.nodes.kind? n = some .element) :
    let d : Document := { s.1.document with isCancelled := x }
    ∃ (children : List NodeId) (values : List String),
      (Query.children n).run d = .answer ⟨children, none⟩ ∧
      (Query.stringValue n).run.run d = .answer (.ok (String.join values)) ∧
      List.Forall₂ (Query.Contributes d [.text, .element]) children values ∧
      (n = documentId → List.Forall₂ (Query.Contributes d [.element]) children values) ∧
      ∃ (texts : List NodeId) (contents : List String),
        texts.Pairwise (· < ·) ∧
        (∀ m, m ∈ texts ↔ n < m ∧ d.nodes.Within n m ∧ d.nodes.kind? m = some .text ∧
          ¬ d.nodes.IsValue m) ∧
        List.Forall₂ (fun m content => (Query.nodeValue? m).run d = .answer (some content))
          texts contents ∧
        String.join values = String.join contents := by
  intro d
  have hd : d.WellFormed := ((h.consistent (consistent_start config)).sound.wellFormed).cancel x
  have done : d.isDone = true := done
  have quiet := hd.quiescent done
  have texts : d.NormalTexts := h.isNormal.texts.of_same rfl rfl
  obtain ⟨⟨children, stopped⟩, hrun, sorted, mem, whole⟩ := Query.run_children quiet hn
  obtain rfl : stopped = none := whole done
  have there : ∀ m, ∃ nodes, m < d.nodes.size → Query.Below d m nodes := by
    intro m
    by_cases hm : m < d.nodes.size
    · obtain ⟨nodes, below⟩ := Query.exists_below quiet done hm
      exact ⟨nodes, fun _ => below⟩
    · exact ⟨[], fun hm' => absurd hm' hm⟩
  choose below hbelow using there
  have own := hbelow n (hn.elim Table.lt_size_of_kind? Table.lt_size_of_kind?)
  have each : ∀ c ∈ children, Query.Below d c (below c) := fun c hc =>
    hbelow c ((mem c).1 hc).1.lt_size
  have split := own.eq_flatMap hd.layout sorted mem each
  have contributes : ∀ c ∈ children, Query.Contributes d [.text, .element] c
      (d.ownText c ++ String.join ((below c).map d.ownText)) := fun c hc =>
    (each c hc).contributes hd ((mem c).1 hc)
  refine ⟨children, children.map fun c => d.ownText c ++ String.join ((below c).map d.ownText),
    hrun, ?_, ?_, ?_, ?_⟩
  · rw [own.run_stringValue hd hn, split, Query.join_map_flatMap]
  · exact List.forall₂_map_right_iff.2 (List.forall₂_same.2 contributes)
  · rintro rfl
    apply List.forall₂_map_right_iff.2 (List.forall₂_same.2 _)
    intro c hc
    exact (contributes c hc).of_ne_text fun hk => texts.outside hk ((mem c).1 hc).2
  · obtain ⟨texts, sorted, mem, values, same⟩ := own.exists_texts
    refine ⟨texts, texts.map d.ownText, sorted, mem, values, ?_⟩
    rw [← Query.join_map_flatMap, ← split, same]

/-- In an element with an attribute there are a text, an element with another text, a comment and a
reference to an entity that the prolog declares. -/
theorem string_values_are_compositional_of_mixed_content :
    let s := ((acceptAll [.startDocument, .entityDeclaration "x" "1",
      .startElement "a" [{ name := "y", value := "2" }], .characters "u" {}, .startElement "b" [],
      .characters "v" {}, .endElement, .comment "c", .entityReference "x", .endElement,
      .endDocument]).run.run (start .standard, { handler := .lenient })).2
    let d : Document := { s.1.document with isCancelled := false }
    s.1.document.isDone = true ∧ s.1.document.nodes.kind? 3 = some .element ∧
      ∃ values, String.join values = "uv" ∧
        List.Forall₂ (Query.Contributes d [.text, .element]) [6, 7, 9, 10] values := by
  intro s d
  have reached : Reaches (start .standard, { handler := .lenient }) s := reaches_acceptAll _ _
  have done : s.1.document.isDone = true := by decide +kernel
  have element : s.1.document.nodes.kind? 3 = some .element := by decide +kernel
  obtain ⟨children, values, hrun, value, contributed, -⟩ :=
    string_values_are_compositional reached done false (.inr element)
  have found : (Query.children 3).run d = .answer ⟨[6, 7, 9, 10], none⟩ := by decide +kernel
  obtain rfl : children = [6, 7, 9, 10] :=
    congrArg Walk.nodes (Outcome.answer.inj (hrun.symm.trans found))
  have whole : (Query.stringValue 3).run.run d = .answer (.ok "uv") := by decide +kernel
  have same := Except.ok.inj (Outcome.answer.inj (value.symm.trans whole))
  exact ⟨done, element, values, same, contributed⟩

end Builder

end XmlTable
