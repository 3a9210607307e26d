import XmlTable.Proofs.Children
import XmlTable.Proofs.Collecting
import XmlTable.Proofs.Known
import XmlTable.Proofs.Partition
import XmlTable.Proofs.Reading

/-!
# Declared entities

A document keeps the entities that are declared in it twice: as a chain of nodes, along which a
reader goes, and in a table by their names. Both say the same, namely what the first declaration of
each name was, and no other way through the document comes to an entity.
-/

namespace XmlTable

open Node

/-! ### What events introduce -/

namespace Event

/-- The entities that some events introduce: those of the first declaration of each name that is not
predefined. -/
def introduced (events : List Event) : List (String × String) :=
  (firsts (·.1) (declarations events)).filter fun entity =>
    (Entity.predefined.lookup entity.1).isNone

variable {events : List Event}

theorem introduced_of_not_declared {event : Event} (plain : event.declared? = none) :
    introduced (events ++ [event]) = introduced events := by
  rw [introduced, declarations, List.filterMap_append, List.filterMap_cons_none plain,
    List.filterMap_nil, List.append_nil]
  rfl

/-- A declaration introduces its name unless it is predefined or was declared before. -/
theorem introduced_declaration (name value : String) :
    introduced (events ++ [.entityDeclaration name value]) =
      if (Entity.predefined.lookup name).isSome ∨ name ∈ (introduced events).map (·.1) then
        introduced events
      else introduced events ++ [(name, value)] := by
  have all : declarations (events ++ [.entityDeclaration name value]) =
      declarations events ++ [(name, value)] := by
    rw [declarations, List.filterMap_append]
    rfl
  rw [introduced, all, firsts_concat, ← any_firsts]
  dsimp only
  cases predefined : Entity.predefined.lookup name with
  | some value' =>
    rw [if_pos (show (some value').isSome = true ∨ _ from .inl rfl)]
    split
    · rfl
    · rw [List.filter_append, List.filter_cons_of_neg (by simp [predefined]), List.filter_nil,
        List.append_nil]
      rfl
  | none =>
    have known : name ∈ (introduced events).map (·.1) ↔
        ((firsts (·.1) (declarations events)).any fun entity => entity.1 = name) = true := by
      rw [introduced, List.any_eq_true, List.mem_map]
      constructor
      · rintro ⟨entity, hm, rfl⟩
        exact ⟨entity, (List.mem_filter.1 hm).1, decide_eq_true rfl⟩
      · rintro ⟨entity, hm, same⟩
        obtain rfl := of_decide_eq_true same
        exact ⟨entity, List.mem_filter.2 ⟨hm, by rw [predefined]; rfl⟩, rfl⟩
    by_cases before : name ∈ (introduced events).map (·.1)
    · rw [if_pos (known.1 before), if_pos (Or.inr before)]
      rfl
    · rw [if_neg (mt known.2 before), if_neg (by simpa using before), List.filter_append,
        List.filter_cons_of_pos (by simp [predefined])]
      rfl

theorem nodup_introduced (events : List Event) : ((introduced events).map (·.1)).Nodup :=
  (nodup_map_firsts (declarations events)).sublist (List.filter_sublist.map _)

/-- What is predefined is not introduced. -/
theorem not_mem_introduced {name : String} (predefined : (Entity.predefined.lookup name).isSome) :
    name ∉ (introduced events).map (·.1) := by
  intro introduces
  obtain ⟨entity, hm, rfl⟩ := List.mem_map.1 introduces
  have plain := (List.mem_filter.1 hm).2
  rw [Option.isNone_iff_eq_none] at plain
  rw [plain] at predefined
  cases predefined

end Event

/-! ### What the table of entities says -/

namespace Entity

/-- The entries of some entities that have some nodes. -/
def entriesOf (entities : List (String × String)) (nodes : List NodeId) : List (String × Entry) :=
  List.zipWith (fun entity node => (entity.1, ⟨entity.2, some node⟩)) entities nodes

variable {entities : List (String × String)} {nodes : List NodeId} {name value : String}

theorem entriesOf_append (same : entities.length = nodes.length) (name value : String)
    (node : NodeId) :
    entriesOf (entities ++ [(name, value)]) (nodes ++ [node]) =
      entriesOf entities nodes ++ [(name, ⟨value, some node⟩)] :=
  List.zipWith_append same

theorem lookup_entriesOf (distinct : (entities.map (·.1)).Nodup) {i : Nat} {node : NodeId}
    (he : entities[i]? = some (name, value)) (hn : nodes[i]? = some node) :
    (entriesOf entities nodes).lookup name = some ⟨value, some node⟩ := by
  induction entities generalizing nodes i with
  | nil => cases he
  | cons entity rest ih =>
    obtain ⟨apart, distinct⟩ := List.nodup_cons.1 distinct
    cases nodes with
    | nil => cases hn
    | cons first others =>
      show List.lookup name ((entity.1, ⟨entity.2, some first⟩) :: entriesOf rest others) = _
      rw [List.lookup_cons]
      cases i with
      | zero =>
        obtain rfl := Option.some.inj he
        obtain rfl := Option.some.inj hn
        rw [beq_self_eq_true]
      | succ i =>
        have other : name ≠ entity.1 := by
          rintro rfl
          exact apart (List.mem_map.2 ⟨_, List.mem_of_getElem? he, rfl⟩)
        rw [beq_false_of_ne other]
        exact ih distinct he hn

theorem lookup_entriesOf_eq_none (unknown : name ∉ entities.map (·.1)) :
    (entriesOf entities nodes).lookup name = none := by
  induction entities generalizing nodes with
  | nil => rfl
  | cons entity rest ih =>
    cases nodes with
    | nil => rfl
    | cons first others =>
      rw [List.map_cons, List.mem_cons, not_or] at unknown
      show List.lookup name ((entity.1, ⟨entity.2, some first⟩) :: entriesOf rest others) = _
      rw [List.lookup_cons, beq_false_of_ne unknown.1]
      exact ih unknown.2

/-- An entry with its node renumbered. -/
def Entry.renumber (f : NodeId → NodeId) (entry : Entry) : Entry :=
  { entry with node := entry.node.map f }

theorem lookup_entriesOf_map (f : NodeId → NodeId) :
    (entriesOf entities (nodes.map f)).lookup name =
      ((entriesOf entities nodes).lookup name).map (Entry.renumber f) := by
  induction entities generalizing nodes with
  | nil => rfl
  | cons entity rest ih =>
    cases nodes with
    | nil => rfl
    | cons first others =>
      show List.lookup name
          ((entity.1, ⟨entity.2, some (f first)⟩) :: entriesOf rest (others.map f)) =
        (List.lookup name ((entity.1, ⟨entity.2, some first⟩) :: entriesOf rest others)).map _
      rw [List.lookup_cons, List.lookup_cons]
      cases name == entity.1
      · exact ih
      · rfl

theorem mem_of_lookup_entriesOf {entry : Entry} {node : NodeId}
    (found : (entriesOf entities nodes).lookup name = some entry) (hn : entry.node = some node) :
    node ∈ nodes := by
  induction entities generalizing nodes with
  | nil => cases found
  | cons entity rest ih =>
    cases nodes with
    | nil => cases found
    | cons first others =>
      have found : List.lookup name
          ((entity.1, ⟨entity.2, some first⟩) :: entriesOf rest others) = some entry := found
      rw [List.lookup_cons] at found
      cases same : name == entity.1
      · rw [same] at found
        exact List.mem_cons_of_mem _ (ih found)
      · rw [same] at found
        obtain rfl := Option.some.inj found
        obtain rfl := Option.some.inj hn
        exact List.mem_cons_self

end Entity

/-! ### Entities in a document -/

namespace Document

variable {d d' : Document} {n : Nat} {entities : List (String × String)} {name value : String}

/-- An entity stands at a node, followed by its value. -/
structure EntityAt (d : Document) (n : Nat) (entity : String × String) : Prop where
  /-- The entity. -/
  own : ∃ id, d.Holds n (.linked .entity 0 documentId id .pending) ∧
    d.names.resolve id = some entity.1
  /-- Its value. -/
  value : ∃ payload, d.Holds (n + 1) (.valueNode n payload) ∧
    d.texts.resolve payload = some entity.2

theorem EntityAt.mono {entity : String × String} (h : d.EntityAt n entity) (he : d.Extends d') :
    d'.EntityAt n entity := by
  obtain ⟨⟨id, held, hn⟩, payload, heldValue, hs⟩ := h
  exact ⟨⟨id, held.mono he, he.name hn⟩, payload, heldValue.mono he, he.text hs⟩

theorem EntityAt.run_nodeName (h : d.EntityAt n (name, value)) :
    (Query.nodeName n).run d = .answer name := by
  obtain ⟨id, held, hn⟩ := h.own
  exact Query.run_nodeName held ⟨nofun, nofun, nofun⟩ hn

theorem EntityAt.run_nodeValue? (h : d.EntityAt n (name, value)) :
    (Query.nodeValue? n).run d = .answer (some value) := by
  obtain ⟨id, held, -⟩ := h.own
  obtain ⟨payload, heldValue, hs⟩ := h.value
  exact Query.run_nodeValue?_of_value held (.inr rfl) heldValue hs

/-- The nodes and the table both say that some entities are declared, one after the other. -/
structure Declares (d : Document) (entities : List (String × String)) : Prop where
  /-- There is a node for each. -/
  length_eq : (d.nodes.ofKind .entity).length = entities.length
  /-- They stand there in order. -/
  entityAt : ∀ {i n : Nat} {entity : String × String}, (d.nodes.ofKind .entity)[i]? = some n →
    entities[i]? = some entity → d.EntityAt n entity
  /-- Apart from those that are predefined the table has no others. -/
  entries : d.entities.entries =
    Entity.Table.initial.entries ++ Entity.entriesOf entities (d.nodes.ofKind .entity)

namespace Declares

theorem get? (h : d.Declares entities) (name : String) : d.entities.get? name =
    ((Entity.predefined.lookup name).map (⟨·, none⟩)).or
      ((Entity.entriesOf entities (d.nodes.ofKind .entity)).lookup name) := by
  rw [← Entity.Table.get?_initial, Entity.Table.get?, h.entries, List.lookup_append]
  rfl

theorem get?_of_not_mem (h : d.Declares entities) (unknown : name ∉ entities.map (·.1)) :
    d.entities.get? name = (Entity.predefined.lookup name).map (⟨·, none⟩) := by
  rw [h.get?, Entity.lookup_entriesOf_eq_none unknown, Option.or_none]

theorem get?_of_getElem? (h : d.Declares entities) (distinct : (entities.map (·.1)).Nodup)
    {i : Nat} (he : entities[i]? = some (name, value))
    (hn : (d.nodes.ofKind .entity)[i]? = some n)
    (plain : Entity.predefined.lookup name = none) :
    d.entities.get? name = some ⟨value, some n⟩ := by
  rw [h.get?, plain, Entity.lookup_entriesOf distinct he hn]
  rfl

theorem contains_iff (h : d.Declares entities) (distinct : (entities.map (·.1)).Nodup)
    (name : String) : d.entities.contains name = true ↔
      (Entity.predefined.lookup name).isSome ∨ name ∈ entities.map (·.1) := by
  cases predefined : Entity.predefined.lookup name with
  | some value => simp [Entity.Table.contains, h.get?, predefined]
  | none =>
    by_cases known : name ∈ entities.map (·.1)
    · obtain ⟨⟨_, value⟩, hm, rfl⟩ := List.mem_map.1 known
      obtain ⟨i, he⟩ := List.getElem?_of_mem hm
      have hi := (List.getElem?_eq_some_iff.1 he).1
      rw [← h.length_eq] at hi
      have found := h.get?_of_getElem? distinct he (List.getElem?_eq_getElem hi) predefined
      rw [Entity.Table.contains, found]
      exact iff_of_true rfl (.inr known)
    · rw [Entity.Table.contains, h.get?_of_not_mem known, predefined]
      exact iff_of_false Bool.false_ne_true fun h => h.elim Bool.false_ne_true known

/-- The same entities are declared as long as none are added. -/
theorem mono (h : d.Declares entities) (he : d.Extends d')
    (plain : ∀ n, d.nodes.size ≤ n → d'.nodes.kind? n ≠ some .entity)
    (entries : d'.entities.entries = d.entities.entries) : d'.Declares entities := by
  have same := Table.ofKind_eq he.continues plain
  refine ⟨by rw [same, h.length_eq], fun hi hs => ?_, by rw [entries, h.entries, same]⟩
  rw [same] at hi
  exact (h.entityAt hi hs).mono he

/-- One more entity is declared. -/
theorem append (h : d.Declares entities) (he : d.Extends d') (new : d'.EntityAt n (name, value))
    (mem : ∀ m, m = n ↔ d.nodes.size ≤ m ∧ d'.nodes.kind? m = some .entity)
    (entries : d'.entities.entries = d.entities.entries ++ [(name, ⟨value, some n⟩)]) :
    d'.Declares (entities ++ [(name, value)]) := by
  have same := Table.ofKind_eq_append he.continues (List.pairwise_singleton _ n)
    fun m => by rw [List.mem_singleton, mem]
  refine ⟨?_, fun {i m entity} hi hs => ?_, ?_⟩
  · rw [same, List.length_append, List.length_append, h.length_eq]
    rfl
  · rw [same] at hi
    rcases Nat.lt_or_ge i entities.length with hlt | hge
    · rw [List.getElem?_append_left (by rwa [h.length_eq])] at hi
      rw [List.getElem?_append_left hlt] at hs
      exact (h.entityAt hi hs).mono he
    · rw [List.getElem?_append_right (by rwa [h.length_eq]), h.length_eq] at hi
      rw [List.getElem?_append_right hge] at hs
      obtain rfl := List.mem_singleton.1 (List.mem_of_getElem? hi)
      obtain rfl := List.mem_singleton.1 (List.mem_of_getElem? hs)
      exact new
  · rw [entries, h.entries, same, Entity.entriesOf_append h.length_eq.symm, List.append_assoc]

end Declares

end Document


/-! ### Ways to entities -/

namespace Query

variable {d : Document} {n i fuel : Nat} {entity? : Option Entity.Entry} {name : String}

/-- In a complete document an entity is what the table says. -/
theorem run_entity (done : d.isDone = true) (name : String) :
    run d (entity name).run = .answer (.ok (d.entities.get? name)) := by
  refine Reading.run_await ?_
  rw [done, Bool.or_true, Bool.true_or]

section Quiescent

variable (hd : d.Quiescent)
include hd

/-- The scan for an entity comes to the first one. It ends at an element, because entities come
before all elements. -/
theorem finds_entityFrom (hf : d.nodes.size ≤ i + fuel) :
    Finds d (fun n => i ≤ n ∧ d.nodes.kind? n = some .entity) (entityFrom fuel i) := by
  have layout := hd.wellFormed.layout
  induction fuel generalizing i with
  | zero =>
    refine .pure fun n hn => ?_
    have := Table.lt_size_of_kind? hn.2
    omega
  | succ fuel ih =>
    have missing : d.nodes.size ≤ i → ∀ n, ¬ (i ≤ n ∧ d.nodes.kind? n = some .entity) :=
      fun hi n hn => Nat.not_lt.2 (Nat.le_trans hi hn.1) (Table.lt_size_of_kind? hn.2)
    -- What is no entity is passed over.
    have pass : ∀ {j : Nat}, (∀ m, i ≤ m → m < j → d.nodes.kind? m ≠ some .entity) → i < j →
        ∀ n, (j ≤ n ∧ d.nodes.kind? n = some .entity) ↔
          (i ≤ n ∧ d.nodes.kind? n = some .entity) := fun other hij n =>
      ⟨fun hn => ⟨by omega, hn.2⟩,
        fun hn => ⟨Nat.le_of_not_lt fun hlt => other n hn.1 hlt hn.2, hn.2⟩⟩
    refine ((yields_awaitRecord hd i).mono (fun _ h => h) missing).bind fun found hfound => ?_
    cases found with
    | none =>
      refine .pure (missing (Nat.le_of_not_lt fun hi => ?_))
      rw [← Table.isSome_get?_iff, ← hfound] at hi
      cases hi
    | some found =>
      have hk := Table.kind?_of_get? hfound.symm
      have own : ∀ m, i ≤ m → m < i + 1 → m = i := by omega
      dsimp only
      split
      · next entity =>
        rw [entity] at hk
        exact .pure ⟨⟨Nat.le_refl i, hk⟩, fun n hn => hn.1⟩
      · next element =>
        rw [element] at hk
        refine .pure fun n hn => ?_
        rcases Nat.eq_or_lt_of_le hn.1 with rfl | hlt
        · cases hk.symm.trans hn.2
        · exact ((layout hn.2).entity rfl).2 i hlt hk
      · next attr =>
        rw [attr] at hk
        refine (ih (i := i + 2) (by omega)).congr (pass (fun m him hm => ?_) (by omega))
        obtain rfl | rfl : m = i ∨ m = i + 1 := by omega
        · rw [hk]
          nofun
        · rw [((layout hk).value rfl).1]
          nofun
      · next other _ _ =>
        refine (ih (i := i + 1) (by omega)).congr (pass (fun m him hm => ?_) (by omega))
        rw [own m him hm, hk]
        exact fun same => other (Option.some.inj same)

theorem finds_firstEntity : Finds d (fun n => d.nodes.kind? n = some .entity) firstEntity := by
  have bound : d.nodes.size ≤ documentId + 1 + indexBound :=
    Nat.le_trans hd.wellFormed.size_le_indexBound (Nat.le_add_left ..)
  refine (finds_entityFrom hd bound).congr fun n => and_iff_right_of_imp fun hn => ?_
  refine Nat.pos_of_ne_zero fun first => ?_
  cases (hd.wellFormed.layout hn).document_iff.2 first

/-- The way from the first entity along the next siblings comes to all entities. -/
theorem run_entities : ∃ walked : Walk, run d (walk firstEntity nextSibling) = .answer walked ∧
    walked.nodes = d.nodes.ofKind .entity ∧ (d.isDone = true → walked.stopped = none) := by
  obtain ⟨walked, hrun, sorted, mem, complete⟩ := run_walk hd.wellFormed
    (fun _ => Table.lt_size_of_kind?) (finds_firstEntity hd) fun n hn =>
      (finds_nextSibling_linked hd hn rfl).congr fun m => by rw [Table.Follows, hn]
  exact ⟨walked, hrun, sorted.eq_of_mem_iff (d.nodes.ofKind_ascending _) fun n =>
    (mem n).trans Table.mem_ofKind.symm, complete⟩

/-- The walk over what is below a node comes to all nodes of the tree that are there. -/
theorem run_descendants (hn : n < d.nodes.size) :
    ∃ walked : Walk, run d (descendants n) = .answer walked ∧
      (∀ m, m ∈ walked.nodes ↔ n < m ∧ d.nodes.IsStructural m ∧ d.nodes.Within n m) ∧
      (d.isDone = true → walked.stopped = none) := by
  obtain ⟨walked, hrun, -, mem, complete⟩ := run_walk hd.wellFormed
    (fun m hm => hm.2.1.lt_size) (finds_nextDescendant hd .self hn)
    fun m hm => (finds_nextDescendant hd hm.2.2 hm.2.1.lt_size).congr fun j =>
      and_congr_right fun hj => (and_iff_right (Nat.lt_trans hm.1 hj)).symm
  exact ⟨walked, hrun, mem, complete⟩

end Quiescent

end Query

/-- The node is there and is no entity. -/
def Node.Table.IsOther (t : Table) (n : Nat) : Prop :=
  ∃ k, t.kind? n = some k ∧ k ≠ .entity

namespace Node.Table

variable {t : Table} {n m e : Nat}

theorem IsStructural.isOther (h : t.IsStructural n) : t.IsOther n := by
  obtain ⟨⟨k, hk, plain⟩, -⟩ := h
  refine ⟨k, hk, ?_⟩
  rintro rfl
  cases plain

theorem IsAttribute.isOther (h : t.IsAttribute e n) : t.IsOther n :=
  ⟨_, h.1, nofun⟩

/-- What comes after another node in its chain is no entity if the other one is none. -/
theorem Follows.isOther (h : t.Follows n m) (hn : t.IsOther n) : t.IsOther m := by
  obtain ⟨k, hk, other⟩ := hn
  have follows := h.2
  rw [hk] at follows
  cases k
  case entity => exact absurd rfl other
  case attr => exact ⟨_, follows.1, nofun⟩
  all_goals exact follows.1.isOther

end Node.Table

namespace Query

variable {d : Document} {n fuel : Nat}

/-- A reading comes to no entity. -/
abbrev Avoids (d : Document) (reading : Reading (Option NodeId)) : Prop :=
  Yields d reading (fun answer => ∀ m ∈ answer, d.nodes.IsOther m) True

theorem Finds.avoids {P : Nat → Prop} {reading : Reading (Option NodeId)} (h : Finds d P reading)
    (other : ∀ n, P n → d.nodes.IsOther n) : Avoids d reading := by
  refine h.mono (fun answer first m hm => ?_) fun _ => trivial
  obtain rfl := Option.mem_def.1 hm
  exact other m first.1

theorem avoids_none : Avoids d (pure none) :=
  .pure nofun

section Quiescent

variable (hd : d.Quiescent)
include hd

theorem avoids_nextSibling (hn : d.nodes.IsOther n) : Avoids d (nextSibling n) := by
  obtain ⟨k, hk, other⟩ := hn
  exact (finds_nextSibling_follows hd (Table.lt_size_of_kind? hk)).avoids fun m follows =>
    follows.isOther ⟨k, hk, other⟩

theorem avoids_siblingBefore {previous current : Option NodeId}
    (hp : ∀ m ∈ previous, d.nodes.IsOther m) (hc : ∀ m ∈ current, d.nodes.IsOther m) :
    Avoids d (siblingBefore n fuel previous current) := by
  induction fuel generalizing previous current with
  | zero => exact avoids_none
  | succ fuel ih =>
    cases current with
    | none => exact avoids_none
    | some current =>
      rw [siblingBefore]
      split
      · exact .pure hp
      · exact (avoids_nextSibling hd (hc current rfl)).bind fun next hnext => ih hc hnext

theorem avoids_previousSibling (hn : d.nodes.IsOther n) : Avoids d (previousSibling n) := by
  have layout := hd.wellFormed.layout
  obtain ⟨k, hk, other⟩ := hn
  obtain ⟨r, hr, rfl⟩ := Table.exists_get?_of_kind? hk
  have hparent := Table.parent?_of_get? hr
  have chain : ∀ {first : Option NodeId}, (∀ m ∈ first, d.nodes.IsOther m) →
      Avoids d (siblingBefore n indexBound none first) := avoids_siblingBefore hd nofun
  refine Yields.of_run_eq ?_ (run_startRecord_bind hr _)
  split
  · exact avoids_none
  · next attr =>
    rw [attr] at hk
    obtain ⟨e, hp, he, -⟩ := (layout hk).attr rfl
    rw [hparent] at hp
    rw [hp]
    obtain ⟨first, hfirst, isFirst⟩ := run_firstAttribute hd.wellFormed he
    refine Yields.bind (.lift hfirst isFirst) fun first isFirst => chain fun m hm => ?_
    obtain rfl := Option.mem_def.1 hm
    exact isFirst.1.isOther
  · next entity => exact absurd entity other
  · next hdoc hattr _ =>
    obtain ⟨value, hvalue, iff⟩ := run_isValueNode hd.wellFormed hr
    refine Yields.of_run_eq ?_ (run_reading_bind (run_lift hvalue) _)
    cases value with
    | true =>
      rw [if_pos rfl]
      exact avoids_none
    | false =>
      rw [if_neg Bool.false_ne_true]
      have root : n ≠ documentId := fun root => hdoc ((layout hk).document_iff.2 root)
      obtain ⟨p, hp⟩ := layout.exists_parent? (Table.lt_size_of_kind? hk) root
      rw [← hparent, hp]
      have inner := layout.kind?_parent hp fun hv => Bool.false_ne_true (iff.2 hv)
      exact ((finds_firstChild hd inner).avoids fun m hm => hm.1.isOther).bind fun first => chain

end Quiescent

end Query

namespace Builder

open Query

variable {config : Config} {s s' : Builder × Journal}

/-! ### Runs -/

/-- A new entity stands where it was declared. -/
theorem Flushes.entityAt {texts own : List Record} {name value : String}
    (h : Flushes config texts own s s') (records : EntityRecords s'.1.document
      (s.1.document.nodes.size + texts.length) name value own) :
    s'.1.document.EntityAt (s.1.document.nodes.size + texts.length) (name, value) := by
  obtain ⟨id, payload, rfl, hn, hs⟩ := records
  exact ⟨⟨id, h.adds.holds_right (i := 0) rfl, hn⟩, payload, h.adds.holds_right (i := 1) rfl, hs⟩

/-- It is the only one. -/
theorem Flushes.eq_entity_iff {texts own : List Record} {name value : String}
    (h : Flushes config texts own s s') (records : EntityRecords s'.1.document
      (s.1.document.nodes.size + texts.length) name value own) (n : Nat) :
    n = s.1.document.nodes.size + texts.length ↔
      s.1.document.nodes.size ≤ n ∧ s'.1.document.nodes.kind? n = some .entity := by
  constructor
  · rintro rfl
    obtain ⟨id, held, -⟩ := (h.entityAt records).own
    exact ⟨Nat.le_add_right .., held.kind?⟩
  · rintro ⟨hn, hk⟩
    obtain ⟨payload, value, -⟩ := (h.entityAt records).value
    have hlt := h.adds.lt_of_kind? hk
    obtain ⟨id, payload', rfl, -⟩ := records
    rw [List.length_append, List.length_cons, List.length_singleton] at hlt
    rcases Nat.lt_trichotomy n (s.1.document.nodes.size + texts.length) with before | same | after
    · -- What comes before is text that was held back.
      have hi : n - s.1.document.nodes.size < texts.length := by omega
      have held := h.adds.holds_left (List.getElem?_eq_getElem hi)
      rw [Nat.add_sub_cancel' hn] at held
      cases (hk.symm.trans held.kind?).trans
        (congrArg some (h.text.kind _ (List.getElem_mem hi)))
    · exact same
    · -- What comes after is its value.
      obtain rfl : n = s.1.document.nodes.size + texts.length + 1 := by omega
      cases hk.symm.trans value.kind?

/-- The declaration of an entity introduces its name, unless it is known. -/
theorem DeclaresEntity.declares {events : List Event} {name value : String}
    (h : DeclaresEntity config name value s s')
    (declares : s.1.document.Declares (Event.introduced events)) :
    s'.1.document.Declares
      (Event.introduced (events ++ [.entityDeclaration name value])) := by
  have known := declares.contains_iff (Event.nodup_introduced events) name
  rw [Event.introduced_declaration, if_congr known.symm rfl rfl]
  cases h with
  | known flushes _ contains entries =>
    rw [if_pos contains]
    have grows : GrowsBy [.text] s s' := .ofFlushes flushes nofun
    refine declares.mono flushes.adds.keeps.extension (fun n hn hk => ?_) entries
    cases List.mem_singleton.1 (grows.kind_mem hn hk)
  | new flushes _ records contains entries =>
    rw [if_neg (Bool.eq_false_iff.1 contains)]
    exact declares.append flushes.adds.keeps.extension (flushes.entityAt records)
      (flushes.eq_entity_iff records) entries

/-- What the nodes and the table say are the entities that the events introduced. -/
theorem Takes.declares {journal : Journal} {events : List Event}
    (h : Takes (start config, journal) events s) :
    s.1.document.Declares (Event.introduced events) := by
  -- A failure leaves the entries as they are and adds no entity.
  have fails : ∀ {events : List Event} {s s₁ s' : Builder × Journal} {cause : Failure},
      s.1.Consistent config → Refuses config s s₁ → s' = failed cause s₁ → Steady s s' →
      s.1.document.Declares (Event.introduced events) →
      s'.1.document.Declares (Event.introduced events) := by
    rintro events s s₁ _ cause consistent refuses rfl steady declares
    have grows := refuses.growsBy.failed (refuses.consistent consistent) cause
    refine declares.mono grows.extension (fun n hn hk => ?_) steady.entries
    cases List.mem_singleton.1 (grows.kind_mem hn hk)
  induction h with
  | refl => exact ⟨rfl, nofun, rfl⟩
  | @accept events s₁ _ event before run ih =>
    have consistent := before.reaches.consistent (consistent_start config)
    have effect := (accept_meets consistent event).of_ok run
    cases hd : event.declared? with
    | none =>
      have performed := (accept_steady before.identifies.named event).of_ok run
      have grows := effect.growsBy consistent
      rw [Event.introduced_of_not_declared hd]
      refine ih.mono grows.extension (fun n hn hk => ?_) ((perform_entries hd).of_ok performed)
      have := grows.kind_mem hn hk
      cases event with
      | entityDeclaration => cases hd
      | _ => simp [Event.kinds] at this
    | some declared =>
      cases event with
      | entityDeclaration name value =>
        cases effect with
        | content ho contributes =>
          cases contributes with
          | leaf adds =>
            obtain ⟨_, _, _, leaf⟩ := adds
            cases leaf
          | entity declares => exact declares.declares ih
      | _ => cases hd
  | @refuse events s₁ _ event _ before run ih =>
    have consistent := before.reaches.consistent (consistent_start config)
    obtain ⟨s₂, refuses, same⟩ := (accept_meets consistent event).of_error run
    exact fails consistent refuses same
      ((accept_steady before.identifies.named event).of_error run) ih
  | @drop events s₁ before ih =>
    exact fails (before.reaches.consistent (consistent_start config)) (.inl rfl) (drop_run s₁)
      (across_drop s₁).state ih

/-- The chain of entities and the table of entities describe the same declarations. In a complete
document, going from the first entity along the next siblings comes to all nodes of entities and to
no others, and these are the entities that the events introduced, in order and by distinct names:
each node has the name and the value of the first declaration, and the table finds the node with
this value by the name. By any other name the table finds at most a predefined entity, which has no
node. The children of the document node, the nodes below any node, and the next and the previous
sibling of any other node are no entities. -/
theorem entities_agree {journal : Journal} {events : List Event}
    (h : Takes (start config, journal) events s) (done : s.1.document.isDone = true) (x : Bool) :
    let d : Document := { s.1.document with isCancelled := x }
    let entities := Event.introduced events
    (entities.map (·.1)).Nodup ∧
      (∃ nodes : List NodeId, (walk firstEntity nextSibling).run d = .answer ⟨nodes, none⟩ ∧
        nodes.Pairwise (· < ·) ∧ (∀ n, n ∈ nodes ↔ d.nodes.kind? n = some .entity) ∧
        nodes.length = entities.length ∧
        ∀ (i : Nat) (n : NodeId) (name value : String),
          nodes[i]? = some n → entities[i]? = some (name, value) →
          (nodeName n).run d = .answer name ∧ (nodeValue? n).run d = .answer (some value) ∧
          (entity name).run.run d = .answer (.ok (some ⟨value, some n⟩))) ∧
      (∀ name, name ∉ entities.map (·.1) → (entity name).run.run d =
        .answer (.ok ((Entity.predefined.lookup name).map (⟨·, none⟩)))) ∧
      (∃ below, (children documentId).run d = .answer ⟨below, none⟩ ∧
        ∀ m ∈ below, d.nodes.kind? m ≠ some .entity) ∧
      (∀ n < d.nodes.size, ∃ below, (descendants n).run d = .answer ⟨below, none⟩ ∧
        ∀ m ∈ below, d.nodes.kind? m ≠ some .entity) ∧
      ∀ n k, d.nodes.kind? n = some k → k ≠ .entity → ∃ next previous,
        (nextSibling n).run.run d = .answer (.ok next) ∧
        (previousSibling n).run.run d = .answer (.ok previous) ∧
        ∀ m, next = some m ∨ previous = some m → d.nodes.kind? m ≠ some .entity := by
  intro d entities
  have wellFormed := (h.reaches.consistent (consistent_start config)).sound.wellFormed
  have done : d.isDone = true := done
  have quiescent : d.Quiescent := (wellFormed.cancel x).quiescent done
  have declares : d.Declares entities := h.declares.mono ((Document.Extends.refl _).cancel _ x)
    (fun n hn hk => absurd (Table.lt_size_of_kind? hk) (Nat.not_lt.2 hn)) rfl
  have distinct := Event.nodup_introduced events
  have complete : ∀ {walked : Walk}, (d.isDone = true → walked.stopped = none) →
      walked = ⟨walked.nodes, none⟩ := fun {walked} whole => by rw [← whole done]
  have apart : ∀ {m : Nat}, d.nodes.IsOther m → d.nodes.kind? m ≠ some .entity := by
    rintro m ⟨k, hk, other⟩ entity
    exact other (Option.some.inj (hk.symm.trans entity))
  refine ⟨distinct, ?_, fun name unknown => ?_, ?_, fun n hn => ?_, fun n k hk other => ?_⟩
  · obtain ⟨walked, hrun, all, whole⟩ := run_entities quiescent
    refine ⟨d.nodes.ofKind .entity, ?_, d.nodes.ofKind_ascending _, fun n => Table.mem_ofKind,
      declares.length_eq, fun i n name value hi he => ?_⟩
    · rw [hrun, ← all, ← complete whole]
    · have entityAt := declares.entityAt hi he
      have plain : Entity.predefined.lookup name = none := by
        rw [← Option.not_isSome_iff_eq_none]
        exact fun predefined => Event.not_mem_introduced predefined
          (List.mem_map.2 ⟨_, List.mem_of_getElem? he, rfl⟩)
      refine ⟨entityAt.run_nodeName, entityAt.run_nodeValue?, ?_⟩
      rw [run_entity done, declares.get?_of_getElem? distinct he hi plain]
  · rw [run_entity done, declares.get?_of_not_mem unknown]
  · have root := wellFormed.layout.kind?_zero (wellFormed.nonempty done)
    obtain ⟨walked, hrun, -, mem, whole⟩ := run_children quiescent (.inl root)
    exact ⟨walked.nodes, hrun.trans (congrArg _ (complete whole)),
      fun m hm => apart ((mem m).1 hm).1.isOther⟩
  · obtain ⟨walked, hrun, mem, whole⟩ := run_descendants quiescent hn
    exact ⟨walked.nodes, hrun.trans (congrArg _ (complete whole)),
      fun m hm => apart ((mem m).1 hm).2.1.isOther⟩
  · obtain ⟨next, hnext, after⟩ := (avoids_nextSibling quiescent ⟨k, hk, other⟩).of_done done
    obtain ⟨previous, hprevious, before⟩ :=
      (avoids_previousSibling quiescent ⟨k, hk, other⟩).of_done done
    exact ⟨next, previous, hnext, hprevious, fun m hm =>
      apart (hm.elim (after m) (before m))⟩

/-- Of an entity that is declared twice the first declaration counts, and one with a predefined name
leaves no node behind. -/
theorem entities_agree_of_repeated_names :
    let events : List Event := [.startDocument, .comment "c", .entityDeclaration "lt" "x",
      .entityDeclaration "a" "1", .instruction "p" "q", .entityDeclaration "a" "2",
      .entityReference "u", .entityDeclaration "b" "3", .startElement "r" [], .endElement,
      .endDocument]
    let s := ((acceptAll events).run.run (start .standard, { handler := .lenient })).2
    let d : Document := { s.1.document with isCancelled := true }
    (walk firstEntity nextSibling).run d = .answer ⟨[2, 6], none⟩ ∧
      (nodeValue? 2).run d = .answer (some "1") ∧
      (entity "a").run.run d = .answer (.ok (some ⟨"1", some 2⟩)) ∧
      (entity "b").run.run d = .answer (.ok (some ⟨"3", some 6⟩)) ∧
      (entity "lt").run.run d = .answer (.ok (some ⟨"<", none⟩)) ∧
      (entity "c").run.run d = .answer (.ok none) := by
  intro events s d
  have taken : Takes (start .standard, { handler := .lenient }) events s :=
    takes_of_ok (by decide +kernel)
  obtain ⟨-, ⟨nodes, hrun, sorted, mem, -, listed⟩, others, -⟩ :=
    entities_agree taken (by decide +kernel) true
  have introduced : Event.introduced events = [("a", "1"), ("b", "3")] := by decide +kernel
  have found : d.nodes.ofKind .entity = [2, 6] := by decide +kernel
  obtain rfl : nodes = [2, 6] := found ▸ sorted.eq_of_mem_iff (d.nodes.ofKind_ascending _)
    fun n => (mem n).trans (Table.mem_ofKind (t := d.nodes)).symm
  rw [introduced] at listed others
  obtain ⟨-, value, first⟩ := listed 0 2 "a" "1" rfl rfl
  obtain ⟨-, -, second⟩ := listed 1 6 "b" "3" rfl rfl
  have predefined := others "lt" (by decide +kernel)
  have unknown := others "c" (by decide +kernel)
  obtain ⟨lt, c⟩ : Entity.predefined.lookup "lt" = some "<" ∧
      Entity.predefined.lookup "c" = none := by decide +kernel
  rw [lt] at predefined
  rw [c] at unknown
  exact ⟨hrun, value, first, second, predefined, unknown⟩

end Builder

end XmlTable
