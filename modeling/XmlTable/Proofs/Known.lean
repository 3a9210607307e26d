import XmlTable.Proofs.Identification

/-!
# What is known of entities

The table of a document knows an entity from its first declaration on, and no others but those that
are predefined. A builder therefore knows, of the entities that some events declare, those that it
did not know before, each with the value that was declared first.
-/

namespace XmlTable

/-! ### Declarations -/

/-- The entities that some events declare, with their values. -/
def Event.declarations (events : List Event) : List (String × String) :=
  events.filterMap Event.declared?

namespace Entity.Table

variable {table table' table'' : Table} {declared later : List (String × String)}

/-- The value of the entity with a name, if it is known. -/
def value? (table : Table) (name : String) : Option String :=
  (table.get? name).map (·.value)

/-- A table knows more than another, namely what was declared first of what it did not know. -/
def Learns (table : Table) (declared : List (String × String)) (table' : Table) : Prop :=
  ∀ name, table'.value? name = (table.value? name).or (declared.lookup name)

namespace Learns

theorem nothing (h : table'.value? = table.value?) : table.Learns [] table' := fun name => by
  rw [h, List.lookup_nil, Option.or_none]

theorem trans (h : table.Learns declared table') (h' : table'.Learns later table'') :
    table.Learns (declared ++ later) table'' := fun name => by
  rw [h', h, List.lookup_append, Option.or_assoc]

/-- A declaration of a name that is known does nothing. -/
theorem known {name : String} (h : table.contains name = true) (value : String) :
    table.Learns [(name, value)] table := fun other => by
  rw [List.lookup_cons, List.lookup_nil]
  by_cases same : other = name
  · obtain ⟨entry, found⟩ := Option.isSome_iff_exists.1 h
    rw [same, value?, found]
    rfl
  · rw [beq_false_of_ne same]
    exact (Option.or_none ..).symm

end Learns

/-- At first the predefined entities are known, which have no nodes. -/
theorem get?_initial (name : String) :
    initial.get? name = (Entity.predefined.lookup name).map (⟨·, none⟩) := by
  have lookup : ∀ known : List (String × String),
      (known.map fun entity => (entity.1, (⟨entity.2, none⟩ : Entry))).lookup name =
        (known.lookup name).map (⟨·, none⟩) := by
    intro known
    induction known with
    | nil => rfl
    | cons entity rest ih =>
      rw [List.map_cons, List.lookup_cons, List.lookup_cons]
      split
      · rfl
      · exact ih
  exact lookup Entity.predefined

theorem value?_initial (name : String) : initial.value? name = Entity.predefined.lookup name := by
  rw [value?, get?_initial, Option.map_map]
  exact congrFun Option.map_id _

end Entity.Table

namespace Builder

open Node Reporting

variable {config : Config} {s s' : Builder × Journal}

/-! ### What events make known -/

/-- The table of a builder learns what an event declares. -/
def Learns (event : Event) (s s' : Builder × Journal) : Prop :=
  s.1.document.entities.Learns event.declared?.toList s'.1.document.entities

/-- What leaves the entries as they are makes nothing known, as is right for an event that declares
no entity. -/
theorem Learns.unchanged
    (same : s'.1.document.entities.entries = s.1.document.entities.entries) {event : Event}
    (plain : event.declared? = none) : Learns event s s' := by
  rw [Learns, plain]
  refine .nothing (funext fun name => ?_)
  rw [Entity.Table.value?, Entity.Table.get?, same]
  rfl

/-- The declaration of an entity makes it known, unless it is known. -/
theorem DeclaresEntity.learns {name value : String} (h : DeclaresEntity config name value s s') :
    Learns (.entityDeclaration name value) s s' := fun other => by
  unfold Entity.Table.value? Entity.Table.get?
  cases h with
  | known _ _ known entries =>
    rw [entries]
    exact Entity.Table.Learns.known known value other
  | new _ _ _ unknown entries =>
    have lookup : s.1.document.entities.entries.lookup name = none := by
      rwa [Entity.Table.contains, Option.isSome_eq_false_iff, Option.isNone_iff_eq_none] at unknown
    rw [entries, List.lookup_append, Option.map_or]
    show _ = Option.or _ (List.lookup other [(name, value)])
    rw [List.lookup_cons, List.lookup_cons, List.lookup_nil, List.lookup_nil]
    cases other == name <;> rfl

/-- Identifiers have nothing to do with entities. -/
theorem identify_entries (element : NodeId) (attributes : List Event.Attribute) :
    (identify element attributes).Meets s
      (fun _ s' => s'.1.document.entities.entries = s.1.document.entities.entries)
      fun _ _ => True := by
  induction attributes generalizing s with
  | nil => rfl
  | cons attr rest ih =>
    have enter : (enterIdentifier element attr.value).Meets s
        (fun _ s' => s'.1.document.entities.entries = s.1.document.entities.entries)
        fun _ _ => True := by
      unfold enterIdentifier storeName
      rw [meets_bind, meets_observe_bind, meets_publish_bind, meets_pure, meets_observe_bind]
      split <;> rfl
    rw [identify_cons]
    dsimp only
    split
    · rw [meets_bind]
      exact enter.imp fun _ s₁ same => ih.imp fun _ s₂ later => later.trans same
    · exact ih

/-- The start of an element declares nothing. -/
theorem startElement_entries (name : String) (attributes : List Event.Attribute) :
    (startElement name attributes).Meets s
      (fun _ s' => s'.1.document.entities.entries = s.1.document.entities.entries)
      fun _ _ => True := by
  rw [startElement_eq, meets_bind]
  refine (publishElement_steady name attributes s).mono (fun element s₁ steady => ?_)
    fun _ _ _ => trivial
  rw [meets_bind]
  exact (identify_entries element attributes).imp fun _ s₂ same => same.trans steady.entries

/-- An event that declares nothing leaves the entries as they are. -/
theorem perform_entries {event : Event} (plain : event.declared? = none) :
    (perform event).Meets s
      (fun _ s' => s'.1.document.entities.entries = s.1.document.entities.entries)
      fun _ _ => True := by
  cases hi : event.identifiers? with
  | none =>
    exact (perform_across hi plain s).mono (fun _ _ steady => steady.entries) fun _ _ _ => trivial
  | some identifiers =>
    cases event with
    | startElement name attributes =>
      refine (requireOpen_bind_meets ..).2 ?_
      split
      · exact startElement_entries name attributes
      · trivial
    | _ => cases hi

/-- An event that is taken makes known what it declares. -/
theorem perform_learns (h : s.1.Consistent config) (event : Event) :
    (perform event).Meets s (fun _ s' => Learns event s s') fun _ _ => True := by
  cases hd : event.declared? with
  | none => exact (perform_entries hd).imp fun _ _ same => .unchanged same hd
  | some declared =>
    cases event with
    | entityDeclaration name value =>
      refine (requireOpen_bind_meets ..).2 ?_
      split
      · next hs =>
        exact (entityDeclaration_meets (h.isOpen hs) name value False.elim False.elim).mono
          (fun _ _ declares => declares.learns) fun _ _ _ => trivial
      · trivial
    | _ => cases hd

theorem accept_learns (h : s.1.Consistent config) (event : Event) :
    (accept event).Meets s (fun _ s' => Learns event s s') fun _ _ => True := by
  unfold accept guarded
  rw [meets_tryCatch]
  refine (perform_learns h event).mono (fun _ _ hp => hp) fun cause s₁ _ => ?_
  rw [meets_bind, fail_meets, meets_throw]
  trivial

end Builder

end XmlTable
