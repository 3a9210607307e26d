import XmlTable.Proofs.Appending
import XmlTable.Proofs.Definitions
import XmlTable.Proofs.Deliveries

/-!
# Attributes that are supplied by default

The attributes of an element that its tag lacks and that have a default come behind those of the
tag. This is as if they had been written at the end of the tag, as far as the literal is one that is
read as it stands: white space in it is normalized as in a written value, no reference is left in it
that would be reported of a written value, and the name makes no identifier of the attribute if the
definition does not.
-/

namespace XmlTable

open Subset (AttributeDefinition Declarations)

namespace Delivery

variable {σ α β : Type} {sink : Sink σ} {work work' : Delivery σ α} {next next' : α → Delivery σ β}
  {reader : Reader} {s : σ × Journal} {F : α → Prop}

/-- Work that ends alike, and goes on alike from what it can find, ends alike. -/
theorem Finds.ending_bind (h : Finds sink work reader F)
    (same : work.ending reader s = work'.ending reader s)
    (hn : ∀ a budget t, F a →
      (next a).ending { reader with budget } t = (next' a).ending { reader with budget } t) :
    (work >>= next).ending reader s = (work' >>= next').ending reader s := by
  rw [Delivery.ending_bind, Delivery.ending_bind, ← same]
  generalize hr : work.ending reader s = r
  obtain ⟨⟨stop | a, reader'⟩, t⟩ := r
  · rfl
  · obtain ⟨_, _, _, ⟨budget, rfl⟩, found⟩ := h s a reader' t hr
    exact hn a budget t found

end Delivery

/-- Characters of which none is reserved are written as they are. -/
theorem Reference.Written.self {reserved cs : List Char} (plain : ∀ c ∈ cs, c ∉ reserved) :
    Reference.Written reserved cs cs := by
  induction cs with
  | nil => exact .nil
  | cons c cs ih =>
    obtain ⟨hc, plain⟩ := List.forall_mem_cons.1 plain
    exact .plain hc (ih plain)

/-! ### Defaults that apply -/

/-- A default as it would be written in a tag. -/
def Tag.Attribute.ofDefault (default : AttributeDefinition × String) : Tag.Attribute :=
  ⟨Bytes.encode default.1.name, Bytes.encode default.2⟩

/-- The defaults of an element that apply to a tag: those for attributes that it lacks. -/
def Subset.Declarations.lacking (declarations : Declarations) (element : String) (tag : Tag) :
    List (AttributeDefinition × String) :=
  (declarations.defaults element).filter fun default =>
    !tag.attributes.list.any (·.key = Bytes.encode default.1.name)

/-- An attribute has the name and the type of a definition, and the literal by default with all
references spelled out. -/
structure Event.Attribute.IsSupplied (value? : String → Option String)
    (default : AttributeDefinition × String) (attr : Event.Attribute) : Prop where
  /-- The name is that of the definition. -/
  name : attr.name = default.1.name
  /-- The value is that of the literal, which is not normalized. -/
  value : attr.value = Reference.spelled value? default.2
  /-- The attribute is an identifier if its type is that of identifiers. -/
  isId : attr.isId = decide (default.1.type = .id)

namespace Reader

open Delivery Reference

/-- A default whose literal is read as if it were written in a tag. -/
structure IsPlain (declarations : Declarations)
    (default : AttributeDefinition × String) : Prop where
  /-- There is no white space in it that would be normalized. -/
  normal : Text.normalizeAttribute default.2 = default.2
  /-- If it can be expanded, no reference is left. -/
  expands : ∀ budget, (decode declarations.entity? budget default.2).fault = none →
    firstReference? (decode declarations.entity? budget default.2).pieces = none
  /-- An attribute that is an identifier by its name is one by its type. -/
  typed : default.1.name = idName → default.1.type = .id

variable {σ : Type} {sink : Sink σ} {reader : Reader} {declarations : Declarations}
  {element : String} {default : AttributeDefinition × String}
  {defaults front back : List (AttributeDefinition × String)} {s : σ × Journal}

/-! ### Supplying attributes -/

/-- Put attributes by default behind those that there are. -/
def supply (position : Nat) : List (AttributeDefinition × String) → List Event.Attribute →
    Delivery σ (List Event.Attribute)
  | [], attributes => return attributes
  | (definition, literal) :: rest, attributes => do
    let (value, _) ← expandText position literal
    supply position rest (attributes ++ [⟨definition.name, value, definition.type = .id⟩])

/-- Of defaults for different attributes, those are supplied that there are not. -/
theorem withDefaults_eq (position : Nat) (distinct : (defaults.map (·.1.name)).Nodup)
    (attributes : List Event.Attribute) :
    (withDefaults position defaults attributes : Delivery σ (List Event.Attribute)) =
      supply position
        (defaults.filter fun default => !attributes.any (·.name = default.1.name))
        attributes := by
  induction defaults generalizing attributes with
  | nil => rfl
  | cons default rest ih =>
    obtain ⟨definition, literal⟩ := default
    obtain ⟨apart, distinct⟩ := List.nodup_cons.1 distinct
    rw [withDefaults]
    by_cases there : attributes.any (·.name = definition.name) = true
    · rw [if_pos there, List.filter_cons_of_neg (by simpa using there), ih distinct]
    · rw [if_neg there, List.filter_cons_of_pos (by simpa using there), supply]
      congr 1
      funext expanded
      dsimp only
      rw [ih distinct]
      congr 1
      refine List.filter_congr fun later hl => ?_
      have other : definition.name ≠ later.1.name := fun same =>
        apart (List.mem_map.2 ⟨later, hl, same.symm⟩)
      rw [List.any_append, List.any_cons, decide_eq_false other]
      simp

theorem supply_cons (position : Nat) (default : AttributeDefinition × String)
    (rest : List (AttributeDefinition × String)) (attributes : List Event.Attribute) :
    (supply position (default :: rest) attributes : Delivery σ (List Event.Attribute)) =
      (expandText position default.2 >>= fun expanded => pure expanded.1) >>= fun value =>
        supply position rest
          (attributes ++ [⟨default.1.name, value, default.1.type = .id⟩]) := by
  rw [bind_assoc]
  simp only [pure_bind]
  rfl

theorem supply_append (position : Nat) (front back : List (AttributeDefinition × String))
    (attributes : List Event.Attribute) :
    (supply position (front ++ back) attributes : Delivery σ (List Event.Attribute)) =
      supply position front attributes >>= supply position back := by
  induction front generalizing attributes with
  | nil => exact (pure_bind _ _).symm
  | cons default rest ih =>
    rw [List.cons_append, supply, supply, bind_assoc]
    congr 1
    funext ⟨value, _⟩
    exact ih _

theorem finds_supply (position : Nat) (defaults : List (AttributeDefinition × String))
    (attributes : List Event.Attribute) :
    Finds sink (supply position defaults attributes) reader fun all =>
      ∃ supplied, all = attributes ++ supplied ∧
        List.Forall₂ (Event.Attribute.IsSupplied (values reader.declarations.entity?)) defaults
          supplied := by
  induction defaults generalizing attributes reader with
  | nil => exact .pure _ ⟨[], (List.append_nil _).symm, .nil⟩
  | cons default rest ih =>
    refine (finds_expandText position default.2).bind ?_
    rintro ⟨value, _⟩ _ ⟨faultless, same⟩
    refine (ih _).mono ?_
    rintro all ⟨supplied, all_eq, each⟩
    rw [List.append_assoc] at all_eq
    exact ⟨_, all_eq, .cons ⟨rfl, same.trans (Course.writtenText_ofText faultless), rfl⟩ each⟩

/-! ### Defaults as they would be written -/

theorem finds_expandText_pieces (position : Nat) (text : String) :
    Finds sink (expandText position text) reader fun expanded =>
      expanded.2 = decode reader.declarations.entity? reader.budget text ∧
        expanded.2.fault = none := by
  refine (finds_expansionOf text).bind fun expansion budget same => ?_
  refine (finds_setBudget _).bind fun _ budget' _ => ?_
  exact (finds_requireFaultless position expansion).bind fun _ _ faultless =>
    .pure _ ⟨same, faultless⟩

/-- The literal of a plain default is read as the value that it would be if it were written. -/
theorem ending_attributeValue (sink : Sink σ) (plain : IsPlain reader.declarations default)
    (position : Nat) : (attributeValue position default.2).ending reader s =
      (expandText position default.2 >>= fun expanded => pure expanded.1).ending reader s := by
  rw [attributeValue, plain.normal]
  have finds : Finds sink (expandText position default.2) reader _ :=
    finds_expandText_pieces position default.2
  refine finds.ending_bind rfl ?_
  rintro ⟨value, expansion⟩ budget t ⟨same, faultless⟩
  dsimp only at same faultless ⊢
  subst same
  rw [plain.expands _ faultless]

/-- Plain defaults that are written are read as if they were supplied. -/
theorem ending_writtenAttributes (sink : Sink σ) (known : reader.declarations.HasDefinite)
    (given : ∀ default ∈ front, default ∈ reader.declarations.defaults element)
    (plain : ∀ default ∈ front, IsPlain reader.declarations default) (position : Nat)
    (done : List Event.Attribute) :
    (writtenAttributes position element (front.map Tag.Attribute.ofDefault) done).ending reader s =
      (supply position front done.reverse).ending reader s := by
  induction front generalizing reader done s with
  | nil => rfl
  | cons default rest ih =>
    obtain ⟨definition, literal⟩ := default
    obtain ⟨mine, given⟩ := List.forall_mem_cons.1 given
    obtain ⟨hp, plain⟩ := List.forall_mem_cons.1 plain
    have isId : (decide (definition.name = idName) ||
        reader.declarations.isId element definition.name) = decide (definition.type = .id) := by
      rw [known.isId_default (Subset.Declarations.mem_defaults.1 mine).1]
      by_cases own : definition.name = idName
      · rw [decide_eq_true own, decide_eq_true (hp.typed own), Bool.or_self]
      · rw [decide_eq_false own, Bool.false_or]
    have decoded : ∀ part text, (decodeBytes part (Bytes.encode text) : Delivery σ String) =
        pure text := fun part text => by rw [decodeBytes, Bytes.utf8?_encode]
    rw [List.map_cons, writtenAttributes, Tag.Attribute.ofDefault, decoded, pure_bind, decoded,
      pure_bind, supply_cons]
    have finds : Finds sink (attributeValue position literal) reader _ :=
      finds_attributeValue position literal
    refine finds.ending_bind (ending_attributeValue sink hp position) fun value budget t _ => ?_
    show (writtenAttributes position element (rest.map Tag.Attribute.ofDefault)
      (⟨definition.name, value, decide (definition.name = idName) ||
        reader.declarations.isId element definition.name⟩ :: done)).ending
        { reader with budget } t = _
    rw [isId, @ih { reader with budget } t known given plain, List.reverse_cons]

/-! ### The start of an element -/

/-- The attributes of a front part of a tag are read before those of the rest. -/
theorem writtenAttributes_append (position : Nat) (element : String)
    (list more : List Tag.Attribute) (done : List Event.Attribute) :
    (writtenAttributes position element (list ++ more) done :
        Delivery σ (List Event.Attribute)) =
      writtenAttributes position element list done >>= fun written =>
        writtenAttributes position element more written.reverse := by
  induction list generalizing done with
  | nil =>
    rw [List.nil_append, writtenAttributes, pure_bind, List.reverse_reverse]
  | cons raw rest ih =>
    rw [List.cons_append, writtenAttributes, writtenAttributes]
    simp only [bind_assoc, ih]

/-- Deliver the start of an element with its attributes. -/
def announce (sink : Sink σ) (element : String) (attributes : List Event.Attribute) :
    Delivery σ String := do
  deliver sink (.startElement element attributes)
  return element

/-- Deliver the start of an element, given the attributes of its tag. -/
def completeStart (sink : Sink σ) (position : Nat) (element : String)
    (written : List Event.Attribute) : Delivery σ String := do
  let attributes ← withDefaults position ((← get).declarations.defaults element) written
  announce sink element attributes

variable {tag : Tag}

/-- The element of a tag without a fault begins with the attributes of the tag. -/
theorem beginElement_eq (sink : Sink σ) (position : Nat) (named : tag.name.utf8? = some element)
    (whole : tag.attributes.fault = none) :
    beginElement sink position tag =
      writtenAttributes position element tag.attributes.list [] >>=
        completeStart sink position element := by
  rw [beginElement, decodeBytes, named]
  dsimp only
  rw [whole]
  rfl

/-- The keys that were written are those of the names. -/
theorem keys_eq {value? : String → Option String} {list : List Tag.Attribute}
    {written : List Event.Attribute}
    (spelled : List.Forall₂ (Tag.Attribute.IsSpelled value?) list written) :
    list.map (·.key) = written.map fun attr => Bytes.encode attr.name := by
  induction spelled with
  | nil => rfl
  | cons own _ ih =>
    obtain ⟨_, key, -, -⟩ := own
    rw [List.map_cons, List.map_cons, ih, Bytes.eq_encode_of_utf8? key]

theorem any_name_eq {value? : String → Option String} {list : List Tag.Attribute}
    {written : List Event.Attribute}
    (spelled : List.Forall₂ (Tag.Attribute.IsSpelled value?) list written) (name : String) :
    (written.any (·.name = name)) = list.any (·.key = Bytes.encode name) := by
  have keys := congrArg (·.any (· = Bytes.encode name)) (keys_eq spelled)
  rw [List.any_map, List.any_map] at keys
  refine Eq.trans ?_ keys.symm
  congr 1
  funext attr
  exact decide_eq_decide.2 ⟨congrArg _, Bytes.encode_inj⟩

/-- What is missing among the attributes of a tag are the defaults that it lacks. -/
theorem ending_completeStart (known : reader.declarations.HasDefinite) (sink : Sink σ)
    (position : Nat) {value? : String → Option String} {written : List Event.Attribute}
    (spelled : List.Forall₂ (Tag.Attribute.IsSpelled value?) tag.attributes.list written) :
    (completeStart sink position element written).ending reader s =
      (supply position (reader.declarations.lacking element tag) written >>=
        announce sink element).ending reader s := by
  show (withDefaults position (reader.declarations.defaults element) written >>=
    announce sink element).ending reader s = _
  rw [withDefaults_eq position (known.nodup_defaults element), Subset.Declarations.lacking]
  simp only [any_name_eq spelled]

/-! ### Tags with their defaults at the end -/

section

variable {bytes : Bytes}

theorem lacking_sublist (declarations : Declarations) (element : String) (tag : Tag) :
    (declarations.lacking element tag).Sublist (declarations.defaults element) :=
  List.filter_sublist

/-- The defaults that a tag lacks are defaults of its element, and so is a front part of them. -/
theorem mem_defaults_of_lacks (lacks : declarations.lacking element tag = front ++ back) :
    ∀ default ∈ front, default ∈ declarations.defaults element := fun _ hd =>
  (lacking_sublist declarations element tag).subset (lacks ▸ List.mem_append_left _ hd)

/-- An attribute that a tag lacks has none of its keys. -/
theorem key_ne_of_mem_lacking (hd : default ∈ declarations.lacking element tag) :
    ∀ other ∈ tag.attributes.list, other.key ≠ (Tag.Attribute.ofDefault default).key := by
  obtain ⟨-, lacks⟩ := List.mem_filter.1 hd
  intro other ho same
  rw [Bool.not_eq_true', List.any_eq_false] at lacks
  exact lacks other ho (decide_eq_true same)

theorem nodup_lacking (known : declarations.HasDefinite) (element : String) (tag : Tag) :
    ((declarations.lacking element tag).map (·.1.name)).Nodup :=
  (known.nodup_defaults element).sublist ((lacking_sublist declarations element tag).map _)

/-- Defaults that a tag lacks would be written with different keys. -/
theorem nodup_keys_ofDefault (known : declarations.HasDefinite)
    (lacks : declarations.lacking element tag = front ++ back) :
    ((front.map Tag.Attribute.ofDefault).map (·.key)).Nodup := by
  have names := nodup_lacking known element tag
  rw [lacks, List.map_append] at names
  have encoded := (List.nodup_append.1 names).1.map fun _ _ => Bytes.encode_inj
  rw [List.map_map] at encoded ⊢
  exact encoded

/-- The name of a definition can be written as a key. -/
theorem isPlainKey_ofDefault (known : declarations.HasDefinite)
    (hd : default ∈ declarations.defaults element) :
    Tag.IsPlainKey (Tag.Attribute.ofDefault default).key := by
  have defined := (Subset.Declarations.mem_defaults.1 hd).1
  have name := ((known.definitions element).writable _ defined).name
  refine Tag.isPlainKey_encode name.ne_nil fun c hc inside => ?_
  have others : (Tag.marks.all fun c => !Subset.isNameChar c) = true := by decide
  have other := List.all_eq_true.1 others c hc
  rw [name.chars c inside] at other
  cases other

/-- A tag with some of its defaults at the end lacks the others. -/
theorem lacking_of_list_eq (known : declarations.HasDefinite) {longer : Tag}
    (more : longer.attributes.list =
      tag.attributes.list ++ front.map Tag.Attribute.ofDefault)
    (lacks : declarations.lacking element tag = front ++ back) :
    declarations.lacking element longer = back := by
  have split : declarations.lacking element longer =
      (declarations.lacking element tag).filter fun default =>
        !(front.map Tag.Attribute.ofDefault).any (·.key = Bytes.encode default.1.name) := by
    rw [Subset.Declarations.lacking, Subset.Declarations.lacking, List.filter_filter, more]
    congr 1
    funext default
    rw [List.any_append, Bool.not_or, Bool.and_comm]
  have distinct := nodup_lacking known element tag
  rw [lacks, List.map_append, List.nodup_append] at distinct
  have front_eq : (front.filter fun default => !(front.map Tag.Attribute.ofDefault).any
      (·.key = Bytes.encode default.1.name)) = [] := by
    refine List.filter_eq_nil_iff.2 fun default hd lacks => ?_
    rw [Bool.not_eq_true', List.any_eq_false] at lacks
    exact lacks _ (List.mem_map_of_mem hd) (decide_eq_true rfl)
  have back_eq : (back.filter fun default => !(front.map Tag.Attribute.ofDefault).any
      (·.key = Bytes.encode default.1.name)) = back := by
    refine List.filter_eq_self.2 fun default hd => ?_
    rw [Bool.not_eq_true', List.any_eq_false]
    intro raw hr same
    obtain ⟨other, ho, rfl⟩ := List.mem_map.1 hr
    exact distinct.2.2 _ (List.mem_map_of_mem ho) _ (List.mem_map_of_mem hd)
      (Bytes.encode_inj (of_decide_eq_true same))
  rw [split, lacks, List.filter_append, front_eq, back_eq, List.nil_append]

/-- Attributes that are supplied by plain defaults are spelled as if these were written. -/
theorem isSpelled_of_isSupplied {value? : String → Option String} {supplied : List Event.Attribute}
    (h : List.Forall₂ (Event.Attribute.IsSupplied value?) front supplied)
    (plain : ∀ default ∈ front, IsPlain declarations default) :
    List.Forall₂ (Tag.Attribute.IsSpelled value?) (front.map Tag.Attribute.ofDefault)
      supplied := by
  induction h with
  | nil => exact .nil
  | @cons default attr front supplied own _ ih =>
    obtain ⟨mine, plain⟩ := List.forall_mem_cons.1 plain
    refine .cons ⟨default.2, ?_, Bytes.utf8?_encode _, ?_⟩ (ih plain)
    · rw [own.name]
      exact Bytes.utf8?_encode _
    · rw [own.value, mine.normal]

/-- After the attributes of a tag it does not matter whether plain defaults that the tag lacks are
written in it or supplied. -/
theorem ending_writtenAttributes_completeStart (known : reader.declarations.HasDefinite)
    (lacks : reader.declarations.lacking element tag = front ++ back)
    (plain : ∀ default ∈ front, IsPlain reader.declarations default) {longer : Tag}
    (more : longer.attributes.list =
      tag.attributes.list ++ front.map Tag.Attribute.ofDefault)
    {own : List Event.Attribute}
    (spelled : List.Forall₂ (Tag.Attribute.IsSpelled (values reader.declarations.entity?))
      tag.attributes.list own) (sink : Sink σ) (position : Nat) :
    (writtenAttributes position element (front.map Tag.Attribute.ofDefault) own.reverse >>=
        completeStart sink position element).ending reader s =
      (completeStart sink position element own).ending reader s := by
  have given := mem_defaults_of_lacks lacks
  have writes : Finds sink
      (writtenAttributes position element (front.map Tag.Attribute.ofDefault) own.reverse)
      reader _ :=
    finds_writtenAttributes position element _ _
  have supplies := ending_writtenAttributes sink known given plain position own.reverse (s := s)
  rw [List.reverse_reverse] at supplies
  refine (writes.ending_bind supplies fun _ _ _ _ => rfl).trans ?_
  rw [ending_completeStart known sink position spelled, lacks, supply_append, bind_assoc]
  have finds : Finds sink (supply position front own) reader _ :=
    finds_supply position front own
  refine finds.ending_bind rfl fun all budget t ⟨supplied, same, each⟩ => ?_
  subst same
  have all : List.Forall₂ (Tag.Attribute.IsSpelled (values reader.declarations.entity?))
      longer.attributes.list (own ++ supplied) := by
    rw [more]
    exact List.rel_append spelled (isSpelled_of_isSupplied each plain)
  have left : reader.declarations.lacking element longer = back :=
    lacking_of_list_eq known more lacks
  have known' : ({ reader with budget } : Reader).declarations.HasDefinite := known
  rw [ending_completeStart known' sink position all, left]

/-- An element begins alike if plain defaults are written at the end of its tag. -/
theorem ending_beginElement (known : reader.declarations.HasDefinite)
    (length_le : tag.nameLength ≤ tag.content.length) (named : tag.name.utf8? = some element)
    (whole : tag.attributes.fault = none)
    (lacks : reader.declarations.lacking element tag = front ++ back)
    (plain : ∀ default ∈ front, IsPlain reader.declarations default)
    (written : Tag.WrittenOut (front.map Tag.Attribute.ofDefault) bytes) (sink : Sink σ)
    (position : Nat) :
    (beginElement sink position (tag.append bytes)).ending reader s =
      (beginElement sink position tag).ending reader s := by
  have lacked : ∀ default ∈ front, default ∈ reader.declarations.lacking element tag :=
    fun default hd => lacks ▸ List.mem_append_left _ hd
  have given := mem_defaults_of_lacks lacks
  have longer := Tag.attributes_append length_le whole written
    (List.forall_mem_map.2 fun default hd => isPlainKey_ofDefault known (given default hd))
    (nodup_keys_ofDefault known lacks)
    (List.forall_mem_map.2 fun default hd => key_ne_of_mem_lacking (lacked default hd))
  have sameName := congrArg Bytes.utf8? (Tag.name_append length_le bytes)
  rw [beginElement_eq sink position named whole,
    beginElement_eq sink position (sameName.trans named) (congrArg (·.fault) longer), longer,
    writtenAttributes_append, bind_assoc]
  have reads : Finds sink (writtenAttributes position element tag.attributes.list []) reader _ :=
    finds_writtenAttributes position element tag.attributes.list []
  refine reads.ending_bind rfl fun own budget t ⟨_, same, spelled⟩ => ?_
  rw [List.reverse_nil, List.nil_append] at same
  subst same
  have known' : ({ reader with budget } : Reader).declarations.HasDefinite := known
  exact ending_writtenAttributes_completeStart known' lacks plain (congrArg (·.list) longer)
    spelled sink position

/-! ### Elements with their attributes -/

/-- An element has the attributes of its tag as they are written and then those by default that the
tag lacks, in the order of their definitions. No two have the same name. -/
structure IsCompleted (declarations : Declarations) (tag : Tag) (element : String)
    (attributes : List Event.Attribute) : Prop where
  /-- The attributes are those of the tag and those by default. -/
  parts : ∃ written supplied, attributes = written ++ supplied ∧
    List.Forall₂ (Tag.Attribute.IsSpelled (values declarations.entity?)) tag.attributes.list
      written ∧
    List.Forall₂ (Event.Attribute.IsSupplied (values declarations.entity?))
      (declarations.lacking element tag) supplied
  /-- Their names differ. -/
  distinct : (attributes.map (·.name)).Nodup

/-- The start of an element was delivered with all its attributes. -/
def Announces (declarations : Declarations) (tag : Tag) (element name : String)
    (events : List Event) : Prop :=
  name = element ∧ ∃ attributes, events = [.startElement element attributes] ∧
    IsCompleted declarations tag element attributes

theorem names_eq {value? : String → Option String} {supplied : List Event.Attribute}
    (each : List.Forall₂ (Event.Attribute.IsSupplied value?) defaults supplied) :
    supplied.map (·.name) = defaults.map (·.1.name) := by
  induction each with
  | nil => rfl
  | cons own _ ih => rw [List.map_cons, List.map_cons, ih, own.name]

theorem isCompleted_append (known : declarations.HasDefinite)
    {written supplied : List Event.Attribute}
    (spelled : List.Forall₂ (Tag.Attribute.IsSpelled (values declarations.entity?))
      tag.attributes.list written)
    (each : List.Forall₂ (Event.Attribute.IsSupplied (values declarations.entity?))
      (declarations.lacking element tag) supplied) :
    IsCompleted declarations tag element (written ++ supplied) := by
  have keys := tag.nodup_keys
  have encoded := keys_eq spelled
  have names := names_eq each
  refine ⟨⟨written, supplied, rfl, spelled, each⟩, ?_⟩
  rw [List.map_append, List.nodup_append]
  refine ⟨?_, names.symm ▸ nodup_lacking known element tag, ?_⟩
  · rw [encoded] at keys
    have distinct : ((written.map (·.name)).map Bytes.encode).Nodup := by rwa [List.map_map]
    exact distinct.of_map
  · rintro name before _ later rfl
    rw [names] at later
    obtain ⟨default, hd, rfl⟩ := List.mem_map.1 later
    obtain ⟨attr, ha, same⟩ := List.mem_map.1 before
    have key : Bytes.encode attr.name ∈ tag.attributes.list.map (·.key) :=
      encoded ▸ List.mem_map.2 ⟨attr, ha, rfl⟩
    obtain ⟨raw, hr, own⟩ := List.mem_map.1 key
    exact key_ne_of_mem_lacking hd raw hr (own.trans (congrArg Bytes.encode same))

theorem yields_completeStart (known : reader.declarations.HasDefinite)
    {written : List Event.Attribute}
    (spelled : List.Forall₂ (Tag.Attribute.IsSpelled (values reader.declarations.entity?))
      tag.attributes.list written) (position : Nat) :
    Yields sink (completeStart sink position element written) reader fun name _ events =>
      Announces reader.declarations tag element name events := by
  have supplies : Yields sink
      (supply position (reader.declarations.lacking element tag) written >>= announce sink element)
      reader fun name _ events => Announces reader.declarations tag element name events := by
    refine (finds_supply position _ written).andThen
      fun attributes budget ⟨supplied, same, each⟩ => ?_
    subst same
    refine (yields_deliver _).bind fun _ reader' events ⟨_, single⟩ => ?_
    subst single
    exact .pure element ⟨rfl, _, rfl, isCompleted_append known spelled each⟩
  intro s name reader' t ends
  rw [ending_completeStart known sink position spelled] at ends
  exact supplies s name reader' t ends

theorem yields_beginElement (known : reader.declarations.HasDefinite)
    (named : tag.name.utf8? = some element) (position : Nat) :
    Yields sink (beginElement sink position tag) reader fun name _ events =>
      Announces reader.declarations tag element name events := by
  cases whole : tag.attributes.fault with
  | some fault =>
    refine (finds_decodeBytes _ _).andThen fun name _ _ => ?_
    refine (finds_writtenAttributes position name tag.attributes.list []).andThen fun _ _ _ => ?_
    dsimp only
    rw [whole]
    exact .throw _
  | none =>
    rw [beginElement_eq sink position named whole]
    refine (finds_writtenAttributes position element tag.attributes.list []).andThen
      fun own budget ⟨_, same, spelled⟩ => ?_
    rw [List.reverse_nil, List.nil_append] at same
    subst same
    have known' : ({ reader with budget } : Reader).declarations.HasDefinite := known
    exact yields_completeStart known' spelled position

/-- The start of an element fails at once, or else the element begins. -/
theorem startElement_cases (sink : Sink σ) (position : Nat) (reader : Reader) :
    (∃ stop, ∀ tag s,
      (startElement sink position tag).ending reader s = ((.error stop, reader), s)) ∨
    ∃ begun : Reader, begun.declarations = reader.declarations ∧ ∀ tag s,
      (startElement sink position tag).ending reader s =
        (beginElement sink position tag).ending begun s := by
  obtain ⟨declarations, openElements, seenRoot, budget⟩ := reader
  cases openElements with
  | cons elementsOnly outer => exact .inr ⟨_, rfl, fun _ _ => rfl⟩
  | nil =>
    cases seenRoot with
    | true => exact .inl ⟨_, fun _ _ => rfl⟩
    | false => exact .inr ⟨⟨declarations, [], true, budget⟩, rfl, fun _ _ => rfl⟩

/-- The start of an element is delivered with all its attributes. -/
theorem yields_startElement_completed (known : reader.declarations.HasDefinite)
    (named : tag.name.utf8? = some element) (position : Nat) :
    Yields sink (startElement sink position tag) reader fun name _ events =>
      Announces reader.declarations tag element name events := by
  intro s name reader' t ends
  rcases startElement_cases sink position reader with ⟨stop, fails⟩ | ⟨begun, same, begins⟩
  · rw [fails] at ends
    cases ends
  · rw [begins] at ends
    rw [← same] at known ⊢
    exact yields_beginElement known named position s name reader' t ends

/-- An element starts alike if plain defaults that its tag lacks are written at the end of the
tag. -/
theorem ending_startElement (known : reader.declarations.HasDefinite)
    (length_le : tag.nameLength ≤ tag.content.length) (named : tag.name.utf8? = some element)
    (listed : tag.attributes.fault = none ∨ ∃ repeated first,
      tag.attributes.fault = some (.duplicated repeated first))
    (lacks : reader.declarations.lacking element tag = front ++ back)
    (plain : ∀ default ∈ front, IsPlain reader.declarations default)
    (written : Tag.WrittenOut (front.map Tag.Attribute.ofDefault) bytes) (sink : Sink σ)
    (position : Nat) :
    (startElement sink position (tag.append bytes)).ending reader s =
      (startElement sink position tag).ending reader s := by
  rcases startElement_cases sink position reader with ⟨stop, fails⟩ | ⟨begun, same, begins⟩
  · rw [fails, fails]
  · rw [begins, begins]
    rw [← same] at known lacks
    rcases listed with whole | ⟨repeated, first, fails⟩
    · refine ending_beginElement known length_le named whole lacks (fun default hd => ?_) written
        sink position
      exact same ▸ plain default hd
    · rw [beginElement, beginElement, Tag.name_append length_le,
        Tag.attributes_append_of_duplicated length_le fails]

/-- Attributes whose values can be put in quotes can be written. -/
theorem exists_writtenOut (known : declarations.HasDefinite)
    (given : ∀ default ∈ front, default ∈ declarations.defaults element) :
    ∃ bytes, Tag.WrittenOut (front.map Tag.Attribute.ofDefault) bytes := by
  induction front with
  | nil => exact ⟨[], .nil⟩
  | cons default rest ih =>
    obtain ⟨mine, given⟩ := List.forall_mem_cons.1 given
    obtain ⟨bytes, written⟩ := ih given
    obtain ⟨defined, ruled⟩ := Subset.Declarations.mem_defaults.1 mine
    obtain ⟨quote, isQuote, outside⟩ :=
      ((known.definitions element).writable _ defined).value _ ruled
    have hq : Tag.IsQuote (Bytes.ofChar quote) := isQuote.imp (congrArg _) (congrArg _)
    have blank : Tag.isBlank [Bytes.ofChar ' '] = true := rfl
    refine ⟨_, .cons blank (List.cons_ne_nil _ _) hq
      (fun inside => outside (Bytes.mem_of_ofChar_mem_encode ?_ inside)) written⟩
    rcases isQuote with rfl | rfl <;> decide

end

/-- A literal without references and without white space but blanks is read as it stands. -/
theorem isPlain_of_notMem (ampersand : '&' ∉ default.2.toList) (newline : '\n' ∉ default.2.toList)
    (tab : '\t' ∉ default.2.toList) (carriage : '\r' ∉ default.2.toList)
    (typed : default.1.name = idName → default.1.type = .id) : IsPlain declarations default := by
  refine ⟨Text.normalizeAttribute_of_notMem newline tab carriage, fun budget _ => ?_, typed⟩
  have written : Written ['&'] default.2.toList default.2.toList :=
    .self fun c hc same => ampersand (List.mem_singleton.1 same ▸ hc)
  have decoded := written.decode List.mem_cons_self declarations.entity? budget
  rw [String.ofList_toList] at decoded
  rw [decoded, wholePieces]
  split <;> rfl

end Reader

end XmlTable
