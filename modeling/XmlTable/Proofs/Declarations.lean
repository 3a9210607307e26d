import Mathlib.Data.List.Induction
import XmlTable.Proofs.Reading
import XmlTable.Proofs.Shape

/-!
# Declarations read off a table

What a prefix stands for inside an element can be found in the table alone: it is declared by the
last attribute of the right name on the nearest element that has one. A builder finds the same in
the frames of the elements that are open, since each frame binds what the attributes of its element
declare.
-/

namespace XmlTable

open Node Namespace

/-! ### Declaring attributes -/

/-- The name of the attributes that declare a prefix. -/
def Namespace.declarationName (p : String) : String :=
  if p = "" then "xmlns" else "xmlns:" ++ p

theorem QName.lead_xmlns_append (p : String) : lead ("xmlns:" ++ p) = "xmlns" := by
  simp [lead]

namespace Event.Attribute

variable {attr : Event.Attribute} {p : String}

theorem toList_append_eq (p : String) : ("xmlns:" ++ p).toList = declarationLead ++ p.toList :=
  String.toList_append

theorem declaredPrefix?_of_append (h : attr.name = "xmlns:" ++ p) :
    attr.declaredPrefix? = some p := by
  have own : attr.name ≠ "xmlns" := by
    rw [h, Ne, ← String.toList_inj, toList_append_eq]
    simp [declarationLead]
  have lead : declarationLead.isPrefixOf attr.name.toList = true := by
    rw [h, toList_append_eq]
    exact List.isPrefixOf_iff_prefix.2 (List.prefix_append ..)
  rw [declaredPrefix?, if_neg own, if_pos lead, h, toList_append_eq, List.drop_left,
    String.ofList_toList]

theorem name_of_declaredPrefix? (h : attr.declaredPrefix? = some p) :
    attr.name = "xmlns" ∧ p = "" ∨ attr.name = "xmlns:" ++ p := by
  unfold declaredPrefix? at h
  split at h
  · next own => exact .inl ⟨own, (Option.some.inj h).symm⟩
  · split at h
    · next lead =>
      obtain ⟨rest, name⟩ := List.isPrefixOf_iff_prefix.1 lead
      obtain rfl := Option.some.inj h
      refine .inr (String.toList_inj.1 ?_)
      rw [toList_append_eq, String.toList_ofList, ← name, List.drop_left]
    · cases h

/-- An attribute declares a prefix by its name. -/
theorem declaredPrefix?_eq_some_iff (h : attr.name ≠ "xmlns:") :
    attr.declaredPrefix? = some p ↔ attr.name = declarationName p := by
  unfold declarationName
  constructor
  · intro hp
    rcases name_of_declaredPrefix? hp with ⟨hn, rfl⟩ | hn
    · exact hn
    · rw [if_neg, hn]
      rintro rfl
      exact h hn
  · intro hn
    split at hn
    · next he =>
      subst he
      exact if_pos hn
    · exact declaredPrefix?_of_append hn

/-- A declaration is known by its name. -/
theorem declaresNamespace_iff :
    attr.declaresNamespace = true ↔ attr.name = "xmlns" ∨ ∃ p, attr.name = "xmlns:" ++ p := by
  rw [declaresNamespace, Option.isSome_iff_exists]
  constructor
  · rintro ⟨p, hp⟩
    exact (name_of_declaredPrefix? hp).imp And.left fun hn => ⟨p, hn⟩
  · rintro (hn | ⟨p, hn⟩)
    · exact ⟨"", if_pos hn⟩
    · exact ⟨p, declaredPrefix?_of_append hn⟩

/-- The prefix of the name of a declaration is reserved, if it has one. -/
theorem lead_of_declaresNamespace (h : attr.declaresNamespace = true) :
    attr.name = "xmlns" ∧ QName.lead attr.name = "" ∨ QName.lead attr.name = "xmlns" := by
  rcases declaresNamespace_iff.1 h with hn | ⟨p, hn⟩
  · refine .inl ⟨hn, ?_⟩
    rw [hn]
    rfl
  · rw [hn]
    exact .inr (QName.lead_xmlns_append p)

end Event.Attribute

namespace Namespace.Declared

variable {declared : Declared} {attributes : List Event.Attribute} {p : String}

/-- An attribute that does not declare a prefix changes nothing for it. -/
theorem add_of_ne {attr : Event.Attribute} (h : attr.declaredPrefix? ≠ some p) :
    declared.add attr p = declared p := by
  cases hq : attr.declaredPrefix? with
  | none => rw [add_of_none hq]
  | some q =>
    rw [add_of_some hq]
    split
    · rfl
    · rw [set, if_neg]
      rintro rfl
      exact h hq

theorem addAll_concat (front : List Event.Attribute) (last : Event.Attribute) :
    declared.addAll (front ++ [last]) = (declared.addAll front).add last := by
  rw [addAll, List.foldl_append]
  rfl

/-- What is declared for the reserved prefixes is not changed by attributes. -/
theorem addAll_of_reserved (hp : p = "xml" ∨ p = "xmlns") :
    declared.addAll attributes p = declared p := by
  induction attributes using List.reverseRecOn with
  | nil => rfl
  | append_singleton front last ih =>
    rw [addAll_concat, ← ih]
    by_cases hl : last.declaredPrefix? = some p
    · rw [add_of_some hl, if_pos hp]
    · exact add_of_ne hl

/-- Of the attributes that declare a prefix the last one counts. -/
theorem addAll_cases (declared : Declared) (attributes : List Event.Attribute)
    (hp : ¬ (p = "xml" ∨ p = "xmlns")) :
    (∃ (i : Nat) (attr : Event.Attribute), attributes[i]? = some attr ∧
      attr.declaredPrefix? = some p ∧
      (∀ (j : Nat) (other : Event.Attribute), attributes[j]? = some other →
        other.declaredPrefix? = some p → j ≤ i) ∧
      declared.addAll attributes p = some attr.value) ∨
    (∀ attr ∈ attributes, attr.declaredPrefix? ≠ some p) ∧
      declared.addAll attributes p = declared p := by
  induction attributes using List.reverseRecOn with
  | nil => exact .inr ⟨nofun, rfl⟩
  | append_singleton front last ih =>
    rw [addAll_concat]
    by_cases hl : last.declaredPrefix? = some p
    · refine .inl ⟨front.length, last, ?_, hl, fun j other hj _ => ?_, ?_⟩
      · rw [List.getElem?_append_right (Nat.le_refl _), Nat.sub_self]
        rfl
      · have := (List.getElem?_eq_some_iff.1 hj).1
        rw [List.length_append, List.length_singleton] at this
        omega
      · rw [add_of_some hl, if_neg hp, set, if_pos rfl]
    · rw [add_of_ne hl]
      rcases ih with ⟨i, attr, hi, ha, latest, hv⟩ | ⟨none, hv⟩
      · refine .inl ⟨i, attr, ?_, ha, fun j other hj ho => ?_, hv⟩
        · rw [List.getElem?_append_left (List.getElem?_eq_some_iff.1 hi).1, hi]
        · rcases Nat.lt_or_ge j front.length with hlt | hge
          · rw [List.getElem?_append_left hlt] at hj
            exact latest j other hj ho
          · rw [List.getElem?_append_right hge] at hj
            obtain rfl := List.mem_singleton.1 (List.mem_of_getElem? hj)
            exact absurd ho hl
      · refine .inr ⟨fun attr ha => ?_, hv⟩
        rcases List.mem_append.1 ha with ha | ha
        · exact none attr ha
        · obtain rfl := List.mem_singleton.1 ha
          exact hl

end Namespace.Declared

/-! ### The nearest declaration -/

namespace Document

variable {d d' : Document} {e m n c : Nat} {name value : String}

/-- A node is read as an attribute of an element. -/
def HasAttribute (d : Document) (e m : Nat) (name value : String) : Prop :=
  d.nodes.IsAttribute e m ∧
    (Query.readAttribute m).run d = .answer (some (name, value))

/-- What the last attribute with a name says on the nearest element that has one, from an element
outwards. -/
inductive Nearest (d : Document) (name : String) : Nat → Option String → Prop
  | here {e m : Nat} {value : String} : d.HasAttribute e m name value →
      (∀ m' value', d.HasAttribute e m' name value' → m' ≤ m) → Nearest d name e (some value)
  | outside {e p : Nat} {found : Option String} : (∀ m value, ¬ d.HasAttribute e m name value) →
      d.nodes.kind? e = some .element → d.nodes.parent? e = some p → Nearest d name p found →
      Nearest d name e found
  | top {n : Nat} : d.nodes.kind? n = some .document → Nearest d name n none

theorem HasAttribute.value_eq {value' : String} (h : d.HasAttribute e m name value)
    (h' : d.HasAttribute e m name value') : value = value' := by
  have := h.2.symm.trans h'.2
  simp_all

/-- There is one nearest declaration at most. -/
theorem Nearest.unique (hd : d.WellFormed) {found found' : Option String}
    (h : d.Nearest name e found) (h' : d.Nearest name e found') : found = found' := by
  have top : ∀ {n m : Nat} {value : String}, d.nodes.kind? n = some .document →
      ¬ d.HasAttribute n m name value := by
    rintro n m value hk ⟨⟨ha, hp⟩, -⟩
    obtain ⟨e, he, hke, -⟩ := (hd.layout ha).attr rfl
    obtain rfl := Option.some.inj (hp.symm.trans he)
    cases hk.symm.trans hke
  induction h with
  | here own latest =>
    cases h' with
    | here own' latest' =>
      obtain rfl := Nat.le_antisymm (latest' _ _ own) (latest _ _ own')
      rw [own.value_eq own']
    | outside none => exact absurd own (none _ _)
    | top hk => exact absurd own (top hk)
  | outside none hk hp _ ih =>
    cases h' with
    | here own' => exact absurd own' (none _ _)
    | outside _ _ hp' later =>
      obtain rfl := Option.some.inj (hp.symm.trans hp')
      exact ih later
    | top hk' => cases hk.symm.trans hk'
  | top hk =>
    cases h' with
    | here own' => exact absurd own' (top hk)
    | outside _ hk' => cases hk.symm.trans hk'
    | top => rfl

/-- What an element carries can be read. -/
theorem AttributesAt.hasAttribute {pairs : List (String × String)}
    (h : d.AttributesAt e n pairs) {i : Nat}
    (hi : pairs[i]? = some (name, value)) : d.HasAttribute e (n + 2 * i) name value := by
  induction pairs generalizing n i with
  | nil => cases hi
  | cons pair rest ih =>
    obtain ⟨_, _, _, _, held, hname, heldValue, hvalue, later⟩ := h
    cases i with
    | zero =>
      obtain rfl := Option.some.inj hi
      exact ⟨⟨held.kind?, held.parent?⟩, Query.run_readAttribute held hname heldValue hvalue⟩
    | succ i =>
      have := ih later hi
      rwa [Nat.add_assoc, Nat.add_comm 2] at this

/-- What is read of the attributes of an element is what it carries. -/
theorem Carries.hasAttribute_iff {pairs : List (String × String)} (h : d.Carries e pairs) :
    d.HasAttribute e m name value ↔ ∃ i, pairs[i]? = some (name, value) ∧ m = e + 1 + 2 * i := by
  constructor
  · intro own
    obtain ⟨i, hi, rfl⟩ := (h.attribute_iff m).1 own.1
    refine ⟨i, ?_, rfl⟩
    have read := (h.stand.hasAttribute (List.getElem?_eq_getElem hi)).2.symm.trans own.2
    rw [List.getElem?_eq_getElem hi]
    simpa using read
  · rintro ⟨i, hi, rfl⟩
    exact h.stand.hasAttribute hi

/-! ### What is in scope -/

/-- The scopes are those of a node: a frame for each element from it outwards, which binds what the
attributes of the element declare, over the frame of the reserved prefixes. -/
inductive InScope (d : Document) : Nat → Scopes → Declared → Prop
  | document {scopes : Scopes} : d.nodes.kind? documentId = some .document →
      d.Binds scopes.resolve .reserved → InScope d documentId scopes .reserved
  | element {e p : Nat} {frame : Frame} {scopes : Scopes} {attributes : List Event.Attribute}
      {outer : Declared} : d.nodes.kind? e = some .element → d.nodes.parent? e = some p →
      d.Carries e (attributes.map fun attr => (attr.name, attr.value)) →
      (∀ attr ∈ attributes, attr.name ≠ "xmlns:") →
      d.Binds frame.get? (Declared.nothing.addAll attributes) → InScope d p scopes outer →
      InScope d e (scopes.push frame) ((Declared.nothing.addAll attributes).shadowing outer)

namespace InScope

variable {scopes : Scopes} {declared : Declared} {p : String}

theorem mono (h : d.InScope c scopes declared) (he : d.Extends d') :
    d'.InScope c scopes declared := by
  induction h with
  | document hk binds => exact .document (he.continues.kind? hk) (binds.mono he)
  | element hk hp carries plain binds _ ih =>
    exact .element (he.continues.kind? hk) (he.continues.parent? hp)
      (carries.mono he (Table.lt_size_of_kind? hk)) plain (binds.mono he) ih

/-- The prefixes are bound to what is declared for them. -/
theorem binds (h : d.InScope c scopes declared) : d.Binds scopes.resolve declared := by
  induction h with
  | document _ binds => exact binds
  | element _ _ _ _ binds _ ih => exact binds.push ih

/-- The scopes of an element without its frame are those of its parent. -/
theorem pop (h : d.InScope c scopes declared) (hk : d.nodes.kind? c = some .element) {q : Nat}
    (hq : d.nodes.parent? c = some q) : ∃ outer, d.InScope q scopes.pop outer := by
  cases h with
  | document hk' => cases hk.symm.trans hk'
  | element _ hp _ _ _ outside =>
    obtain rfl := Option.some.inj (hp.symm.trans hq)
    exact ⟨_, outside⟩

/-- The reserved prefixes are declared once and for all. -/
theorem declared_of_reserved (h : d.InScope c scopes declared) (hp : p = "xml" ∨ p = "xmlns") :
    declared p = Declared.reserved p := by
  induction h with
  | document => rfl
  | element _ _ _ _ _ _ ih =>
    rw [Declared.shadowing, Declared.addAll_of_reserved hp, ih]
    rfl

/-- What is declared for any other prefix is what the nearest declaration says. -/
theorem nearest (h : d.InScope c scopes declared) (hp : ¬ (p = "xml" ∨ p = "xmlns")) :
    d.Nearest (declarationName p) c (declared p) := by
  induction h with
  | document hk =>
    have none : Declared.reserved p = none := by
      rw [not_or] at hp
      rw [Declared.reserved, if_neg hp.1, if_neg hp.2]
    rw [none]
    exact .top hk
  | @element e q frame scopes attributes outer hk hq carries plain _ _ ih =>
    have pairs : ∀ {i : Nat} {value : String},
        (attributes.map fun attr => (attr.name, attr.value))[i]? =
            some (declarationName p, value) ↔
          ∃ attr, attributes[i]? = some attr ∧ attr.declaredPrefix? = some p ∧
            attr.value = value := by
      intro i value
      rw [List.getElem?_map, Option.map_eq_some_iff]
      refine exists_congr fun attr => and_congr_right fun ha => ?_
      rw [Event.Attribute.declaredPrefix?_eq_some_iff (plain attr (List.mem_of_getElem? ha)),
        Prod.mk.injEq]
    rcases Declared.addAll_cases .nothing attributes hp with
      ⟨i, attr, hi, ha, latest, hv⟩ | ⟨none, hv⟩
    · rw [Declared.shadowing, hv, Option.some_or]
      refine .here (carries.hasAttribute_iff.2 ⟨i, pairs.2 ⟨attr, hi, ha, rfl⟩, rfl⟩) ?_
      intro m value own
      obtain ⟨j, hj, rfl⟩ := carries.hasAttribute_iff.1 own
      obtain ⟨other, ho, hp', -⟩ := pairs.1 hj
      have := latest j other ho hp'
      omega
    · rw [Declared.shadowing, hv]
      refine .outside (fun m value own => ?_) hk hq ih
      obtain ⟨j, hj, -⟩ := carries.hasAttribute_iff.1 own
      obtain ⟨other, ho, hp', -⟩ := pairs.1 hj
      exact none other (List.mem_of_getElem? ho) hp'

end InScope

end Document

end XmlTable
