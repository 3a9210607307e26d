import XmlTable.Listing
import XmlTable.Proofs.Resemblance
import XmlTable.Query.Question

/-!
# Questions to documents that look the same

Whatever is asked of two documents that look the same, the readers go the same way and come to the
same answer, and a wait that ends with a failure leaves both with the same answer, of which the
failure is part. No query looks at the symbol of a text payload but to find the text.
-/

namespace XmlTable.Parallel

open Node Query

variable {T : Parallel} {k j : Nat} {n : NodeId}

/-! ### Records -/

/-- Two answers are the records of a node, which look the same at a moment. -/
structure SameRecord (T : Parallel) (n k : Nat) (r r' : Record) : Prop where
  /-- They look the same. -/
  resembles : r.Resembles ((T.left k).SameText (T.right k)) r'
  /-- Only the first node is the document. -/
  root : r.kind = .document → n = 0

theorem SameRecord.mono {r r' : Record} (h : T.SameRecord n k r r') (hk : k ≤ j) :
    T.SameRecord n j r r' :=
  ⟨h.resembles.mono (T.sameText hk), h.root⟩

/-- A node has records that look the same in both documents, or in none. -/
theorem sameRecord_cases (T : Parallel) (k n : Nat) :
    (∃ r r', (T.left k).nodes.get? n = some r ∧ (T.right k).nodes.get? n = some r' ∧
      T.SameRecord n k r r') ∨
    (T.left k).nodes.get? n = none ∧ (T.right k).nodes.get? n = none :=
  ((T.resembles k).get?_cases n).imp_left fun ⟨r, r', hr, hr', same⟩ =>
    ⟨r, r', hr, hr', same, T.root hr⟩

theorem agrees_record : T.Agrees k (record n) (record n) (T.SameRecord n) := by
  refine .look fun j _ => ?_
  rcases T.sameRecord_cases j n with ⟨r, r', hr, hr', same⟩ | ⟨hr, hr'⟩
  · rw [hr, hr']
    exact .answer same
  · rw [hr, hr', Document.nodeCount, Document.nodeCount, (T.resembles j).size]
    exact .misuse _

theorem agrees_awaitRecord :
    T.AgreesOk k (awaitRecord n) (awaitRecord n) fun j => Option.Rel (T.SameRecord n j) := by
  refine .await (fun times => ?_) fun times j ha => ?_
  · rw [(T.resembles _).isSome_get?, (T.resembles _).done]
  · rcases T.sameRecord_cases (times 1) n with ⟨r, r', hr, hr', same⟩ | ⟨hr, hr'⟩
    · rw [hr, hr']
      exact .some (same.mono (ha.within 1).2)
    · rw [hr, hr']
      exact .none

theorem agrees_startRecord : T.AgreesOk k (startRecord n) (startRecord n) (T.SameRecord n) := by
  refine agrees_awaitRecord.bind fun j a a' _ same => ?_
  cases same with
  | some same => exact .pure same
  | none => exact .lift agrees_record

theorem agrees_isValueNode {r r' : Record} (h : T.SameRecord n k r r') :
    T.Agrees k (isValueNode r) (isValueNode r') fun _ => Eq := by
  unfold isValueNode
  rw [h.resembles.kind, h.resembles.parent]
  split
  · exact .pure rfl
  · split
    · refine agrees_record.bind fun j own own' _ same => ?_
      rw [same.resembles.kind]
      exact .pure rfl
    · exact .pure rfl

theorem agrees_isStructural {r r' : Record} (h : T.SameRecord n k r r') :
    T.Agrees k (isStructural r) (isStructural r') fun _ => Eq := by
  unfold isStructural
  rw [h.resembles.kind]
  split
  · exact .pure rfl
  · exact (agrees_isValueNode h).bind_eq fun _ _ _ => .pure rfl

/-! ### Children and siblings -/

/-- Two answers are one node and its records, which look the same. -/
def SameFound (T : Parallel) (k : Nat) (found found' : NodeId × Record) : Prop :=
  found'.1 = found.1 ∧ T.SameRecord found.1 k found.2 found'.2

theorem agrees_structuralFrom (fuel : Nat) {i : Nat} :
    T.AgreesOk k (structuralFrom fuel i) (structuralFrom fuel i) fun j =>
      Option.Rel (T.SameFound j) := by
  induction fuel generalizing k i with
  | zero => exact .pure .none
  | succ fuel ih =>
    refine agrees_awaitRecord.bind fun j a a' _ same => ?_
    cases same with
    | none => exact .pure .none
    | some same =>
      dsimp only
      rw [same.resembles.kind]
      split
      · exact ih
      · exact .pure (.some ⟨rfl, same⟩)

/-- What is asked about the node that a scan finds, and about its parent. -/
theorem agrees_structuralFrom_bind {α : Type} {i : Nat} {f f' : NodeId → Record → Reading α}
    {none : α} (some : ∀ j m r r', k ≤ j → T.SameRecord m j r r' →
      T.AgreesOk j (f m r) (f' m r') fun _ => Eq) :
    T.AgreesOk k
      (do
        match ← structuralFrom indexBound i with
        | .some (index, found) => f index found
        | .none => return none)
      (do
        match ← structuralFrom indexBound i with
        | .some (index, found) => f' index found
        | .none => return none) fun _ => Eq := by
  refine (agrees_structuralFrom indexBound).bind fun j a a' hj same => ?_
  cases same with
  | none => exact .pure rfl
  | @some found found' same =>
    obtain ⟨m, r⟩ := found
    obtain ⟨m', r'⟩ := found'
    obtain ⟨rfl, same⟩ := same
    exact some j _ r r' hj same

theorem agrees_firstChild :
    T.AgreesOk k (firstChild n) (firstChild n) fun _ => Eq := by
  refine agrees_startRecord.bind fun j own own' _ same => ?_
  rw [same.resembles.kind]
  split
  · exact .pure rfl
  · split
    · exact .pure rfl
    · refine agrees_structuralFrom_bind fun j m r r' _ same => ?_
      rw [same.resembles.parent]
      exact .pure rfl

theorem agrees_awaitLink : T.AgreesOk k (awaitLink n) (awaitLink n) fun _ => Eq := by
  refine .await (fun times => ?_) fun times j _ => ?_
  · rw [(T.resembles _).link?_eq]
  · rw [(T.resembles _).link?_eq]

theorem agrees_nextSibling :
    T.AgreesOk k (nextSibling n) (nextSibling n) fun _ => Eq := by
  refine agrees_startRecord.bind fun j own own' _ same => ?_
  rw [same.resembles.kind]
  split
  · exact .pure rfl
  · split
    · exact agrees_awaitLink
    · refine (AgreesOk.lift (agrees_isValueNode same)).bind_eq fun i isValue _ => ?_
      split
      · exact .pure rfl
      · rw [same.resembles.parent]
        refine agrees_structuralFrom_bind fun j m r r' _ same => ?_
        rw [same.resembles.parent]
        exact .pure rfl

theorem agrees_siblingBefore (fuel : Nat) (previous current : Option NodeId) :
    T.AgreesOk k (siblingBefore n fuel previous current) (siblingBefore n fuel previous current)
      fun _ => Eq := by
  induction fuel generalizing k previous current with
  | zero => exact .pure rfl
  | succ fuel ih =>
    cases current with
    | none => exact .pure rfl
    | some m =>
      rw [siblingBefore]
      split
      · exact .pure rfl
      · exact agrees_nextSibling.bind_eq fun _ _ _ => ih _ _

theorem agrees_lastSibling (fuel : Nat) (last current : Option NodeId) :
    T.AgreesOk k (lastSibling fuel last current) (lastSibling fuel last current) fun _ => Eq := by
  induction fuel generalizing k last current with
  | zero => exact .pure rfl
  | succ fuel ih =>
    cases current with
    | none => exact .pure rfl
    | some m => exact agrees_nextSibling.bind_eq fun _ _ _ => ih _ _

theorem agrees_lastChild : T.AgreesOk k (lastChild n) (lastChild n) fun _ => Eq :=
  agrees_firstChild.bind_eq fun _ _ _ => agrees_lastSibling _ _ _

/-! ### Attributes and entities -/

theorem agrees_firstAttribute :
    T.Agrees k (firstAttribute n) (firstAttribute n) fun _ => Eq := by
  refine agrees_record.bind fun j own own' _ same => ?_
  rw [same.resembles.kind]
  split
  · exact .pure rfl
  · refine Agrees.bind (R := fun j => Option.Rel (T.SameRecord (n + 1) j))
      (.observe fun i _ => ?_) fun i a a' _ same => ?_
    · rcases T.sameRecord_cases i (n + 1) with ⟨r, r', hr, hr', same⟩ | ⟨hr, hr'⟩
      · rw [hr, hr']
        exact .some same
      · rw [hr, hr']
        exact .none
    · cases same with
      | none => exact .pure rfl
      | some same =>
        dsimp only
        rw [same.resembles.kind, same.resembles.parent]
        exact .pure rfl

theorem agrees_nextAttribute :
    T.Agrees k (nextAttribute n) (nextAttribute n) fun _ => Eq := by
  refine agrees_record.bind fun j own own' _ same => ?_
  dsimp only
  rw [same.resembles.kind]
  split
  · exact .misuse _
  · refine Agrees.bind_eq (.observe fun i _ => ((T.resembles i).link?_eq n).symm)
      fun i link _ => ?_
    split
    · exact .pure rfl
    · exact .pure rfl
    · exact .misuse _
    · exact .misuse _

theorem agrees_parent : T.Agrees k (parent n) (parent n) fun _ => Eq := by
  refine agrees_record.bind fun j own own' _ same => ?_
  rw [same.resembles.parent]
  exact .pure rfl

theorem agrees_entityFrom (fuel : Nat) {i : Nat} :
    T.AgreesOk k (entityFrom fuel i) (entityFrom fuel i) fun _ => Eq := by
  induction fuel generalizing k i with
  | zero => exact .pure rfl
  | succ fuel ih =>
    refine agrees_awaitRecord.bind fun j a a' _ same => ?_
    cases same with
    | none => exact .pure rfl
    | some same =>
      dsimp only
      rw [same.resembles.kind]
      split
      · exact .pure rfl
      · exact .pure rfl
      · exact ih
      · exact ih

theorem agrees_previousSibling :
    T.AgreesOk k (previousSibling n) (previousSibling n) fun _ => Eq := by
  refine agrees_startRecord.bind fun j own own' _ same => ?_
  rw [same.resembles.kind, same.resembles.parent]
  split
  · exact .pure rfl
  · split
    · exact (AgreesOk.lift agrees_firstAttribute).bind_eq fun _ _ _ => agrees_siblingBefore _ _ _
    · exact .pure rfl
  · exact (agrees_entityFrom _).bind_eq fun _ _ _ => agrees_siblingBefore _ _ _
  · refine (AgreesOk.lift (agrees_isValueNode same)).bind_eq fun i isValue _ => ?_
    split
    · exact .pure rfl
    · split
      · exact agrees_firstChild.bind_eq fun _ _ _ => agrees_siblingBefore _ _ _
      · exact .pure rfl

/-! ### Ancestors and document order -/

theorem agrees_isOnPath (ancestor fuel : Nat) (current : Option NodeId) :
    T.Agrees k (isOnPath ancestor fuel current) (isOnPath ancestor fuel current) fun _ => Eq := by
  induction fuel generalizing k current with
  | zero => exact .pure rfl
  | succ fuel ih =>
    cases current with
    | none => exact .pure rfl
    | some m =>
      rw [isOnPath]
      split
      · exact .pure rfl
      · split
        · exact .pure rfl
        · refine agrees_record.bind fun j own own' _ same => ?_
          rw [same.resembles.parent]
          exact ih _

theorem agrees_isAncestor {ancestor : Nat} :
    T.Agrees k (isAncestor ancestor n) (isAncestor ancestor n) fun _ => Eq := by
  unfold isAncestor
  split
  · exact .pure rfl
  · refine agrees_record.bind fun j own own' _ same => ?_
    rw [same.resembles.parent]
    exact agrees_isOnPath _ _ _

theorem agrees_scanStart : T.AgreesOk k (scanStart n) (scanStart n) fun _ => Eq := by
  refine agrees_startRecord.bind fun j own own' _ same => ?_
  rw [same.resembles.kind]
  split
  · exact .pure rfl
  · exact .pure rfl

theorem agrees_nextDescendant {root : Nat} :
    T.AgreesOk k (nextDescendant root n) (nextDescendant root n) fun _ => Eq :=
  agrees_scanStart.bind_eq fun _ _ _ => agrees_structuralFrom_bind fun _ _ _ _ _ _ =>
    (AgreesOk.lift agrees_isAncestor).bind_eq fun _ _ _ => .pure rfl

theorem agrees_outsideFrom {context : Nat} (fuel : Nat) {i : Nat} :
    T.AgreesOk k (outsideFrom context fuel i) (outsideFrom context fuel i) fun _ => Eq := by
  induction fuel generalizing k i with
  | zero => exact .pure rfl
  | succ fuel ih =>
    refine agrees_structuralFrom_bind fun j m r r' _ _ => ?_
    refine (AgreesOk.lift agrees_isAncestor).bind_eq fun i isBelow _ => ?_
    split
    · exact ih
    · exact .pure rfl

theorem agrees_nextFollowing {context : Nat} :
    T.AgreesOk k (nextFollowing context n) (nextFollowing context n) fun _ => Eq :=
  agrees_scanStart.bind_eq fun _ _ _ => agrees_outsideFrom _

theorem agrees_nextPreceding {context : Nat} :
    T.Agrees k (nextPreceding context n) (nextPreceding context n) fun _ => Eq := by
  -- The search goes down one node at a time, past the nodes 1 and 0.
  induction n using Nat.strongRecOn generalizing k with
  | ind n ih =>
    match n with
    | 0 | 1 => exact .pure rfl
    | i + 2 =>
      refine agrees_record.bind fun j own own' _ same => ?_
      refine (agrees_isStructural same).bind_eq fun j isStructural _ => ?_
      split
      · exact ih _ (Nat.lt_succ_self _)
      · refine agrees_isAncestor.bind_eq fun j isAbove _ => ?_
        split
        · exact ih _ (Nat.lt_succ_self _)
        · exact .pure rfl

theorem agrees_before : T.Agrees k (before n) (before n) fun _ => Eq := by
  induction n generalizing k with
  | zero => exact .pure rfl
  | succ i ih =>
    refine agrees_record.bind fun j own own' _ same => ?_
    refine (agrees_isStructural same).bind_eq fun j isStructural _ => ?_
    split
    · exact .pure rfl
    · exact ih

/-! ### Walks -/

/-- Two walks are the same and were stopped by the failure that ended a wait. -/
def StoppedWalk (failure : Failure) (w w' : Walk) : Prop :=
  w' = w ∧ w.stopped = some failure

theorem agrees_walkFrom {step : NodeId → Reading (Option NodeId)}
    (hstep : ∀ k m, T.AgreesOk k (step m) (step m) fun _ => Eq) (fuel : Nat)
    (done : List NodeId) {query : Reading (Option NodeId)}
    (hq : T.AgreesOk k query query fun _ => Eq) :
    T.InStep (fun _ => Eq) StoppedWalk k (walkFrom step fuel done query)
      (walkFrom step fuel done query) := by
  induction fuel generalizing k done query with
  | zero => exact .answer rfl
  | succ fuel ih =>
    refine InStep.bind hq ?_ ?_
    · rintro j _ _ _ ⟨a, _, rfl, rfl, rfl⟩
      cases a with
      | none => exact .answer rfl
      | some m => exact ih _ (hstep j m)
    · rintro failure _ _ ⟨rfl, rfl⟩
      exact ⟨_, _, rfl, rfl, rfl, rfl⟩

/-- A walk of steps that need no wait is the same, and nothing stops it. -/
theorem agrees_plainWalk {first : Query (Option NodeId)} {step : NodeId → Query (Option NodeId)}
    (hfirst : T.Agrees k first first fun _ => Eq)
    (hstep : ∀ k m, T.Agrees k (step m) (step m) fun _ => Eq) :
    T.Agrees k (plainWalk first step) (plainWalk first step) fun _ => Eq := by
  -- The steps are lifted to readings that never stop, so the walk is one that never stops.
  have walk : ∀ (fuel k : Nat) (done : List NodeId) (first : Query (Option NodeId)),
      T.Agrees k first first (fun _ => Eq) →
      T.Agrees k (walkFrom (fun m => ExceptT.lift (step m)) fuel done (ExceptT.lift first))
        (walkFrom (fun m => ExceptT.lift (step m)) fuel done (ExceptT.lift first))
        fun _ => Eq := by
    intro fuel
    induction fuel with
    | zero => exact fun _ _ _ _ => .pure rfl
    | succ fuel ih =>
      intro k done first hfirst
      refine Agrees.bind_eq (hfirst.bind_eq fun _ _ _ => .pure rfl) fun j r _ => ?_
      split
      · exact ih j _ _ (hstep j _)
      · exact .pure rfl
      · exact .pure rfl
  exact (walk indexBound k [] first hfirst).bind_eq fun _ _ _ => .pure rfl

theorem agrees_attributes : T.Agrees k (attributes n) (attributes n) fun _ => Eq :=
  agrees_plainWalk agrees_firstAttribute fun _ _ => agrees_nextAttribute

/-! ### Lookups -/

theorem agrees_elementById {id : String} :
    T.AgreesOk k (elementById id) (elementById id) fun _ => Eq := by
  have known : ∀ i i', knownElement id (T.right i) (T.right i') =
      knownElement id (T.left i) (T.left i') := fun i i' => by
    rw [knownElement, (T.resembles i).names, (T.resembles i').identifiers, knownElement]
  refine .await (fun times => ?_) fun times j _ => (known _ _).symm
  rw [known, (T.resembles _).done]

theorem agrees_entity {name : String} :
    T.AgreesOk k (entity name) (entity name) fun _ => Eq := by
  refine .await (fun times => ?_) fun times j _ => ?_
  · simp only [(T.resembles _).entities, (T.resembles _).done]
  · rw [(T.resembles _).entities]

theorem agrees_elementAmong (fuel : Nat) (current : Option NodeId) :
    T.AgreesOk k (elementAmong fuel current) (elementAmong fuel current) fun _ => Eq := by
  induction fuel generalizing k current with
  | zero => exact .pure rfl
  | succ fuel ih =>
    cases current with
    | none => exact .pure rfl
    | some m =>
      refine (AgreesOk.lift agrees_record).bind fun j own own' _ same => ?_
      rw [same.resembles.kind]
      split
      · exact .pure rfl
      · exact agrees_nextSibling.bind_eq fun _ _ _ => ih _

theorem agrees_findNamed (name : SymbolId) (nodes : List NodeId) :
    T.Agrees k (findNamed name nodes) (findNamed name nodes) fun _ => Eq := by
  induction nodes generalizing k with
  | nil => exact .pure rfl
  | cons m rest ih =>
    refine agrees_record.bind fun j own own' _ same => ?_
    rw [same.resembles.name]
    split
    · exact .pure rfl
    · exact ih

theorem agrees_attributeByName {name : String} :
    T.Agrees k (attributeByName n name) (attributeByName n name) fun _ => Eq := by
  refine Agrees.bind_eq (.observe fun j _ => by rw [(T.resembles j).names]) fun j id _ => ?_
  split
  · exact agrees_attributes.bind_eq fun _ _ _ => agrees_findNamed _ _
  · exact .pure rfl

/-! ### Properties -/

theorem agrees_name {id : SymbolId} :
    T.Agrees k (observe (·.name id)) (observe (·.name id)) fun _ => Eq :=
  .observe fun j _ => by rw [Document.name, Document.name, (T.resembles j).names]

/-- The payload of a record that looks the same is the same text. -/
theorem agrees_text {r r' : Record} (h : T.SameRecord n k r r') (hk : r.kind ≠ .document) :
    T.Agrees k (observe (·.text r.payload)) (observe (·.text r'.payload)) fun _ => Eq :=
  .observe fun _ hj => (Document.text_eq_of_resembles (h.mono hj).resembles hk).symm

theorem agrees_nodeName : T.Agrees k (nodeName n) (nodeName n) fun _ => Eq := by
  refine agrees_record.bind fun j own own' _ same => ?_
  rw [same.resembles.kind, same.resembles.flags, same.resembles.name]
  split
  · exact .pure rfl
  · exact .pure rfl
  · exact .pure rfl
  · exact agrees_name

theorem agrees_localName : T.Agrees k (localName n) (localName n) fun _ => Eq := by
  refine agrees_record.bind fun j own own' _ same => ?_
  rw [same.resembles.kind, same.resembles.name]
  split
  any_goals exact agrees_name
  any_goals exact .pure rfl
  all_goals exact agrees_name.bind_eq fun _ _ _ => .pure rfl

theorem agrees_namePrefix : T.Agrees k (namePrefix? n) (namePrefix? n) fun _ => Eq := by
  refine agrees_record.bind fun j own own' _ same => ?_
  rw [same.resembles.kind, same.resembles.name]
  split
  any_goals exact .pure rfl
  all_goals exact agrees_name.bind_eq fun _ _ _ => .pure rfl

theorem agrees_nodeValue : T.Agrees k (nodeValue? n) (nodeValue? n) fun _ => Eq := by
  refine agrees_record.bind fun j own own' _ same => ?_
  rw [same.resembles.kind]
  have text : own.kind ≠ .document → T.Agrees j (do return some (← observe (·.text own.payload)))
      (do return some (← observe (·.text own'.payload))) fun _ => Eq := fun hk =>
    (agrees_text same hk).bind_eq fun _ _ _ => .pure rfl
  have value : T.Agrees j
      (do let value ← record (n + 1); return some (← observe (·.text value.payload)))
      (do let value ← record (n + 1); return some (← observe (·.text value.payload)))
      fun _ => Eq := by
    refine agrees_record.bind fun i value value' _ same => ?_
    exact (agrees_text same fun hk => absurd (same.root hk) (Nat.succ_ne_zero n)).bind_eq
      fun _ _ _ => .pure rfl
  split
  · next hk => exact text (by rw [hk]; exact nofun)
  · next hk => exact text (by rw [hk]; exact nofun)
  · next hk => exact text (by rw [hk]; exact nofun)
  · exact value
  · exact value
  all_goals exact .pure rfl

theorem agrees_namespaceUri : T.Agrees k (namespaceUri? n) (namespaceUri? n) fun _ => Eq := by
  refine agrees_record.bind fun j own own' _ same => ?_
  rw [same.resembles.kind, same.resembles.namespaceId]
  have uri : T.Agrees j (observe (·.namespaceUri? own.namespaceId))
      (observe (·.namespaceUri? own.namespaceId)) fun _ => Eq :=
    .observe fun i _ => by
      rw [Document.namespaceUri?, Document.namespaceUri?, (T.resembles i).namespaceUris]
  split
  · exact uri
  · exact uri
  · exact .pure rfl

theorem agrees_textBelow {root : Nat} (fuel : Nat) (before : String) :
    T.AgreesOk k (textBelow root fuel before n) (textBelow root fuel before n) fun _ => Eq := by
  induction fuel generalizing k before n with
  | zero => exact .pure rfl
  | succ fuel ih =>
    refine agrees_nextDescendant.bind_eq fun j next _ => ?_
    cases next with
    | none => exact .pure rfl
    | some m =>
      refine (AgreesOk.lift agrees_record).bind fun i found found' _ same => ?_
      rw [same.resembles.kind]
      split
      · next hk =>
        exact (AgreesOk.lift (agrees_text same (by rw [hk]; exact nofun))).bind_eq
          fun _ _ _ => ih _
      · exact ih _

theorem agrees_stringValue : T.AgreesOk k (stringValue n) (stringValue n) fun _ => Eq := by
  refine agrees_startRecord.bind fun j own own' _ same => ?_
  rw [same.resembles.kind, same.resembles.name]
  split
  · exact agrees_textBelow _ _
  · exact agrees_textBelow _ _
  · exact (AgreesOk.lift agrees_name).bind_eq fun _ _ _ => agrees_entity.bind_eq
      fun _ _ _ => .pure rfl
  · exact (AgreesOk.lift agrees_nodeValue).bind_eq fun _ _ _ => .pure rfl

end XmlTable.Parallel

namespace XmlTable

open Node Query Parallel

/-! ### All questions -/

namespace Question

variable {T : Parallel} {k : Nat} {α : Type}

/-- An answer is that of a question whose wait was ended by a failure. -/
def IsStopped : {α : Type} → Question α → Failure → α → Prop
  | _, plain _, _, _ => False
  | _, waiting _, failure, result => result = .error failure
  | _, walking _, failure, walk => walk.stopped = some failure

theorem Plain.agrees (q : Plain α) : T.Agrees k q.ask q.ask fun _ => Eq := by
  cases q with
  | kind node =>
    refine agrees_record.bind fun j own own' _ same => ?_
    rw [same.resembles.kind]
    exact .pure rfl
  | nodeName node => exact agrees_nodeName
  | localName node => exact agrees_localName
  | namePrefix node => exact agrees_namePrefix
  | nodeValue node => exact agrees_nodeValue
  | namespaceUri node => exact agrees_namespaceUri
  | isIgnorable node =>
    refine agrees_record.bind fun j own own' _ same => ?_
    rw [same.resembles.kind, same.resembles.flags]
    exact .pure rfl
  | isCData node =>
    refine agrees_record.bind fun j own own' _ same => ?_
    rw [same.resembles.kind, same.resembles.flags]
    exact .pure rfl
  | firstAttribute node => exact agrees_firstAttribute
  | nextAttribute node => exact agrees_nextAttribute
  | attributeByName element name => exact agrees_attributeByName
  | parent node => exact agrees_parent
  | isAncestor ancestor node => exact agrees_isAncestor
  | nextPreceding context node => exact agrees_nextPreceding
  | before node => exact agrees_before
  | attributes element => exact agrees_attributes
  | ancestors node => exact agrees_plainWalk agrees_parent fun _ _ => agrees_parent
  | preceding node => exact agrees_plainWalk agrees_nextPreceding fun _ _ => agrees_nextPreceding
  | allBefore node => exact agrees_plainWalk agrees_before fun _ _ => agrees_before

theorem Waiting.agrees (q : Waiting α) : T.AgreesOk k q.ask q.ask fun _ => Eq := by
  cases q with
  | firstChild node => exact agrees_firstChild
  | lastChild node => exact agrees_lastChild
  | nextSibling node => exact agrees_nextSibling
  | previousSibling node => exact agrees_previousSibling
  | nextDescendant root node => exact agrees_nextDescendant
  | nextFollowing context node => exact agrees_nextFollowing
  | stringValue node => exact agrees_stringValue
  | elementById id => exact agrees_elementById
  | entity name => exact agrees_entity
  | entityValue name => exact agrees_entity.bind_eq fun _ _ _ => .pure rfl
  | firstEntity => exact agrees_entityFrom _
  | documentElement => exact agrees_firstChild.bind_eq fun _ _ _ => agrees_elementAmong _ _
  | awaitDone => exact .await (fun times => (T.resembles _).done) fun _ _ _ => rfl

theorem Walking.agrees (q : Walking) :
    T.InStep (fun _ => Eq) StoppedWalk k q.ask q.ask := by
  cases q with
  | children node => exact agrees_walkFrom (fun _ _ => agrees_nextSibling) _ _ agrees_firstChild
  | descendants node =>
    exact agrees_walkFrom (fun _ _ => agrees_nextDescendant) _ _ agrees_nextDescendant
  | following node =>
    exact agrees_walkFrom (fun _ _ => agrees_nextFollowing) _ _ agrees_nextFollowing

/-- Every question goes the same way at documents that look the same, and when a wait is ended by a
failure, the answers are the same and the failure is part of them. -/
theorem inStep (q : Question α) :
    T.InStep (fun _ => Eq) (fun failure a a' => a' = a ∧ q.IsStopped failure a) k q.ask q.ask := by
  cases q with
  | plain q => exact InStep.mono q.agrees (fun _ _ _ _ same => same) fun _ _ _ hF => hF.elim
  | waiting q =>
    refine InStep.mono q.agrees ?_ ?_
    · rintro j _ _ _ ⟨a, _, rfl, rfl, rfl⟩
      rfl
    · rintro failure _ _ ⟨rfl, rfl⟩
      exact ⟨rfl, rfl⟩
  | walking q => exact q.agrees

end Question

namespace Document.Resembles

variable {d d' : Document} {α : Type}

/-- Documents that look the same, and at which waits end alike, give the same answers. -/
theorem run_ask (h : d.Resembles d')
    (root : ∀ {n : Nat} {r : Record}, d.nodes.get? n = some r → r.kind = .document → n = 0)
    (standstill : d'.standstill = d.standstill) (q : Question α) :
    q.ask.run d' = q.ask.run d := by
  rcases (q.inStep (T := still h root) (k := 0)).run_cases with
    ⟨a, a', hr, hr', rfl⟩ | ⟨cause, hr, hr'⟩ | ⟨answerTo, answerTo', same, hr, hr'⟩
  · exact hr'.trans hr.symm
  · exact hr'.trans hr.symm
  · obtain rfl : answerTo' = answerTo := funext fun failure => (same failure).1
    change q.ask.run d = d.standstill.outcome _ at hr
    change q.ask.run d' = d'.standstill.outcome _ at hr'
    rw [hr, hr', standstill]

/-! ### Listings -/

theorem siblingFrom_eq (h : d.Resembles d') (parent : Option NodeId) (fuel index : Nat) :
    Listing.siblingFrom d' parent fuel index = Listing.siblingFrom d parent fuel index := by
  induction fuel generalizing index with
  | zero => rw [Listing.siblingFrom, Listing.siblingFrom, h.done]
  | succ fuel ih =>
    rw [Listing.siblingFrom, Listing.siblingFrom, h.done]
    rcases h.get?_cases index with ⟨r, r', hr, hr', same⟩ | ⟨hr, hr'⟩
    · simp only [hr, hr', same.kind, same.parent, ih]
    · simp only [hr, hr']

theorem entry_eq (h : d.Resembles d') {n : Nat} {r r' : Record}
    (same : r.Resembles (d.SameText d') r') : Listing.entry d' n r' = Listing.entry d n r := by
  have holds : (r'.parent.bind d'.nodes.get?).any (·.kind.hasValueNode) =
      (r.parent.bind d.nodes.get?).any (·.kind.hasValueNode) := by
    rw [same.parent]
    cases r.parent with
    | none => rfl
    | some p =>
      rcases h.get?_cases p with ⟨own, own', hr, hr', same⟩ | ⟨hr, hr'⟩
      · simp only [Option.bind_some, hr, hr', Option.any_some, same.kind]
      · simp only [Option.bind_some, hr, hr']
  have next : Listing.nextKnown d' n r' = Listing.nextKnown d n r := by
    have link := same.link?
    unfold Listing.nextKnown
    rw [same.kind, holds, same.parent, h.size]
    unfold Record.link? at link
    split
    · rfl
    · cases hl : r.link <;> cases hl' : r'.link <;> simp_all [h.siblingFrom_eq]
  have names : ∀ id, d'.name id = d.name id := fun id => by
    rw [Document.name, Document.name, h.names]
  have value : Listing.shownValue d' r' = Listing.shownValue d r := by
    unfold Listing.shownValue
    rw [same.kind, same.name]
    split <;> simp_all [Document.text_eq_of_resembles same]
  rw [Listing.entry, Listing.entry, same.kind, same.parent, next, value]

/-- Documents that look the same have the same listing. -/
theorem dump_eq (h : d.Resembles d') : Listing.dump d' = Listing.dump d := by
  have entries : ∀ n, (d'.nodes.get? n).map (Listing.entry d' n) =
      (d.nodes.get? n).map (Listing.entry d n) := fun n => by
    rcases h.get?_cases n with ⟨r, r', hr, hr', same⟩ | ⟨hr, hr'⟩
    · rw [hr, hr', Option.map_some, Option.map_some, h.entry_eq same]
    · rw [hr, hr', Option.map_none, Option.map_none]
  unfold Listing.dump Listing.ofDocument
  rw [Document.nodeCount, h.size]
  simp only [entries]
  rfl

end Document.Resembles

end XmlTable
