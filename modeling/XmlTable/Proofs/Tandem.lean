import Mathlib.Data.List.Forall2
import XmlTable.Proofs.Building
import XmlTable.Proofs.Resemblance

/-!
# Builders that work in tandem

Two builders that take the same events publish changes that look the same, one by one, and so the
documents look the same at every moment, whatever their settings say about storage. Only the room
for nodes may differ: a builder may find its table full where the other does not, and from there on
nothing is said.
-/

namespace XmlTable

open Node

/-! ### Work that goes the same way -/

namespace Reporting

variable {σ σ' α β : Type} {s : σ × Journal} {s' : σ' × Journal}

/-- Two pieces of work end alike: both go well, or both fail with one failure, or one of them fails
with a failure that excuses everything. -/
inductive EndAlike (excuses : Failure → Prop) (onOk : α → α → σ × Journal → σ' × Journal → Prop)
    (onFail : Failure → σ × Journal → σ' × Journal → Prop) :
    Except Failure α × (σ × Journal) → Except Failure α × (σ' × Journal) → Prop
  | ok {a a' : α} {t : σ × Journal} {t' : σ' × Journal} : onOk a a' t t' →
    EndAlike excuses onOk onFail (.ok a, t) (.ok a', t')
  | fail {cause : Failure} {t : σ × Journal} {t' : σ' × Journal} : onFail cause t t' →
    EndAlike excuses onOk onFail (.error cause, t) (.error cause, t')
  | left {cause : Failure} {t : σ × Journal} {r : Except Failure α × (σ' × Journal)} :
    excuses cause → EndAlike excuses onOk onFail (.error cause, t) r
  | right {cause : Failure} {t' : σ' × Journal} {r : Except Failure α × (σ × Journal)} :
    excuses cause → EndAlike excuses onOk onFail r (.error cause, t')

variable {excuses : Failure → Prop} {onFail : Failure → σ × Journal → σ' × Journal → Prop}

/-- Work that goes on with the answers of other work ends alike if the answers lead the same way. -/
theorem EndAlike.bind {work : Reporting σ α} {work' : Reporting σ' α} {next : α → Reporting σ β}
    {next' : α → Reporting σ' β} {onOk : β → β → σ × Journal → σ' × Journal → Prop}
    (h : EndAlike excuses
      (fun a a' t t' => EndAlike excuses onOk onFail ((next a).run.run t) ((next' a').run.run t'))
      onFail (work.run.run s) (work'.run.run s')) :
    EndAlike excuses onOk onFail ((work >>= next).run.run s) ((work' >>= next').run.run s') := by
  rw [run_bind, run_bind]
  generalize work.run.run s = r, work'.run.run s' = r' at h ⊢
  cases h with
  | ok h => exact h
  | fail h => exact .fail h
  | left h => exact .left h
  | right h => exact .right h

theorem EndAlike.mono {onOk onOk' : α → α → σ × Journal → σ' × Journal → Prop}
    {onFail' : Failure → σ × Journal → σ' × Journal → Prop}
    {r : Except Failure α × (σ × Journal)} {r' : Except Failure α × (σ' × Journal)}
    (h : EndAlike excuses onOk onFail r r')
    (ok : ∀ a a' t t', onOk a a' t t' → onOk' a a' t t')
    (fail : ∀ cause t t', onFail cause t t' → onFail' cause t t') :
    EndAlike excuses onOk' onFail' r r' := by
  cases h with
  | ok h => exact .ok (ok _ _ _ _ h)
  | fail h => exact .fail (fail _ _ _ h)
  | left h => exact .left h
  | right h => exact .right h

/-- What comes of a report: the handler decides, and the journal has it. -/
theorem run_report (cause : Failure) (s : σ × Journal) :
    (report cause : Reporting σ Unit).run.run s =
      match (s.2.error cause).1 with
      | .proceed => (.ok (), s.1, (s.2.error cause).2)
      | .abort => (.error cause, s.1, (s.2.error cause).2) := by
  show (match (s.2.error cause).1 with
    | .proceed => pure ()
    | .abort => throw cause : Reporting σ Unit).run.run (s.1, (s.2.error cause).2) = _
  cases (s.2.error cause).1 <;> rfl

end Reporting

/-! ### Documents that tally -/

/-- Two changes are the same but for the records that they append, which look the same. -/
inductive Change.Resembles (P : SymbolId → SymbolId → Prop) : Change → Change → Prop
  | append {records records' : List Record} :
    List.Forall₂ (Record.Resembles P) records records' →
    Resembles P (.append records) (.append records')
  | same {c : Change} : (∀ records, c ≠ .append records) → Resembles P c c

namespace Document

variable {d d' : Document} {c c' : Change}

/-- Two documents look the same, have come equally far, and end waits alike. -/
structure Tallies (d d' : Document) : Prop extends Resembles d d' where
  /-- They have come equally far. -/
  progress : d'.progress = d.progress
  /-- Waits are cancelled in both or in none. -/
  isCancelled : d'.isCancelled = d.isCancelled
  /-- Waits are bounded alike. -/
  waitTimeout : d'.config.waitTimeout = d.config.waitTimeout
  /-- The same characters are left out. -/
  stripIgnorable : d'.config.stripIgnorable = d.config.stripIgnorable

theorem Tallies.standstill (h : d.Tallies d') : d'.standstill = d.standstill := by
  rw [Document.standstill, h.progress, h.isCancelled, h.waitTimeout, Document.standstill]

/-- Symbols that stand for one text do so after any changes. -/
theorem SameText.apply {p p' : SymbolId} (h : d.SameText d' p p') (c c' : Change) :
    (d.apply c).SameText (d'.apply c') p p' := by
  have kept : ∀ (d : Document) (c : Change) {id : SymbolId} {s : String},
      d.texts.resolve id = some s → (d.apply c).texts.resolve id = some s := by
    intro d c id s hs
    cases c with
    | text text => exact Symbol.Store.resolve_insert_of_some _ _ hs
    | fail cause =>
      rw [Document.apply]
      split <;> exact hs
    | _ => exact hs
  obtain ⟨s, hs, hs'⟩ := h
  exact ⟨s, kept d c hs, kept d' c' hs'⟩

/-- What a change does to how far the construction has come depends on nothing else. -/
theorem progress_apply (h : d'.progress = d.progress) (c : Change) :
    (d'.apply c).progress = (d.apply c).progress := by
  cases c with
  | finish => rfl
  | fail cause =>
    rw [Document.apply, Document.apply, h]
    split
    · exact h
    · rfl
  | _ => exact h

/-- Records appended together look the same as others if they do so one by one. -/
theorem Resembles.append (h : d.Resembles d') {records records' : List Record}
    (hrs : List.Forall₂ (Record.Resembles (d.SameText d')) records records') :
    (d.apply (.append records)).Resembles (d'.apply (.append records')) :=
  { h with
    size := by
      show (d'.nodes.append records').size = (d.nodes.append records).size
      rw [Table.size_append, Table.size_append, h.size, hrs.length_eq]
    record := fun {n r r'} hr hr' => by
      change (d.nodes.append records).get? n = some r at hr
      change (d'.nodes.append records').get? n = some r' at hr'
      rw [Table.get?_append] at hr hr'
      rw [h.size] at hr'
      by_cases hn : n < d.nodes.size
      · rw [if_pos hn] at hr hr'
        exact h.record hr hr'
      · rw [if_neg hn] at hr hr'
        obtain ⟨hlt, rfl⟩ := List.getElem?_eq_some_iff.1 hr
        obtain ⟨hlt', rfl⟩ := List.getElem?_eq_some_iff.1 hr'
        exact hrs.get hlt hlt' }

/-- Records look the same after the link of a node was replaced in both documents. -/
theorem Resembles.link (h : d.Resembles d') (m : NodeId) (l : Link) :
    (d.apply (.link m l)).Resembles (d'.apply (.link m l)) :=
  { h with
    record := fun {n r r'} hr hr' => by
      change (d.nodes.setLink m l).get? n = some r at hr
      change (d'.nodes.setLink m l).get? n = some r' at hr'
      rw [Table.get?_setLink] at hr hr'
      split at hr
      · next hn =>
        rw [if_pos hn] at hr'
        obtain ⟨own, hown, rfl⟩ := Option.map_eq_some_iff.1 hr
        obtain ⟨own', hown', rfl⟩ := Option.map_eq_some_iff.1 hr'
        exact (h.record hown hown').withLink l
      · next hn =>
        rw [if_neg hn] at hr'
        exact h.record hr hr' }

/-- Documents that look the same do so after changes that look the same. -/
theorem Resembles.apply (h : d.Resembles d') (progress : d'.progress = d.progress)
    (hc : c.Resembles (d.SameText d') c') : (d.apply c).Resembles (d'.apply c') := by
  cases hc with
  | append hrs => exact h.append hrs
  | same hc =>
    cases c with
    | append records => exact absurd rfl (hc records)
    | link m l => exact h.link m l
    | name name => exact { h with names := congrArg (·.insert name) h.names }
    | text text =>
      have later : ∀ p p', d.SameText d' p p' →
          (d.apply (.text text)).SameText (d'.apply (.text text)) p p' :=
        fun _ _ same => same.apply _ _
      exact { h with record := fun hr hr' => (h.record hr hr').mono later }
    | namespaceUri uri =>
      exact { h with namespaceUris := congrArg (·.insert uri) h.namespaceUris }
    | identifier value element =>
      exact { h with identifiers := congrArg (·.insert value element) h.identifiers }
    | entity name value node =>
      exact { h with entities := congrArg (·.declare name value node) h.entities }
    | closeEntities => exact { h with entities := congrArg (·.close) h.entities }
    | finish => exact { h with done := rfl }
    | fail cause =>
      rw [Document.apply, Document.apply, progress]
      split
      · exact h
      · exact { h with done := rfl }
    | cancel => exact { h with }

/-- Documents that tally do so after changes that look the same. -/
theorem Tallies.apply (h : d.Tallies d') (hc : c.Resembles (d.SameText d') c') :
    (d.apply c).Tallies (d'.apply c') := by
  have settings : ∀ (d : Document) (c : Change), (d.apply c).config = d.config := by
    intro d c
    cases c with
    | fail cause =>
      rw [Document.apply]
      split <;> rfl
    | _ => rfl
  have cancelled : (d'.apply c').isCancelled = (d.apply c).isCancelled := by
    cases hc with
    | append hrs => exact h.isCancelled
    | same hc =>
      cases c with
      | cancel => rfl
      | fail cause =>
        rw [Document.apply, Document.apply, h.progress]
        split <;> exact h.isCancelled
      | _ => exact h.isCancelled
  have progress : (d'.apply c').progress = (d.apply c).progress := by
    cases hc with
    | append hrs => exact h.progress
    | same hc => exact progress_apply h.progress c
  exact
    { h.toResembles.apply h.progress hc with
      progress := progress
      isCancelled := cancelled
      waitTimeout := by rw [settings, settings, h.waitTimeout]
      stripIgnorable := by rw [settings, settings, h.stripIgnorable] }

end Document

/-! ### Twins -/

namespace Builder

open Reporting

/-- What a builder fails with that has no room for more nodes. -/
def tableFull : Failure := .capacity "node table is full"

/-- The histories of two builders go in step: the documents tally at every moment. -/
structure Lockstep (config config' : Config) (b b' : Builder) : Prop where
  /-- The one document has come about by the one history. -/
  left : b.document = (Document.initial config).applyAll b.history.toList
  /-- The other document has come about by the other history. -/
  right : b'.document = (Document.initial config').applyAll b'.history.toList
  /-- As many changes were published. -/
  size : b'.history.size = b.history.size
  /-- The documents tally at every moment. -/
  moments : ∀ k, ((Document.initial config).moment b.history.toList k).Tallies
    ((Document.initial config').moment b'.history.toList k)

namespace Lockstep

variable {config config' : Config} {b b' : Builder} {c c' : Change}

theorem tallies (h : Lockstep config config' b b') : b.document.Tallies b'.document := by
  have last := h.moments b.history.size
  rw [Document.moment_of_length_le (Nat.le_of_eq Array.length_toList),
    Document.moment_of_length_le (Nat.le_of_eq (Array.length_toList.trans h.size))] at last
  rw [h.left, h.right]
  exact last

/-- A moment of a longer history is one of the history before or the last one. -/
private theorem moment_push (d : Document) (history : Array Change) (c : Change) (k : Nat) :
    d.moment (history.push c).toList k =
      if k ≤ history.size then d.moment history.toList k
      else (d.applyAll history.toList).apply c := by
  rw [Array.toList_push]
  split
  · next h =>
    rw [Document.moment, List.take_append_of_le_length (by rwa [Array.length_toList]),
      Document.moment]
  · next h =>
    have short : (history.toList ++ [c]).length ≤ k := by
      rw [List.length_append, Array.length_toList, List.length_singleton]
      omega
    rw [Document.moment_of_length_le short, Document.applyAll, List.foldl_append]
    rfl

/-- Histories go on in step with changes that look the same. -/
theorem record (h : Lockstep config config' b b')
    (hc : c.Resembles (b.document.SameText b'.document) c') :
    Lockstep config config' (b.record c) (b'.record c') where
  left := by
    rw [Builder.record, Array.toList_push, Document.applyAll, List.foldl_append]
    exact congrArg (·.apply c) h.left
  right := by
    rw [Builder.record, Array.toList_push, Document.applyAll, List.foldl_append]
    exact congrArg (·.apply c') h.right
  size := by
    show (b'.history.push c').size = (b.history.push c).size
    rw [Array.size_push, Array.size_push, h.size]
  moments k := by
    show ((Document.initial config).moment (b.history.push c).toList k).Tallies
      ((Document.initial config').moment (b'.history.push c').toList k)
    rw [moment_push, moment_push, h.size, ← h.left, ← h.right]
    split
    · exact h.moments k
    · exact h.tallies.apply hc

end Lockstep

/-- The settings of two builders that take the same events. -/
structure Pairing where
  /-- The settings of the one. -/
  left : Config
  /-- The settings of the other. -/
  right : Config
  /-- The tables may have room for different numbers of nodes. -/
  loose : Prop

namespace Pairing

variable {α β : Type} (P : Pairing)

/-- Two builders that took the same events are the same but for their documents, which match, and so
do their histories. Symbols that are held stand for the same text in both. -/
structure Twins (held : SymbolId → SymbolId → Prop) (s s' : Builder × Journal) : Prop where
  /-- The histories go in step. -/
  lockstep : Lockstep P.left P.right s.1 s'.1
  /-- The builders remember the same. -/
  own : s'.1 = { s.1 with document := s'.1.document, history := s'.1.history }
  /-- The same was reported. -/
  journal : s'.2 = s.2
  /-- There is room for as many nodes, unless that may differ. -/
  capacity : P.loose ∨ s'.1.document.nodes.capacity = s.1.document.nodes.capacity
  /-- Symbols that are held stand for the same text. -/
  held : ∀ p p', held p p' → s.1.document.SameText s'.1.document p p'

/-- Fresh builders are twins if their documents have the same limits for waits, leave out the same
characters, and have room for as many nodes unless that may differ. -/
theorem Twins.start (waitTimeout : P.right.waitTimeout = P.left.waitTimeout)
    (stripIgnorable : P.right.stripIgnorable = P.left.stripIgnorable)
    (capacity : P.loose ∨ (Document.initial P.right).nodes.capacity =
      (Document.initial P.left).nodes.capacity) (journal : Journal) :
    P.Twins (fun _ _ => False) (Builder.start P.left, journal)
      (Builder.start P.right, journal) where
  lockstep :=
    { left := rfl
      right := rfl
      size := rfl
      moments := fun k => by
        show ((Document.initial P.left).moment [] k).Tallies
          ((Document.initial P.right).moment [] k)
        rw [Document.moment, Document.moment, List.take_nil]
        exact
          { size := rfl
            record := fun {n r r'} hr _ => by
              change (Table.empty _).get? n = some r at hr
              rw [Table.get?_empty] at hr
              cases hr
            names := rfl
            namespaceUris := rfl
            identifiers := rfl
            entities := rfl
            done := rfl
            progress := rfl
            isCancelled := rfl
            waitTimeout := waitTimeout
            stripIgnorable := stripIgnorable } }
  own := rfl
  journal := rfl
  capacity := capacity
  held _ _ := False.elim

variable {P} {held held' : SymbolId → SymbolId → Prop} {s s' : Builder × Journal}

theorem Twins.weaken (h : P.Twins held' s s') (le : ∀ p p', held p p' → held' p p') :
    P.Twins held s s' :=
  { h with held := fun p p' same => h.held p p' (le p p' same) }

/-- Changes leave the room for nodes as it is. -/
private theorem capacity_apply (d : Document) (c : Change) :
    (d.apply c).nodes.capacity = d.nodes.capacity := by
  cases c with
  | append records => exact Table.capacity_append _ _
  | fail cause =>
    rw [Document.apply]
    split <;> rfl
  | _ => rfl

/-- Twins stay twins when they publish changes that look the same. -/
theorem Twins.publish (h : P.Twins held s s') {c c' : Change} (hc : c.Resembles held c') :
    P.Twins held (s.1.record c, s.2) (s'.1.record c', s'.2) where
  lockstep := by
    refine h.lockstep.record ?_
    cases hc with
    | append hrs => exact .append (hrs.imp fun _ _ same => same.mono h.held)
    | same hc => exact .same hc
  own := by
    show s'.1.record c' = _
    rw [Builder.record, Builder.record, h.own]
  journal := h.journal
  capacity := h.capacity.imp_right fun same => by
    show (s'.1.document.apply c').nodes.capacity = (s.1.document.apply c).nodes.capacity
    rw [capacity_apply, capacity_apply, same]
  held p p' same := (h.held p p' same).apply c c'

/-- Twins tell the same journal the same. -/
theorem Twins.tell (h : P.Twins held s s') (f : Journal → Journal) :
    P.Twins held (s.1, f s.2) (s'.1, f s'.2) :=
  { h with journal := congrArg f h.journal }

variable (P) in
/-- Twins that do the two pieces of work stay twins and get related answers, or both fail with the
same failure. Further symbols may be held afterwards. -/
def Tandem (held : SymbolId → SymbolId → Prop) (work work' : Reporting Builder α)
    (R : (SymbolId → SymbolId → Prop) → α → α → Prop) : Prop :=
  ∀ s s' : Builder × Journal, P.Twins held s s' →
    EndAlike (fun cause => P.loose ∧ cause = tableFull)
      (fun a a' t t' => ∃ held', (∀ p p', held p p' → held' p p') ∧ P.Twins held' t t' ∧
        R held' a a')
      (fun _ t t' => P.Twins held t t') (work.run.run s) (work'.run.run s')

namespace Tandem

variable {R : (SymbolId → SymbolId → Prop) → α → α → Prop}
  {S : (SymbolId → SymbolId → Prop) → β → β → Prop}

/-- Twins that stay as they are, up to what they hold on to. -/
private theorem ok {a a' : α} {t t' : Builder × Journal} (ht : P.Twins held t t')
    (ha : R held a a') : ∃ held', (∀ p p', held p p' → held' p p') ∧ P.Twins held' t t' ∧
      R held' a a' :=
  ⟨held, fun _ _ same => same, ht, ha⟩

theorem pure {a a' : α} (h : R held a a') : P.Tandem held (pure a) (pure a') R :=
  fun _ _ hs => .ok (ok hs h)

theorem throw (cause : Failure) :
    P.Tandem held (MonadExcept.throw cause : Reporting Builder α) (MonadExcept.throw cause) R :=
  fun _ _ hs => .fail hs

theorem bind {work work' : Reporting Builder α} {next next' : α → Reporting Builder β}
    (h : P.Tandem held work work' R)
    (hn : ∀ held' a a', (∀ p p', held p p' → held' p p') → R held' a a' →
      P.Tandem held' (next a) (next' a') S) :
    P.Tandem held (work >>= next) (work' >>= next') S := fun s s' hs => by
  refine EndAlike.bind ((h s s' hs).mono ?_ fun _ _ _ ht => ht)
  rintro a a' t t' ⟨held', le, ht, ha⟩
  refine (hn held' a a' le ha t t' ht).mono ?_ fun _ _ _ hu => hu.weaken le
  rintro b b' u u' ⟨held'', le', hu, hb⟩
  exact ⟨held'', fun p p' same => le' p p' (le p p' same), hu, hb⟩

/-- What goes on with the same answer goes the same way, whatever is held. -/
theorem bind_eq {work work' : Reporting Builder α} {next next' : α → Reporting Builder β}
    (h : P.Tandem held work work' fun _ => Eq)
    (hn : ∀ held' a, (∀ p p', held p p' → held' p p') → P.Tandem held' (next a) (next' a) S) :
    P.Tandem held (work >>= next) (work' >>= next') S :=
  h.bind fun held' a _ le same => same ▸ hn held' a le

theorem observe {f f' : Builder → α} (h : ∀ s s', P.Twins held s s' → R held (f s.1) (f' s'.1)) :
    P.Tandem held (observe f) (observe f') R :=
  fun _ _ hs => .ok (ok hs (h _ _ hs))

/-- What the builders remember is the same. -/
theorem observe_own {f : Builder → α} (h : ∀ (b : Builder) (d : Document) (history : Array Change),
    f { b with document := d, history := history } = f b) :
    P.Tandem held (Builder.observe f) (Builder.observe f) fun _ => Eq :=
  .observe fun s _ hs => ((congrArg f hs.own).trans (h s.1 _ _)).symm

theorem publish {c c' : Change} (hc : c.Resembles held c') :
    P.Tandem held (publish c) (publish c') fun _ => Eq :=
  fun _ _ hs => .ok (ok (hs.publish hc) rfl)

/-- What the builders remember may change if it does so alike. -/
theorem update {f : Builder → Builder} (h : ∀ (b : Builder) (d : Document)
    (history : Array Change), b.document.Resembles d →
      f { b with document := d, history := history } =
        { f b with document := d, history := history })
    (kept : ∀ b, (f b).document = b.document ∧ (f b).history = b.history) :
    P.Tandem held (update f) (update f) fun _ => Eq := fun s s' hs => by
  have own : f s'.1 = { f s.1 with document := s'.1.document, history := s'.1.history } := by
    have same := hs.own
    rw [same]
    exact h s.1 _ _ hs.lockstep.tallies.toResembles
  have left := kept s.1
  have right := kept s'.1
  have twins : P.Twins held (f s.1, s.2) (f s'.1, s'.2) :=
    { lockstep :=
        { left := by rw [left.1, left.2, hs.lockstep.left]
          right := by rw [right.1, right.2, hs.lockstep.right]
          size := by rw [left.2, right.2, hs.lockstep.size]
          moments := by
            rw [left.2, right.2]
            exact hs.lockstep.moments }
      own := by
        rw [right.1, right.2]
        exact own
      journal := hs.journal
      capacity := by
        rw [left.1, right.1]
        exact hs.capacity
      held := by
        rw [left.1, right.1]
        exact hs.held }
  exact .ok (ok twins rfl)

theorem warn (message : String) :
    P.Tandem held (Reporting.warn message) (Reporting.warn message) fun _ => Eq :=
  fun _ _ hs => .ok (ok (Twins.tell hs (·.warn message)) rfl)

theorem fatal (cause : Failure) :
    P.Tandem held (Reporting.fatal cause) (Reporting.fatal cause) fun _ => Eq :=
  fun _ _ hs => .ok (ok (Twins.tell hs (·.fatal cause)) rfl)

theorem report (cause : Failure) :
    P.Tandem held (Reporting.report cause) (Reporting.report cause) fun _ => Eq := fun s s' hs => by
  have told := Twins.tell hs fun journal => (journal.error cause).2
  rw [run_report, run_report, hs.journal]
  rw [hs.journal] at told
  cases (s.2.error cause).1 with
  | proceed => exact .ok (ok told rfl)
  | abort => exact .fail told

end Tandem

end Pairing

end Builder

end XmlTable
