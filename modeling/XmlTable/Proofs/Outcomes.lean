import XmlTable.Builder

/-!
# What comes of reporting work

A statement about work says what is true if it succeeds, of its answer and of the state that it
leaves, and what is true if it fails, of the failure and of the state at that point. One rule for
each way of putting work together carries such statements through the events of a builder.
-/

namespace XmlTable

namespace Reporting

variable {σ α β : Type} {s : σ × Journal}

/-- From a state the work either succeeds and meets one condition, or fails and meets another. -/
def Meets (work : Reporting σ α) (s : σ × Journal) (onOk : α → σ × Journal → Prop)
    (onFail : Failure → σ × Journal → Prop) : Prop :=
  match work.run.run s with
  | (.ok a, s') => onOk a s'
  | (.error cause, s') => onFail cause s'

variable {onOk onOk' : α → σ × Journal → Prop} {onFail onFail' : Failure → σ × Journal → Prop}

/-- Conditions may be weakened. -/
theorem Meets.mono {work : Reporting σ α} (h : work.Meets s onOk onFail)
    (ok : ∀ a s', onOk a s' → onOk' a s') (fail : ∀ cause s', onFail cause s' → onFail' cause s') :
    work.Meets s onOk' onFail' := by
  unfold Meets at h ⊢
  split at h
  · exact ok _ _ h
  · exact fail _ _ h

theorem Meets.imp {work : Reporting σ α} (h : work.Meets s onOk onFail)
    (ok : ∀ a s', onOk a s' → onOk' a s') : work.Meets s onOk' onFail :=
  h.mono ok fun _ _ hf => hf

/-- Work that never fails meets any condition on its failures. -/
theorem Meets.of_sure {work : Reporting σ α} (h : work.Meets s onOk fun _ _ => False)
    (ok : ∀ a s', onOk a s' → onOk' a s') : work.Meets s onOk' onFail :=
  h.mono ok fun _ _ hf => hf.elim

/-- Work that never fails has a result. -/
theorem Meets.exists_ok {work : Reporting σ α} (h : work.Meets s onOk fun _ _ => False) :
    ∃ a s', work.run.run s = (.ok a, s') ∧ onOk a s' := by
  unfold Meets at h
  split at h
  · next a s' run => exact ⟨a, s', run, h⟩
  · exact h.elim

/-- Work that meets two conditions meets both of them. -/
theorem Meets.and {work : Reporting σ α} (h : work.Meets s onOk onFail)
    (h' : work.Meets s onOk' onFail') :
    work.Meets s (fun a s' => onOk a s' ∧ onOk' a s')
      fun cause s' => onFail cause s' ∧ onFail' cause s' := by
  unfold Meets at h h' ⊢
  split at h <;> next heq =>
    rw [heq] at h'
    exact ⟨h, h'⟩

/-- Work that meets each of some conditions meets all of them. -/
theorem Meets.all {ι : Sort _} {work : Reporting σ α} {P : ι → α → σ × Journal → Prop}
    (h : ∀ i, work.Meets s (P i) fun _ _ => True) :
    work.Meets s (fun a s' => ∀ i, P i a s') fun _ _ => True := by
  unfold Meets at h ⊢
  split <;> next heq =>
    simp only [heq] at h
    first
      | exact h
      | trivial

theorem Meets.of_ok {work : Reporting σ α} (h : work.Meets s onOk onFail) {a : α}
    {s' : σ × Journal} (hr : work.run.run s = (.ok a, s')) : onOk a s' := by
  unfold Meets at h
  rwa [hr] at h

theorem Meets.of_error {work : Reporting σ α} (h : work.Meets s onOk onFail) {cause : Failure}
    {s' : σ × Journal} (hr : work.run.run s = (.error cause, s')) : onFail cause s' := by
  unfold Meets at h
  rwa [hr] at h

/-- What is met in either case is true of the state that is left. -/
theorem Meets.state {work : Reporting σ α} {P : σ × Journal → Prop}
    (h : work.Meets s (fun _ s' => P s') fun _ s' => P s') : P (work.run.run s).2 := by
  unfold Meets at h
  split at h <;> next heq => rwa [heq]

@[simp] theorem meets_pure (a : α) :
    (pure a : Reporting σ α).Meets s onOk onFail ↔ onOk a s :=
  Iff.rfl

@[simp] theorem meets_throw (cause : Failure) :
    (throw cause : Reporting σ α).Meets s onOk onFail ↔ onFail cause s :=
  Iff.rfl

theorem run_bind (work : Reporting σ α) (next : α → Reporting σ β) :
    (work >>= next).run.run s =
      match work.run.run s with
      | (.ok a, s') => (next a).run.run s'
      | (.error cause, s') => (.error cause, s') := by
  change (match work.run.run s with | (r, s') => (ExceptT.bindCont next r).run s') = _
  rcases work.run.run s with ⟨_ | _, s'⟩ <;> rfl

theorem run_tryCatch (work : Reporting σ α) (handle : Failure → Reporting σ α) :
    (tryCatch work handle).run.run s =
      match work.run.run s with
      | (.ok a, s') => (.ok a, s')
      | (.error cause, s') => (handle cause).run.run s' := by
  change (ExceptT.tryCatch work handle).run.run s = _
  unfold ExceptT.tryCatch
  simp only [ExceptT.run, ExceptT.mk, StateT.run, bind, StateT.bind]
  rcases work s with ⟨_ | _, s'⟩ <;> rfl

/-- Work after other work starts from the state that the other leaves. -/
theorem meets_bind (work : Reporting σ α) (next : α → Reporting σ β)
    {onOk : β → σ × Journal → Prop} :
    (work >>= next).Meets s onOk onFail ↔
      work.Meets s (fun a s' => (next a).Meets s' onOk onFail) onFail := by
  unfold Meets
  rw [run_bind]
  rcases work.run.run s with ⟨_ | _, s'⟩ <;> rfl

/-- Work whose failures are handled fails as the handler does. -/
theorem meets_tryCatch (work : Reporting σ α) (handle : Failure → Reporting σ α) :
    (tryCatch work handle).Meets s onOk onFail ↔
      work.Meets s onOk fun cause s' => (handle cause).Meets s' onOk onFail := by
  unfold Meets
  rw [run_tryCatch]
  rcases work.run.run s with ⟨_ | _, s'⟩ <;> rfl

/-- A warning goes into the journal. -/
theorem meets_warn (message : String) {onOk : Unit → σ × Journal → Prop} :
    (warn message).Meets s onOk onFail ↔ onOk () (s.1, s.2.warn message) :=
  Iff.rfl

/-- After the report of a failure the handler decides. -/
theorem meets_report (cause : Failure) {onOk : Unit → σ × Journal → Prop} :
    (report cause).Meets s onOk onFail ↔
      match (s.2.error cause).1 with
      | .proceed => onOk () (s.1, (s.2.error cause).2)
      | .abort => onFail cause (s.1, (s.2.error cause).2) := by
  unfold report
  rw [meets_bind]
  change ((match (s.2.error cause).1 with
    | .proceed => pure ()
    | .abort => throw cause : Reporting σ Unit)).Meets (s.1, (s.2.error cause).2) onOk onFail ↔ _
  cases (s.2.error cause).1 <;> rfl

end Reporting

namespace Builder

open Reporting

variable {s : Builder × Journal} {onFail : Failure → Builder × Journal → Prop}

theorem meets_update (f : Builder → Builder) {onOk : Unit → Builder × Journal → Prop} :
    (update f).Meets s onOk onFail ↔ onOk () (f s.1, s.2) :=
  Iff.rfl

theorem meets_observe {α : Type} (f : Builder → α) {onOk : α → Builder × Journal → Prop} :
    (observe f).Meets s onOk onFail ↔ onOk (f s.1) s :=
  Iff.rfl

theorem meets_publish (change : Change) {onOk : Unit → Builder × Journal → Prop} :
    (publish change).Meets s onOk onFail ↔ onOk () (s.1.record change, s.2) :=
  Iff.rfl

/-- What follows a fact about the builder may use it. -/
@[simp] theorem meets_observe_bind {α β : Type} (f : Builder → α) (next : α → Reporting Builder β)
    {onOk : β → Builder × Journal → Prop} :
    (observe f >>= next).Meets s onOk onFail ↔ (next (f s.1)).Meets s onOk onFail := by
  rw [meets_bind, meets_observe]

@[simp] theorem meets_update_bind {β : Type} (f : Builder → Builder)
    (next : Unit → Reporting Builder β) {onOk : β → Builder × Journal → Prop} :
    (update f >>= next).Meets s onOk onFail ↔ (next ()).Meets (f s.1, s.2) onOk onFail := by
  rw [meets_bind, meets_update]

@[simp] theorem meets_publish_bind {β : Type} (change : Change) (next : Unit → Reporting Builder β)
    {onOk : β → Builder × Journal → Prop} :
    (publish change >>= next).Meets s onOk onFail ↔
      (next ()).Meets (s.1.record change, s.2) onOk onFail := by
  rw [meets_bind, meets_publish]

end Builder

end XmlTable
