import XmlTable.Proofs.Outline

/-!
# Ignorable white space left out

Whether ignorable white space is stripped makes no difference but that it is not there. All nodes
after a text that is left out have smaller numbers, and so have the nodes that others name. The
outlines of the same events show that: with every event, the one without the texts is what remains
of the other when they are deleted from it.
-/

namespace XmlTable

open Node Namespace

/-! ### Deleting from a list -/

section Kept

variable {α : Type} {p : α → Bool} {l m : List α} {a : α} {i j : Nat}

/-- What is kept of a list stands after what is kept before it. -/
theorem getElem?_filter_countP (h : l[i]? = some a) (keep : p a = true) :
    (l.filter p)[(l.take i).countP p]? = some a := by
  obtain ⟨hi, rfl⟩ := List.getElem?_eq_some_iff.1 h
  have parts : l = l.take i ++ l[i] :: l.drop (i + 1) := by
    rw [← List.drop_eq_getElem_cons hi, List.take_append_drop]
  have kept : l.filter p = (l.take i).filter p ++ l[i] :: (l.drop (i + 1)).filter p := by
    conv_lhs => rw [parts]
    rw [List.filter_append, List.filter_cons_of_pos keep]
  rw [kept, List.countP_eq_length_filter, List.getElem?_append_right (Nat.le_refl _), Nat.sub_self]
  rfl

/-- Whatever is kept stood somewhere. -/
theorem exists_of_getElem?_filter (h : (l.filter p)[j]? = some a) :
    ∃ i, l[i]? = some a ∧ p a = true ∧ (l.take i).countP p = j := by
  induction l generalizing j with
  | nil => cases h
  | cons b rest ih =>
    by_cases keep : p b = true
    · rw [List.filter_cons_of_pos keep] at h
      cases j with
      | zero =>
        obtain rfl := Option.some.inj h
        exact ⟨0, rfl, keep, rfl⟩
      | succ j =>
        obtain ⟨i, hi, ha, rfl⟩ := ih h
        exact ⟨i + 1, hi, ha, by rw [List.take_succ_cons, List.countP_cons_of_pos keep]⟩
    · rw [List.filter_cons_of_neg keep] at h
      obtain ⟨i, hi, ha, rfl⟩ := ih h
      exact ⟨i + 1, hi, ha, by rw [List.take_succ_cons, List.countP_cons_of_neg keep]⟩

end Kept

namespace Outline

/-! ### Deleting from an outline -/

/-- The node is no ignorable white space. -/
def Entry.isKept (e : Entry) : Bool :=
  !(e.kind = .text && e.flags.ignorable)

/-- What is told of a node when the numbers of nodes are others. -/
def Entry.move (f : Nat → Nat) (e : Entry) : Entry :=
  { e with parent := e.parent.map f }

/-- The number that a node has when ignorable white space is deleted. -/
def place (l : List Entry) (n : Nat) : Nat :=
  (l.take n).countP Entry.isKept

/-- What is told of the nodes when ignorable white space is deleted. -/
def withoutIgnorable (l : List Entry) : List Entry :=
  (l.filter Entry.isKept).map (.move (place l))

variable {l m : List Entry} {e e' : Entry} {i j n : Nat}

/-- Only texts are deleted. -/
theorem Entry.isKept_of_ne (other : e.kind ≠ .text) : e.isKept = true := by
  rw [Entry.isKept, decide_eq_false other]
  rfl

@[simp] theorem place_zero (l : List Entry) : place l 0 = 0 := rfl

theorem place_append_left (h : n ≤ l.length) : place (l ++ m) n = place l n := by
  rw [place, List.take_append_of_le_length h]
  rfl

theorem place_append_right (kept : ∀ e ∈ m, e.isKept = true) (h : i ≤ m.length) :
    place (l ++ m) (l.length + i) = place l l.length + i := by
  have all : (m.take i).countP Entry.isKept = i := by
    rw [List.countP_eq_length.2 fun e he => kept e (List.mem_of_mem_take he), List.length_take,
      Nat.min_eq_left h]
  rw [place, List.take_length_add_append, List.countP_append, all, place, List.take_length]

/-- As many nodes are left as come before the end. -/
theorem length_withoutIgnorable (l : List Entry) :
    (withoutIgnorable l).length = place l l.length := by
  rw [withoutIgnorable, List.length_map, place, List.take_length, List.countP_eq_length_filter]

theorem getElem?_withoutIgnorable (h : l[n]? = some e) (kept : e.isKept = true) :
    (withoutIgnorable l)[place l n]? = some (e.move (place l)) := by
  rw [withoutIgnorable, List.getElem?_map, place, getElem?_filter_countP h kept]
  rfl

theorem exists_of_getElem?_withoutIgnorable (h : (withoutIgnorable l)[j]? = some e') :
    ∃ n e, l[n]? = some e ∧ e.isKept = true ∧ place l n = j ∧ e' = e.move (place l) := by
  rw [withoutIgnorable, List.getElem?_map] at h
  obtain ⟨e, he, rfl⟩ := Option.map_eq_some_iff.1 h
  obtain ⟨n, hn, kept, rfl⟩ := exists_of_getElem?_filter he
  exact ⟨n, e, hn, kept, rfl, rfl⟩

/-- After a node that is kept comes the next place. -/
theorem place_succ (h : l[n]? = some e) (kept : e.isKept = true) :
    place l (n + 1) = place l n + 1 := by
  obtain ⟨hn, rfl⟩ := List.getElem?_eq_some_iff.1 h
  rw [place, List.take_succ_eq_append_getElem hn, List.countP_append, List.countP_singleton,
    if_pos kept]
  rfl

/-- Deleting keeps the order of the nodes that are kept. -/
theorem place_lt (h : l[n]? = some e) (kept : e.isKept = true) (hj : n < j) :
    place l n < place l j := by
  rw [← Nat.succ_le_iff, Nat.succ_eq_add_one, ← place_succ h kept]
  exact ((List.take_prefix_take_left hj).sublist).countP_le

/-- What is deleted of more nodes is deleted of the first and of the others, if those name no later
nodes. -/
theorem withoutIgnorable_append (parents : ∀ e ∈ l, ∀ p, e.parent = some p → p ≤ l.length)
    (m : List Entry) : withoutIgnorable (l ++ m) =
      withoutIgnorable l ++ (m.filter Entry.isKept).map (.move (place (l ++ m))) := by
  rw [withoutIgnorable, List.filter_append, List.map_append, withoutIgnorable]
  congr 1
  refine List.map_congr_left fun e he => ?_
  have below := parents e (List.mem_filter.1 he).1
  obtain ⟨kind, flags, parent, name, uri?, text⟩ := e
  cases parent with
  | none => rfl
  | some p => simp only [Entry.move, Option.map_some, place_append_left (below p rfl)]

/-! ### Outlines in step -/

/-- The elements that are open when the numbers of nodes are others. -/
def Opened.move (f : Nat → Nat) (opened : Opened) : Opened :=
  opened.map fun element => (f element.1, element.2)

variable {f : Nat → Nat} {opened : Opened} {declared : Declared}

theorem Opened.cursor_move (root : f documentId = documentId) :
    (opened.move f).cursor = f opened.cursor := by
  cases opened with
  | nil => exact root.symm
  | cons => rfl

/-- Which numbers the elements have does not matter to what they declare. -/
theorem Opened.declared_move (f : NodeId → NodeId) (opened : Opened) :
    (opened.move f).declared = opened.declared := by
  induction opened with
  | nil => rfl
  | cons element outer ih =>
    show Declared.shadowing _ (Opened.declared (Opened.move f outer)) = _
    rw [ih]
    rfl

/-- The attributes of an element are the same when all nodes from one on are moved by the same
distance. -/
theorem Entry.ofAttributes_move {element node node' : Nat} {attributes : List Event.Attribute}
    (shift : ∀ i < 2 * attributes.length, f (node + i) = node' + i) :
    (Entry.ofAttributes declared element node attributes).map (.move f) =
      Entry.ofAttributes declared (f element) node' attributes := by
  induction attributes generalizing node node' with
  | nil => rfl
  | cons attr rest ih =>
    rw [List.length_cons] at shift
    obtain rfl : f node = node' := shift 0 (by omega)
    have later := @ih (node + 2) (f node + 2) fun i hi => by
      rw [Nat.add_assoc, shift (2 + i) (by omega), Nat.add_assoc]
    show _ :: _ :: _ = _ :: _ :: _
    rw [later]
    rfl

/-- One outline is another from which ignorable white space was deleted. -/
structure Strips (o o' : Outline) : Prop where
  /-- The nodes. -/
  entries : o'.entries = withoutIgnorable o.entries
  /-- The elements that are open. -/
  opened : o'.opened = o.opened.move (place o.entries)
  /-- The characters that are no node yet. -/
  pending : o'.pending = o.pending
  /-- The entities. -/
  entities : o'.entities = o.entities
  /-- No node names one that has not come. -/
  parents : ∀ e ∈ o.entries, ∀ p, e.parent = some p → p ≤ o.entries.length
  /-- The open elements have come. -/
  come : ∀ element ∈ o.opened, element.1 ≤ o.entries.length

variable {o o' : Outline} {event : Event}

theorem Strips.length_eq (h : Strips o o') :
    o'.entries.length = place o.entries o.entries.length := by
  rw [h.entries, length_withoutIgnorable]

theorem Strips.cursor (h : Strips o o') : o'.opened.cursor = place o.entries o.opened.cursor := by
  rw [h.opened, Opened.cursor_move (place_zero _)]

theorem Strips.cursor_le (h : Strips o o') : o.opened.cursor ≤ o.entries.length := by
  have come := h.come
  cases hc : o.opened with
  | nil => exact Nat.zero_le _
  | cons element outer => exact come element (hc ▸ List.mem_cons_self)

/-- The open elements have the same numbers when more nodes come. -/
theorem Strips.opened_append (h : Strips o o') (m : List Entry) :
    o'.opened = o.opened.move (place (o.entries ++ m)) := by
  refine h.opened.trans (List.map_congr_left fun element hm => ?_)
  rw [place_append_left (h.come element hm)]

/-- More nodes that name no later ones keep outlines in step. -/
theorem Strips.append (h : Strips o o') {m m' : List Entry}
    (same : m' = (m.filter Entry.isKept).map (.move (place (o.entries ++ m))))
    (parents : ∀ e ∈ m, ∀ p, e.parent = some p → p ≤ (o.entries ++ m).length) :
    Strips { o with entries := o.entries ++ m } { o' with entries := o'.entries ++ m' } where
  entries := by
    show o'.entries ++ m' = withoutIgnorable (o.entries ++ m)
    rw [withoutIgnorable_append h.parents, ← h.entries, same]
  opened := h.opened_append m
  pending := h.pending
  entities := h.entities
  parents e he p hp := by
    rcases List.mem_append.1 he with he | he
    · exact Nat.le_trans (h.parents e he p hp) (by simp)
    · exact parents e he p hp
  come element hm := Nat.le_trans (h.come element hm) (by simp)

/-- Characters that come to their end keep outlines in step. -/
theorem Strips.flush (h : Strips o o') : Strips (o.flush false) (o'.flush true) := by
  have step : Strips
      { o with entries := o.entries ++ (o.held false).toList.map (.ofText o.opened.cursor) }
      { o' with
        entries := o'.entries ++ (o'.held true).toList.map (.ofText o'.opened.cursor) } := by
    refine h.append ?_ fun e he p hp => ?_
    · rw [held, held, h.pending, h.cursor]
      cases o.pending with
      | none => rfl
      | some run =>
        obtain ⟨text, flags⟩ := run
        cases hi : flags.ignorable <;>
          simp [Option.filter_some, hi, Entry.isKept, Entry.ofText, Entry.move,
            place_append_left h.cursor_le]
    · obtain ⟨run, -, rfl⟩ := List.mem_map.1 he
      obtain rfl := Option.some.inj hp
      exact Nat.le_trans h.cursor_le (by simp)
  exact { step with pending := rfl }

/-- What an event adds is the same but for the numbers of nodes. -/
theorem added_eq_map (event : Event) (opened : o'.opened = o.opened.move f)
    (entities : o'.entities = o.entities) (root : f documentId = documentId)
    (shift : ∀ i < (o.added event).length,
      f (o.entries.length + i) = o'.entries.length + i) :
    o'.added event = (o.added event).map (.move f) := by
  have cursor : o'.opened.cursor = f o.opened.cursor := by
    rw [opened, Opened.cursor_move root]
  cases event with
  | startElement name attributes =>
    have element : f o.entries.length = o'.entries.length := shift 0 (Nat.succ_pos _)
    have declared : Opened.declared ((o'.entries.length, attributes) :: o'.opened) =
        Opened.declared ((o.entries.length, attributes) :: o.opened) := by
      rw [← element, opened]
      exact Opened.declared_move f ((o.entries.length, attributes) :: o.opened)
    have later : ∀ i < 2 * attributes.length,
        f (o.entries.length + 1 + i) = o'.entries.length + 1 + i := fun i hi => by
      rw [Nat.add_assoc, shift (1 + i), Nat.add_assoc]
      rw [added, Entry.ofElement, List.length_cons, Entry.length_ofAttributes]
      omega
    rw [added, added, Entry.ofElement, Entry.ofElement, declared, cursor, List.map_cons,
      Entry.ofAttributes_move later, element]
    rfl
  | entityDeclaration name value =>
    have knows : o'.Knows name ↔ o.Knows name := by rw [Knows, Knows, entities]
    rw [added] at shift ⊢
    rw [added]
    by_cases known : o.Knows name
    · rw [if_pos known, if_pos (knows.2 known)]
      rfl
    · rw [if_neg known] at shift ⊢
      have own : f o.entries.length = o'.entries.length := shift 0 Nat.two_pos
      rw [if_neg (mt knows.1 known), ← own]
      show [_, _] = [Entry.move f _, Entry.move f _]
      simp only [Entry.move, Option.map_some, root]
      rfl
  | comment =>
    rw [added, cursor]
    rfl
  | instruction =>
    rw [added, cursor]
    rfl
  | entityReference =>
    rw [added, cursor]
    rfl
  | _ => rfl

theorem Entry.isKept_of_mem_ofAttributes {element node : Nat} {attributes : List Event.Attribute}
    (h : e ∈ Entry.ofAttributes declared element node attributes) : e.isKept = true := by
  induction attributes generalizing node with
  | nil => cases h
  | cons attr rest ih =>
    rcases List.mem_cons.1 h with rfl | h
    · rfl
    rcases List.mem_cons.1 h with rfl | h
    · rfl
    · exact ih h

/-- What an event adds after characters is kept. -/
theorem isKept_of_mem_added (h : e ∈ o.added event) : e.isKept = true := by
  cases event with
  | startElement =>
    rcases List.mem_cons.1 h with rfl | h
    · rfl
    · exact Entry.isKept_of_mem_ofAttributes h
  | entityDeclaration =>
    rw [added] at h
    split at h
    · cases h
    rcases List.mem_cons.1 h with rfl | h
    · rfl
    · rw [List.mem_singleton.1 h]
      rfl
  | endDocument | endElement | characters | fatalError => cases h
  | _ =>
    rw [List.mem_singleton.1 h]
    rfl

/-- What an event adds keeps outlines in step. -/
theorem Strips.take (h : Strips o o') (event : Event) : Strips (o.take event) (o'.take event) := by
  have kept : ∀ e ∈ o.added event, e.isKept = true := fun _ => isKept_of_mem_added
  have place_new : ∀ i ≤ (o.added event).length,
      place (o.entries ++ o.added event) (o.entries.length + i) = o'.entries.length + i :=
    fun i hi => by rw [place_append_right kept hi, h.length_eq]
  have same : o'.added event = ((o.added event).filter Entry.isKept).map
      (.move (place (o.entries ++ o.added event))) := by
    rw [List.filter_eq_self.2 kept]
    exact added_eq_map event (h.opened_append _) h.entities (place_zero _)
      fun i hi => place_new i (Nat.le_of_lt hi)
  have step := h.append same fun e he p hp => by
    rw [List.length_append]
    rcases parent_of_mem_added he hp with rfl | hlt
    · exact Nat.le_trans h.cursor_le (Nat.le_add_right ..)
    · exact Nat.le_of_lt hlt
  have knows : ∀ name, o'.Knows name ↔ o.Knows name := fun name => by
    rw [Knows, Knows, h.entities]
  refine { step with opened := ?_, entities := ?_, come := ?_ }
  · cases event with
    | startElement name attributes =>
      have element := place_new 0 (Nat.zero_le _)
      show (_, attributes) :: o'.opened = (_, attributes) :: o.opened.move _
      rw [step.opened]
      exact congrArg (fun n => (n, attributes) :: _) element.symm
    | endElement =>
      show o'.opened.tail = Opened.move _ o.opened.tail
      rw [Opened.move, List.map_tail]
      exact congrArg List.tail step.opened
    | _ => exact step.opened
  · cases event with
    | entityDeclaration name value =>
      show (if o'.Knows name then _ else _) = if o.Knows name then _ else _
      rw [if_congr (knows name) h.entities (congrArg (· ++ _) h.entities)]
    | _ => exact h.entities
  · cases event with
    | startElement name attributes =>
      intro element hm
      rcases List.mem_cons.1 hm with rfl | hm
      · exact List.length_append ▸ Nat.le_add_right ..
      · exact step.come element hm
    | endElement => exact fun element hm => step.come element (List.mem_of_mem_tail hm)
    | _ => exact step.come

/-- An event keeps outlines in step. -/
theorem Strips.step (h : Strips o o') (event : Event) :
    Strips (o.step false event) (o'.step true event) := by
  cases event with
  | characters text flags =>
    have outside : o'.opened.isEmpty = o.opened.isEmpty := by
      rw [h.opened]
      exact List.isEmpty_map
    show Strips (if o.opened.isEmpty then o else _) (if o'.opened.isEmpty then o' else _)
    rw [outside]
    by_cases root : o.opened.isEmpty
    · rw [if_pos root, if_pos root]
      exact h
    · rw [if_neg root, if_neg root]
      exact { h with pending := by rw [h.pending] }
  | fatalError => exact h
  | _ => exact h.flush.take _

/-- The outline without ignorable white space is the other one without the nodes for it. -/
theorem strips_ofEvents (events : List Event) :
    Strips (ofEvents false events) (ofEvents true events) := by
  induction events using List.reverseRecOn with
  | nil => exact ⟨rfl, rfl, rfl, rfl, nofun, nofun⟩
  | append_singleton events event ih =>
    rw [ofEvents_concat, ofEvents_concat]
    exact ih.step event

end Outline

end XmlTable
