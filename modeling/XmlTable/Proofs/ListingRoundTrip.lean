import XmlTable.Proofs.NextKnown
import XmlTable.Proofs.Writing

/-!
# Listings are read back

The fields of a line are words, so that a line is cut where it was put together, and the value at
its end is escaped, so that a line is one line. A listing is read back line by line, whatever the
names and texts of the document are, and what is read describes the records of the document.
-/

namespace XmlTable

open Node

namespace Listing

variable {d : Document} {n : NodeId} {r : Record} {e : Entry} {entries : List Entry}

/-! ### Words and lines -/

/-- A character that may stand in a word, neither a space nor one of a line end. -/
def InWord (c : Char) : Prop :=
  c ≠ ' ' ∧ c ≠ '\n' ∧ c ≠ '\r'

/-- A word is cut off at the space behind it. -/
theorem cutField_append {word : List Char} (hw : ∀ c ∈ word, InWord c) (rest : List Char) :
    cutField (word ++ ' ' :: rest) = (word, some rest) := by
  have all : ∀ c ∈ word, decide (c ≠ ' ') = true := fun c hc => decide_eq_true (hw c hc).1
  obtain ⟨taken, left⟩ := takeWhile_append_cons all (decide_eq_false (· rfl)) rest
  rw [cutField, taken, left]

/-- A line without a carriage return is finished as it is. -/
theorem finishLine_reverse {line : List Char} (h : '\r' ∉ line) :
    finishLine line.reverse = line := by
  unfold finishLine
  split
  · next rest hr =>
    exact absurd (List.mem_reverse.1 (hr ▸ List.mem_cons_self)) h
  · exact List.reverse_reverse line

/-- Characters that are no line feed are put on the line at hand. -/
theorem linesOnto_append (done : List (List Char)) {cs : List Char} (hcs : '\n' ∉ cs)
    (line rest : List Char) :
    linesOnto done line (cs ++ rest) = linesOnto done (cs.reverse ++ line) rest := by
  induction cs generalizing line with
  | nil => rfl
  | cons c cs ih =>
    obtain ⟨hc, hcs⟩ := List.ne_and_not_mem_of_not_mem_cons hcs
    rw [List.cons_append, linesOnto, if_neg hc.symm, ih hcs, List.reverse_cons, List.append_assoc]
    rfl

/-- Lines that have no line ends in them, each with a line feed behind it, are taken apart. -/
theorem linesOnto_flatMap (done : List (List Char)) {ls : List (List Char)}
    (hls : ∀ l ∈ ls, '\n' ∉ l ∧ '\r' ∉ l) :
    linesOnto done [] (ls.flatMap (· ++ ['\n'])) = done.reverse ++ ls := by
  induction ls generalizing done with
  | nil => exact (List.append_nil _).symm
  | cons l ls ih =>
    obtain ⟨newline, carriage⟩ := hls l List.mem_cons_self
    rw [List.flatMap_cons, List.append_assoc, linesOnto_append done newline, List.append_nil,
      List.singleton_append, linesOnto, if_pos rfl, finishLine_reverse carriage,
      ih (l :: done) fun l hl => hls l (List.mem_cons_of_mem _ hl)]
    simp

/-! ### The fields of a line -/

/-- The digits of a number are characters of words. -/
theorem inWord_of_mem_toDigits {c : Char} (hn : n < Text.wordBound)
    (hc : c ∈ (toString n).toList) : InWord c := by
  rw [Nat.toString_eq_repr, Nat.toList_repr] at hc
  have digit := Text.isSome_of_wordFrom? (Text.decimalWord?_toDigits 0 hn) hc
  refine ⟨?_, ?_, ?_⟩ <;> rintro rfl <;> exact absurd digit (by decide)

/-- A number that was written is read. -/
theorem decimalWord?_toString (hn : n < Text.wordBound) :
    Text.decimalWord? (toString n).toList = some n := by
  rw [Nat.toString_eq_repr, Nat.toList_repr]
  exact Text.word?_of_wordFrom? rfl Nat.toDigits_ne_nil (Text.decimalWord?_toDigits 0 hn)

/-- A number is not written as another character. -/
theorem toString_ne_singleton {c : Char} (hn : n < Text.wordBound)
    (hc : (Text.decimalDigit? c).isSome = false) : (toString n).toList ≠ [c] := by
  intro same
  rw [Nat.toString_eq_repr, Nat.toList_repr] at same
  have digit := Text.isSome_of_wordFrom? (Text.decimalWord?_toDigits 0 hn)
    (same ▸ List.mem_singleton_self c)
  rw [hc] at digit
  cases digit

/-- A label is a word. -/
theorem inWord_of_mem_label {k : Kind} {c : Char} (hc : c ∈ k.label.toList) : InWord c := by
  have all : k.label.toList.all fun c => c ≠ ' ' ∧ c ≠ '\n' ∧ c ≠ '\r' := by cases k <;> decide
  exact of_decide_eq_true (p := c ≠ ' ' ∧ c ≠ '\n' ∧ c ≠ '\r') (List.all_eq_true.1 all c hc)

/-- How a parent is written is a word. -/
theorem inWord_of_mem_parentText {parent : Option NodeId} {c : Char}
    (hp : ∀ p, parent = some p → p < Text.wordBound) (hc : c ∈ (parentText parent).toList) :
    InWord c := by
  cases parent with
  | none =>
    obtain rfl := List.mem_singleton.1 hc
    exact ⟨by decide, by decide, by decide⟩
  | some p => exact inWord_of_mem_toDigits (hp p rfl) hc

/-- A parent that was written is read. -/
theorem readParent?_parentText {parent : Option NodeId}
    (hp : ∀ p, parent = some p → p < Text.wordBound) :
    readParent? (parentText parent).toList = some parent := by
  cases parent with
  | none => rfl
  | some p =>
    show readParent? (toString p).toList = _
    rw [readParent?, if_neg (toString_ne_singleton (hp p rfl) (by decide)),
      decimalWord?_toString (hp p rfl)]
    rfl

/-- How a next sibling is written is a word. -/
theorem inWord_of_mem_linkText {link : Link} {c : Char}
    (hl : ∀ m, link = .next m → m < Text.wordBound) (hc : c ∈ (linkText link).toList) :
    InWord c := by
  cases link with
  | pending =>
    obtain rfl := List.mem_singleton.1 hc
    exact ⟨by decide, by decide, by decide⟩
  | last =>
    obtain rfl := List.mem_singleton.1 hc
    exact ⟨by decide, by decide, by decide⟩
  | next m => exact inWord_of_mem_toDigits (hl m rfl) hc

/-- A next sibling that was written is read. -/
theorem readLink?_linkText {link : Link} (hl : ∀ m, link = .next m → m < Text.wordBound) :
    readLink? (linkText link).toList = some link := by
  cases link with
  | pending => rfl
  | last => rfl
  | next m =>
    show readLink? (toString m).toList = _
    rw [readLink?, if_neg (toString_ne_singleton (hl m rfl) (by decide)),
      if_neg (toString_ne_singleton (hl m rfl) (by decide)), decimalWord?_toString (hl m rfl)]
    rfl

/-! ### Entries -/

/-- The numbers of the nodes that an entry names have 32 bits. -/
structure Entry.Fits (e : Entry) : Prop where
  /-- The node. -/
  index : e.index < Text.wordBound
  /-- Its parent. -/
  parent : ∀ p, e.parent = some p → p < Text.wordBound
  /-- Its next sibling. -/
  next : ∀ m, e.next = .next m → m < Text.wordBound

theorem Entry.toList_text (e : Entry) :
    e.text.toList = (toString e.index).toList ++ ' ' :: (e.kind.label.toList ++ ' ' ::
      ((parentText e.parent).toList ++ ' ' :: ((linkText e.next).toList ++ ' ' ::
        Text.escape e.value.toList))) := by
  have space : " ".toList = [' '] := rfl
  simp only [Entry.text, String.toList_append, String.toList_ofList, space, List.append_assoc,
    List.cons_append, List.nil_append]

/-- A line that was written is read, whatever the value at its end. -/
theorem Entry.Fits.readEntry?_text (h : e.Fits) : readEntry? e.text.toList = some e := by
  have index := cutField_append (fun c hc => inWord_of_mem_toDigits h.index hc)
  have label := cutField_append (fun c hc => inWord_of_mem_label (k := e.kind) hc)
  have parent := cutField_append (fun c hc => inWord_of_mem_parentText h.parent hc)
  have next := cutField_append (fun c hc => inWord_of_mem_linkText h.next hc)
  simp only [e.toList_text, readEntry?, index, label, parent, next, decimalWord?_toString h.index,
    readParent?_parentText h.parent, readLink?_linkText h.next, String.ofList_toList,
    Kind.ofLabel?_label, Text.unescape_escape, Option.getD_some, Option.bind_eq_bind,
    Option.bind_some]
  rfl

/-- An entry is written on one line. -/
theorem Entry.Fits.isLine (h : e.Fits) : '\n' ∉ e.text.toList ∧ '\r' ∉ e.text.toList := by
  have word : ∀ {cs : List Char}, (∀ c ∈ cs, InWord c) → '\n' ∉ cs ∧ '\r' ∉ cs := fun hcs =>
    ⟨fun hc => (hcs _ hc).2.1 rfl, fun hc => (hcs _ hc).2.2 rfl⟩
  have index := word fun c hc => inWord_of_mem_toDigits h.index hc
  have label := word fun c hc => inWord_of_mem_label (k := e.kind) hc
  have parent := word fun c hc => inWord_of_mem_parentText h.parent hc
  have next := word fun c hc => inWord_of_mem_linkText h.next hc
  have value := Text.newline_notMem_escape e.value.toList
  rw [e.toList_text]
  constructor <;> simp only [List.mem_append, List.mem_cons, not_or]
  · exact ⟨index.1, by decide, label.1, by decide, parent.1, by decide, next.1, by decide, value.1⟩
  · exact ⟨index.2, by decide, label.2, by decide, parent.2, by decide, next.2, by decide, value.2⟩

/-! ### Listings -/

theorem toList_write (entries : List Entry) :
    (write entries).toList = (entries.map (·.text.toList)).flatMap (· ++ ['\n']) := by
  have onto : ∀ text : String,
      (entries.foldl (fun text e => text ++ e.text ++ "\n") text).toList =
        text.toList ++ (entries.map (·.text.toList)).flatMap (· ++ ['\n']) := by
    induction entries with
    | nil => exact fun text => (List.append_nil _).symm
    | cons e rest ih =>
      intro text
      rw [List.foldl_cons, ih]
      simp
  exact onto ""

/-- Lines that were written are read one after another. -/
theorem readLines_map (h : ∀ e ∈ entries, e.Fits) (done : List Entry) (number : Nat) :
    readLines done number (entries.map (·.text.toList)) = .ok (done.reverse ++ entries) := by
  induction entries generalizing done number with
  | nil => simp [readLines]
  | cons e rest ih =>
    have nonempty : e.text.toList.isEmpty = false := by
      rw [e.toList_text]
      simp
    rw [List.map_cons, readLines, nonempty, (h e List.mem_cons_self).readEntry?_text]
    dsimp only
    rw [if_neg Bool.false_ne_true, ih fun e he => h e (List.mem_cons_of_mem _ he)]
    simp

/-- What was written is read. -/
theorem parse_write (h : ∀ e ∈ entries, e.Fits) : parse (write entries) = .ok entries := by
  have apart : ∀ l ∈ entries.map (·.text.toList), '\n' ∉ l ∧ '\r' ∉ l := by
    intro l hl
    obtain ⟨e, he, rfl⟩ := List.mem_map.1 hl
    exact (h e he).isLine
  rw [parse, lines, toList_write, linesOnto_flatMap [] apart]
  exact readLines_map h [] 1

/-! ### The lines of a document -/

/-- A sibling that the scan of a listing comes to is there. -/
theorem lt_size_of_siblingFrom {parent : Option NodeId} {fuel i m : Nat}
    (h : siblingFrom d parent fuel i = .next m) : m < d.nodes.size := by
  have ended : ∀ {P : Prop}, (if d.isDone then Link.last else .pending) = .next m → P := by
    intro P h
    split at h <;> cases h
  induction fuel generalizing i with
  | zero => exact ended h
  | succ fuel ih =>
    rw [siblingFrom] at h
    split at h
    · next found hfound =>
      split at h
      · exact ih h
      · split at h
        · cases h
          exact Table.lt_size_of_get? hfound
        · cases h
    · exact ended h

/-- A sibling that a listing names is there. -/
theorem lt_size_of_nextKnown {m : NodeId} (hd : d.WellFormed) (hr : d.nodes.get? n = some r)
    (h : nextKnown d n r = .next m) : m < d.nodes.size := by
  rw [nextKnown] at h
  split at h
  · cases h
  · split at h
    · next l hl =>
      have known : d.nodes.link? n = some (.next m) := by
        rw [Table.link?_of_get? hr, Record.link?, hl, h]
      exact ((hd.linked (Table.kind?_of_get? hr)).next known).1.lt_size
    · dsimp only at h
      split at h
      · cases h
      · exact lt_size_of_siblingFrom h

/-- The numbers in the listing of a document have 32 bits. -/
theorem fits_entry (hd : d.WellFormed) (hr : d.nodes.get? n = some r) : (entry d n r).Fits := by
  have small : ∀ {m : NodeId}, m < d.nodes.size → m < Text.wordBound := fun hm =>
    Nat.lt_of_lt_of_le hm (Nat.le_trans hd.size_le_indexBound (by decide))
  have hn := Table.lt_size_of_get? hr
  refine ⟨small hn, fun p hp => small ?_, fun m hm => small (lt_size_of_nextKnown hd hr hm)⟩
  exact Nat.lt_trans (hd.layout.parent_lt ((Table.parent?_of_get? hr).trans hp)) hn

/-- The listing of a document is read back. -/
theorem parse_dump (hd : d.WellFormed) : parse (dump d) = .ok (ofDocument d) := by
  refine parse_write fun e he => ?_
  obtain ⟨n, -, he⟩ := List.mem_filterMap.1 he
  obtain ⟨r, hr, rfl⟩ := Option.map_eq_some_iff.1 he
  exact fits_entry hd hr

/-- What a listing shows for a record: the payload of a text or a comment, the target of an
instruction and behind a space its data if there are any, and otherwise the name. It shows nothing
for the document. -/
def Shows (d : Document) (r : Record) (value : String) : Prop :=
  match r.kind with
  | .document => value = ""
  | .text | .comment => d.texts.resolve r.payload = some value
  | .instruction => ∃ target data, d.names.resolve r.name = some target ∧
      d.texts.resolve r.payload = some data ∧
      value = if data = "" then target else target ++ " " ++ data
  | .element | .attr | .entity | .reference => d.names.resolve r.name = some value

/-- The name of a record is the string with its symbol. -/
theorem resolve_name (hd : d.WellFormed) (hr : d.nodes.get? n = some r) :
    d.names.resolve r.name = some (d.name r.name) := by
  obtain ⟨name, hname⟩ := Option.isSome_iff_exists.1 (hd.resolves hr).name
  rw [Document.name, hname]
  rfl

/-- The payload of a record that has one is the string with its symbol. -/
theorem resolve_payload (hd : d.WellFormed) (hr : d.nodes.get? n = some r)
    (plain : r.kind.isLinked = false) (inner : r.kind ≠ .document) :
    d.texts.resolve r.payload = some (d.text r.payload) := by
  have known := (hd.linked (Table.kind?_of_get? hr)).isSome_link?
  rw [Table.link?_of_get? hr, plain] at known
  cases hl : r.link with
  | sibling l =>
    rw [Record.link?, hl] at known
    cases known
  | payload s =>
    have here : r.payload = s := by rw [Record.payload, hl]
    obtain ⟨text, htext⟩ := Option.isSome_iff_exists.1 ((hd.resolves hr).payload inner s hl)
    rw [here, Document.text, Symbol.Store.get, htext]
    rfl

theorem shows_shownValue (hd : d.WellFormed) (hr : d.nodes.get? n = some r) :
    Shows d r (shownValue d r) := by
  have name := resolve_name hd hr
  have payload := resolve_payload hd hr
  unfold Shows shownValue
  cases hk : r.kind <;> rw [hk] at payload <;> dsimp only
  case text => exact payload rfl (by decide)
  case comment => exact payload rfl (by decide)
  case instruction =>
    refine ⟨_, _, name, payload rfl (by decide), ?_⟩
    simp only [String.isEmpty_iff]
  all_goals exact name

/-- An entry tells of a record at a node. -/
structure Entry.Describes (d : Document) (n : NodeId) (r : Record) (e : Entry) : Prop where
  /-- The index is that of the node. -/
  index : e.index = n
  /-- The kind is that of the record. -/
  kind : e.kind = r.kind
  /-- The parent is that of the record. -/
  parent : e.parent = r.parent
  /-- The next sibling is what is known of it. -/
  next : e.next = nextKnown d n r
  /-- The value is what is to be shown. -/
  value : Shows d r e.value

end Listing

namespace Builder

variable {config : Config} {changes : List Change}

/-- At every moment of every run the listing of the document can be read, whatever the names and
texts in it are. There is a line for each record, in the order of the records, and it tells of the
record its index, its kind, its parent, what is known of its next sibling, and its name or
payload. -/
theorem listing_reads_back (h : IsRun config changes) (j : Nat) :
    let d := (Document.initial config).moment changes j
    ∃ entries, Listing.parse (Listing.dump d) = .ok entries ∧ entries.length = d.nodeCount ∧
      ∀ n r, d.nodes.get? n = some r → ∃ e, entries[n]? = some e ∧ e.Describes d n r := by
  intro d
  have hd : d.WellFormed := h.grows.wellFormed (Document.wellFormed_initial config) j
  refine ⟨Listing.ofDocument d, Listing.parse_dump hd, Listing.length_ofDocument d,
    fun n r hr => ⟨Listing.entry d n r, ?_, rfl, rfl, rfl, rfl, Listing.shows_shownValue hd hr⟩⟩
  rw [Listing.getElem?_ofDocument, hr]
  rfl

/-- The listing of a document that still grows, with a line end in the name of its root and in a
comment: the comment is read as it was. -/
theorem listing_reads_back_of_line_ends :
    let events : List Event := [.startDocument, .startElement "a\n b" [], .comment " \r\n\x5cn "]
    let changes :=
      ((acceptAll events).run.run (start .standard, { handler := .lenient })).2.1.history.toList
    let d := (Document.initial .standard).moment changes changes.length
    d.isDone = false ∧ ∃ entries, Listing.parse (Listing.dump d) = .ok entries ∧
      entries[2]?.map (·.value) = some " \r\n\x5cn " := by
  intro events changes d
  have isRun : IsRun .standard changes :=
    ⟨_, _, reaches_acceptAll _ _, List.filter_eq_self.2 (List.all_eq_true.1 (by decide +kernel))⟩
  obtain ⟨entries, parsed, -, line⟩ := listing_reads_back isRun changes.length
  have comment : (d.nodes.get? 2).map (fun r => (r.kind, d.texts.resolve r.payload)) =
      some (.comment, some " \r\n\x5cn ") := by decide +kernel
  obtain ⟨r, hr, same⟩ := Option.map_eq_some_iff.1 comment
  obtain ⟨kind, payload⟩ := Prod.mk.inj same
  obtain ⟨e, he, describes⟩ := line 2 r hr
  have shown := describes.value
  rw [Listing.Shows, kind] at shown
  refine ⟨by decide +kernel, entries, parsed, ?_⟩
  rw [he]
  exact shown.symm.trans payload

end Builder

end XmlTable
