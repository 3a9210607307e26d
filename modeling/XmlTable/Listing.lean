import XmlTable.Document
import XmlTable.Text.Escape
import XmlTable.Text.Numeral

/-!
# Listings

A listing has one line for each record that a document has, whether the document is complete or
not: the index, the kind, the parent, the next sibling as far as it is known, and a value. A missing
parent or sibling is a dash, an unknown sibling a question mark, and the value is escaped so that
the line stays one line. Listings are read back line by line.
-/

namespace XmlTable

open Node

namespace Listing

/-- One line of a listing. -/
structure Entry where
  /-- The index of the node. -/
  index : NodeId
  /-- The kind of the node. -/
  kind : Kind
  /-- The parent of the node. -/
  parent : Option NodeId
  /-- What is known of the next sibling. -/
  next : Link
  /-- The name of a named node, else the payload. -/
  value : String
  deriving DecidableEq, Repr

/-! ## Making a listing -/

/-- What a document knows of a sibling that is looked for from `index` on, past attributes and
entities: it is the first structural record if that has the parent. -/
def siblingFrom (doc : Document) (parent : Option NodeId) : Nat → NodeId → Link
  | 0, _ => if doc.isDone then .last else .pending
  | fuel + 1, index =>
    match doc.nodes.get? index with
    | some found =>
      if found.kind.hasValueNode then siblingFrom doc parent fuel (index + 2)
      else if found.parent = parent then .next index
      else .last
    | none => if doc.isDone then .last else .pending

/-- What a document knows of the next sibling of a record. -/
def nextKnown (doc : Document) (index : NodeId) (own : Record) : Link :=
  if own.kind = .document then .last
  else match own.link with
    | .sibling link => link
    | .payload _ =>
      let holdsValue := (own.parent.bind doc.nodes.get?).any (·.kind.hasValueNode)
      if holdsValue then .last
      else siblingFrom doc own.parent (doc.nodes.size - index) (index + 1)

/-- The value that a listing shows for a record. -/
def shownValue (doc : Document) (own : Record) : String :=
  match own.kind with
  | .document => ""
  | .text | .comment => doc.text own.payload
  | .instruction =>
    let data := doc.text own.payload
    if data.isEmpty then doc.name own.name else doc.name own.name ++ " " ++ data
  | .element | .attr | .entity | .reference => doc.name own.name

/-- The line for a record. -/
def entry (doc : Document) (index : NodeId) (own : Record) : Entry where
  index := index
  kind := own.kind
  parent := own.parent
  next := nextKnown doc index own
  value := shownValue doc own

/-- The lines for all records of a document, in order. -/
def ofDocument (doc : Document) : List Entry :=
  (List.range doc.nodeCount).filterMap fun index => (doc.nodes.get? index).map (entry doc index)

/-! ## Writing -/

/-- How a parent is written. -/
def parentText : Option NodeId → String
  | none => "-"
  | some node => toString node

/-- How a next sibling is written. -/
def linkText : Link → String
  | .pending => "?"
  | .last => "-"
  | .next node => toString node

/-- How an entry is written. -/
def Entry.text (e : Entry) : String :=
  toString e.index ++ " " ++ e.kind.label ++ " " ++ parentText e.parent ++ " " ++
    linkText e.next ++ " " ++ String.ofList (Text.escape e.value.toList)

/-- How entries are written, each on a line. -/
def write (entries : List Entry) : String :=
  entries.foldl (fun text e => text ++ e.text ++ "\n") ""

/-- The listing of a document. -/
def dump (doc : Document) : String :=
  write (ofDocument doc)

/-! ## Reading -/

/-- A line, given backwards, without a carriage return at its end. -/
def finishLine : List Char → List Char
  | '\r' :: rest => rest.reverse
  | line => line.reverse

/-- The lines of a text. The line at hand is in `line`, last character first, and the lines before
it are in `done`, last one first. -/
def linesOnto (done : List (List Char)) (line : List Char) : List Char → List (List Char)
  | [] => if line.isEmpty then done.reverse else (line.reverse :: done).reverse
  | c :: rest =>
    if c = '\n' then linesOnto (finishLine line :: done) [] rest
    else linesOnto done (c :: line) rest

/-- The lines of a text. A line ends at a line feed, before which a carriage return is dropped; what
follows the last line feed is a line if there is anything. -/
def lines (text : String) : List (List Char) :=
  linesOnto [] [] text.toList

/-- The characters before the first space, and those after it if there is one. -/
def cutField (cs : List Char) : List Char × Option (List Char) :=
  (cs.takeWhile (· ≠ ' '),
    match cs.dropWhile (· ≠ ' ') with
    | _ :: rest => some rest
    | [] => none)

/-- Read a parent. -/
def readParent? (cs : List Char) : Option (Option NodeId) :=
  if cs = ['-'] then some none else (Text.decimalWord? cs).map some

/-- Read a next sibling. -/
def readLink? (cs : List Char) : Option Link :=
  if cs = ['?'] then some .pending
  else if cs = ['-'] then some .last
  else (Text.decimalWord? cs).map .next

/-- Read an entry. The value may be missing with the space before it. -/
def readEntry? (line : List Char) : Option Entry := do
  let (index, rest) := cutField line
  let index ← Text.decimalWord? index
  let (label, rest) := cutField (← rest)
  let kind ← Kind.ofLabel? (String.ofList label)
  let (parent, rest) := cutField (← rest)
  let parent ← readParent? parent
  let (next, rest) := cutField (← rest)
  let next ← readLink? next
  return { index, kind, parent, next, value := String.ofList (Text.unescape (rest.getD [])) }

/-- Read the entries on some lines, of which the first has the number `number`. Empty lines are
skipped; the entries before them are in `done`, last one first. -/
def readLines (done : List Entry) (number : Nat) :
    List (List Char) → Except Failure (List Entry)
  | [] => .ok done.reverse
  | line :: rest =>
    if line.isEmpty then readLines done (number + 1) rest
    else match readEntry? line with
      | some e => readLines (e :: done) (number + 1) rest
      | none => .error (.parse number "malformed dump line")

/-- Read a listing. -/
def parse (text : String) : Except Failure (List Entry) :=
  readLines [] 1 (lines text)

end Listing

end XmlTable
