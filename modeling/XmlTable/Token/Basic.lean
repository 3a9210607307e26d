/-!
# Markup tokens

The bytes of a source fall into tokens: tags, character data, comments and so on. A token holds the
bytes between its delimiters, which need not be UTF-8, and is delivered with its position, a count
of bytes. The tokens of a source end where the source does, where it is malformed, or where it
cannot be read any further.
-/

namespace XmlTable

/-- A sequence of bytes. -/
abbrev Bytes := List UInt8

namespace Bytes

/-- The bytes of a text of ASCII characters. -/
def ascii (text : String) : Bytes :=
  text.toList.map fun c => c.toNat.toUInt8

/-- The byte of an ASCII character. -/
def ofChar (c : Char) : UInt8 :=
  c.toNat.toUInt8

/-- The text that the bytes encode in UTF-8. -/
def utf8? (bytes : Bytes) : Option String :=
  String.fromUTF8? ⟨bytes.toArray⟩

/-- White space between the parts of markup: space, tab, line feed and carriage return. -/
def isSpace (b : UInt8) : Bool :=
  b = 32 || b = 9 || b = 10 || b = 13

/-- A byte with an ASCII capital letter made small. -/
def lower (b : UInt8) : UInt8 :=
  if 65 ≤ b ∧ b ≤ 90 then b + 32 else b

/-- The bytes start with an ASCII text, capital and small letters being the same. -/
def startsWithLower (bytes : Bytes) (text : String) : Bool :=
  ((ascii text).map lower).isPrefixOf (bytes.map lower)

/-- The bytes without white space at the end; white space alone stays as it is. -/
def trimEnd (bytes : Bytes) : Bytes :=
  let kept := (bytes.reverse.dropWhile isSpace).reverse
  if kept.isEmpty then bytes else kept

end Bytes

/-- The inside of a start tag or an empty-element tag. -/
structure Tag where
  /-- Everything between the delimiters. -/
  content : Bytes
  /-- The name is so many bytes at the start of the content. -/
  nameLength : Nat
  deriving DecidableEq, Repr

/-- The name of a tag. -/
def Tag.name (tag : Tag) : Bytes :=
  tag.content.take tag.nameLength

/-- One piece of markup or the character data between two. -/
inductive Token where
  /-- A start tag. -/
  | start (tag : Tag)
  /-- The tag of an element without content. -/
  | empty (tag : Tag)
  /-- An end tag, with the name it closes. -/
  | close (name : Bytes)
  /-- Character data. -/
  | text (content : Bytes)
  /-- A CDATA section. -/
  | cdata (content : Bytes)
  /-- A comment. -/
  | comment (content : Bytes)
  /-- A processing instruction. -/
  | instruction (content : Bytes)
  /-- A document type declaration, from the name on. -/
  | doctype (content : Bytes)
  /-- An XML declaration. -/
  | declaration
  deriving DecidableEq, Repr

namespace Token

/-- The three kinds of markup that begin with an exclamation mark. -/
inductive Bang where
  /-- A comment. -/
  | comment
  /-- A CDATA section. -/
  | cdata
  /-- A document type declaration. -/
  | doctype
  deriving DecidableEq, Repr

/-- Why a piece of markup is no token. -/
inductive Fault where
  /-- Nothing follows the exclamation mark. -/
  | bareBang
  /-- The exclamation mark begins none of the three kinds. -/
  | unknownBang (found : UInt8)
  /-- Markup with an exclamation mark does not begin or end as it should. -/
  | unfinishedBang (kind : Bang)
  /-- A document type declaration says nothing. -/
  | emptyDoctype
  /-- A processing instruction does not end as it should. -/
  | unfinishedInstruction
  /-- An end tag does not name the innermost open element. -/
  | mismatchedEnd (expected found : Bytes)
  deriving DecidableEq, Repr

/-- The text of a name in a message, empty if it is not UTF-8. -/
def Fault.nameText (name : Bytes) : String :=
  name.utf8?.getD ""

/-- The wording of a fault. -/
def Fault.message : Fault → String
  | bareBang => "Unexpected EOF during reading Bang"
  | unknownBang found =>
    "Only Comment (`--`), CDATA (`[CDATA[`) and DOCTYPE (`DOCTYPE`) nodes can start with a '!', " ++
      "but symbol `" ++ String.singleton (Char.ofNat found.toNat) ++ "` found"
  | unfinishedBang .comment => "Unexpected EOF during reading Comment"
  | unfinishedBang .cdata => "Unexpected EOF during reading CData"
  | unfinishedBang .doctype => "Unexpected EOF during reading DOCTYPE"
  | emptyDoctype => "DOCTYPE declaration must not be empty"
  | unfinishedInstruction => "Unexpected EOF during reading XmlDecl"
  | mismatchedEnd expected found =>
    "Expecting </" ++ nameText expected ++ "> found </" ++ nameText found ++ ">"

/-- How the tokens of a source end. -/
inductive Ending where
  /-- The source ends at a position. -/
  | complete (position : Nat)
  /-- The markup at a position is no token. -/
  | malformed (position : Nat) (fault : Fault)
  /-- The source cannot be read further. -/
  | unreadable (message : String)
  deriving DecidableEq, Repr

/-- The tokens of a source, each with its position, and how they end. -/
structure Stream where
  /-- The tokens in order. -/
  tokens : List (Nat × Token)
  /-- What comes after them. -/
  ending : Ending
  deriving DecidableEq, Repr

end Token

/-- Where a document is read from. -/
structure Source where
  /-- The bytes that can be read. -/
  bytes : Bytes
  /-- The message of the fault that reading beyond them meets, if it is not the end. -/
  fault : Option String := none
  deriving DecidableEq, Repr

namespace Source

/-- The source that ends after some bytes. -/
def ofBytes (bytes : Bytes) : Source := { bytes }

/-- The source of a text in UTF-8. -/
def ofString (text : String) : Source :=
  ofBytes text.toUTF8.data.toList

/-- The source of which only the first `count` bytes can be read. -/
def brokenAfter (source : Source) (count : Nat) (message : String) : Source :=
  ⟨source.bytes.take count, some message⟩

end Source

end XmlTable
