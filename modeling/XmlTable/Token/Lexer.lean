import XmlTable.Token.Basic

/-!
# From bytes to tokens

The lexer reads one token at a time. Markup begins at a less-than sign and character data runs up to
the next one; that sign counts as read with the character data, which shows in positions. A tag or
a processing instruction may lack its end at the end of the source. Only end tags are checked
against the tags before them: each must name the innermost element that is open, so the lexer keeps
the names of the open elements.
-/

namespace XmlTable.Token

/-- What the lexer knows between two tokens. -/
structure Lexer where
  /-- The bytes not read yet. -/
  rest : Bytes
  /-- The number of bytes read. -/
  offset : Nat := 0
  /-- The last token was character data, so that the sign that begins markup is read already. -/
  afterText : Bool := false
  /-- The names of the open elements, innermost first. -/
  openNames : List Bytes := []
  deriving DecidableEq, Repr

namespace Lexer

/-- The mark of the encoding that may stand at the very start. -/
def byteOrderMark : Bytes := [0xEF, 0xBB, 0xBF]

/-- The lexer before the first byte. A byte order mark is dropped and not counted. -/
def start (bytes : Bytes) : Lexer :=
  { rest := if byteOrderMark.isPrefixOf bytes then bytes.drop 3 else bytes }

/-- The position of the next token: after character data, one byte before what was read. -/
def position (lexer : Lexer) : Nat :=
  lexer.offset - if lexer.afterText then 1 else 0

/-- What reading a token comes to. -/
inductive Step where
  /-- A token was read. -/
  | token (token : Token) (next : Lexer)
  /-- There is nothing left, after so many bytes. -/
  | finished (position : Nat)
  /-- The markup is no token. -/
  | malformed (fault : Fault)
  /-- The source cannot be read as far as needed. -/
  | unreadable (message : String)
  deriving DecidableEq, Repr

/-- A step that has used up the bytes: reading on meets the fault of the source, if it has one, and
otherwise its end. -/
def Step.atEnd (fault : Option String) (step : Step) : Step :=
  match fault with
  | some message => .unreadable message
  | none => step

/-! ## Markup with an exclamation mark -/

/-- A greater-than sign ends the markup. The bytes before it, from the exclamation mark on, are
given backwards, with the number of less-than signs over that of greater-than signs in them. -/
def endsBang (kind : Bang) (balance : Int) (seen : Bytes) : Bool :=
  match kind with
  | .comment => (Bytes.ascii "--").isPrefixOf seen && !(seen.drop 4).isEmpty
  | .cdata => (Bytes.ascii "]]").isPrefixOf seen
  | .doctype => balance = 0

/-- The bytes up to the greater-than sign that ends the markup, and the bytes after it. -/
def splitBang (kind : Bang) (balance : Int) (seen : Bytes) : Bytes → Option (Bytes × Bytes)
  | [] => none
  | b :: rest =>
    if b = Bytes.ofChar '>' then
      if endsBang kind balance seen then some (seen.reverse, rest)
      else splitBang kind (balance - 1) (b :: seen) rest
    else if b = Bytes.ofChar '<' then splitBang kind (balance + 1) (b :: seen) rest
    else splitBang kind balance (b :: seen) rest

/-- The token of markup with an exclamation mark, given what is between the angle brackets. -/
def bangToken (kind : Bang) (content : Bytes) : Except Fault Token :=
  match kind with
  | .comment =>
    if (Bytes.ascii "!--").isPrefixOf content then
      .ok (.comment ((content.drop 3).take (content.length - 5)))
    else .error (.unfinishedBang kind)
  | .cdata =>
    if Bytes.startsWithLower content "![CDATA[" then
      .ok (.cdata ((content.drop 8).take (content.length - 10)))
    else .error (.unfinishedBang kind)
  | .doctype =>
    if Bytes.startsWithLower content "!DOCTYPE" then
      let declared := (content.drop 8).dropWhile Bytes.isSpace
      if declared.isEmpty then .error .emptyDoctype else .ok (.doctype declared)
    else .error (.unfinishedBang kind)

/-- The kind of markup that the byte after the exclamation mark begins. -/
def bangKind? (b : UInt8) : Option Bang :=
  if b = Bytes.ofChar '[' then some .cdata
  else if b = Bytes.ofChar '-' then some .comment
  else if b = Bytes.ofChar 'D' || b = Bytes.ofChar 'd' then some .doctype
  else none

/-- Read markup with an exclamation mark; the lexer stands before the mark. -/
def readBang (fault : Option String) (lexer : Lexer) : Step :=
  match lexer.rest with
  | mark :: b :: rest =>
    match bangKind? b with
    | none => .malformed (.unknownBang b)
    | some kind =>
      match splitBang kind 0 [mark] (b :: rest) with
      | none => .atEnd fault (.malformed (.unfinishedBang kind))
      | some (content, rest) =>
        match bangToken kind content with
        | .ok token =>
          .token token { lexer with rest, offset := lexer.offset + content.length + 1 }
        | .error e => .malformed e
  | _ => .atEnd fault (.malformed .bareBang)

/-! ## End tags -/

/-- Close the innermost open element, which must have the name of the end tag. -/
def closeElement (name : Bytes) (lexer : Lexer) : Step :=
  match lexer.openNames with
  | [] => .malformed (.mismatchedEnd [] name)
  | expected :: outer =>
    let found := Bytes.trimEnd name
    if found = expected then .token (.close found) { lexer with openNames := outer }
    else .malformed (.mismatchedEnd expected found)

/-- Read an end tag; the lexer stands before the slash. -/
def readClose (fault : Option String) (lexer : Lexer) : Step :=
  let body := lexer.rest.drop 1
  let name := body.takeWhile (· ≠ Bytes.ofChar '>')
  match body.dropWhile (· ≠ Bytes.ofChar '>') with
  | _ :: rest => closeElement name { lexer with rest, offset := lexer.offset + name.length + 2 }
  | [] =>
    .atEnd fault
      (closeElement name { lexer with rest := [], offset := lexer.offset + name.length + 1 })

/-! ## Processing instructions -/

/-- The token of a processing instruction, given what is between the angle brackets. -/
def instructionToken (content : Bytes) : Except Fault Token :=
  if content.length ≤ 2 ∨ content.getLast? ≠ some (Bytes.ofChar '?') then
    .error .unfinishedInstruction
  else if 5 < content.length ∧ (Bytes.ascii "?xml").isPrefixOf content ∧
      (content[4]?.any Bytes.isSpace) then
    .ok .declaration
  else .ok (.instruction ((content.drop 1).take (content.length - 2)))

/-- The step for what is between the angle brackets of a processing instruction. -/
def finishInstruction (content : Bytes) (lexer : Lexer) : Step :=
  match instructionToken content with
  | .ok token => .token token lexer
  | .error e => .malformed e

/-- Read a processing instruction; the lexer stands before the question mark. -/
def readInstruction (fault : Option String) (lexer : Lexer) : Step :=
  let content := lexer.rest.takeWhile (· ≠ Bytes.ofChar '>')
  match lexer.rest.dropWhile (· ≠ Bytes.ofChar '>') with
  | _ :: rest =>
    finishInstruction content { lexer with rest, offset := lexer.offset + content.length + 1 }
  | [] =>
    .atEnd fault
      (finishInstruction content
        { lexer with rest := [], offset := lexer.offset + content.length })

/-! ## Start tags -/

/-- The bytes up to the first greater-than sign outside quotes, and those after it if there is one.
The bytes before are given backwards, with the quote that is open. -/
def splitTag (quote : Option UInt8) (seen : Bytes) : Bytes → Bytes × Option Bytes
  | [] => (seen.reverse, none)
  | b :: rest =>
    match quote with
    | some q => splitTag (if b = q then none else quote) (b :: seen) rest
    | none =>
      if b = Bytes.ofChar '>' then (seen.reverse, some rest)
      else if b = Bytes.ofChar '\x22' || b = Bytes.ofChar '\x27' then
        splitTag (some b) (b :: seen) rest
      else splitTag none (b :: seen) rest

/-- The token of a tag, given what is between the angle brackets. A slash at the end makes it the
tag of an element without content. -/
def tagToken (content : Bytes) : Token :=
  let nameLength := (content.takeWhile fun b => !Bytes.isSpace b).length
  if content.getLast? = some (Bytes.ofChar '/') then
    let inner := content.dropLast
    .empty ⟨inner, min nameLength inner.length⟩
  else .start ⟨content, nameLength⟩

/-- The step for what is between the angle brackets of a tag: a start tag opens an element. -/
def finishTag (content : Bytes) (lexer : Lexer) : Step :=
  match tagToken content with
  | .start tag => .token (.start tag) { lexer with openNames := tag.name :: lexer.openNames }
  | token => .token token lexer

/-- Read a tag; the lexer stands before its name. A tag that the end of the source cuts off counts
as read without its bytes. -/
def readTag (fault : Option String) (lexer : Lexer) : Step :=
  match splitTag none [] lexer.rest with
  | (content, some rest) =>
    finishTag content { lexer with rest, offset := lexer.offset + content.length + 1 }
  | (content, none) => .atEnd fault (finishTag content { lexer with rest := [] })

/-! ## All tokens -/

/-- Read markup; the lexer stands after the less-than sign. -/
def readMarkup (fault : Option String) (lexer : Lexer) : Step :=
  match lexer.rest with
  | [] => .atEnd fault (.finished lexer.offset)
  | b :: _ =>
    if b = Bytes.ofChar '!' then readBang fault lexer
    else if b = Bytes.ofChar '/' then readClose fault lexer
    else if b = Bytes.ofChar '?' then readInstruction fault lexer
    else readTag fault lexer

/-- Read character data, with the less-than sign after it. -/
def readText (fault : Option String) (lexer : Lexer) : Step :=
  let content := lexer.rest.takeWhile (· ≠ Bytes.ofChar '<')
  match lexer.rest.dropWhile (· ≠ Bytes.ofChar '<') with
  | _ :: rest =>
    .token (.text content)
      { lexer with rest, offset := lexer.offset + content.length + 1, afterText := true }
  | [] =>
    .atEnd fault <| .token (.text content)
      { lexer with rest := [], offset := lexer.offset + content.length, afterText := true }

/-- Read the next token of a source. -/
def step (fault : Option String) (lexer : Lexer) : Step :=
  if lexer.afterText then readMarkup fault { lexer with afterText := false }
  else match lexer.rest with
    | [] => .atEnd fault (.finished lexer.offset)
    | b :: rest =>
      if b = Bytes.ofChar '<' then
        readMarkup fault { lexer with rest, offset := lexer.offset + 1 }
      else readText fault lexer

/-- Read tokens up to the end; those read already are in `done`, last one first. Every token takes a
byte, so that the number of bytes is enough `fuel`. -/
def readAll (fault : Option String) : Nat → Lexer → List (Nat × Token) → Stream
  | 0, lexer, done => ⟨done.reverse, .complete lexer.offset⟩
  | fuel + 1, lexer, done =>
    match lexer.step fault with
    | .token token next => readAll fault fuel next ((lexer.position, token) :: done)
    | .finished position => ⟨done.reverse, .complete position⟩
    | .malformed e => ⟨done.reverse, .malformed lexer.position e⟩
    | .unreadable message => ⟨done.reverse, .unreadable message⟩

end Lexer

end Token

/-- The tokens of a source. -/
def Source.tokens (source : Source) : Token.Stream :=
  Token.Lexer.readAll source.fault (source.bytes.length + 1) (.start source.bytes) []

end XmlTable
