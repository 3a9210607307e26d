import XmlTable.Subset.Declarations
import XmlTable.Text.Split
import XmlTable.Text.Whitespace

/-!
# Reading declarations

Each declaration of an internal subset has a keyword and a body. The bodies are read here, one
function for each kind of declaration, from a list of characters. What a declaration says is added
to the declarations before it only if all of it could be read.
-/

namespace XmlTable.Subset

/-- Why a part of an internal subset says nothing. -/
inductive Fault where
  /-- A comment has no end. -/
  | unclosedComment
  /-- A processing instruction has no end. -/
  | unclosedInstruction
  /-- A declaration has no end. -/
  | unclosedDeclaration
  /-- A reference to a parameter entity has no end. -/
  | unclosedReference
  /-- Something else stands between the declarations. -/
  | strayContent
  /-- There are no declarations with the keyword. -/
  | unknownDeclaration (keyword : String)
  /-- An entity declaration names no entity. -/
  | missingEntityName
  /-- The name of an entity is not set off. -/
  | missingEntitySpace
  /-- An entity has no value. -/
  | missingEntityValue (name : String)
  /-- An attribute list names no element. -/
  | missingListElement
  /-- An attribute has no name. -/
  | missingAttributeName
  /-- An attribute has no type. -/
  | missingAttributeType
  /-- There is no such attribute type. -/
  | unknownAttributeType (keyword : String)
  /-- A list of names in parentheses was expected. -/
  | missingGroup
  /-- A list of names has no end. -/
  | unclosedGroup
  /-- A fixed attribute has no value. -/
  | missingFixedValue
  /-- Nothing is said of elements without the attribute. -/
  | missingDefault
  /-- An element declaration names no element. -/
  | missingElementName
  /-- The name of an element is not set off. -/
  | missingElementSpace
  /-- The content of an element is not specified. -/
  | invalidContentSpec
  /-- An element is declared again. -/
  | repeatedElement (name : String)
  deriving DecidableEq, Repr

/-- The wording of a fault. -/
def Fault.message : Fault → String
  | unclosedComment => "unterminated comment in internal subset"
  | unclosedInstruction => "unterminated processing instruction"
  | unclosedDeclaration => "unterminated declaration"
  | unclosedReference => "unterminated parameter entity reference"
  | strayContent => "unexpected content in internal subset"
  | unknownDeclaration keyword => "unknown declaration '<!" ++ keyword ++ "'"
  | missingEntityName => "missing name in entity declaration"
  | missingEntitySpace => "whitespace required between entity name and value"
  | missingEntityValue name => "missing value for entity '" ++ name ++ "'"
  | missingListElement => "missing element name in attribute-list declaration"
  | missingAttributeName => "missing attribute name"
  | missingAttributeType => "missing attribute type"
  | unknownAttributeType keyword => "unknown attribute type '" ++ keyword ++ "'"
  | missingGroup => "expected '('"
  | unclosedGroup => "unterminated group"
  | missingFixedValue => "missing #FIXED value"
  | missingDefault => "missing attribute default"
  | missingElementName => "missing name in element declaration"
  | missingElementSpace =>
    "whitespace required between element name and content specification"
  | invalidContentSpec => "invalid content specification"
  | repeatedElement name => "element type '" ++ name ++ "' declared more than once"

open Text (isSpace startsWith)

/-! ## Parts of declarations -/

/-- A character of a name: an ASCII letter or digit, one of four marks, or any character beyond
ASCII. -/
def isNameChar (c : Char) : Bool :=
  c.isAlphanum || c = '_' || c = '-' || c = '.' || c = ':' || 128 ≤ c.toNat

/-- The characters after white space. -/
def skipSpace (cs : List Char) : List Char :=
  cs.dropWhile isSpace

/-- The characters begin with white space. -/
def beginsWithSpace (cs : List Char) : Bool :=
  cs.head?.any isSpace

/-- A name and what comes after it. -/
def readName? (cs : List Char) : Option (String × List Char) :=
  match cs.takeWhile isNameChar with
  | [] => none
  | name => some (String.ofList name, cs.dropWhile isNameChar)

/-- A literal in quotes and what comes after it. -/
def readQuoted? : List Char → Option (String × List Char)
  | [] => none
  | quote :: body =>
    if quote = '\x22' ∨ quote = '\x27' then
      match body.dropWhile (· ≠ quote) with
      | _ :: rest => some (String.ofList (body.takeWhile (· ≠ quote)), rest)
      | [] => none
    else none

/-- The parts of a list of names, without blanks around them and without empty ones. -/
def trimmedNames (parts : List (List Char)) : List String :=
  parts.filterMap fun part =>
    match Text.trim part with
    | [] => none
    | name => some (String.ofList name)

/-- A list of names in parentheses and what comes after it. -/
def readGroup : List Char → Except Fault (List String × List Char)
  | '(' :: body =>
    match body.dropWhile (· ≠ ')') with
    | _ :: rest => .ok (trimmedNames (Text.splitAt '|' (body.takeWhile (· ≠ ')'))), rest)
    | [] => .error .unclosedGroup
  | _ => .error .missingGroup

/-! ## Content of elements -/

/-- The names in mixed content, given what follows its opening parenthesis: those between bars, up
to the closing parenthesis. -/
def mixedNames (cs : List Char) : List String :=
  trimmedNames ((Text.splitAt '|' (cs.takeWhile (· ≠ ')'))).drop 1)

/-- The content that a specification describes. -/
def readContentSpec (spec : List Char) : Except Fault ContentSpec :=
  let cs := Text.trimStart spec
  if startsWith cs "EMPTY" then .ok .empty
  else if startsWith cs "ANY" then .ok .any
  else match cs with
    | '(' :: inner =>
      if startsWith (Text.trimStart inner) "#PCDATA" then .ok (.mixed (mixedNames inner))
      else .ok (.children (String.ofList (Text.trimEnd cs)))
    | _ => .error .invalidContentSpec

/-! ## Attribute definitions -/

/-- The type of an attribute and what comes after it. -/
def readType (cs : List Char) : Except Fault (AttributeType × List Char) := do
  if startsWith cs "(" then
    let (names, rest) ← readGroup cs
    return (.enumeration names, rest)
  match readName? cs with
  | none => throw .missingAttributeType
  | some (keyword, rest) =>
    match AttributeType.keywords.lookup keyword with
    | some type => return (type, rest)
    | none =>
      if keyword = "NOTATION" then
        let (names, rest) ← readGroup (skipSpace rest)
        return (.notations names, rest)
      else throw (.unknownAttributeType keyword)

/-- What holds without an attribute, and what comes after that. -/
def readRule (cs : List Char) : Except Fault (DefaultRule × List Char) :=
  if startsWith cs "#REQUIRED" then .ok (.required, cs.drop 9)
  else if startsWith cs "#IMPLIED" then .ok (.implied, cs.drop 8)
  else if startsWith cs "#FIXED" then
    match readQuoted? (skipSpace (cs.drop 6)) with
    | some (value, rest) => .ok (.fixed value, rest)
    | none => .error .missingFixedValue
  else
    match readQuoted? cs with
    | some (value, rest) => .ok (.given value, rest)
    | none => .error .missingDefault

/-- The definition of an attribute and what comes after it. -/
def readDefinition (cs : List Char) : Except Fault (AttributeDefinition × List Char) := do
  match readName? cs with
  | none => throw .missingAttributeName
  | some (name, rest) =>
    let (type, rest) ← readType (skipSpace rest)
    let (rule, rest) ← readRule (skipSpace rest)
    return (⟨name, type, rule⟩, rest)

/-- All attribute definitions of a text; those read already are in `done`, last one first. Every
definition takes a character, so that the number of characters is enough `fuel`. -/
def readDefinitions : Nat → List Char → List AttributeDefinition →
    Except Fault (List AttributeDefinition)
  | 0, _, done => .ok done.reverse
  | fuel + 1, cs, done =>
    match skipSpace cs with
    | [] => .ok done.reverse
    | cs => do
      let (definition, rest) ← readDefinition cs
      readDefinitions fuel rest (definition :: done)

/-! ## Declarations -/

/-- Declarations with one more, and what the error handler should be warned of. -/
structure Declared where
  /-- The declarations so far. -/
  declarations : Declarations
  /-- A warning. -/
  warning : Option String := none
  deriving DecidableEq, Repr

/-- Add an entity declaration. Parameter entities and external entities are passed over, and of
several declarations of a name the first decides. -/
def declareEntity (body : List Char) (declarations : Declarations) : Except Fault Declared := do
  let cs := skipSpace body
  if startsWith cs "%" then return ⟨declarations, none⟩
  match readName? cs with
  | none => throw .missingEntityName
  | some (name, rest) =>
    if !beginsWithSpace rest then throw .missingEntitySpace
    let cs := skipSpace rest
    if startsWith cs "SYSTEM" || startsWith cs "PUBLIC" then
      return ⟨declarations, some ("external entity '" ++ name ++ "' is not loaded")⟩
    match readQuoted? cs with
    | none => throw (.missingEntityValue name)
    | some (value, _) =>
      if (declarations.entity? name).isSome then
        return ⟨declarations, some ("entity '" ++ name ++ "' declared more than once")⟩
      else
        return { declarations :=
          { declarations with entities := declarations.entities ++ [(name, value)] } }

/-- Add an attribute list. -/
def declareAttributes (body : List Char) (declarations : Declarations) :
    Except Fault Declared := do
  match readName? (skipSpace body) with
  | none => throw .missingListElement
  | some (element, rest) =>
    let new ← readDefinitions (rest.length + 1) rest []
    return { declarations :=
      { declarations with
        attributeLists := addDefinitions element new declarations.attributeLists } }

/-- Add an element declaration. An element is declared once. -/
def declareElement (body : List Char) (declarations : Declarations) : Except Fault Declared := do
  match readName? (skipSpace body) with
  | none => throw .missingElementName
  | some (name, rest) =>
    if !beginsWithSpace rest then throw .missingElementSpace
    let spec ← readContentSpec (skipSpace rest)
    if (declarations.elements.lookup name).isSome then throw (.repeatedElement name)
    return { declarations :=
      { declarations with elements := declarations.elements ++ [(name, spec)] } }

/-- Add a declaration with a keyword and a body. -/
def declare (keyword : String) (body : List Char) (declarations : Declarations) :
    Except Fault Declared :=
  if keyword = "ENTITY" then declareEntity body declarations
  else if keyword = "ATTLIST" then declareAttributes body declarations
  else if keyword = "ELEMENT" then declareElement body declarations
  else if keyword = "NOTATION" then .ok ⟨declarations, none⟩
  else .error (.unknownDeclaration keyword)

/-- The body of a declaration, up to the first greater-than sign outside quotes, and what comes
after that sign. The body so far is in `seen`, last character first, with the quote that is open. -/
def splitBody (quote : Option Char) (seen : List Char) :
    List Char → Option (List Char × List Char)
  | [] => none
  | c :: rest =>
    match quote with
    | some q => splitBody (if c = q then none else quote) (c :: seen) rest
    | none =>
      if c = '>' then some (seen.reverse, rest)
      else if c = '\x22' ∨ c = '\x27' then splitBody (some c) (c :: seen) rest
      else splitBody none (c :: seen) rest

end XmlTable.Subset
