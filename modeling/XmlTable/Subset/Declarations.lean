/-!
# Declarations of an internal subset

What the internal subset of a document type declaration says that matters to the document: the
content of elements, the types and defaults of attributes, and general entities. All are kept in the
order in which their names first appear. Attributes of one element are defined once each, by the
first definition.
-/

namespace XmlTable.Subset

/-- What an element may contain. -/
inductive ContentSpec where
  /-- Nothing. -/
  | empty
  /-- Anything. -/
  | any
  /-- Character data and the named elements. -/
  | mixed (names : List String)
  /-- Elements only, by the model as written. -/
  | children (model : String)
  deriving DecidableEq, Repr

/-- The type of an attribute. -/
inductive AttributeType where
  /-- Any text. -/
  | cdata
  /-- An identifier of the element. -/
  | id
  /-- The identifier of an element. -/
  | idref
  /-- Identifiers of elements. -/
  | idrefs
  /-- The name of an entity. -/
  | entity
  /-- Names of entities. -/
  | entities
  /-- A name token. -/
  | nmtoken
  /-- Name tokens. -/
  | nmtokens
  /-- One of the named notations. -/
  | notations (names : List String)
  /-- One of the named tokens. -/
  | enumeration (names : List String)
  deriving DecidableEq, Repr

/-- The keywords of the types that consist of a keyword. -/
def AttributeType.keywords : List (String × AttributeType) :=
  [("CDATA", cdata), ("ID", id), ("IDREF", idref), ("IDREFS", idrefs), ("ENTITY", entity),
    ("ENTITIES", entities), ("NMTOKEN", nmtoken), ("NMTOKENS", nmtokens)]

/-- What holds for an element without the attribute. -/
inductive DefaultRule where
  /-- It must have the attribute. -/
  | required
  /-- It need not have the attribute. -/
  | implied
  /-- It has the attribute with the only value allowed. -/
  | fixed (value : String)
  /-- It has the attribute with this value. -/
  | given (value : String)
  deriving DecidableEq, Repr

/-- The value that an element without the attribute gets. -/
def DefaultRule.value? : DefaultRule → Option String
  | fixed value | given value => some value
  | required | implied => none

/-- The definition of an attribute. -/
structure AttributeDefinition where
  /-- The name of the attribute. -/
  name : String
  /-- The type of its values. -/
  type : AttributeType
  /-- What holds without it. -/
  rule : DefaultRule
  deriving DecidableEq, Repr

/-- The declarations of an internal subset. -/
structure Declarations where
  /-- The content of elements by name. -/
  elements : List (String × ContentSpec) := []
  /-- The attribute definitions by element. -/
  attributeLists : List (String × List AttributeDefinition) := []
  /-- The literal values of general entities by name. -/
  entities : List (String × String) := []
  deriving DecidableEq, Repr

/-- Definitions with one more, unless its attribute is defined. -/
def addDefinition (definitions : List AttributeDefinition) (new : AttributeDefinition) :
    List AttributeDefinition :=
  if definitions.any (·.name = new.name) then definitions else definitions ++ [new]

/-- Attribute lists with more definitions for an element. -/
def addDefinitions (element : String) (new : List AttributeDefinition) :
    List (String × List AttributeDefinition) → List (String × List AttributeDefinition)
  | [] => [(element, new.foldl addDefinition [])]
  | (name, definitions) :: rest =>
    if name = element then (name, new.foldl addDefinition definitions) :: rest
    else (name, definitions) :: addDefinitions element new rest

namespace Declarations

/-- No declarations. -/
def none : Declarations := {}

/-- The literal value of an entity. -/
def entity? (declarations : Declarations) (name : String) : Option String :=
  declarations.entities.lookup name

/-- The attribute definitions of an element. -/
def definitions (declarations : Declarations) (element : String) : List AttributeDefinition :=
  (declarations.attributeLists.lookup element).getD []

/-- An attribute of an element is declared to be an identifier. -/
def isId (declarations : Declarations) (element name : String) : Bool :=
  (declarations.definitions element).any fun d => d.name = name && d.type = .id

/-- An element is declared to contain elements only. -/
def isElementOnly (declarations : Declarations) (element : String) : Bool :=
  match declarations.elements.lookup element with
  | some (.children _) => true
  | _ => false

/-- The definitions of an element's attributes that have a value by default, with that value. -/
def defaults (declarations : Declarations) (element : String) :
    List (AttributeDefinition × String) :=
  (declarations.definitions element).filterMap fun d => d.rule.value?.map fun value => (d, value)

end Declarations

end XmlTable.Subset
