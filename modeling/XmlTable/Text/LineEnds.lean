/-!
# Line ends and attribute white space

An XML processor shows every line end as one line feed: the pair carriage return, line feed and
the carriage return alone are both replaced. In an attribute value the tab and the line feed are
then replaced by a space. A text without the characters concerned is returned as it is.
-/

namespace XmlTable.Text

/-- The pairs of a carriage return and a line feed become one line feed each; the characters
already read are in `done`, last one first. -/
def joinPairsOnto (done : List Char) : List Char → List Char
  | '\r' :: '\n' :: rest => joinPairsOnto ('\n' :: done) rest
  | c :: rest => joinPairsOnto (c :: done) rest
  | [] => done.reverse

/-- The pairs of a carriage return and a line feed become one line feed each. -/
def joinPairs (cs : List Char) : List Char :=
  joinPairsOnto [] cs

/-- All line ends become line feeds: first the pairs, then the carriage returns left over. -/
def unifyLineEnds (cs : List Char) : List Char :=
  if cs.contains '\r' then
    (joinPairs cs).map fun c => if c = '\r' then '\n' else c
  else cs

/-- Line ends are unified, then tabs and line feeds become spaces. -/
def flattenSpace (cs : List Char) : List Char :=
  if cs.any fun c => c = '\n' || c = '\t' || c = '\r' then
    (unifyLineEnds cs).map fun c => if c = '\n' || c = '\t' then ' ' else c
  else cs

/-- The line ends of a text as an application sees them. -/
def normalizeLineEnds (text : String) : String :=
  String.ofList (unifyLineEnds text.toList)

/-- The literal white space of an attribute value as an application sees it. -/
def normalizeAttribute (text : String) : String :=
  String.ofList (flattenSpace text.toList)

end XmlTable.Text
