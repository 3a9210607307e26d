import XmlTable.Node.Record

/-!
# Namespaces in scope

A name may carry a prefix, the part before its first colon. Which namespace a prefix stands for
depends on the declarations of the element at hand and of the elements around it. Each open
element has a frame of bindings, empty if it declares nothing, and a prefix has the binding of the
innermost frame that mentions it. The outermost frame binds the two reserved prefixes.
-/

namespace XmlTable

/-- The namespace of the prefix that is reserved for the language itself. -/
def xmlUri : String := "http://www.w3.org/XML/1998/namespace"

/-- The namespace of namespace declarations. -/
def xmlnsUri : String := "http://www.w3.org/2000/xmlns/"

namespace QName

/-- The part of a name before its first colon; empty for a name without a colon. -/
def lead (name : String) : String :=
  if name.toList.contains ':' then String.ofList (name.toList.takeWhile (· ≠ ':')) else ""

/-- The part of a name after its first colon; the whole of a name without a colon. -/
def tail (name : String) : String :=
  if name.toList.contains ':' then String.ofList ((name.toList.dropWhile (· ≠ ':')).drop 1)
  else name

end QName

namespace Namespace

/-- The bindings of one element: the symbol of a prefix with a namespace. The empty prefix stands
for names without one; binding it to namespace 0 withdraws the default namespace. -/
structure Frame where
  /-- The bindings, one for a prefix. -/
  bindings : List (SymbolId × NamespaceId) := []
  deriving DecidableEq, Repr

namespace Frame

/-- The frame without bindings. -/
def empty : Frame := {}

/-- The frame binds no prefix. -/
def isEmpty (frame : Frame) : Bool :=
  frame.bindings.isEmpty

/-- The namespace that the frame binds to a prefix. -/
def get? (frame : Frame) (id : SymbolId) : Option NamespaceId :=
  frame.bindings.lookup id

/-- The bindings with a prefix bound anew. -/
def bind (id : SymbolId) (target : NamespaceId) :
    List (SymbolId × NamespaceId) → List (SymbolId × NamespaceId)
  | [] => [(id, target)]
  | binding :: rest =>
    if binding.1 = id then (id, target) :: rest else binding :: bind id target rest

/-- Bind a prefix; a later binding of the same prefix replaces the earlier one. -/
def declare (frame : Frame) (id : SymbolId) (target : NamespaceId) : Frame :=
  ⟨bind id target frame.bindings⟩

/-- A frame binds a prefix as declared last, and the other prefixes as before. -/
theorem get?_declare (frame : Frame) (id other : SymbolId) (target : NamespaceId) :
    (frame.declare id target).get? other =
      if other = id then some target else frame.get? other := by
  obtain ⟨bindings⟩ := frame
  simp only [declare, get?]
  induction bindings with
  | nil =>
    by_cases ho : other = id
    · simp [bind, ho]
    · simp [bind, List.lookup_cons, beq_false_of_ne ho, ho]
  | cons binding rest ih =>
    obtain ⟨key, value⟩ := binding
    simp only [bind]
    by_cases hk : key = id
    · subst hk
      by_cases ho : other = key
      · simp [ho]
      · simp [List.lookup_cons, beq_false_of_ne ho, ho]
    · by_cases ho : other = key
      · subst ho; simp [hk]
      · simp [List.lookup_cons, beq_false_of_ne ho, hk, ih]

end Frame

/-- The frames of the open elements, innermost first, over the frame of the reserved prefixes. -/
structure Scopes where
  /-- The outermost frame, which is never left. -/
  root : Frame
  /-- The frames of the open elements, innermost first. -/
  frames : List Frame := []
  deriving DecidableEq, Repr

namespace Scopes

/-- The scopes of a document: only the two reserved prefixes are bound. -/
def ofReserved (xmlId : SymbolId) (xmlTarget : NamespaceId) (xmlnsId : SymbolId)
    (xmlnsTarget : NamespaceId) : Scopes :=
  ⟨(Frame.empty.declare xmlId xmlTarget).declare xmlnsId xmlnsTarget, []⟩

/-- Enter an element with its declarations. -/
def push (scopes : Scopes) (frame : Frame) : Scopes :=
  { scopes with frames := frame :: scopes.frames }

/-- Leave an element. -/
def pop (scopes : Scopes) : Scopes :=
  { scopes with frames := scopes.frames.tail }

/-- The namespace of a prefix, from the innermost frame that binds it. -/
def resolve (scopes : Scopes) (id : SymbolId) : Option NamespaceId :=
  (scopes.frames.findSome? (·.get? id)).or (scopes.root.get? id)

/-- The namespace of names without a prefix, 0 if none is in scope. -/
def resolveDefault (scopes : Scopes) : NamespaceId :=
  (scopes.resolve Symbol.emptyId).getD 0

/-- The number of open elements. -/
def depth (scopes : Scopes) : Nat :=
  scopes.frames.length

/-- The innermost element declares nothing: its frame is the empty one that all such elements
share. -/
def innermostIsEmpty (scopes : Scopes) : Bool :=
  scopes.frames.head?.any Frame.isEmpty

/-- Leaving an element undoes entering it. -/
theorem pop_push (scopes : Scopes) (frame : Frame) : (scopes.push frame).pop = scopes := rfl

@[simp] theorem depth_push (scopes : Scopes) (frame : Frame) :
    (scopes.push frame).depth = scopes.depth + 1 := rfl

@[simp] theorem depth_pop (scopes : Scopes) : scopes.pop.depth = scopes.depth - 1 :=
  List.length_tail

/-- A prefix that an element binds has that binding inside it, any other the binding outside. -/
theorem resolve_push (scopes : Scopes) (frame : Frame) (id : SymbolId) :
    (scopes.push frame).resolve id = (frame.get? id).or (scopes.resolve id) := by
  unfold resolve push
  simp only [List.findSome?_cons]
  cases frame.get? id <;> simp

end Scopes

end Namespace

end XmlTable
