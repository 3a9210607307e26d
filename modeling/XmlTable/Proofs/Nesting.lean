import XmlTable.Token.Lexer

/-!
# End tags close what is open

The names of the open elements are a stack: a start tag pushes its name, and an end tag takes away
the innermost one, which has to be its own. The lexer keeps this stack and lets no other end tag
pass.
-/

namespace XmlTable.Token

/-- The names of the open elements after a token, innermost first. An end tag closes the innermost
element only. -/
def nest? (openNames : List Bytes) : Token → Option (List Bytes)
  | start tag => some (tag.name :: openNames)
  | close name =>
    match openNames with
    | [] => none
    | innermost :: outer => if name = innermost then some outer else none
  | _ => some openNames

/-- Every end tag closes the innermost element that is open. -/
def Nested : List Bytes → List (Nat × Token) → Prop
  | _, [] => True
  | openNames, (_, token) :: rest => ∃ inner, token.nest? openNames = some inner ∧ Nested inner rest

/-- Whether tokens are nested can be found out. -/
instance Nested.decidable : ∀ openNames tokens, Decidable (Nested openNames tokens)
  | _, [] => .isTrue trivial
  | openNames, (_, token) :: rest =>
    match h : token.nest? openNames with
    | none => .isFalse fun ⟨_, hi, _⟩ => by rw [h] at hi; cases hi
    | some inner =>
      match decidable inner rest with
      | .isTrue hn => .isTrue ⟨inner, h, hn⟩
      | .isFalse hn => .isFalse fun ⟨_, hi, hr⟩ => by
        rw [h] at hi
        cases hi
        exact hn hr

namespace Lexer

variable {fault : Option String} {lexer next : Lexer} {token : Token} {openNames : List Bytes}

/-- A step keeps the stack: a token that it reads leads to the names the lexer has then. -/
def Step.Keeps (openNames : List Bytes) (step : Step) : Prop :=
  ∀ token next, step = .token token next → token.nest? openNames = some next.openNames

namespace Step.Keeps

variable {step : Step}

theorem finished (position : Nat) : Keeps openNames (.finished position) := nofun

theorem malformed (fault : Fault) : Keeps openNames (.malformed fault) := nofun

theorem read (h : token.nest? openNames = some next.openNames) :
    Keeps openNames (.token token next) := by
  rintro _ _ ⟨⟩
  exact h

theorem atEnd (h : Keeps openNames step) : Keeps openNames (step.atEnd fault) := by
  cases fault with
  | none => exact h
  | some message => nofun

end Step.Keeps

open Step (Keeps)

/-- Markup with an exclamation mark opens and closes nothing. -/
theorem nest?_bangToken {kind : Bang} {content : Bytes} (h : bangToken kind content = .ok token)
    (openNames : List Bytes) : token.nest? openNames = some openNames := by
  cases kind with
  | comment =>
    rw [bangToken] at h
    split at h <;> cases h
    rfl
  | cdata =>
    rw [bangToken] at h
    split at h <;> cases h
    rfl
  | doctype =>
    rw [bangToken] at h
    dsimp only at h
    split at h
    · split at h <;> cases h
      rfl
    · cases h

theorem readBang_keeps : Keeps lexer.openNames (lexer.readBang fault) := by
  unfold readBang
  split
  · split
    · exact .malformed _
    · split
      · exact (Keeps.malformed _).atEnd
      · split
        next h => exact .read (nest?_bangToken h _)
        next => exact .malformed _
  · exact (Keeps.malformed _).atEnd

theorem closeElement_keeps (name : Bytes) (opens : lexer.openNames = openNames) :
    Keeps openNames (lexer.closeElement name) := by
  unfold closeElement
  rw [opens]
  cases openNames with
  | nil => exact .malformed _
  | cons innermost outer =>
    dsimp only
    split
    next same => exact .read (if_pos same)
    next => exact .malformed _

theorem readClose_keeps : Keeps lexer.openNames (lexer.readClose fault) := by
  unfold readClose
  dsimp only
  split
  · exact closeElement_keeps _ rfl
  · exact (closeElement_keeps _ rfl).atEnd

theorem finishInstruction_keeps (content : Bytes) (opens : lexer.openNames = openNames) :
    Keeps openNames (lexer.finishInstruction content) := by
  subst opens
  unfold finishInstruction
  split
  next token h =>
    refine .read ?_
    unfold instructionToken at h
    split at h
    · cases h
    · split at h <;> cases h <;> rfl
  next => exact .malformed _

theorem readInstruction_keeps : Keeps lexer.openNames (lexer.readInstruction fault) := by
  unfold readInstruction
  dsimp only
  split
  · exact finishInstruction_keeps _ rfl
  · exact (finishInstruction_keeps _ rfl).atEnd

theorem finishTag_keeps (content : Bytes) (opens : lexer.openNames = openNames) :
    Keeps openNames (lexer.finishTag content) := by
  subst opens
  unfold finishTag tagToken
  dsimp only
  split
  next tag h => exact .read rfl
  next h =>
    refine .read ?_
    split
    · rfl
    next other => exact absurd (if_neg other) (h _)

theorem readTag_keeps : Keeps lexer.openNames (lexer.readTag fault) := by
  unfold readTag
  split
  · exact finishTag_keeps _ rfl
  · exact (finishTag_keeps _ rfl).atEnd

theorem readMarkup_keeps (opens : lexer.openNames = openNames) :
    Keeps openNames (lexer.readMarkup fault) := by
  subst opens
  unfold readMarkup
  split
  · exact (Keeps.finished _).atEnd
  · split
    · exact readBang_keeps
    · split
      · exact readClose_keeps
      · split
        · exact readInstruction_keeps
        · exact readTag_keeps

/-- A step of the lexer keeps the stack. -/
theorem step_keeps : Keeps lexer.openNames (lexer.step fault) := by
  unfold step
  split
  · exact readMarkup_keeps rfl
  · split
    · exact (Keeps.finished _).atEnd
    · split
      · exact readMarkup_keeps rfl
      · unfold readText
        dsimp only
        split
        · exact .read rfl
        · exact (Keeps.read rfl).atEnd

/-- The tokens that the lexer reads from where it is are nested in what is open there. -/
theorem exists_nested_readAll (fault : Option String) (fuel : Nat) (lexer : Lexer)
    (done : List (Nat × Token)) : ∃ tokens, Nested lexer.openNames tokens ∧
      (readAll fault fuel lexer done).tokens = done.reverse ++ tokens := by
  induction fuel generalizing lexer done with
  | zero => exact ⟨[], trivial, (List.append_nil _).symm⟩
  | succ fuel ih =>
    unfold readAll
    split
    next token next h =>
      obtain ⟨tokens, nested, read⟩ := ih next ((lexer.position, token) :: done)
      refine ⟨(lexer.position, token) :: tokens, ⟨_, step_keeps _ _ h, nested⟩, ?_⟩
      rw [read, List.reverse_cons, List.append_assoc, List.singleton_append]
    all_goals exact ⟨[], trivial, (List.append_nil _).symm⟩

end Lexer

end XmlTable.Token

namespace XmlTable

/-- The tokens of a source are nested. -/
theorem Source.nested_tokens (source : Source) : Token.Nested [] source.tokens.tokens := by
  obtain ⟨tokens, nested, read⟩ := Token.Lexer.exists_nested_readAll source.fault
    (source.bytes.length + 1) (.start source.bytes) []
  rw [Source.tokens, read]
  exact nested

end XmlTable
