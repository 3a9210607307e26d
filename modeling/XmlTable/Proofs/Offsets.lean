import XmlTable.Proofs.Excerpts

/-!
# Positions of document type declarations

The lexer counts the bytes that it reads, but for a byte order mark, which is dropped before it
starts. A piece of markup has the position of its less-than sign, although that sign is read with
the character data before it if there are any. The content of a document type declaration begins
behind that: the sign, the rest of the opening mark, the keyword and the white space after it are
in between.
-/

namespace XmlTable

/-- The bytes of a source in which positions are counted: all but a byte order mark. -/
def Source.body (source : Source) : Bytes :=
  (Token.Lexer.start source.bytes).rest

namespace Token

/-- What opens a document type declaration: its mark and its keyword, in capital or small letters,
and white space. -/
inductive IsOpening : Bytes → Prop
  | mk {keyword space : Bytes} :
    keyword.map Bytes.lower = (Bytes.ascii "<!DOCTYPE").map Bytes.lower →
    (∀ b ∈ space, Bytes.isSpace b = true) → IsOpening (keyword ++ space)

/-- If it is a document type declaration, a token of some bytes begins after so many of them. -/
def IsPlaced (whole before : Bytes) (token : Token) : Prop :=
  ∀ content, token = .doctype content → ∃ opening behind, IsOpening opening ∧
    whole = before ++ (opening ++ (content ++ Bytes.ofChar '>' :: behind))

theorem isPlaced_of_ne {whole before : Bytes} {token : Token}
    (other : ∀ content, token ≠ .doctype content) : token.IsPlaced whole before :=
  fun content same => absurd same (other content)

namespace Lexer

variable {fault : Option String} {lexer next : Lexer} {token : Token} {whole before : Bytes}

/-- The lexer stands in some bytes behind as many as it has counted. The last one of these begins
markup if it was read with character data. Nothing is said of a lexer that has nothing left. -/
def Stands (whole : Bytes) (lexer : Lexer) : Prop :=
  lexer.rest ≠ [] → ∃ read, whole = read ++ lexer.rest ∧ lexer.offset = read.length ∧
    (lexer.afterText = true → read.getLast? = some (Bytes.ofChar '<'))

/-- The lexer stands in some bytes behind the less-than sign of markup. -/
structure Follows (whole before : Bytes) (lexer : Lexer) : Prop where
  /-- The sign comes after the bytes before it. -/
  whole : whole = before ++ Bytes.ofChar '<' :: lexer.rest
  /-- All of them are counted. -/
  offset : lexer.offset = before.length + 1
  /-- The sign is not counted as read with character data. -/
  afterText : lexer.afterText = false

theorem Stands.of_rest_eq_nil (h : lexer.rest = []) : Stands whole lexer :=
  fun ne => absurd h ne

/-- Behind markup the lexer has counted as many bytes as it has read. -/
theorem Follows.stands (h : Follows whole before lexer) (part : Bytes) {rest : Bytes}
    (split : part ++ rest = lexer.rest) {offset : Nat}
    (counted : offset = lexer.offset + part.length) (names : List Bytes) :
    Stands whole { lexer with rest, offset, openNames := names } := by
  refine fun _ => ⟨before ++ Bytes.ofChar '<' :: part, ?_, ?_, fun afterText => ?_⟩
  · rw [h.whole, ← split, List.append_assoc, List.cons_append]
  · show offset = _
    rw [List.length_append, List.length_cons, counted, h.offset]
    omega
  · rw [h.afterText] at afterText
    cases afterText

/-- What is said of a step that reads a token: where the lexer stands then, and where the token
is. -/
def Step.Counts (whole before : Bytes) (step : Step) : Prop :=
  ∀ token next, step = .token token next → Stands whole next ∧ token.IsPlaced whole before

namespace Step.Counts

variable {step : Step}

theorem finished (position : Nat) : Counts whole before (.finished position) := by
  rintro _ _ ⟨⟩

theorem malformed (fault : Fault) : Counts whole before (.malformed fault) := by
  rintro _ _ ⟨⟩

theorem read (stands : Stands whole next) (placed : token.IsPlaced whole before) :
    Counts whole before (.token token next) := by
  rintro _ _ ⟨⟩
  exact ⟨stands, placed⟩

theorem atEnd (h : Counts whole before step) : Counts whole before (step.atEnd fault) := by
  cases fault with
  | none => exact h
  | some message => rintro _ _ ⟨⟩

end Step.Counts

open Step (Counts)

/-- A declaration has its opening before its content. -/
theorem exists_opening_of_bangToken {kind : Bang} {content held : Bytes}
    (h : bangToken kind content = .ok (.doctype held)) :
    ∃ opening, IsOpening (Bytes.ofChar '<' :: opening) ∧ content = opening ++ held := by
  cases kind with
  | comment =>
    rw [bangToken] at h
    split at h <;> cases h
  | cdata =>
    rw [bangToken] at h
    split at h <;> cases h
  | doctype =>
    rw [bangToken] at h
    dsimp only at h
    split at h
    · next begins =>
      split at h <;> cases h
      have keyword : (content.take 8).map Bytes.lower =
          (Bytes.ascii "!DOCTYPE").map Bytes.lower := by
        rw [List.map_take]
        exact (List.prefix_iff_eq_take.1 (List.isPrefixOf_iff_prefix.1 begins)).symm
      have opens : IsOpening ((Bytes.ofChar '<' :: content.take 8) ++
          (content.drop 8).takeWhile Bytes.isSpace) :=
        .mk (congrArg (Bytes.ofChar '<' :: ·) keyword) (List.all_eq_true.1 List.all_takeWhile)
      refine ⟨content.take 8 ++ (content.drop 8).takeWhile Bytes.isSpace, opens, ?_⟩
      rw [List.append_assoc, List.takeWhile_append_dropWhile, List.take_append_drop]
    · cases h

theorem readBang_counts (h : Follows whole before lexer) :
    Counts whole before (lexer.readBang fault) := by
  unfold readBang
  split
  · next mark b bytes hrest =>
    split
    · exact .malformed _
    · split
      · exact (Counts.malformed _).atEnd
      · next content rest hsplit =>
        have parts : content ++ Bytes.ofChar '>' :: rest = lexer.rest :=
          (append_of_splitBang hsplit).trans hrest.symm
        split
        · next token htoken =>
          refine .read ?_ ?_
          · refine h.stands (content ++ [Bytes.ofChar '>']) ?_ ?_ _
            · rw [List.append_assoc]
              exact parts
            · rw [List.length_append]
              rfl
          · rintro held rfl
            obtain ⟨opening, opens, rfl⟩ := exists_opening_of_bangToken htoken
            refine ⟨_, rest, opens, ?_⟩
            rw [h.whole, ← parts, List.cons_append, List.append_assoc]
        · exact .malformed _
  · exact (Counts.malformed _).atEnd

theorem closeElement_counts {name : Bytes}
    (h : ∀ names, Stands whole { lexer with openNames := names }) :
    Counts whole before (lexer.closeElement name) := by
  unfold closeElement
  split
  · exact .malformed _
  · dsimp only
    split
    · exact .read (h _) (isPlaced_of_ne nofun)
    · exact .malformed _

theorem readClose_counts (h : Follows whole before lexer) :
    Counts whole before (lexer.readClose fault) := by
  unfold readClose
  dsimp only
  split
  · next stop rest hrest =>
    have found := takeWhile_append_of_dropWhile hrest
    have first : (lexer.rest.take 1).length = 1 := by
      cases hlexer : lexer.rest with
      | nil =>
        rw [hlexer] at hrest
        cases hrest
      | cons b bytes => rfl
    refine closeElement_counts fun names => ?_
    refine h.stands (lexer.rest.take 1 ++
      ((lexer.rest.drop 1).takeWhile (· ≠ Bytes.ofChar '>') ++ [stop])) ?_ ?_ names
    · rw [List.append_assoc, List.append_assoc, List.singleton_append, found,
        List.take_append_drop]
    · rw [List.length_append, List.length_append, first, List.length_singleton]
      show lexer.offset + _ + 2 = _
      omega
  · exact (closeElement_counts fun _ => Stands.of_rest_eq_nil rfl).atEnd

theorem finishInstruction_counts {content : Bytes} (h : Stands whole lexer) :
    Counts whole before (lexer.finishInstruction content) := by
  unfold finishInstruction
  split
  · next token htoken =>
    refine .read h (isPlaced_of_ne ?_)
    rintro held rfl
    unfold instructionToken at htoken
    split at htoken
    · cases htoken
    · split at htoken <;> cases htoken
  · exact .malformed _

theorem readInstruction_counts (h : Follows whole before lexer) :
    Counts whole before (lexer.readInstruction fault) := by
  unfold readInstruction
  dsimp only
  split
  · next stop rest hrest =>
    refine finishInstruction_counts (h.stands
      (lexer.rest.takeWhile (· ≠ Bytes.ofChar '>') ++ [stop]) ?_ ?_ _)
    · rw [List.append_assoc]
      exact takeWhile_append_of_dropWhile hrest
    · rw [List.length_append]
      rfl
  · exact (finishInstruction_counts (Stands.of_rest_eq_nil rfl)).atEnd

theorem finishTag_counts {content : Bytes}
    (h : ∀ names, Stands whole { lexer with openNames := names }) :
    Counts whole before (lexer.finishTag content) := by
  have other : ∀ held, tagToken content ≠ .doctype held := by
    intro held
    unfold tagToken
    dsimp only
    split <;> exact nofun
  unfold finishTag
  split
  · exact .read (h _) (isPlaced_of_ne nofun)
  · exact .read (h lexer.openNames) (isPlaced_of_ne other)

theorem readTag_counts (h : Follows whole before lexer) :
    Counts whole before (lexer.readTag fault) := by
  unfold readTag
  split
  · next content rest hsplit =>
    refine finishTag_counts fun names =>
      h.stands (content ++ [Bytes.ofChar '>']) ?_ ?_ names
    · rw [List.append_assoc]
      exact append_of_splitTag hsplit
    · rw [List.length_append]
      rfl
  · exact (finishTag_counts fun _ => Stands.of_rest_eq_nil rfl).atEnd

theorem readMarkup_counts (h : Follows whole before lexer) :
    Counts whole before (lexer.readMarkup fault) := by
  unfold readMarkup
  split
  · exact (Counts.finished _).atEnd
  · split
    · exact readBang_counts h
    · split
      · exact readClose_counts h
      · split
        · exact readInstruction_counts h
        · exact readTag_counts h

/-- Character data leave the lexer behind the sign after them. -/
theorem readText_counts {read : Bytes} (parts : whole = read ++ lexer.rest)
    (counted : lexer.offset = read.length) : Counts whole before (lexer.readText fault) := by
  unfold readText
  dsimp only
  split
  · next stop rest hrest =>
    have found := takeWhile_append_of_dropWhile hrest
    have sign : stop = Bytes.ofChar '<' := by
      have stops := List.head?_dropWhile_not (· ≠ Bytes.ofChar '<') lexer.rest
      rw [hrest] at stops
      simpa using stops
    refine .read (fun _ => ⟨read ++ (lexer.rest.takeWhile (· ≠ Bytes.ofChar '<') ++ [stop]),
      ?_, ?_, fun _ => ?_⟩) (isPlaced_of_ne nofun)
    · rw [parts, List.append_assoc, List.append_assoc, List.singleton_append, found]
    · rw [List.length_append, List.length_append, counted, ← Nat.add_assoc]
      rfl
    · rw [← List.append_assoc, List.getLast?_concat, sign]
  · exact Counts.atEnd (.read (Stands.of_rest_eq_nil rfl) (isPlaced_of_ne nofun))

/-- A step counts what it reads, and the position of its token is where that begins. -/
theorem Stands.step (h : Stands whole lexer) (hstep : lexer.step fault = .token token next) :
    Stands whole next ∧ ∃ before, lexer.position = before.length ∧ token.IsPlaced whole before := by
  have nonempty : lexer.rest ≠ [] := by
    intro nothing
    unfold Lexer.step readMarkup at hstep
    simp only [nothing] at hstep
    cases fault <;> split at hstep <;> cases hstep
  obtain ⟨read, parts, counted, sign⟩ := h nonempty
  unfold Lexer.step at hstep
  split at hstep
  · next afterText =>
    obtain ⟨before, rfl⟩ := List.getLast?_eq_some_iff.1 (sign afterText)
    have follows : Follows whole before { lexer with afterText := false } :=
      ⟨by rw [parts, List.append_assoc]; rfl, by rw [counted, List.length_append]; rfl, rfl⟩
    obtain ⟨stands, placed⟩ := readMarkup_counts follows _ _ hstep
    refine ⟨stands, before, ?_, placed⟩
    rw [position, if_pos afterText, counted, List.length_append]
    rfl
  · next afterText =>
    have here : lexer.position = read.length := by
      rw [position, if_neg afterText, counted, Nat.sub_zero]
    split at hstep
    · next nothing => exact absurd nothing nonempty
    · next b rest hrest =>
      split at hstep
      · next opens =>
        have follows : Follows whole read { lexer with rest, offset := lexer.offset + 1 } :=
          ⟨by rw [parts, hrest, opens], by rw [counted], Bool.eq_false_iff.2 afterText⟩
        obtain ⟨stands, placed⟩ := readMarkup_counts follows _ _ hstep
        exact ⟨stands, read, here, placed⟩
      · obtain ⟨stands, placed⟩ := readText_counts parts counted _ _ hstep
        exact ⟨stands, read, here, placed⟩

/-- All tokens that the lexer reads from where it stands have positions where they begin. -/
theorem Stands.isPlaced_of_mem_readAll (h : Stands whole lexer) {fuel : Nat}
    {done : List (Nat × Token)} {position : Nat}
    (hm : (position, token) ∈ (readAll fault fuel lexer done).tokens) :
    (position, token) ∈ done ∨
      ∃ before, position = before.length ∧ token.IsPlaced whole before := by
  induction fuel generalizing lexer done with
  | zero => exact .inl (List.mem_reverse.1 hm)
  | succ fuel ih =>
    unfold readAll at hm
    split at hm
    · next found next hstep =>
      obtain ⟨stands, placed⟩ := h.step hstep
      -- The token is one of those before, the one that this step reads, or one of the later ones.
      rcases ih stands hm with before | later
      · rcases List.mem_cons.1 before with same | before
        · cases same
          exact .inr placed
        · exact .inl before
      · exact .inr later
    all_goals exact .inl (List.mem_reverse.1 hm)

end Lexer

end Token

/-- The position of a document type declaration is where it begins, and its content comes after its
opening. -/
theorem Source.exists_opening {source : Source} {position : Nat} {content : Bytes}
    (h : (position, .doctype content) ∈ source.tokens.tokens) :
    ∃ before opening behind, position = before.length ∧ Token.IsOpening opening ∧
      source.body = before ++ (opening ++ (content ++ Bytes.ofChar '>' :: behind)) := by
  have start : Token.Lexer.Stands source.body (.start source.bytes) :=
    fun _ => ⟨[], rfl, rfl, nofun⟩
  rcases start.isPlaced_of_mem_readAll h with none | ⟨before, here, placed⟩
  · cases none
  · obtain ⟨opening, behind, opens, whole⟩ := placed content rfl
    exact ⟨before, opening, behind, here, opens, whole⟩

end XmlTable
