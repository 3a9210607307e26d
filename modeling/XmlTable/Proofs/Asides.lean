import XmlTable.Proofs.Relocation

/-!
# Comments and processing instructions between declarations

A comment or a processing instruction between the declarations of an internal subset declares
nothing and nothing is reported of it, so that a scan is what it would be without it, but for the
positions after it. This fails for comments whose text begins with a greater-than sign, or with a
hyphen and that sign. With hyphens of the opening mark the sign makes a closing mark, and the text
after it is scanned as if it stood between the declarations.
-/

namespace XmlTable.Subset

open Text (after? byteLength)

variable {pre aside left text rest : List Char}

/-- What a scan leaves of a comment, given its text: what comes after the first closing mark, which
may begin in the opening mark. -/
def commentRest : List Char → List Char
  | '>' :: text | '-' :: '>' :: text => text ++ commentEnd
  | _ => []

/-- A comment or a processing instruction, with what a scan leaves of it. -/
inductive Aside : List Char → List Char → Prop
  | comment {text : List Char} : IsCommentText text → Aside (comment text) (commentRest text)
  | instruction {target : String} {data : List Char} : IsName target →
    ¬ instructionEnd <:+: data → Aside (instruction target data) []

/-- Of a comment that its text does not end, nothing is left. -/
theorem commentRest_eq_nil_iff : commentRest text = [] ↔ ¬ EndsComment text := by
  unfold commentRest
  split
  · next text =>
    exact iff_of_false (List.append_ne_nil_of_right_ne_nil _ (List.cons_ne_nil _ _))
      (not_not_intro (.inl ⟨text, rfl⟩))
  · next text =>
    exact iff_of_false (List.append_ne_nil_of_right_ne_nil _ (List.cons_ne_nil _ _))
      (not_not_intro (.inr ⟨text, rfl⟩))
  · next sign hyphen =>
    refine iff_of_true rfl ?_
    rintro (⟨text, rfl⟩ | ⟨text, rfl⟩)
    · exact sign text rfl
    · exact hyphen text rfl

/-- A scan passes over the beginning of a comment or a processing instruction, and what is left
comes after that. -/
theorem Aside.exists_readsAs (h : Aside aside left) : ∃ head, aside = head ++ left ∧
    head.head? = some '<' ∧ ReadsAs head fun _ declarations => pure declarations := by
  cases h with
  | @comment text ht =>
    by_cases goesOn : EndsComment text
    · -- One hyphen before the sign, or two, are those of the opening mark.
      rcases goesOn with ⟨text, rfl⟩ | ⟨text, rfl⟩
      · exact ⟨['<', '!', '-', '-'] ++ ['>'], rfl, rfl, readsAs_of_comment fun rest => rfl⟩
      · exact ⟨['<', '!', '-', '-'] ++ ['-', '>'], rfl, rfl, readsAs_of_comment fun rest => rfl⟩
    · refine ⟨Subset.comment text, ?_, rfl, readsAs_of_comment fun rest => ?_⟩
      · rw [commentRest_eq_nil_iff.2 goesOn, List.append_nil]
      · rw [← List.append_assoc]
        exact after?_comment ht goesOn rest
  | instruction ht hd => exact ⟨_, (List.append_nil _).symm, rfl, readsAs_instruction ht hd⟩

/-- After its beginning a scan goes on with what is left. -/
theorem scanFrom_of_readsAs {head : List Char} (sign : head.head? = some '<')
    (reads : ReadsAs head fun _ declarations => pure declarations) (base total fuel : Nat)
    (declarations : Declarations) (rest : List Char) :
    scanFrom base total (fuel + 1) declarations (head ++ rest) =
      scanFrom base total fuel declarations rest := by
  have ne : head ≠ [] := by
    rintro rfl
    cases sign
  have setOff : IsSetOff (head ++ rest) := by
    obtain ⟨c, head, rfl⟩ := List.exists_cons_of_ne_nil ne
    cases sign
    rintro _ ⟨⟩
    decide
  have none : IsSpace [] := nofun
  exact (reads.scanFrom none setOff ne rfl fuel declarations).trans (pure_bind _ _)

/-- A scan that ends tells of the rest as it would without the aside. -/
theorem account_aside (hp : Items pre) (ha : Aside aside left) {post : List Char}
    {handler : Handler} {patience base : Nat} {move : Nat → Nat}
    (same : move = shiftFrom (base + byteLength pre) (byteLength aside - byteLength left))
    (ends : (account (handler.relocate move) patience base (pre ++ (left ++ post))).Ends) :
    account handler patience base (pre ++ (aside ++ post)) =
      (account (handler.relocate move) patience base (pre ++ (left ++ post))).relocate move := by
  obtain ⟨head, rfl, sign, reads⟩ := ha.exists_readsAs
  obtain ⟨fuel, slack, append⟩ := hp.exists_account_append
  have ne : head ≠ [] := by
    rintro rfl
    cases sign
  have amount : byteLength (head ++ left) - byteLength left = byteLength head := by
    rw [Text.byteLength_append, Nat.add_sub_cancel]
  rw [amount] at same
  have before := scanFrom_moves_before base (byteLength head) fuel .none pre
  have after := fun known => scanFrom_moves_behind base
    (slack + ((left ++ post).length + (patience + (head.length - 1)) + 1)) known pre head
      (left ++ post)
  rw [← same] at before after
  obtain ⟨outcome, reports, without, within⟩ := before.bind (Scanning.finds_true _)
    (fun known _ => after known) _ _ (Journal.agrees_relocate move handler)
  have whole := append handler patience base (head ++ (left ++ post))
  simp only [passes_append ne, scanFrom_of_readsAs sign reads] at whole
  rw [List.append_assoc, whole, within, ← account_mono (Nat.le_add_right ..) ends, append, without,
    Account.of_tell, Account.of_tell]
  rfl

/-- A comment or a processing instruction among other items does not matter to a scan that ends: it
is the scan of what is left without it, with the positions after it moved. The error handler decides
as it does of moved positions, which is no difference unless it heeds them. Something is left
exactly of comments that their text ends. -/
theorem asides_are_passed_over (hp : Items pre) (ha : Aside aside left) (post : List Char)
    (handler : Handler) (patience base : Nat) :
    let move := shiftFrom (base + byteLength pre) (byteLength aside - byteLength left)
    ((account (handler.relocate move) patience base (pre ++ (left ++ post))).Ends →
      account handler patience base (pre ++ (aside ++ post)) =
        (account (handler.relocate move) patience base (pre ++ (left ++ post))).relocate move) ∧
      (handler.IgnoresPositions → (account handler patience base (pre ++ (left ++ post))).Ends →
        account handler patience base (pre ++ (aside ++ post)) =
          (account handler patience base (pre ++ (left ++ post))).relocate move) ∧
      (left = [] ↔ ¬ ∃ text, EndsComment text ∧ aside = comment text) := by
  refine ⟨account_aside hp ha rfl, fun ignores ends => ?_, ?_⟩
  · have moved := ignores (shiftFrom (base + byteLength pre) (byteLength aside - byteLength left))
    have told := account_aside hp ha rfl (moved ▸ ends)
    rwa [moved] at told
  · cases ha with
    | @comment text ht =>
      rw [commentRest_eq_nil_iff]
      refine not_congr ⟨fun closes => ⟨text, closes, rfl⟩, ?_⟩
      rintro ⟨other, closes, same⟩
      rwa [List.append_cancel_right (List.append_cancel_left same)]
    | @instruction target data ht hd =>
      refine iff_of_true rfl ?_
      rintro ⟨text, -, same⟩
      cases congrArg (·[1]?) same

/-- A declaration in a processing instruction is not read. The handler recovers from the failure
before the instruction, but not from the one after it. -/
theorem asides_are_passed_over_of_quoted_declaration :
    account (.recovering 1) 0 0 "<!b><?p <!x>?><!c>".toList =
        (account (.recovering 1) 0 0 "<!b><!c>".toList).relocate (shiftFrom 4 10) ∧
      (account (.recovering 1) 0 0 "<!b><!c>".toList).outcome =
        .error (.failure (.parse 4 "unknown declaration '<!c'")) := by
  have none : IsSpace [] := nofun
  have keyword : Closed ['b'] := .of_all (by decide)
  have declaration : Items "<!b>".toList :=
    .cons none (.declaration (.mk keyword (by decide))) (.nil none)
  have unmarked : '?' ∉ " <!x>".toList := by decide
  have instruction : Aside "<?p <!x>?>".toList [] :=
    .instruction (by decide : IsName "p") fun marked : instructionEnd <:+: " <!x>".toList =>
      unmarked (marked.subset List.mem_cons_self)
  have stops : (account (.recovering 1) 0 0 "<!b><!c>".toList).outcome =
      .error (.failure (.parse 4 "unknown declaration '<!c'")) := by
    rw [account_eq]
    rfl
  refine ⟨?_, stops⟩
  exact (asides_are_passed_over declaration instruction "<!c>".toList (.recovering 1) 0 0).2.1
    (Handler.ignoresPositions_recovering 1) fun unfinished => by
      cases stops.symm.trans unfinished

/-- A declaration in a comment is read if the text of the comment begins with a greater-than sign,
and the end of the comment is reported. -/
theorem declaration_in_comment_is_read :
    IsCommentText "><!ENTITY e '1'>".toList ∧
      (account .lenient 0 0 (comment "><!ENTITY e '1'>".toList)).outcome =
        .ok { entities := [("e", "1")] } ∧
      (account .lenient 0 0 (comment "><!ENTITY e '1'>".toList)).reports =
        [.error (.parse 20 "unexpected content in internal subset")] ∧
      account .lenient 0 0 (comment "><!ENTITY e '1'>".toList) ≠
        (account .lenient 0 0 []).relocate
          (shiftFrom 0 (byteLength (comment "><!ENTITY e '1'>".toList))) := by
  have plain : '-' ∉ "><!ENTITY e '1'>".toList := by decide
  have reported : (account .lenient 0 0 (comment "><!ENTITY e '1'>".toList)).reports =
      [.error (.parse 20 "unexpected content in internal subset")] := by
    rw [account_eq]
    rfl
  have silent : (account .lenient 0 0 []).reports = [] := by
    rw [account_eq]
    rfl
  refine ⟨⟨fun hyphens => plain (hyphens.subset List.mem_cons_self), by decide⟩, ?_, reported,
    fun same => ?_⟩
  · rw [account_eq]
    rfl
  · have told := congrArg (·.reports) same
    rw [reported, Account.relocate, silent] at told
    cases told

end XmlTable.Subset
