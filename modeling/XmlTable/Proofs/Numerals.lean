import Mathlib.Data.Nat.Digits.Defs
import XmlTable.Proofs.Segments

/-!
# References to characters by their numbers

The number of a character is written in decimal digits, or in hexadecimal ones after an `x` of
either case. There may be as many digits as one likes, since leading zeros do not count and no
character has a number beyond 32 bits. One more thing is let through than XML has: a plus sign
before the digits.
-/

namespace XmlTable

/-! ### Numerals -/

namespace Text

variable {base value n digit : Nat} {digit? : Char → Option Nat} {cs : List Char} {c : Char}

/-- Characters write a number in a base. They are its digits, the most significant one first. -/
structure IsNumeral (base : Nat) (cs : List Char) (n : Nat) : Prop where
  /-- There is a digit at least. -/
  ne_nil : cs ≠ []
  /-- Each digit is below the base, letters may be of either case, and zeros may lead. -/
  digits : ∃ digits : List Nat, (∀ digit ∈ digits, digit < base) ∧
    cs.map Char.toLower = digits.map Nat.digitChar ∧ Nat.ofDigits base digits.reverse = n

theorem IsNumeral.head (h : IsNumeral base (c :: cs) n) :
    ∃ digit < base, c.toLower = Nat.digitChar digit := by
  obtain ⟨digits, below, lower, -⟩ := h.digits
  obtain ⟨digit, digits, rfl, first, -⟩ := List.map_eq_cons_iff.1 lower.symm
  exact ⟨digit, below digit List.mem_cons_self, first.symm⟩

theorem hexDigit?_eq_some_iff :
    hexDigit? c = some digit ↔ digit < 16 ∧ c.toLower = Nat.digitChar digit := by
  constructor
  · intro h
    have ascii : c.toNat < 128 := toNat_lt_of_hexDigit? (by rw [h]; rfl)
    have all := forall_ascii (P := fun c =>
      (hexDigit? c).all fun digit => digit < 16 ∧ c.toLower = Nat.digitChar digit) (by decide) ascii
    rw [h] at all
    simpa using all
  · rintro ⟨small, same⟩
    have all : ∀ digit < 16, hexDigit? (Nat.digitChar digit) = some digit := by decide
    rw [← hexDigit?_toLower, same, all digit small]

/-- The decimal digits are the hexadecimal ones below ten. -/
theorem decimalDigit?_eq_some_iff :
    decimalDigit? c = some digit ↔ digit < 10 ∧ c.toLower = Nat.digitChar digit := by
  have hexadecimal : decimalDigit? c = some digit ↔ digit < 10 ∧ hexDigit? c = some digit := by
    have le : ∀ a b : Char, a ≤ b ↔ a.toNat ≤ b.toNat := fun _ _ => Iff.rfl
    have codes : '0'.toNat = 48 ∧ '9'.toNat = 57 ∧ 'A'.toNat = 65 ∧ 'F'.toNat = 70 ∧
      'a'.toNat = 97 ∧ 'f'.toNat = 102 := by decide
    unfold hexDigit? decimalDigit?
    grind
  rw [hexadecimal, hexDigit?_eq_some_iff]
  exact ⟨fun h => ⟨h.1, h.2.2⟩, fun h => ⟨h.1, Nat.lt_of_lt_of_le h.1 (by decide), h.2⟩⟩

/-- A number does not get smaller when digits are put after it. -/
theorem le_foldl_digits (positive : 0 < base) (digits : List Nat) (value : Nat) :
    value ≤ digits.foldl (fun value digit => value * base + digit) value := by
  induction digits generalizing value with
  | nil => exact Nat.le_refl _
  | cons digit rest ih =>
    calc value ≤ value * base := Nat.le_mul_of_pos_right _ positive
      _ ≤ value * base + digit := Nat.le_add_right ..
      _ ≤ _ := ih _

section Numbers

variable (digit?_eq_some_iff :
  ∀ c digit, digit? c = some digit ↔ digit < base ∧ c.toLower = Nat.digitChar digit)

include digit?_eq_some_iff

/-- What is read is the number that the digits make up, if it is small enough. No number on the way
is larger. -/
theorem wordFrom?_eq_some_iff (positive : 0 < base) (small : value < wordBound) :
    wordFrom? base digit? value cs = some n ↔ n < wordBound ∧
      ∃ digits : List Nat, (∀ digit ∈ digits, digit < base) ∧
        cs.map Char.toLower = digits.map Nat.digitChar ∧
        digits.foldl (fun value digit => value * base + digit) value = n := by
  induction cs generalizing value with
  | nil =>
    constructor
    · rintro ⟨⟩
      exact ⟨small, [], by simp, rfl, rfl⟩
    · rintro ⟨-, digits, -, same, rfl⟩
      rw [List.map_eq_nil_iff.1 same.symm]
      rfl
  | cons c rest ih =>
    rw [wordFrom?]
    constructor
    · intro h
      split at h
      · cases h
      · next digit found =>
        split at h
        · next small =>
          obtain ⟨bounded, digits, below, same, value⟩ := (ih small).1 h
          obtain ⟨first, lower⟩ := (digit?_eq_some_iff c digit).1 found
          refine ⟨bounded, digit :: digits, List.forall_mem_cons.2 ⟨first, below⟩, ?_, value⟩
          rw [List.map_cons, List.map_cons, lower, same]
        · cases h
    · rintro ⟨bounded, digits, below, same, rfl⟩
      obtain ⟨digit, digits, rfl, lower, same⟩ := List.map_eq_cons_iff.1 same.symm
      obtain ⟨first, below⟩ := List.forall_mem_cons.1 below
      have onward := Nat.lt_of_le_of_lt (le_foldl_digits positive digits _) bounded
      rw [(digit?_eq_some_iff c digit).2 ⟨first, lower.symm⟩]
      dsimp only
      rw [if_pos onward]
      exact (ih onward).2 ⟨bounded, digits, below, same.symm, rfl⟩

/-- What is read without a sign is a numeral. -/
theorem isNumeral_iff (positive : 0 < base) :
    cs ≠ [] ∧ wordFrom? base digit? 0 cs = some n ↔ n < wordBound ∧ IsNumeral base cs n := by
  have value : ∀ digits : List Nat, Nat.ofDigits base digits.reverse =
      digits.foldl (fun value digit => value * base + digit) 0 := by
    intro digits
    rw [Nat.ofDigits_eq_foldr, List.foldr_reverse]
    simp only [Nat.cast_id, Nat.mul_comm, Nat.add_comm]
  rw [wordFrom?_eq_some_iff digit?_eq_some_iff positive (by decide)]
  constructor
  · rintro ⟨ne_nil, bounded, digits, below, same, made⟩
    exact ⟨bounded, ne_nil, digits, below, same, (value digits).trans made⟩
  · rintro ⟨bounded, ne_nil, digits, below, same, made⟩
    exact ⟨ne_nil, bounded, digits, below, same, (value digits).symm.trans made⟩

/-- A number may have a plus sign before its digits. -/
theorem word?_eq_some_iff (positive : 0 < base) (plus : digit? '+' = none) :
    word? base digit? cs = some n ↔ n < wordBound ∧
      (IsNumeral base cs n ∨ ∃ digits, cs = '+' :: digits ∧ IsNumeral base digits n) := by
  have unsigned : word? base digit? cs = some n ↔
      dropPlus cs ≠ [] ∧ wordFrom? base digit? 0 (dropPlus cs) = some n := by
    rw [word?]
    cases dropPlus cs <;> simp
  rw [unsigned, isNumeral_iff digit?_eq_some_iff positive]
  refine and_congr_right fun bounded => ?_
  fun_cases dropPlus cs with
  | case1 rest =>
    constructor
    · exact fun h => .inr ⟨rest, rfl, h⟩
    · rintro (h | ⟨digits, same, h⟩)
      · have read := ((isNumeral_iff digit?_eq_some_iff positive).2 ⟨bounded, h⟩).2
        rw [wordFrom?, plus] at read
        cases read
      · cases same
        exact h
  | case2 _ plain =>
    constructor
    · exact .inl
    · rintro (h | ⟨digits, rfl, -⟩)
      · exact h
      · exact absurd rfl (plain digits)

end Numbers

theorem legalChar?_eq_some_iff : legalChar? n = some c ↔ isLegal n ∧ c.toNat = n := by
  constructor
  · intro found
    have legal : isLegal n := Option.isSome_dite.1 (Option.isSome_of_eq_some found)
    rw [legalChar?, dif_pos legal] at found
    exact ⟨legal, congrArg Char.toNat (Option.some.inj found).symm⟩
  · rintro ⟨legal, rfl⟩
    exact legalChar?_toNat legal

end Text

/-! ### References -/

namespace Reference

variable {code : Nat} {c : Char} {cs digits : List Char}

/-- What may stand between the number sign and the semicolon of a reference to a character: its
number, with a sign before the digits. XML has no sign there. -/
inductive IsCode (sign : List Char) : List Char → Nat → Prop
  | decimal {digits : List Char} {code : Nat} : Text.IsNumeral 10 digits code →
    IsCode sign (sign ++ digits) code
  | hexadecimal {x : Char} {digits : List Char} {code : Nat} : x = 'x' ∨ x = 'X' →
    Text.IsNumeral 16 digits code → IsCode sign (x :: (sign ++ digits)) code

theorem decimalWord?_eq_some_iff : Text.decimalWord? cs = some code ↔ code < Text.wordBound ∧
    (Text.IsNumeral 10 cs code ∨ ∃ digits, cs = '+' :: digits ∧ Text.IsNumeral 10 digits code) :=
  Text.word?_eq_some_iff (fun _ _ => Text.decimalDigit?_eq_some_iff) (by decide) rfl

theorem hexWord?_eq_some_iff : Text.hexWord? cs = some code ↔ code < Text.wordBound ∧
    (Text.IsNumeral 16 cs code ∨ ∃ digits, cs = '+' :: digits ∧ Text.IsNumeral 16 digits code) :=
  Text.word?_eq_some_iff (fun _ _ => Text.hexDigit?_eq_some_iff) (by decide) rfl

/-- The number after an `x` is hexadecimal. No decimal digit and no sign is an `x`. -/
theorem isCode_hexadecimal {x : Char} (hx : x = 'x' ∨ x = 'X') {sign : List Char}
    (hs : sign = [] ∨ sign = ['+']) : IsCode sign (x :: cs) code ↔
      ∃ digits, cs = sign ++ digits ∧ Text.IsNumeral 16 digits code := by
  constructor
  · generalize same : x :: cs = written
    rintro (h | ⟨-, h⟩)
    · exfalso
      rcases hs with rfl | rfl
      · subst same
        obtain ⟨digit, small, first⟩ := h.head
        have letter : ∀ digit < 10, 'x' ≠ Nat.digitChar digit := by decide
        rcases hx with rfl | rfl <;> exact letter digit small first
      · cases same
        exact absurd hx (by decide)
    · cases same
      exact ⟨_, rfl, h⟩
  · rintro ⟨digits, rfl, h⟩
    exact .hexadecimal hx h

theorem isCode_decimal (h : ∀ x, x = 'x' ∨ x = 'X' → cs.head? ≠ some x) {sign : List Char} :
    IsCode sign cs code ↔ ∃ digits, cs = sign ++ digits ∧ Text.IsNumeral 10 digits code := by
  constructor
  · rintro (numeral | ⟨hx, -⟩)
    · exact ⟨_, rfl, numeral⟩
    · exact absurd rfl (h _ hx)
  · rintro ⟨digits, rfl, numeral⟩
    exact .decimal numeral

/-- The number of a character is written with or without a plus sign. -/
theorem characterOf?_eq_some_iff :
    characterOf? cs = some c ↔
      Text.isLegal c.toNat ∧ (IsCode [] cs c.toNat ∨ IsCode ['+'] cs c.toNat) := by
  have legal : ∀ code? : Option Nat, code?.bind Text.legalChar? = some c ↔
      Text.isLegal c.toNat ∧ code? = some c.toNat := by
    intro code?
    cases code? with
    | none => simp
    | some code =>
      rw [Option.bind_some, Text.legalChar?_eq_some_iff, Option.some.injEq]
      exact ⟨fun ⟨legal, same⟩ => ⟨same ▸ legal, same.symm⟩,
        fun ⟨legal, same⟩ => ⟨same ▸ legal, same.symm⟩⟩
  by_cases hx : ∃ x hex, (x = 'x' ∨ x = 'X') ∧ cs = x :: hex
  · obtain ⟨x, hex, hx, rfl⟩ := hx
    have read : characterOf? (x :: hex) = (Text.hexWord? hex).bind Text.legalChar? := by
      rcases hx with rfl | rfl <;> rfl
    rw [read, legal, hexWord?_eq_some_iff, isCode_hexadecimal hx (.inl rfl),
      isCode_hexadecimal hx (.inr rfl)]
    simp [Text.toNat_lt_wordBound]
  · have plain : ∀ x, x = 'x' ∨ x = 'X' → cs.head? ≠ some x := by
      intro x isX first
      obtain ⟨hex, rfl⟩ := List.head?_eq_some_iff.1 first
      exact hx ⟨x, hex, isX, rfl⟩
    have read : characterOf? cs = (Text.decimalWord? cs).bind Text.legalChar? := by
      unfold characterOf?
      split
      · exact absurd rfl (plain 'x' (.inl rfl))
      · exact absurd rfl (plain 'X' (.inr rfl))
      · rfl
    rw [read, legal, decimalWord?_eq_some_iff, isCode_decimal plain, isCode_decimal plain]
    simp [Text.toNat_lt_wordBound]

/-! ### What comes of a reference by a number -/

variable (declared : String → Option String) (budget : Budget)

/-- A text that is one reference by a number becomes the character, or is refused. -/
theorem decodeToString_number {number : String} (h : IsName ('#' :: number.toList)) :
    decodeToString declared budget ("&#" ++ number ++ ";") =
      ((characterOf? number.toList).elim (.error (.invalidCharacter ("#" ++ number)))
        fun c => .ok (String.singleton c), budget) := by
  have alone : segments ("&#" ++ number ++ ";").toList =
      [.reference ('#' :: number.toList)] := by
    have found := segments_append_reference h [] []
    simpa [segments, segmentsFrom, putText] using found
  have name : String.ofList ('#' :: number.toList) = "#" ++ number := by
    rw [String.ofList_cons, String.ofList_toList]
    rfl
  have run : (expand declared maxDepth [.reference ('#' :: number.toList)]).run.run { budget } =
      ((characterOf? number.toList).elim (.error (.invalidCharacter ("#" ++ number)), { budget })
        fun c => (.ok (), Progress.addText { budget } (String.singleton c))) := by
    show (putAll (putSegment declared (expand declared 15)) _).run.run _ = _
    rw [putAll, Expanding.run_bind, putSegment]
    cases characterOf? number.toList with
    | none => rw [name]; rfl
    | some c => rfl
  unfold decodeToString decode
  rw [alone, run]
  cases characterOf? number.toList with
  | none => rfl
  | some c =>
    have pieces : (Progress.addText { budget } (String.singleton c)).flush.pieces.toList =
        [(.text (String.singleton c), budget)] := by
      rw [Progress.flush, Progress.addText, String.empty_append, if_neg (by simp)]
      rfl
    show (Except.ok (writtenText (Progress.addText { budget } _).flush.pieces.toList), budget) = _
    rw [pieces]
    exact congrArg (fun text => (Except.ok text, budget)) String.empty_append

/-- A reference by a number becomes a character exactly if the character is legal and the number is
its code point, written in decimal digits, or in hexadecimal ones after an `x`. The digits may have
a plus sign before them. Every other reference is an error that names it. Neither draws on the
budget. -/
theorem character_numbers_are_read {number : String} (plain : number.toList.all isNameChar = true) :
    (∀ c, decodeToString declared budget ("&#" ++ number ++ ";") =
        (.ok (String.singleton c), budget) ↔
      Text.isLegal c.toNat ∧
        (IsCode [] number.toList c.toNat ∨ IsCode ['+'] number.toList c.toNat)) ∧
    ((¬ ∃ c : Char, Text.isLegal c.toNat ∧
        (IsCode [] number.toList c.toNat ∨ IsCode ['+'] number.toList c.toNat)) →
      decodeToString declared budget ("&#" ++ number ++ ";") =
        (.error (.invalidCharacter ("#" ++ number)), budget)) := by
  have name : IsName ('#' :: number.toList) := ⟨List.cons_ne_nil _ _, plain⟩
  simp only [decodeToString_number declared budget name, ← characterOf?_eq_some_iff]
  cases characterOf? number.toList with
  | none => simp
  | some c => simp [String.singleton_inj]

theorem character_numbers_are_read_of_letters :
    "x1F600".toList.all isNameChar = true ∧
      decodeToString (fun _ => none) (.full 0) ("&#" ++ "x1F600" ++ ";") =
        (.ok (String.singleton '😀'), .full 0) := by
  have numeral : Text.IsNumeral 16 "1F600".toList '😀'.toNat :=
    ⟨by decide, [1, 15, 6, 0, 0], by decide, by decide, by decide⟩
  refine ⟨by decide, ?_⟩
  exact ((character_numbers_are_read _ _ (by decide)).1 '😀').2
    ⟨by decide, .inl (.hexadecimal (.inl rfl) numeral)⟩

/-- A plus sign before the digits is let through, though the number of no character is written with
one. -/
theorem not_isCode_of_plus_sign :
    decodeToString (fun _ => none) (.full 0) ("&#" ++ "+65" ++ ";") =
        (.ok (String.singleton 'A'), .full 0) ∧
      ¬ ∃ c : Char, Text.isLegal c.toNat ∧ IsCode [] "+65".toList c.toNat := by
  constructor
  · exact decodeToString_number _ _ ⟨by decide, by decide⟩
  · rintro ⟨c, -, written⟩
    have plain : ∀ x, x = 'x' ∨ x = 'X' → "+65".toList.head? ≠ some x := by
      rintro x (rfl | rfl) <;> decide
    obtain ⟨digits, same, numeral⟩ := (isCode_decimal plain).1 written
    obtain rfl : ['+', '6', '5'] = digits := same
    obtain ⟨digit, small, first⟩ := numeral.head
    exact (by decide : ∀ digit < 10, '+' ≠ Nat.digitChar digit) digit small first

end Reference

end XmlTable
