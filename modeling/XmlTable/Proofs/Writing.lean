import XmlTable.Reference.Expansion
import XmlTable.Text.LineEnds
import XmlTable.Token.Basic

/-!
# Texts as they are written

In a source a character that would be taken for markup, or that would be normalized away, is written
as a reference: to a predefined entity, or to the character by its number. What is written so has
nothing that is normalized, and its expansion is the text.
-/

namespace XmlTable

/-- A run of what has a property ends at the first that lacks it. -/
theorem takeWhile_append_cons {α : Type} {p : α → Bool} {run : List α} {stop : α}
    (hr : ∀ a ∈ run, p a = true) (hs : p stop = false) (rest : List α) :
    (run ++ stop :: rest).takeWhile p = run ∧ (run ++ stop :: rest).dropWhile p = stop :: rest := by
  have stops : ¬ p stop = true := by
    rw [hs]
    exact Bool.false_ne_true
  rw [List.takeWhile_append_of_pos hr, List.dropWhile_append_of_pos hr,
    List.takeWhile_cons_of_neg stops, List.dropWhile_cons_of_neg stops, List.append_nil]
  exact ⟨rfl, rfl⟩

/-! ### The bytes of a text -/

namespace Bytes

/-- The bytes of a text in UTF-8. -/
def encode (text : String) : Bytes :=
  text.toUTF8.data.toList

/-- Decoding undoes encoding. -/
@[simp] theorem utf8?_encode (text : String) : (encode text).utf8? = some text :=
  dif_pos text.isValidUTF8

theorem encode_inj {text other : String} (h : encode text = encode other) : text = other := by
  have same := congrArg utf8? h
  rw [utf8?_encode, utf8?_encode] at same
  exact Option.some.inj same

theorem encode_eq_flatMap (text : String) :
    encode text = text.toList.flatMap String.utf8EncodeChar := by
  rw [encode, String.toUTF8, ← String.utf8Encode_toList, List.utf8Encode,
    List.toList_data_toByteArray]

theorem encode_append (text more : String) :
    encode (text ++ more) = encode text ++ encode more := by
  rw [encode_eq_flatMap, encode_eq_flatMap, encode_eq_flatMap, String.toList_append,
    List.flatMap_append]

theorem length_encode (text : String) : (encode text).length = text.utf8ByteSize :=
  Array.length_toList

/-- A byte of seven bits is a character by itself. -/
theorem toNat_of_mem_utf8EncodeChar {b : UInt8} {c : Char} (h : b ∈ String.utf8EncodeChar c)
    (hb : b < 128) : b.toNat = c.toNat := by
  have high : ∀ n m : Nat, 128 ≤ m → n + m < 256 → ¬ UInt8.ofNat (n + m) < 128 := by
    intro n m hm hlt hs
    rw [UInt8.lt_iff_toNat_lt, UInt8.toNat_ofNat_of_lt' hlt] at hs
    change n + m < 128 at hs
    omega
  unfold String.utf8EncodeChar at h
  dsimp only at h
  split at h
  · next small =>
    rw [List.mem_singleton.1 h]
    exact UInt8.toNat_ofNat_of_lt' (Nat.lt_of_le_of_lt small (by decide))
  · exfalso
    split at h
    · simp only [List.mem_cons, List.not_mem_nil, or_false] at h
      rcases h with rfl | rfl <;> exact high _ _ (by decide) (by omega) hb
    · split at h
      · simp only [List.mem_cons, List.not_mem_nil, or_false] at h
        rcases h with rfl | rfl | rfl <;> exact high _ _ (by decide) (by omega) hb
      · simp only [List.mem_cons, List.not_mem_nil, or_false] at h
        rcases h with rfl | rfl | rfl | rfl <;> exact high _ _ (by decide) (by omega) hb

/-- The byte of an ASCII character is in a text only if the character is. -/
theorem mem_of_ofChar_mem_encode {c : Char} {text : String} (hc : c.toNat < 128)
    (h : ofChar c ∈ encode text) : c ∈ text.toList := by
  have number : (ofChar c).toNat = c.toNat :=
    UInt8.toNat_ofNat_of_lt' (Nat.lt_trans hc (by decide))
  rw [encode_eq_flatMap, List.mem_flatMap] at h
  obtain ⟨found, hf, hb⟩ := h
  have same := toNat_of_mem_utf8EncodeChar hb (by rw [UInt8.lt_iff_toNat_lt, number]; exact hc)
  rw [number, Char.toNat_inj] at same
  exact same ▸ hf

end Bytes

/-! ### Numerals -/

namespace Text

variable {base value n : Nat} {digit? : Char → Option Nat} {cs ds : List Char} {c : Char}

theorem wordFrom?_append (cs ds : List Char) (value : Nat) :
    wordFrom? base digit? value (cs ++ ds) =
      (wordFrom? base digit? value cs).bind fun value => wordFrom? base digit? value ds := by
  induction cs generalizing value with
  | nil => rfl
  | cons c rest ih =>
    rw [List.cons_append, wordFrom?, wordFrom?]
    split
    · rfl
    · split
      · exact ih _
      · rfl

/-- Leading zeros do not count. -/
theorem wordFrom?_replicate_zero (zero : digit? '0' = some 0) (count : Nat) :
    wordFrom? base digit? 0 (List.replicate count '0') = some 0 := by
  induction count with
  | zero => rfl
  | succ count ih =>
    rw [List.replicate_succ, wordFrom?, zero]
    simpa [wordBound] using ih

/-- The digits of a number denote it. -/
theorem wordFrom?_toDigits (one_lt : 1 < base)
    (digits : ∀ d < base, digit? (Nat.digitChar d) = some d) (hn : n < wordBound) :
    wordFrom? base digit? 0 (Nat.toDigits base n) = some n := by
  induction n using Nat.strongRecOn with
  | ind n ih =>
    rw [Nat.toDigits_eq_if one_lt]
    split
    · next small => simp [wordFrom?, digits n small, hn]
    · have front := ih (n / base) (Nat.div_lt_self (by omega) one_lt)
        (Nat.lt_of_le_of_lt (Nat.div_le_self ..) hn)
      rw [wordFrom?_append, front]
      simp [wordFrom?, digits _ (Nat.mod_lt n (by omega)), Nat.div_add_mod', hn]

/-- All characters of a numeral are digits. -/
theorem isSome_of_wordFrom? (h : wordFrom? base digit? value cs = some n) (hc : c ∈ cs) :
    (digit? c).isSome := by
  induction cs generalizing value with
  | nil => cases hc
  | cons d rest ih =>
    rw [wordFrom?] at h
    split at h
    · cases h
    · next digit hd =>
      split at h
      · rcases List.mem_cons.1 hc with rfl | hc
        · rw [hd]
          rfl
        · exact ih h hc
      · cases h

/-- A numeral without a sign is read by its digits. -/
theorem word?_of_wordFrom? (plus : digit? '+' = none) (ne : cs ≠ [])
    (h : wordFrom? base digit? 0 cs = some n) : word? base digit? cs = some n := by
  have unsigned : dropPlus cs = cs := by
    unfold dropPlus
    split
    · have digit := isSome_of_wordFrom? h List.mem_cons_self
      rw [plus] at digit
      cases digit
    · rfl
  rw [word?, unsigned]
  cases cs with
  | nil => exact absurd rfl ne
  | cons => exact h

/-- What is true of the ASCII characters one by one is true of a character that is one. -/
theorem forall_ascii {P : Char → Prop} (h : ∀ n : Fin 128, P (Char.ofNat n))
    (hc : c.toNat < 128) : P c := by
  simpa using h ⟨c.toNat, hc⟩

theorem toNat_lt_of_hexDigit? (h : (hexDigit? c).isSome) : c.toNat < 128 := by
  unfold hexDigit? decimalDigit? at h
  simp only [Char.le_def, UInt32.le_iff_toNat_le] at h
  change c.val.toNat < 128
  split at h
  · next hc => exact Nat.lt_of_le_of_lt hc.2 (by decide)
  · split at h
    · next hc => exact Nat.lt_of_le_of_lt hc.2 (by decide)
    · split at h
      · next hc => exact Nat.lt_of_le_of_lt hc.2 (by decide)
      · cases h

theorem isAlphanum_of_hexDigit? (h : (hexDigit? c).isSome) : c.isAlphanum = true :=
  forall_ascii (P := fun c => (hexDigit? c).isSome → c.isAlphanum = true) (by decide)
    (toNat_lt_of_hexDigit? h) h

theorem isSome_hexDigit?_of_decimalDigit? (h : (decimalDigit? c).isSome) :
    (hexDigit? c).isSome := by
  unfold hexDigit?
  split
  · rfl
  · split
    · rfl
    · exact h

/-- A hexadecimal digit may be a letter of either case. -/
theorem hexDigit?_toLower (c : Char) : hexDigit? c.toLower = hexDigit? c := by
  by_cases hc : c.toNat < 128
  · exact forall_ascii (P := fun c => hexDigit? c.toLower = hexDigit? c) (by decide) hc
  · have same : c.toLower = c :=
      dif_neg fun h => hc (Nat.lt_of_le_of_lt (UInt32.le_iff_toNat_le.1 h.2) (by decide))
    rw [same]

theorem wordFrom?_hex_toLower (cs : List Char) (value : Nat) :
    wordFrom? 16 hexDigit? value (cs.map Char.toLower) = wordFrom? 16 hexDigit? value cs := by
  induction cs generalizing value with
  | nil => rfl
  | cons c rest ih => simp only [List.map_cons, wordFrom?, hexDigit?_toLower, ih]

/-- The decimal digits of a number denote it, also after zeros. -/
theorem decimalWord?_toDigits (zeros : Nat) (hn : n < wordBound) :
    wordFrom? 10 decimalDigit? 0 (List.replicate zeros '0' ++ Nat.toDigits 10 n) = some n := by
  rw [wordFrom?_append, wordFrom?_replicate_zero rfl, Option.bind_some,
    wordFrom?_toDigits (by decide) (by decide) hn]

/-- The hexadecimal digits of a number denote it, in letters of either case and also after zeros. -/
theorem wordFrom?_hex (zeros : Nat) (hn : n < wordBound)
    (hcs : cs.map Char.toLower = List.replicate zeros '0' ++ Nat.toDigits 16 n) :
    wordFrom? 16 hexDigit? 0 cs = some n := by
  rw [← wordFrom?_hex_toLower, hcs, wordFrom?_append, wordFrom?_replicate_zero rfl,
    Option.bind_some, wordFrom?_toDigits (by decide) (by decide) hn]

theorem toNat_lt_wordBound (c : Char) : c.toNat < wordBound :=
  c.val.toNat_lt

theorem legalChar?_toNat (legal : isLegal c.toNat) : legalChar? c.toNat = some c := by
  rw [legalChar?, dif_pos legal]
  rfl

/-! ### Normalized texts -/

/-- Without carriage returns the line ends are line feeds already. -/
theorem normalizeLineEnds_of_notMem {text : String} (h : '\r' ∉ text.toList) :
    normalizeLineEnds text = text := by
  rw [normalizeLineEnds, unifyLineEnds, if_neg (by simpa using h), String.ofList_toList]

/-- Without white space other than blanks an attribute value is normalized already. -/
theorem normalizeAttribute_of_notMem {text : String} (newline : '\n' ∉ text.toList)
    (tab : '\t' ∉ text.toList) (carriage : '\r' ∉ text.toList) :
    normalizeAttribute text = text := by
  have plain : (text.toList.any fun c => c = '\n' || c = '\t' || c = '\r') = false := by
    rw [List.any_eq_false]
    intro c hc special
    simp only [Bool.or_eq_true, decide_eq_true_eq] at special
    rcases special with (rfl | rfl) | rfl
    · exact newline hc
    · exact tab hc
    · exact carriage hc
  rw [normalizeAttribute, flattenSpace, plain, if_neg Bool.false_ne_true, String.ofList_toList]

end Text

/-! ### References to characters -/

namespace Reference

variable {c : Char} {cs ws body reserved : List Char} {declared : String → Option String}

/-- What stands between the ampersand and the semicolon of a reference to a character. -/
inductive Denotes (c : Char) : List Char → Prop
  | predefined {name : String} : (name, String.singleton c) ∈ Entity.predefined →
    Denotes c name.toList
  | decimal (zeros : Nat) : Text.isLegal c.toNat →
    Denotes c ('#' :: (List.replicate zeros '0' ++ Nat.toDigits 10 c.toNat))
  | hexadecimal (zeros : Nat) {digits : List Char} : Text.isLegal c.toNat →
    digits.map Char.toLower = List.replicate zeros '0' ++ Nat.toDigits 16 c.toNat →
    Denotes c ('#' :: 'x' :: digits)

theorem characterOf?_decimal (zeros : Nat) (legal : Text.isLegal c.toNat) :
    characterOf? (List.replicate zeros '0' ++ Nat.toDigits 10 c.toNat) = some c := by
  have digits := Text.decimalWord?_toDigits zeros (Text.toNat_lt_wordBound c)
  have word := Text.word?_of_wordFrom? rfl (by simp [Nat.toDigits_ne_nil]) digits
  unfold characterOf?
  split
  · next hex heq =>
    exact absurd (Text.isSome_of_wordFrom? (heq ▸ digits) List.mem_cons_self) (by decide)
  · next hex heq =>
    exact absurd (Text.isSome_of_wordFrom? (heq ▸ digits) List.mem_cons_self) (by decide)
  · rw [Text.decimalWord?, word, Option.bind_some, Text.legalChar?_toNat legal]

theorem characterOf?_hexadecimal {zeros : Nat} {digits : List Char} (legal : Text.isLegal c.toNat)
    (h : digits.map Char.toLower = List.replicate zeros '0' ++ Nat.toDigits 16 c.toNat) :
    characterOf? ('x' :: digits) = some c := by
  have ne : digits ≠ [] := by
    rintro rfl
    simp [Nat.toDigits_ne_nil] at h
  have word := Text.word?_of_wordFrom? rfl ne
    (Text.wordFrom?_hex zeros (Text.toNat_lt_wordBound c) h)
  show (Text.hexWord? digits).bind Text.legalChar? = some c
  rw [Text.hexWord?, word, Option.bind_some, Text.legalChar?_toNat legal]

/-- A reference to a character is written in letters and digits, with a number sign in front. -/
theorem Denotes.isAlphanum (h : Denotes c body) {x : Char} (hx : x ∈ body) :
    x = '#' ∨ x.isAlphanum = true := by
  cases h with
  | @predefined name known =>
    have letters : (Entity.predefined.all fun entity => entity.1.toList.all Char.isAlphanum) =
        true := by decide
    exact .inr (List.all_eq_true.1 (List.all_eq_true.1 letters _ known) x hx)
  | decimal zeros legal =>
    refine (List.mem_cons.1 hx).imp_right fun hx => ?_
    have digit := Text.isSome_of_wordFrom?
      (Text.decimalWord?_toDigits zeros (Text.toNat_lt_wordBound c)) hx
    exact Text.isAlphanum_of_hexDigit? (Text.isSome_hexDigit?_of_decimalDigit? digit)
  | hexadecimal zeros legal h =>
    refine (List.mem_cons.1 hx).imp_right fun hx => ?_
    rcases List.mem_cons.1 hx with rfl | hx
    · rfl
    · exact Text.isAlphanum_of_hexDigit? (Text.isSome_of_wordFrom?
        (Text.wordFrom?_hex zeros (Text.toNat_lt_wordBound c) h) hx)

theorem Denotes.isNameChar (h : Denotes c body) {x : Char} (hx : x ∈ body) :
    isNameChar x = true := by
  have plain := h.isAlphanum hx
  cases special : Reference.isNameChar x with
  | true => rfl
  | false =>
    exfalso
    revert plain
    simp only [Reference.isNameChar, Bool.not_eq_false', Bool.or_eq_true, decide_eq_true_eq]
      at special
    rcases special with (((((rfl | rfl) | rfl) | rfl) | rfl) | rfl) | rfl <;> decide

theorem Denotes.ne_nil (h : Denotes c body) : body ≠ [] := by
  cases h with
  | predefined known =>
    have named : (Entity.predefined.all fun entity => entity.1.toList ≠ []) = true := by decide
    exact of_decide_eq_true (List.all_eq_true.1 named _ known)
  | decimal => exact List.cons_ne_nil _ _
  | hexadecimal => exact List.cons_ne_nil _ _

/-- A reference is found after its ampersand. -/
theorem Denotes.takeName? (h : Denotes c body) (rest : List Char) :
    takeName? (body ++ ';' :: rest) = some (body, rest) := by
  have stops : Reference.isNameChar ';' = false := by decide
  obtain ⟨name, after⟩ := takeWhile_append_cons (fun _ hx => h.isNameChar hx) stops rest
  rw [Reference.takeName?, name, after]
  cases body with
  | nil => exact absurd rfl h.ne_nil
  | cons => rfl

/-! ### Expanding what was written -/

/-- To put some segments is to put characters to the piece at hand. -/
def Spells (declared : String → Option String) (segments : List Segment) (cs : List Char) : Prop :=
  ∀ (putNested : List Segment → Expanding Unit) (progress : Progress),
    (putAll (putSegment declared putNested) segments).run.run progress =
      (.ok (), progress.addText (String.ofList cs))

namespace Spells

variable {segments : List Segment} {segment : Segment} {ds : List Char}

theorem nil : Spells declared [] [] := by
  intro putNested progress
  show _ = (Except.ok (), { progress with pending := progress.pending ++ "" })
  rw [String.append_empty]
  rfl

/-- A segment that puts characters comes before others. -/
theorem cons (first : ∀ putNested, putSegment declared putNested segment =
      modify (·.addText (String.ofList ds)))
    (h : Spells declared segments cs) : Spells declared (segment :: segments) (ds ++ cs) := by
  intro putNested progress
  rw [putAll, first]
  show (putAll (putSegment declared putNested) segments).run.run
    (progress.addText (String.ofList ds)) = _
  rw [h, Progress.addText, Progress.addText, Progress.addText, String.ofList_append,
    String.append_assoc]

theorem reference (hb : Denotes c body) (h : Spells declared segments cs) :
    Spells declared (.reference body :: segments) ([c] ++ cs) := by
  refine cons (fun putNested => ?_) h
  cases hb with
  | predefined known =>
    simp only [Entity.predefined, List.mem_cons, Prod.mk.injEq, List.not_mem_nil, or_false] at known
    have put : ∀ value, String.singleton c = value →
        (modify (·.addText value) : Expanding Unit) = modify (·.addText (String.ofList [c])) := by
      rintro _ rfl
      rfl
    rcases known with ⟨rfl, h⟩ | ⟨rfl, h⟩ | ⟨rfl, h⟩ | ⟨rfl, h⟩ | ⟨rfl, h⟩ <;> exact put _ h
  | decimal zeros legal =>
    rw [putSegment, characterOf?_decimal zeros legal]
    rfl
  | hexadecimal zeros legal hd =>
    rw [putSegment, characterOf?_hexadecimal legal hd]
    rfl

/-- A run of characters is put, also if it is empty. -/
theorem putText (run : List Char) (h : Spells declared segments cs) :
    Spells declared ((putText run []).reverse ++ segments) (run.reverse ++ cs) := by
  cases run with
  | nil => exact h
  | cons c rest => exact cons (fun _ => rfl) h

end Spells

/-- The pieces of a text without references: it is one piece, unless it is empty. -/
def wholePieces (text : String) (budget : Budget) : List (Piece × Budget) :=
  if text.isEmpty then [] else [(.text text, budget)]

theorem writtenText_wholePieces (text : String) (budget : Budget) :
    writtenText (wholePieces text budget) = text := by
  rw [wholePieces]
  split
  · next empty => exact (String.isEmpty_iff.1 empty).symm
  · exact String.empty_append

theorem reverse_putText (run : List Char) (done : List Segment) :
    (putText run done).reverse = done.reverse ++ (putText run []).reverse := by
  cases run with
  | nil => exact (List.append_nil _).symm
  | cons => exact List.reverse_cons

/-- A text with what is written for it. Some characters are reserved and are written as references;
any other character may be. -/
inductive Written (reserved : List Char) : List Char → List Char → Prop
  | nil : Written reserved [] []
  | plain {c : Char} {cs ws : List Char} : c ∉ reserved → Written reserved cs ws →
    Written reserved (c :: cs) (c :: ws)
  | reference {c : Char} {body cs ws : List Char} : Denotes c body → Written reserved cs ws →
    Written reserved (c :: cs) ('&' :: (body ++ ';' :: ws))

namespace Written

/-- A reserved character that no reference is made of is not written. -/
theorem notMem (h : Written reserved cs ws) {x : Char} (hx : x ∈ reserved)
    (plain : x ≠ '&' ∧ x ≠ '#' ∧ x ≠ ';' ∧ x.isAlphanum = false) : x ∉ ws := by
  obtain ⟨ampersand, sign, semicolon, letter⟩ := plain
  induction h with
  | nil => exact List.not_mem_nil
  | plain hc _ ih =>
    rw [List.mem_cons, not_or]
    exact ⟨fun same => hc (same ▸ hx), ih⟩
  | reference hb _ ih =>
    rw [List.mem_cons, List.mem_append, List.mem_cons]
    rintro (same | hm | same | hm)
    · exact ampersand same
    · rcases hb.isAlphanum hm with same | found
      · exact sign same
      · rw [letter] at found
        cases found
    · exact semicolon same
    · exact ih hm

/-- The segments of what is written put the text, after the run at hand. -/
theorem segmentsFrom (h : Written reserved cs ws) (ampersand : '&' ∈ reserved)
    (declared : String → Option String) (done : List Segment) (run : List Char) :
    ∃ segments, segmentsFrom done run ws = done.reverse ++ segments ∧
      Spells declared segments (run.reverse ++ cs) := by
  induction h generalizing done run with
  | nil =>
    refine ⟨_, ?_, Spells.nil.putText run⟩
    rw [Reference.segmentsFrom, reverse_putText, List.append_nil]
  | @plain c cs ws hc _ ih =>
    have plain : c ≠ '&' := fun same => hc (same ▸ ampersand)
    obtain ⟨segments, found, spells⟩ := ih done (c :: run)
    refine ⟨segments, ?_, ?_⟩
    · rw [Reference.segmentsFrom, if_neg plain, found]
    · rwa [List.reverse_cons, List.append_assoc] at spells
  | @reference c body cs ws hb _ ih =>
    obtain ⟨segments, found, spells⟩ := ih (.reference body :: Reference.putText run done) []
    refine ⟨(Reference.putText run []).reverse ++ .reference body :: segments, ?_,
      (spells.reference hb).putText run⟩
    have name := hb.takeName? ws
    rw [Reference.segmentsFrom, if_pos rfl]
    split
    · next found' =>
      rw [name] at found'
      cases found'
      rw [found, List.reverse_cons, reverse_putText, List.append_assoc, List.append_assoc,
        List.singleton_append]
    · next missing =>
      rw [name] at missing
      cases missing

/-- The expansion of what is written is the text. Nothing is drawn from the budget. -/
theorem decode {text : String} (h : Written reserved text.toList ws) (ampersand : '&' ∈ reserved)
    (declared : String → Option String) (budget : Budget) :
    decode declared budget (String.ofList ws) = ⟨wholePieces text budget, budget, none⟩ := by
  obtain ⟨segments, found, spells⟩ := h.segmentsFrom ampersand declared [] []
  have put : (expand declared maxDepth (Reference.segments (String.ofList ws).toList)).run.run
      { budget } = (.ok (), Progress.addText { budget } text) := by
    rw [String.toList_ofList, Reference.segments, found, ← String.ofList_toList (s := text)]
    exact spells (expand declared 15) { budget }
  rw [Reference.decode, put]
  show (⟨(Progress.flush ⟨#[], "" ++ text, budget⟩).pieces.toList, budget, none⟩ : Expansion) = _
  rw [String.empty_append, Progress.flush, wholePieces]
  split <;> rfl

end Written

end Reference

end XmlTable
