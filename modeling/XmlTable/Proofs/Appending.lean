import Mathlib.Data.List.TakeWhile
import XmlTable.Proofs.Excerpts
import XmlTable.Proofs.Markup

/-!
# Tags with more attributes at the end

Attributes that are written behind those of a tag are read after them, and leave what is read before
as it is. This is so for a tag whose attributes could all be read, and for one in which a key is
repeated: there nothing is read behind the repetition. The lexer reads the longer tag as one tag,
since what is written has quotes in pairs and no greater-than sign outside them.
-/

namespace XmlTable

section

variable {α : Type} {p : α → Bool} {whole part rest : List α} {stop : α}

/-- A run that ends before something ends there whatever comes behind. -/
theorem dropWhile_append_of_dropWhile (h : whole.dropWhile p = stop :: rest) (more : List α) :
    (whole ++ more).takeWhile p = whole.takeWhile p ∧
      (whole ++ more).dropWhile p = stop :: (rest ++ more) := by
  have stops : p stop = false := by
    have found := List.head?_dropWhile_not p whole
    rwa [h] at found
  have inside := List.all_eq_true.1 (List.all_takeWhile (l := whole) (p := p))
  rw [← takeWhile_append_of_dropWhile h, List.append_assoc, List.cons_append]
  obtain ⟨run, left⟩ := takeWhile_append_cons inside stops (rest ++ more)
  obtain ⟨run', -⟩ := takeWhile_append_cons inside stops rest
  exact ⟨run.trans run'.symm, left⟩

/-- A run in the front of a list is cut off where the front ends. -/
theorem min_length_takeWhile_append (p : α → Bool) (front back : List α) :
    min ((front ++ back).takeWhile p).length front.length = (front.takeWhile p).length := by
  induction front with
  | nil => exact Nat.min_zero _
  | cons a front ih =>
    rw [List.cons_append, List.takeWhile_cons, List.takeWhile_cons]
    split
    · rw [List.length_cons, List.length_cons, List.length_cons, Nat.succ_min_succ, ih]
    · exact Nat.zero_min _

end

namespace Tag

variable {rest rest' more bytes space : Bytes} {position position' : Nat} {attr : Attribute}
  {earlier : List (Bytes × Nat)} {list attributes : List Attribute} {fault : Option Fault}

/-! ### One attribute -/

theorem findEquals_append (h : findEquals rest position = .ok (rest', position'))
    (more : Bytes) : findEquals (rest ++ more) position = .ok (rest' ++ more, position') := by
  unfold findEquals at h ⊢
  dsimp only at h ⊢
  split at h
  · cases h
  · next b after found =>
    obtain ⟨blank, left⟩ := dropWhile_append_of_dropWhile found more
    rw [blank, left]
    dsimp only
    split at h
    · next sign =>
      cases h
      rw [if_pos sign]
    · cases h

theorem readValue_append {value : Bytes}
    (h : readValue rest position = .ok (value, rest', position')) (more : Bytes) :
    readValue (rest ++ more) position = .ok (value, rest' ++ more, position') := by
  unfold readValue at h ⊢
  dsimp only at h ⊢
  split at h
  · cases h
  · next quote body found =>
    obtain ⟨blank, left⟩ := dropWhile_append_of_dropWhile found more
    rw [blank, left]
    dsimp only
    split at h
    · next isQuote =>
      rw [if_pos isQuote]
      split at h
      · next closing after closed =>
        obtain ⟨value, behind⟩ := dropWhile_append_of_dropWhile closed more
        cases h
        rw [value, behind]
      · cases h
    · cases h

/-- What is read next does not depend on what comes behind: it is an attribute, or an attribute
whose key occurred before. -/
inductive Next.IsSettled : Next → Prop
  | found {attr : Attribute} {start : Nat} {rest : Bytes} {position : Nat} :
    IsSettled (.found attr start rest position)
  | duplicated {position earlier : Nat} : IsSettled (.fault (.duplicated position earlier))

theorem not_isSettled_of_findEquals {fault : Fault} (h : findEquals rest position = .error fault) :
    ¬ (Next.fault fault).IsSettled := by
  unfold findEquals at h
  dsimp only at h
  split at h
  · cases h
    exact nofun
  · split at h <;> cases h
    exact nofun

theorem not_isSettled_of_readValue {fault : Fault} (h : readValue rest position = .error fault) :
    ¬ (Next.fault fault).IsSettled := by
  unfold readValue at h
  dsimp only at h
  split at h
  · cases h
    exact nofun
  · split at h
    · split at h <;> cases h
      exact nofun
    · cases h
      exact nofun

/-- What is read next, if there is more behind. -/
def Next.before (more : Bytes) : Next → Next
  | .found attr start rest position => .found attr start (rest ++ more) position
  | next => next

theorem readAttribute_append {next : Next} (read : readAttribute earlier rest position = next)
    (h : next.IsSettled) (more : Bytes) :
    readAttribute earlier (rest ++ more) position = next.before more := by
  subst read
  unfold readAttribute at h ⊢
  dsimp only at h ⊢
  split at h
  · cases h
  · next first after found =>
    obtain ⟨blank, left⟩ := dropWhile_append_of_dropWhile found more
    rw [blank, left]
    dsimp only
    split at h
    · next equals => exact absurd h (not_isSettled_of_findEquals equals)
    · next behind place equals =>
      -- The key ends at the equals sign, or at white space before it.
      cases ends : after.dropWhile (fun b => b ≠ Bytes.ofChar '=' && !Bytes.isSpace b) with
      | nil =>
        rw [ends] at equals
        cases equals
      | cons stop afterKey =>
        obtain ⟨key, keyLeft⟩ := dropWhile_append_of_dropWhile ends more
        rw [ends] at equals
        rw [key, keyLeft, ← List.cons_append, findEquals_append equals more]
        dsimp only
        split at h
        · rfl
        · split at h
          · next read => exact absurd h (not_isSettled_of_readValue read)
          · next read =>
            rw [readValue_append read more]
            rfl

/-- An attribute takes a byte, and its key is a new one. -/
theorem of_readAttribute_eq_found {start : Nat}
    (h : readAttribute earlier rest position = .found attr start rest' position') :
    rest'.length < rest.length ∧ earlier.lookup attr.key = none := by
  unfold readAttribute at h
  dsimp only at h
  split at h
  · cases h
  · next first after found =>
    split at h
    · cases h
    · next behind place equals =>
      split at h
      · cases h
      · next unknown =>
        split at h <;> cases h
        next value read =>
        have inside := (infix_of_readValue read).2.length_le
        have key := ((suffix_of_findEquals equals).trans (List.dropWhile_suffix _)).length_le
        have blank := (List.dropWhile_suffix (l := rest) Bytes.isSpace).length_le
        rw [found, List.length_cons] at blank
        exact ⟨by omega, unknown⟩

/-! ### All attributes -/

/-- The attributes that are read from some bytes on, and the fault after them. -/
inductive Reads : List (Bytes × Nat) → Bytes → Nat → List Attribute → Option Fault → Prop
  | finished {earlier : List (Bytes × Nat)} {rest : Bytes} {position : Nat} :
    readAttribute earlier rest position = .finished → Reads earlier rest position [] none
  | fault {earlier : List (Bytes × Nat)} {rest : Bytes} {position : Nat} {fault : Fault} :
    readAttribute earlier rest position = .fault fault →
    Reads earlier rest position [] (some fault)
  | found {earlier : List (Bytes × Nat)} {rest rest' : Bytes} {position start position' : Nat}
    {attr : Attribute} {list : List Attribute} {fault : Option Fault} :
    readAttribute earlier rest position = .found attr start rest' position' →
    Reads ((attr.key, start) :: earlier) rest' position' list fault →
    Reads earlier rest position (attr :: list) fault

theorem Reads.readAttributes (h : Reads earlier rest position list fault) {fuel : Nat}
    (enough : rest.length < fuel) (done : List Attribute) :
    readAttributes fuel earlier rest position done = ⟨done.reverse ++ list, fault⟩ := by
  induction h generalizing fuel done with
  | finished next =>
    obtain ⟨fuel, rfl⟩ := Nat.exists_eq_succ_of_ne_zero (Nat.ne_of_gt (Nat.zero_lt_of_lt enough))
    rw [Tag.readAttributes, next, List.append_nil]
  | fault next =>
    obtain ⟨fuel, rfl⟩ := Nat.exists_eq_succ_of_ne_zero (Nat.ne_of_gt (Nat.zero_lt_of_lt enough))
    rw [Tag.readAttributes, next, List.append_nil]
  | found next _ ih =>
    obtain ⟨fuel, rfl⟩ := Nat.exists_eq_succ_of_ne_zero (Nat.ne_of_gt (Nat.zero_lt_of_lt enough))
    have less := (of_readAttribute_eq_found next).1
    rw [Tag.readAttributes, next]
    dsimp only
    rw [ih (Nat.lt_of_lt_of_le less (Nat.le_of_lt_succ enough)), List.reverse_cons,
      List.append_assoc, List.singleton_append]

theorem exists_reads (earlier : List (Bytes × Nat)) (rest : Bytes) (position : Nat) :
    ∃ list fault, Reads earlier rest position list fault := by
  induction hn : rest.length using Nat.strongRecOn generalizing earlier rest position with
  | ind n ih =>
    cases next : readAttribute earlier rest position with
    | finished => exact ⟨[], none, .finished next⟩
    | fault fault => exact ⟨[], some fault, .fault next⟩
    | found attr start rest' position' =>
      have less := (of_readAttribute_eq_found next).1
      obtain ⟨list, fault, reads⟩ :=
        ih _ (hn ▸ less) ((attr.key, start) :: earlier) rest' position' rfl
      exact ⟨attr :: list, fault, .found next reads⟩

/-- The attributes of a tag are those that are read behind its name. -/
theorem reads_iff (tag : Tag) : tag.attributes = ⟨list, fault⟩ ↔
    Reads [] (tag.content.drop tag.nameLength) tag.nameLength list fault := by
  constructor
  · intro same
    obtain ⟨list', fault', reads⟩ :=
      exists_reads [] (tag.content.drop tag.nameLength) tag.nameLength
    have read := reads.readAttributes (Nat.lt_succ_self _) []
    cases same.symm.trans read
    exact reads
  · exact fun reads => reads.readAttributes (Nat.lt_succ_self _) []

/-- No key is read again, or is that of an earlier attribute. -/
theorem Reads.nodup (h : Reads earlier rest position list fault) :
    (list.map (·.key)).Nodup ∧ ∀ attr ∈ list, earlier.lookup attr.key = none := by
  induction h with
  | finished | fault => exact ⟨.nil, List.forall_mem_nil _⟩
  | @found earlier _ _ _ start _ attr list _ next _ ih =>
    obtain ⟨distinct, new⟩ := ih
    have apart : ∀ other ∈ list, other.key ≠ attr.key ∧ earlier.lookup other.key = none := by
      intro other ho
      have unknown := new other ho
      rw [List.lookup_cons] at unknown
      split at unknown
      · cases unknown
      · next different => exact ⟨ne_of_beq_false different, unknown⟩
    refine ⟨List.nodup_cons.2 ⟨fun hm => ?_, distinct⟩, List.forall_mem_cons.2
      ⟨(of_readAttribute_eq_found next).2, fun other ho => (apart other ho).2⟩⟩
    obtain ⟨other, ho, same⟩ := List.mem_map.1 hm
    exact (apart other ho).1 same

/-- The keys of the attributes of a tag differ. -/
theorem nodup_keys (tag : Tag) : (tag.attributes.list.map (·.key)).Nodup :=
  ((reads_iff tag).1 rfl).nodup.1

/-! ### More attributes at the end -/

/-- Attributes as they are written out, each with white space before it and its value in quotes. -/
inductive WrittenOut : List Attribute → Bytes → Prop
  | nil : WrittenOut [] []
  | cons {attr : Attribute} {attributes : List Attribute} {space bytes : Bytes} {quote : UInt8} :
    isBlank space = true → space ≠ [] → IsQuote quote → quote ∉ attr.value →
    WrittenOut attributes bytes →
    WrittenOut (attr :: attributes)
      (space ++ (attr.key ++ Bytes.ofChar '=' :: quote :: (attr.value ++ quote :: bytes)))

theorem WrittenOut.reads (h : WrittenOut attributes bytes)
    (keys : ∀ attr ∈ attributes, isKey attr.key = true)
    (distinct : (attributes.map (·.key)).Nodup)
    (new : ∀ attr ∈ attributes, earlier.lookup attr.key = none) (blank : isBlank space = true)
    (position : Nat) : Reads earlier (space ++ bytes) position attributes none := by
  induction h generalizing earlier space position with
  | nil => exact .finished (readAttribute_blank ((List.append_nil space).symm ▸ blank))
  | @cons attr attributes gap bytes quote hg _ hq outside written ih =>
    obtain ⟨apart, distinct⟩ := List.nodup_cons.1 distinct
    obtain ⟨key, keys⟩ := List.forall_mem_cons.1 keys
    obtain ⟨unknown, new⟩ := List.forall_mem_cons.1 new
    have before : isBlank (space ++ gap) = true := by
      rw [isBlank, List.all_append]
      exact Bool.and_eq_true_iff.2 ⟨blank, hg⟩
    obtain ⟨next, read⟩ := readAttribute_of_isKey before key hq outside unknown bytes position
    have later : ∀ start, ∀ other ∈ attributes,
        List.lookup other.key ((attr.key, start) :: earlier) = none := by
      intro start other ho
      have different : other.key ≠ attr.key := fun same =>
        apart (List.mem_map.2 ⟨other, ho, same⟩)
      rw [List.lookup_cons, beq_false_of_ne different]
      exact new other ho
    have none : isBlank [] = true := rfl
    rw [← List.append_assoc]
    exact .found read (ih keys distinct (later _) none next)

/-- Attributes that are written behind others are read after them. -/
theorem Reads.append (h : Reads earlier rest position list fault) (whole : fault = none)
    (written : WrittenOut attributes bytes) (keys : ∀ attr ∈ attributes, isKey attr.key = true)
    (distinct : ((list ++ attributes).map (·.key)).Nodup)
    (new : ∀ attr ∈ attributes, earlier.lookup attr.key = none) :
    Reads earlier (rest ++ bytes) position (list ++ attributes) none := by
  induction h with
  | @finished earlier rest position next =>
    have blank : isBlank rest = true := by
      unfold readAttribute at next
      dsimp only at next
      split at next
      · next none => exact List.all_eq_true.2 (List.dropWhile_eq_nil_iff.1 none)
      · split at next
        · cases next
        · split at next
          · cases next
          · split at next <;> cases next
    exact written.reads keys distinct new blank position
  | fault => cases whole
  | @found earlier _ _ _ start _ attr list _ next _ ih =>
    obtain ⟨apart, distinct⟩ := List.nodup_cons.1 distinct
    refine .found (readAttribute_append next .found bytes) (ih whole distinct fun other ho => ?_)
    have different : other.key ≠ attr.key := fun same =>
      apart (List.mem_map.2 ⟨other, List.mem_append_right _ ho, same⟩)
    rw [List.lookup_cons, beq_false_of_ne different]
    exact new other ho

/-- Nothing is read behind a key that is repeated. -/
theorem Reads.append_of_duplicated (h : Reads earlier rest position list fault)
    {repeated first : Nat} (fails : fault = some (.duplicated repeated first)) (more : Bytes) :
    Reads earlier (rest ++ more) position list fault := by
  induction h with
  | finished => cases fails
  | fault next =>
    cases fails
    exact .fault (readAttribute_append next .duplicated more)
  | found next _ ih => exact .found (readAttribute_append next .found more) (ih fails)

/-! ### Tags as they are read -/

instance : DecidablePred IsQuote := fun _ => inferInstanceAs (Decidable (_ ∨ _))

/-- Bytes in which every greater-than sign is in quotes, and all quotes are closed. -/
inductive Closed : Bytes → Prop
  | nil : Closed []
  | plain {b : UInt8} {bytes : Bytes} : b ≠ Bytes.ofChar '>' → ¬ IsQuote b → Closed bytes →
    Closed (b :: bytes)
  | quoted {quote : UInt8} {inside bytes : Bytes} : IsQuote quote → quote ∉ inside →
    Closed bytes → Closed (quote :: (inside ++ quote :: bytes))

/-- Bytes that are closed where a quote may be open before them. They close it first. -/
def ClosedAfter : Option UInt8 → Bytes → Prop
  | none, bytes => Closed bytes
  | some quote, bytes =>
    ∃ inside after, bytes = inside ++ quote :: after ∧ quote ∉ inside ∧ Closed after

theorem Closed.append {more : Bytes} (h : Closed bytes) (h' : Closed more) :
    Closed (bytes ++ more) := by
  induction h with
  | nil => exact h'
  | plain hb hq _ ih => exact ih.plain hb hq
  | quoted hq inside _ ih =>
    rw [List.cons_append, List.append_assoc]
    exact ih.quoted hq inside

theorem Closed.of_forall (h : ∀ b ∈ bytes, b ≠ Bytes.ofChar '>' ∧ ¬ IsQuote b) :
    Closed bytes := by
  induction bytes with
  | nil => exact nil
  | cons b bytes ih =>
    obtain ⟨hb, h⟩ := List.forall_mem_cons.1 h
    exact (ih h).plain hb.1 hb.2

/-- The same of bytes that can be looked at one by one. -/
theorem Closed.of_all (h : (bytes.all fun b => b ≠ Bytes.ofChar '>' ∧ ¬ IsQuote b) = true) :
    Closed bytes :=
  .of_forall fun b hb => of_decide_eq_true (List.all_eq_true.1 h b hb)

/-- What is left without a last byte is closed if that byte is no quote. -/
theorem Closed.of_concat {b : UInt8} (h : Closed (bytes ++ [b])) (hb : ¬ IsQuote b) :
    Closed bytes := by
  generalize hw : bytes ++ [b] = whole at h
  induction h generalizing bytes with
  | nil => exact absurd hw (by simp)
  | @plain first rest hf hq _ ih =>
    cases bytes with
    | nil => exact nil
    | cons c bytes =>
      cases hw
      exact (ih rfl).plain hf hq
  | @quoted quote inside rest hq outside _ ih =>
    rcases List.eq_nil_or_concat rest with rfl | ⟨front, last, rfl⟩
    · have same := congrArg List.getLast? hw
      simp only [List.getLast?_concat, ← List.cons_append] at same
      cases same
      exact absurd hq hb
    · have split : bytes ++ [b] = (quote :: (inside ++ quote :: front)) ++ [last] := by
        rw [hw]
        simp
      obtain ⟨rfl, same⟩ := List.append_inj' split rfl
      cases same
      exact (ih (List.concat_eq_append ..).symm).quoted hq outside

end Tag

namespace Token.Lexer

open Tag (Closed ClosedAfter)

variable {rest bytes seen content : Bytes} {quote : UInt8}

theorem splitTag_quoted {inside : Bytes} (h : quote ∉ inside) :
    splitTag (some quote) seen (inside ++ quote :: rest) =
      splitTag none (quote :: (inside.reverse ++ seen)) rest := by
  induction inside generalizing seen with
  | nil => rw [List.nil_append, splitTag, if_pos rfl]; rfl
  | cons b inside ih =>
    rw [List.mem_cons, not_or] at h
    rw [List.cons_append, splitTag, if_neg (Ne.symm h.1), ih h.2, List.reverse_cons,
      List.append_assoc]
    rfl

/-- A tag goes up to its end. -/
theorem splitTag_of_closed (h : Closed bytes) (seen rest : Bytes) :
    splitTag none seen (bytes ++ Bytes.ofChar '>' :: rest) =
      (seen.reverse ++ bytes, some rest) := by
  induction h generalizing seen with
  | nil => rw [List.nil_append, splitTag, if_pos rfl, List.append_nil]
  | @plain b bytes hb hq _ ih =>
    have other : ¬ (b = Bytes.ofChar '\x22' || b = Bytes.ofChar '\x27') = true := by
      rwa [Bool.or_eq_true, decide_eq_true_iff, decide_eq_true_iff]
    rw [List.cons_append, splitTag, if_neg hb, if_neg other, ih, List.reverse_cons,
      List.append_assoc, List.singleton_append]
  | @quoted quote inside bytes hq outside _ ih =>
    have sign : quote ≠ Bytes.ofChar '>' := by
      rintro rfl
      rcases hq with h | h <;> cases h
    have isQuote : (quote = Bytes.ofChar '\x22' || quote = Bytes.ofChar '\x27') = true := by
      rwa [Bool.or_eq_true, decide_eq_true_iff, decide_eq_true_iff]
    rw [List.cons_append, List.append_assoc, List.cons_append, splitTag, if_neg sign,
      if_pos isQuote, splitTag_quoted outside, ih]
    simp

/-- What goes up to the end of a tag is closed. -/
theorem closed_of_splitTag {quote : Option UInt8}
    (h : splitTag quote seen bytes = (content, some rest)) :
    ∃ read, content = seen.reverse ++ read ∧ ClosedAfter quote read := by
  induction bytes generalizing quote seen with
  | nil => cases h
  | cons b bytes ih =>
    cases quote with
    | some quote =>
      rw [splitTag] at h
      by_cases closes : b = quote
      · rw [if_pos closes] at h
        obtain ⟨read, whole, closed⟩ := ih h
        rw [List.reverse_cons, List.append_assoc] at whole
        exact ⟨_, whole, [], read, congrArg (· :: read) closes, List.not_mem_nil, closed⟩
      · rw [if_neg closes] at h
        obtain ⟨_, whole, inside, after, rfl, outside, closed⟩ := ih h
        rw [List.reverse_cons, List.append_assoc] at whole
        refine ⟨_, whole, b :: inside, after, rfl, ?_, closed⟩
        rw [List.mem_cons, not_or]
        exact ⟨Ne.symm closes, outside⟩
    | none =>
      rw [splitTag] at h
      split at h
      · cases h
        exact ⟨[], (List.append_nil _).symm, .nil⟩
      · next sign =>
        split at h
        · next isQuote =>
          obtain ⟨read, whole, inside, after, rfl, outside, closed⟩ := ih h
          rw [Bool.or_eq_true, decide_eq_true_iff, decide_eq_true_iff] at isQuote
          rw [List.reverse_cons, List.append_assoc] at whole
          exact ⟨_, whole, closed.quoted isQuote outside⟩
        · next other =>
          obtain ⟨read, whole, closed⟩ := ih h
          rw [Bool.or_eq_true, decide_eq_true_iff, decide_eq_true_iff] at other
          rw [List.reverse_cons, List.append_assoc] at whole
          exact ⟨_, whole, closed.plain sign other⟩

/-! ### The tokens of tags -/

/-- What finishes a tag delivers its token, and no byte is read. -/
theorem exists_finishTag (content : Bytes) (lexer : Lexer) :
    ∃ next, lexer.finishTag content = .token (tagToken content) next ∧ next.rest = lexer.rest := by
  unfold finishTag
  split
  · next tag same =>
    rw [same]
    exact ⟨_, rfl, rfl⟩
  · exact ⟨_, rfl, rfl⟩

/-- A token of a tag that is not cut off is that of what goes up to its end. -/
theorem exists_splitTag_of_readTag {fault : Option String} {lexer next : Lexer} {token : Token}
    (read : lexer.readTag fault = .token token next) (goesOn : next.rest ≠ []) :
    ∃ content, splitTag none [] lexer.rest = (content, some next.rest) ∧
      tagToken content = token := by
  unfold readTag at read
  generalize splitTag none [] lexer.rest = split at read ⊢
  obtain ⟨content, _ | rest⟩ := split
  · -- A tag that is cut off goes up to the end of the source.
    cases fault with
    | some message => cases read
    | none =>
      obtain ⟨last, finished, kept⟩ := exists_finishTag content { lexer with rest := [] }
      obtain ⟨-, rfl⟩ := Step.token.inj (finished.symm.trans read)
      exact absurd kept goesOn
  · obtain ⟨last, finished, kept⟩ := exists_finishTag content
      { lexer with rest, offset := lexer.offset + content.length + 1 }
    obtain ⟨same, rfl⟩ := Step.token.inj (finished.symm.trans read)
    rw [kept]
    exact ⟨content, rfl, same⟩

end Token.Lexer

namespace Tag

open Token.Lexer

variable {tag : Tag} {isEmpty : Bool} {space bytes : Bytes} {attributes : List Attribute}

/-- What stands behind the content of a tag in the tag of an element without content. -/
def slash (isEmpty : Bool) : Bytes :=
  if isEmpty then [Bytes.ofChar '/'] else []

/-- The token of a tag. -/
def token (isEmpty : Bool) (tag : Tag) : Token :=
  if isEmpty then .empty tag else .start tag

/-- A tag that the lexer reads, standing before its name, where its content stands and what ends
it, whatever comes behind. -/
def IsLexed (isEmpty : Bool) (tag : Tag) : Prop :=
  ∀ (fault : Option String) (lexer : Token.Lexer) (rest : Bytes),
    lexer.rest = tag.content ++ slash isEmpty ++ Bytes.ofChar '>' :: rest →
    ∃ next, lexer.readTag fault = .token (tag.token isEmpty) next ∧ next.rest = rest

/-- A byte that belongs to the name of a tag. -/
def isInName (b : UInt8) : Bool :=
  !Bytes.isSpace b

theorem closed_slash (isEmpty : Bool) : Closed (slash isEmpty) := by
  cases isEmpty with
  | false => exact .nil
  | true => exact .of_all (by decide)

/-- The token of a tag is read from its content, with what stands behind that, if the name goes up
to the first white space. Without a slash behind it the content may not end in one. -/
theorem tagToken_eq_iff : tagToken (tag.content ++ slash isEmpty) = tag.token isEmpty ↔
    tag.nameLength = (tag.content.takeWhile isInName).length ∧
      (isEmpty = false → tag.content.getLast? ≠ some (Bytes.ofChar '/')) := by
  obtain ⟨content, nameLength⟩ := tag
  have named : (fun b => !Bytes.isSpace b) = isInName := rfl
  cases isEmpty with
  | true =>
    have read : tagToken (content ++ slash true) =
        .empty ⟨content, (content.takeWhile isInName).length⟩ := by
      rw [slash, if_pos rfl, tagToken, List.getLast?_concat, if_pos rfl,
        List.dropLast_concat, named]
      dsimp only
      rw [min_length_takeWhile_append]
    rw [read, token, if_pos rfl, Token.empty.injEq, Tag.mk.injEq]
    exact ⟨fun same => ⟨same.2.symm, nofun⟩, fun same => ⟨rfl, same.1.symm⟩⟩
  | false =>
    rw [slash, if_neg Bool.false_ne_true, List.append_nil, token, if_neg Bool.false_ne_true,
      tagToken, named]
    split
    · next ends => exact ⟨nofun, fun same => absurd ends (same.2 rfl)⟩
    · next ends =>
      rw [Token.start.injEq, Tag.mk.injEq]
      exact ⟨fun same => ⟨same.2.symm, fun _ => ends⟩, fun same => ⟨rfl, same.1.symm⟩⟩

/-- Which tags the lexer reads where they stand. -/
theorem isLexed_iff : tag.IsLexed isEmpty ↔ Closed tag.content ∧
    tag.nameLength = (tag.content.takeWhile isInName).length ∧
      (isEmpty = false → tag.content.getLast? ≠ some (Bytes.ofChar '/')) := by
  rw [← tagToken_eq_iff]
  constructor
  · intro lexed
    -- A byte behind the tag tells a tag that ends from one that is cut off.
    obtain ⟨next, read, left⟩ := lexed none { rest := _ } [0] rfl
    obtain ⟨content, split, same⟩ :=
      exists_splitTag_of_readTag read (left ▸ List.cons_ne_nil _ _)
    rw [left] at split
    obtain ⟨_, rfl, closed⟩ := closed_of_splitTag split
    have whole := append_of_splitTag split
    obtain rfl := List.append_cancel_right whole
    refine ⟨?_, same⟩
    cases isEmpty with
    | false => rwa [slash, if_neg Bool.false_ne_true, List.append_nil] at closed
    | true => exact closed.of_concat (by decide)
  · rintro ⟨closed, read⟩ fault lexer rest standing
    unfold readTag
    rw [standing, splitTag_of_closed (closed.append (closed_slash isEmpty))]
    obtain ⟨next, finished, kept⟩ := exists_finishTag (tag.content ++ slash isEmpty)
      { lexer with rest, offset := lexer.offset + (tag.content ++ slash isEmpty).length + 1 }
    exact ⟨next, finished.trans (read ▸ rfl), kept⟩

/-! ### Longer tags -/

/-- A byte of a key that is no mark in a tag. -/
def isPlain (b : UInt8) : Bool :=
  isInKey b && b ≠ Bytes.ofChar '>' && b ≠ Bytes.ofChar '\x22' && b ≠ Bytes.ofChar '\x27'

/-- A key that has no marks of a tag in it. -/
structure IsPlainKey (key : Bytes) : Prop where
  /-- It is not empty. -/
  ne_nil : key ≠ []
  /-- None of its bytes is a mark. -/
  plain : ∀ b ∈ key, isPlain b = true

variable {key : Bytes}

theorem of_isPlain {b : UInt8} (h : isPlain b = true) :
    isInKey b = true ∧ b ≠ Bytes.ofChar '>' ∧ ¬ IsQuote b := by
  simp only [isPlain, Bool.and_eq_true, decide_eq_true_eq] at h
  obtain ⟨⟨⟨inKey, sign⟩, double⟩, single⟩ := h
  exact ⟨inKey, sign, fun isQuote => isQuote.elim double single⟩

/-- The characters that are marks in a tag or end a key in it. -/
def marks : List Char :=
  [' ', '\t', '\n', '\r', '=', '>', '\x22', '\x27']

theorem isPlain_of_forall {b : UInt8} (h : ∀ c ∈ marks, b ≠ Bytes.ofChar c) :
    isPlain b = true := by
  simp only [marks, List.forall_mem_cons] at h
  obtain ⟨space, tab, feed, back, equals, sign, double, single, -⟩ := h
  have blank : Bytes.isSpace b = false := by
    simp only [Bytes.isSpace, Bool.or_eq_false_iff, decide_eq_false_iff_not]
    exact ⟨⟨⟨space, tab⟩, feed⟩, back⟩
  rw [isPlain, isInKey, blank, decide_eq_true equals, decide_eq_true sign, decide_eq_true double,
    decide_eq_true single]
  rfl

/-- A text without marks makes a plain key. -/
theorem isPlainKey_encode {name : String} (ne_nil : name.toList ≠ [])
    (plain : ∀ c ∈ marks, c ∉ name.toList) : IsPlainKey (Bytes.encode name) where
  ne_nil empty := by
    have none : Bytes.encode "" = [] := rfl
    rw [Bytes.encode_inj (empty.trans none.symm)] at ne_nil
    exact ne_nil rfl
  plain b hb := isPlain_of_forall fun c hc same => by
    have small : (marks.all fun c => c.toNat < 128) = true := by decide
    have ascii := of_decide_eq_true (List.all_eq_true.1 small c hc)
    exact plain c hc (Bytes.mem_of_ofChar_mem_encode ascii (same ▸ hb))

theorem IsPlainKey.isKey (h : IsPlainKey key) : isKey key = true := by
  obtain ⟨first, key, rfl⟩ := List.exists_cons_of_ne_nil h.ne_nil
  have inKey : ∀ b ∈ first :: key, isInKey b = true := fun b hb => (of_isPlain (h.plain b hb)).1
  obtain ⟨hf, hk⟩ := List.forall_mem_cons.1 inKey
  rw [Tag.isKey, (Bool.and_eq_true_iff.1 hf).2, List.all_eq_true.2 hk]
  rfl

theorem IsPlainKey.closed (h : IsPlainKey key) : Closed key :=
  .of_forall fun b hb => (of_isPlain (h.plain b hb)).2

theorem closed_of_isBlank (h : isBlank space = true) : Closed space := by
  refine .of_forall fun b hb => ?_
  have blank := List.all_eq_true.1 h b hb
  refine ⟨?_, fun isQuote => ?_⟩
  · rintro rfl
    cases blank
  · cases isQuote.isSpace.symm.trans blank

theorem WrittenOut.closed (h : WrittenOut attributes bytes)
    (keys : ∀ attr ∈ attributes, IsPlainKey attr.key) : Closed bytes := by
  induction h with
  | nil => exact .nil
  | cons blank _ hq outside _ ih =>
    obtain ⟨key, keys⟩ := List.forall_mem_cons.1 keys
    exact (closed_of_isBlank blank).append (key.closed.append
      (.plain (by decide) (by decide) ((ih keys).quoted hq outside)))

theorem WrittenOut.isQuote_of_getLast? (h : WrittenOut attributes bytes) :
    ∀ b ∈ bytes.getLast?, IsQuote b := by
  induction h with
  | nil => exact nofun
  | @cons attr _ space bytes quote _ _ hq _ _ ih =>
    intro b hb
    simp only [List.getLast?_append, List.getLast?_cons, Option.some_or, Option.getD_some,
      Option.mem_def, Option.some.injEq] at hb
    subst hb
    cases last : bytes.getLast? with
    | none => exact hq
    | some b => exact ih b last

/-- What is written out does not go on with a name. -/
theorem WrittenOut.takeWhile_isInName (h : WrittenOut attributes bytes) :
    bytes.takeWhile isInName = [] := by
  cases h with
  | nil => rfl
  | @cons _ _ space _ _ blank ne_nil =>
    obtain ⟨b, space, rfl⟩ := List.exists_cons_of_ne_nil ne_nil
    have hb := List.all_eq_true.1 blank b List.mem_cons_self
    rw [List.cons_append, List.takeWhile_cons_of_neg]
    rw [isInName, hb]
    exact Bool.false_ne_true

/-- A tag with more at the end. -/
def append (tag : Tag) (bytes : Bytes) : Tag :=
  { tag with content := tag.content ++ bytes }

theorem IsLexed.nameLength_le (h : tag.IsLexed isEmpty) : tag.nameLength ≤ tag.content.length := by
  rw [(isLexed_iff.1 h).2.1]
  exact (List.takeWhile_prefix _).length_le

theorem name_append (named : tag.nameLength ≤ tag.content.length) (bytes : Bytes) :
    (tag.append bytes).name = tag.name :=
  List.take_append_of_le_length named

theorem drop_append (named : tag.nameLength ≤ tag.content.length) (bytes : Bytes) :
    (tag.append bytes).content.drop (tag.append bytes).nameLength =
      tag.content.drop tag.nameLength ++ bytes :=
  List.drop_append_of_le_length named

/-- Attributes that are written at the end of a tag are its last ones. -/
theorem attributes_append (named : tag.nameLength ≤ tag.content.length)
    (whole : tag.attributes.fault = none) (written : WrittenOut attributes bytes)
    (keys : ∀ attr ∈ attributes, IsPlainKey attr.key)
    (distinct : (attributes.map (·.key)).Nodup)
    (new : ∀ attr ∈ attributes, ∀ other ∈ tag.attributes.list, other.key ≠ attr.key) :
    (tag.append bytes).attributes = ⟨tag.attributes.list ++ attributes, none⟩ := by
  have reads := (reads_iff tag).1 rfl
  refine (reads_iff _).2 ?_
  rw [drop_append named]
  refine reads.append whole written (fun attr ha => (keys attr ha).isKey) ?_
    fun _ _ => List.lookup_nil
  rw [List.map_append, List.nodup_append]
  refine ⟨nodup_keys tag, distinct, ?_⟩
  rintro _ before _ later rfl
  obtain ⟨other, ho, same⟩ := List.mem_map.1 before
  obtain ⟨attr, ha, rfl⟩ := List.mem_map.1 later
  exact new attr ha other ho same

/-- A tag in which a key is repeated has the same attributes up to there with more at the end. -/
theorem attributes_append_of_duplicated (named : tag.nameLength ≤ tag.content.length)
    {repeated first : Nat} (fails : tag.attributes.fault = some (.duplicated repeated first))
    (bytes : Bytes) : (tag.append bytes).attributes = tag.attributes := by
  have reads := (reads_iff tag).1 rfl
  refine (reads_iff _).2 ?_
  rw [drop_append named]
  exact reads.append_of_duplicated fails bytes

/-- The lexer reads a tag with more attributes as one tag. -/
theorem IsLexed.append (h : tag.IsLexed isEmpty) (written : WrittenOut attributes bytes)
    (keys : ∀ attr ∈ attributes, IsPlainKey attr.key) : (tag.append bytes).IsLexed isEmpty := by
  obtain ⟨closed, named, ends⟩ := isLexed_iff.1 h
  refine isLexed_iff.2 ⟨closed.append (written.closed keys), ?_, fun content slash => ?_⟩
  · rw [Tag.append, List.takeWhile_append, written.takeWhile_isInName, List.append_nil, named]
    split
    · next all => exact all
    · rfl
  · rw [Tag.append, List.getLast?_append] at slash
    cases last : bytes.getLast? with
    | none =>
      rw [last, Option.none_or] at slash
      exact ends content slash
    | some b =>
      rw [last, Option.some_or] at slash
      cases slash
      exact absurd (written.isQuote_of_getLast? _ last) (by decide)

end Tag

end XmlTable
