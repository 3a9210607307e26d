import XmlTable.Node.Record

/-!
# Packed records

A record takes four words of 32 bits: its kind, flags and namespace share the first, the others are
the parent, the link to the next sibling or the payload, and the name. Not every word is one of a
record, and reading a word that is none is a fault of whoever wrote it. A record is read back with
its kind, flags and parent, and with its link if the node that it names comes after another.
-/

namespace XmlTable.Node

/-- A record as it is stored. -/
structure Words where
  /-- The kind in the lowest four bits, the flags in the next two, the namespace in the upper 24. -/
  kind : UInt32
  /-- The parent. -/
  parent : UInt32
  /-- The link to the next sibling or the symbol of the payload. -/
  link : UInt32
  /-- The symbol of the name. -/
  name : UInt32
  deriving DecidableEq, Repr

/-- The bits of the kind in its word. -/
def kindMask : UInt32 := 0x0f

/-- The bit of ignorable white space. -/
def ignorableBit : UInt32 := 0x10

/-- The bit of CDATA sections. -/
def cdataBit : UInt32 := 0x20

/-- The word of a parent that there is not. -/
def noParent : UInt32 := 0xffffffff

/-- The number of a kind. -/
def Kind.code : Kind → UInt32
  | document => 0
  | element => 1
  | attr => 2
  | text => 3
  | comment => 4
  | instruction => 5
  | entity => 6
  | reference => 7

/-- The kind in a word; some words have none. -/
def Kind.ofWord? (word : UInt32) : Option Kind :=
  all.find? fun kind => kind.code == word &&& kindMask

/-- The number of a link. -/
def Link.toRaw : Link → Int32
  | pending => 0
  | last => -1
  | next node => .ofNat node

/-- The link with a number; some numbers have none. -/
def Link.ofRaw? (raw : Int32) : Option Link :=
  if raw = 0 then some .pending
  else if raw = -1 then some .last
  else if 0 < raw then some (.next raw.toNatClampNeg)
  else none

/-- The word of a link or payload. -/
def LinkField.toWord : LinkField → UInt32
  | sibling link => link.toRaw.toUInt32
  | payload symbol => .ofNat symbol

namespace TextFlags

/-- The bits of the flags. -/
def toWord (flags : TextFlags) : UInt32 :=
  (if flags.ignorable then ignorableBit else 0) ||| (if flags.cdata then cdataBit else 0)

/-- The flags in a word. -/
def ofWord (word : UInt32) : TextFlags :=
  ⟨word &&& ignorableBit != 0, word &&& cdataBit != 0⟩

end TextFlags

/-- Pack a record. -/
def Record.pack (record : Record) : Words where
  kind := record.kind.code ||| record.flags.toWord ||| UInt32.ofNat record.namespaceId <<< 8
  parent :=
    match record.parent with
    | some parent => .ofNat parent
    | none => noParent
  link := record.link.toWord
  name := .ofNat record.name

/-- Unpack a record. The words may be those of none. -/
def Words.unpack? (words : Words) : Option Record := do
  let kind ← Kind.ofWord? words.kind
  let link ←
    if kind.isLinked then (Link.ofRaw? words.link.toInt32).map .sibling
    else some (.payload words.link.toNat)
  return {
    kind
    flags := .ofWord words.kind
    namespaceId := (words.kind >>> 8).toNat
    parent := if words.parent = noParent then none else some words.parent.toNat
    link
    name := words.name.toNat }

/-! ### Reading back -/

/-- The namespace is out of the way of the lowest bits. -/
theorem or_shiftLeft_and (low ns : UInt32) {mask : UInt32} (h : mask.toNat < 256) :
    (low ||| ns <<< 8) &&& mask = low &&& mask := by
  have high : ns.toBitVec <<< 8 &&& mask.toBitVec = 0 := by
    apply BitVec.eq_of_getLsbD_eq
    intro i hi
    rw [BitVec.getLsbD_and, BitVec.getLsbD_shiftLeft]
    by_cases h8 : i < 8
    · simp [h8]
    · have hmask : mask.toBitVec.getLsbD i = false :=
        Nat.testBit_lt_two_pow (Nat.lt_of_lt_of_le (show mask.toNat < 2 ^ 8 from h)
          (Nat.pow_le_pow_right (by decide) (by omega)))
      simp [hmask]
  apply UInt32.toBitVec_inj.1
  show (low.toBitVec ||| ns.toBitVec <<< 8) &&& mask.toBitVec = low.toBitVec &&& mask.toBitVec
  rw [BitVec.and_or_distrib_right, high]
  exact BitVec.or_zero

/-- Kind and flags are out of the way of each other. -/
private theorem code_or_flags (kind : Kind) (flags : TextFlags) :
    (kind.code ||| flags.toWord) &&& kindMask = kind.code ∧
      TextFlags.ofWord (kind.code ||| flags.toWord) = flags := by
  rcases flags with ⟨ignorable, cdata⟩
  cases kind <;> cases ignorable <;> cases cdata <;> decide

theorem Kind.ofWord?_pack (record : Record) :
    Kind.ofWord? record.pack.kind = some record.kind := by
  have code : record.pack.kind &&& kindMask = record.kind.code := by
    rw [Record.pack, or_shiftLeft_and _ _ (by decide)]
    exact (code_or_flags ..).1
  rw [Kind.ofWord?, code]
  cases record.kind <;> decide

theorem TextFlags.ofWord_pack (record : Record) :
    TextFlags.ofWord record.pack.kind = record.flags := by
  have bits : ∀ mask : UInt32, mask.toNat < 256 → record.pack.kind &&& mask =
      (record.kind.code ||| record.flags.toWord) &&& mask :=
    fun mask h => or_shiftLeft_and _ _ h
  rw [ofWord, bits ignorableBit (by decide), bits cdataBit (by decide)]
  exact (code_or_flags ..).2

theorem Link.ofRaw?_toRaw {link : Link}
    (h : ∀ node, link = .next node → 0 < node ∧ node ≤ indexBound) :
    Link.ofRaw? link.toRaw = some link := by
  cases link with
  | pending => rfl
  | last => rfl
  | next node =>
    obtain ⟨hpos, hle⟩ := h node rfl
    have hlt : node < 2 ^ 31 := Nat.lt_of_le_of_lt hle (by decide)
    have hint : (Int32.ofNat node).toInt = node := Int32.toInt_ofNat_of_lt hlt
    have hne : ∀ raw : Int32, raw.toInt ≤ 0 → Int32.ofNat node ≠ raw := by
      rintro raw hraw rfl
      rw [hint] at hraw
      exact Nat.lt_irrefl 0 (Nat.lt_of_lt_of_le hpos (Int.ofNat_le.1 hraw))
    have hgt : 0 < Int32.ofNat node := by
      rw [Int32.lt_iff_toInt_lt, hint]
      exact Int.natCast_pos.2 hpos
    have hzero := hne 0 (by decide)
    have hlast := hne (-1) (by decide)
    rw [toRaw, ofRaw?, if_neg hzero, if_neg hlast, if_pos hgt, Int32.toNatClampNeg_ofNat_of_lt hlt]

/-- What is needed for a record to be read back: its parent has a number of 31 bits, and it has a
link if it is of a linked kind, which leads to a node with such a number, but not to the first. -/
structure Record.Fits (record : Record) : Prop where
  /-- The parent. -/
  parent : ∀ {p : Nat}, record.parent = some p → p ≤ indexBound
  /-- Records of linked kinds have a link. -/
  isSome_link? : record.link?.isSome = record.kind.isLinked
  /-- The next sibling. -/
  next : ∀ {n : Nat}, record.link? = some (.next n) → 0 < n ∧ n ≤ indexBound

/-- A record that fits is read back with its kind, flags, parent and link. -/
theorem Record.Fits.unpack?_pack {record : Record} (h : record.Fits) :
    ∃ read, record.pack.unpack? = some read ∧ read.kind = record.kind ∧
      read.flags = record.flags ∧ read.parent = record.parent ∧ read.link? = record.link? := by
  have parent : (if record.pack.parent = noParent then none
      else some record.pack.parent.toNat) = record.parent := by
    rw [pack]
    dsimp only
    cases hp : record.parent with
    | none => rfl
    | some p =>
      have hle := h.parent hp
      have hnat : (UInt32.ofNat p).toNat = p :=
        UInt32.toNat_ofNat_of_lt' (Nat.lt_of_le_of_lt hle (by decide))
      have hne : UInt32.ofNat p ≠ noParent := by
        intro he
        rw [he] at hnat
        rw [← hnat] at hle
        exact absurd hle (by decide)
      dsimp only
      rw [if_neg hne, hnat]
  have hlink := h.isSome_link?
  rw [Words.unpack?, Kind.ofWord?_pack, TextFlags.ofWord_pack, parent]
  cases hl : record.link with
  | sibling link =>
    have same : record.link? = some link := by rw [link?, hl]
    rw [same] at hlink
    have back : Link.ofRaw? record.pack.link.toInt32 = some link := by
      rw [pack, hl]
      exact Link.ofRaw?_toRaw fun node he => h.next (he ▸ same)
    dsimp only [Option.bind_eq_bind, Option.bind_some]
    have linked : record.kind.isLinked = true := hlink.symm
    rw [if_pos linked, back]
    exact ⟨_, rfl, rfl, rfl, rfl, same.symm⟩
  | payload symbol =>
    have same : record.link? = none := by rw [link?, hl]
    rw [same] at hlink
    dsimp only [Option.bind_eq_bind, Option.bind_some]
    have unlinked : ¬ record.kind.isLinked = true := by
      rw [← hlink]
      exact Bool.false_ne_true
    rw [if_neg unlinked]
    exact ⟨_, rfl, rfl, rfl, rfl, same.symm⟩

example : (Record.linked .attr 16777215 1 5 .last).pack.unpack? =
    some (.linked .attr 16777215 1 5 .last) := by
  decide

end XmlTable.Node
