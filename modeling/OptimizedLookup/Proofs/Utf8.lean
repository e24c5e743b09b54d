import OptimizedLookup.Encoding

/-! Decoding undoes encoding: bytes are read as a text exactly if they are what the text is written
as, so overlong forms, surrogates and values past the last code point are all refused. -/
namespace OptimizedLookup.Utf8

def encode (text : List Char) : List UInt8 := text.flatMap String.utf8EncodeChar

section Lead

variable {start lead : Nat}

theorem opened?_two (low : 0xC2 ≤ lead) (high : lead ≤ 0xDF) :
    opened? start lead = some ⟨start, 0x80, 0xBF, 0, lead - 0xC0⟩ :=
  if_pos ⟨low, high⟩

theorem opened?_three (low : 0xE0 ≤ lead) (high : lead ≤ 0xEF) :
    opened? start lead = some ⟨start, if lead = 0xE0 then 0xA0 else 0x80,
      if lead = 0xED then 0x9F else 0xBF, 1, lead - 0xE0⟩ := by
  unfold opened?
  rw [if_neg (by omega)]
  by_cases first : lead = 0xE0
  · simp [first]
  · by_cases surrogates : lead = 0xED
    · simp [surrogates]
    · simp only [first, surrogates, if_false]
      rw [if_pos (by omega)]

theorem opened?_four (low : 0xF0 ≤ lead) (high : lead ≤ 0xF4) :
    opened? start lead = some ⟨start, if lead = 0xF0 then 0x90 else 0x80,
      if lead = 0xF4 then 0x8F else 0xBF, 2, lead - 0xF0⟩ := by
  unfold opened?
  rw [if_neg (by omega), if_neg (by omega), if_neg (by omega), if_neg (by omega)]
  by_cases first : lead = 0xF0
  · simp [first]
  · by_cases last : lead = 0xF4
    · simp [last]
    · simp only [first, last, if_false]
      rw [if_pos (by omega)]

theorem opened?_eq_none (outside : lead < 0xC2 ∨ 0xF4 < lead) : opened? start lead = none := by
  unfold opened?
  rw [if_neg (by omega), if_neg (by omega), if_neg (by omega), if_neg (by omega),
    if_neg (by omega), if_neg (by omega), if_neg (by omega)]

end Lead

section Decoding

variable {read : List Char} {position : Nat} {pending : Pending} {byte : UInt8}
  {rest : List UInt8}

theorem decodeFrom_ascii (ascii : byte.toNat < 0x80) :
    decodeFrom read position none (byte :: rest) =
      decodeFrom (Char.ofNat byte.toNat :: read) (position + 1) none rest := by
  rw [decodeFrom, if_pos ascii]

theorem decodeFrom_open (wide : 0x80 ≤ byte.toNat)
    (opens : opened? position byte.toNat = some pending) :
    decodeFrom read position none (byte :: rest) =
      decodeFrom read (position + 1) (some pending) rest := by
  rw [decodeFrom, if_neg (Nat.not_lt.mpr wide), opens]

theorem decodeFrom_last {start low high bits : Nat} (above : low ≤ byte.toNat)
    (below : byte.toNat ≤ high) :
    decodeFrom read position (some ⟨start, low, high, 0, bits⟩) (byte :: rest) =
      decodeFrom (Char.ofNat (bits * 64 + (byte.toNat - 0x80)) :: read) (position + 1) none
        rest := by
  rw [decodeFrom, if_pos ⟨above, below⟩]

theorem decodeFrom_more {start low high more bits : Nat} (above : low ≤ byte.toNat)
    (below : byte.toNat ≤ high) :
    decodeFrom read position (some ⟨start, low, high, more + 1, bits⟩) (byte :: rest) =
      decodeFrom read (position + 1)
        (some ⟨start, 0x80, 0xBF, more, bits * 64 + (byte.toNat - 0x80)⟩) rest := by
  rw [decodeFrom, if_pos ⟨above, below⟩]

theorem byte_of_decodeFrom_pending {bytes : List UInt8} {text : List Char}
    (decoded : decodeFrom read position (some pending) bytes = .ok text) :
    ∃ byte rest, bytes = byte :: rest ∧ pending.low ≤ byte.toNat ∧ byte.toNat ≤ pending.high := by
  cases bytes with
  | nil => rw [decodeFrom] at decoded; contradiction
  | cons byte rest =>
    refine ⟨byte, rest, rfl, ?_⟩
    rw [decodeFrom] at decoded
    by_cases within : pending.low ≤ byte.toNat ∧ byte.toNat ≤ pending.high
    · exact within
    · rw [if_neg within] at decoded
      contradiction

theorem toNat_val_ofNat {value : Nat} (valid : value.isValidChar) :
    (Char.ofNat value).val.toNat = value := by
  unfold Char.ofNat
  rw [dif_pos valid]
  rfl

theorem decodeFrom_encodeChar (read : List Char) (position : Nat) (char : Char)
    (rest : List UInt8) :
    ∃ after, decodeFrom read position none (String.utf8EncodeChar char ++ rest) =
      decodeFrom (char :: read) after none rest := by
  have valid : char.val.toNat < 0xD800 ∨ 0xDFFF < char.val.toNat ∧ char.val.toNat < 0x110000 :=
    char.valid
  have same : Char.ofNat char.val.toNat = char := char.ofNat_toNat
  unfold String.utf8EncodeChar
  generalize char.val.toNat = value at valid same ⊢
  have byte {n : Nat} (small : n < 256) : (UInt8.ofNat n).toNat = n := by
    rw [UInt8.toNat_ofNat', Nat.mod_eq_of_lt small]
  by_cases one : value ≤ 0x7F
  · simp only [one, if_true, List.cons_append, List.nil_append]
    refine ⟨position + 1, ?_⟩
    rw [decodeFrom_ascii (by rw [byte (by omega)]; omega), byte (by omega), same]
  by_cases two : value ≤ 0x7FF
  · simp only [one, two, if_true, if_false, List.cons_append, List.nil_append]
    refine ⟨position + 1 + 1, ?_⟩
    rw [decodeFrom_open (by rw [byte (by omega)]; omega)
        (opened?_two (by rw [byte (by omega)]; omega) (by rw [byte (by omega)]; omega)),
      decodeFrom_last (by rw [byte (by omega)]; omega) (by rw [byte (by omega)]; omega),
      byte (by omega), byte (by omega)]
    rw [show (value / 64 % 0x20 + 0xC0 - 0xC0) * 64 + (value % 0x40 + 0x80 - 0x80) = value by omega,
      same]
  by_cases three : value ≤ 0xFFFF
  · simp only [one, two, three, if_true, if_false, List.cons_append, List.nil_append]
    refine ⟨position + 1 + 1 + 1, ?_⟩
    rw [decodeFrom_open (by rw [byte (by omega)]; omega)
        (opened?_three (by rw [byte (by omega)]; omega) (by rw [byte (by omega)]; omega)),
      decodeFrom_more (by rw [byte (by omega), byte (by omega)]; split <;> omega)
        (by rw [byte (by omega), byte (by omega)]; split <;> omega),
      decodeFrom_last (by rw [byte (by omega)]; omega) (by rw [byte (by omega)]; omega),
      byte (by omega), byte (by omega), byte (by omega)]
    rw [show ((value / 4096 % 0x10 + 0xE0 - 0xE0) * 64 + (value / 64 % 0x40 + 0x80 - 0x80)) * 64 +
        (value % 0x40 + 0x80 - 0x80) = value by omega, same]
  · simp only [one, two, three, if_false, List.cons_append, List.nil_append]
    refine ⟨position + 1 + 1 + 1 + 1, ?_⟩
    rw [decodeFrom_open (by rw [byte (by omega)]; omega)
        (opened?_four (by rw [byte (by omega)]; omega) (by rw [byte (by omega)]; omega)),
      decodeFrom_more (by rw [byte (by omega), byte (by omega)]; split <;> omega)
        (by rw [byte (by omega), byte (by omega)]; split <;> omega),
      decodeFrom_more (by rw [byte (by omega)]; omega) (by rw [byte (by omega)]; omega),
      decodeFrom_last (by rw [byte (by omega)]; omega) (by rw [byte (by omega)]; omega),
      byte (by omega), byte (by omega), byte (by omega), byte (by omega)]
    rw [show (((value / 262144 % 0x08 + 0xF0 - 0xF0) * 64 +
          (value / 4096 % 0x40 + 0x80 - 0x80)) * 64 + (value / 64 % 0x40 + 0x80 - 0x80)) * 64 +
        (value % 0x40 + 0x80 - 0x80) = value by omega, same]

private theorem encodeChar_ofNat {value : Nat} (valid : value.isValidChar) :
    String.utf8EncodeChar (Char.ofNat value) =
      if value ≤ 0x7F then [UInt8.ofNat value]
      else if value ≤ 0x7FF then
        [UInt8.ofNat (value / 64 % 0x20 + 0xC0), UInt8.ofNat (value % 0x40 + 0x80)]
      else if value ≤ 0xFFFF then
        [UInt8.ofNat (value / 4096 % 0x10 + 0xE0), UInt8.ofNat (value / 64 % 0x40 + 0x80),
          UInt8.ofNat (value % 0x40 + 0x80)]
      else
        [UInt8.ofNat (value / 262144 % 0x08 + 0xF0), UInt8.ofNat (value / 4096 % 0x40 + 0x80),
          UInt8.ofNat (value / 64 % 0x40 + 0x80), UInt8.ofNat (value % 0x40 + 0x80)] := by
  unfold String.utf8EncodeChar
  rw [toNat_val_ofNat valid]

private theorem ofNat_eq {value : Nat} {byte : UInt8} (same : value % 256 = byte.toNat) :
    UInt8.ofNat value = byte :=
  UInt8.toNat_inj.mp (by rw [UInt8.toNat_ofNat', same])

/-- The bytes begin with the encoding of a character, and behind it decoding goes on to the text. -/
def Opens (read : List Char) (byte : UInt8) (rest : List UInt8) (text : List Char) : Prop :=
  ∃ char tail more after, rest = tail ++ more ∧ String.utf8EncodeChar char = byte :: tail ∧
    decodeFrom (char :: read) after none more = .ok text

section Forms

variable {text : List Char} (decoded : decodeFrom read position none (byte :: rest) = .ok text)

include decoded

theorem opens_ascii (ascii : byte.toNat < 0x80) : Opens read byte rest text := by
  rw [decodeFrom_ascii ascii] at decoded
  refine ⟨_, [], rest, _, rfl, ?_, decoded⟩
  rw [encodeChar_ofNat (.inl (by omega)), if_pos (by omega),
    ofNat_eq (Nat.mod_eq_of_lt byte.toNat_lt)]

theorem opens_two (low : 0xC2 ≤ byte.toNat) (high : byte.toNat ≤ 0xDF) :
    Opens read byte rest text := by
  rw [decodeFrom_open (by omega) (opened?_two low high)] at decoded
  obtain ⟨second, rest, rfl, above, below⟩ := byte_of_decodeFrom_pending decoded
  rw [decodeFrom_last above below] at decoded
  refine ⟨_, [second], rest, _, rfl, ?_, decoded⟩
  dsimp only at above below
  rw [encodeChar_ofNat (.inl (by omega)), if_neg (by omega), if_pos (by omega)]
  simp only [List.cons.injEq, and_true]
  exact ⟨ofNat_eq (by omega), ofNat_eq (by omega)⟩

/-- The narrowed ranges keep the value above the shorter forms and out of the surrogates. -/
theorem opens_three (low : 0xE0 ≤ byte.toNat) (high : byte.toNat ≤ 0xEF) :
    Opens read byte rest text := by
  rw [decodeFrom_open (by omega) (opened?_three low high)] at decoded
  obtain ⟨second, rest, rfl, above, below⟩ := byte_of_decodeFrom_pending decoded
  rw [decodeFrom_more above below] at decoded
  obtain ⟨third, rest, rfl, aboveThird, belowThird⟩ := byte_of_decodeFrom_pending decoded
  rw [decodeFrom_last aboveThird belowThird] at decoded
  refine ⟨_, [second, third], rest, _, rfl, ?_, decoded⟩
  dsimp only at above below aboveThird belowThird
  have notSurrogate : ((byte.toNat - 0xE0) * 64 + (second.toNat - 0x80)) * 64 +
      (third.toNat - 0x80) < 0xD800 ∨ 0xDFFF < ((byte.toNat - 0xE0) * 64 +
      (second.toNat - 0x80)) * 64 + (third.toNat - 0x80) := by
    split at below <;> omega
  have long : 0x7FF < ((byte.toNat - 0xE0) * 64 + (second.toNat - 0x80)) * 64 +
      (third.toNat - 0x80) := by
    split at above <;> omega
  have second_ge : 0x80 ≤ second.toNat ∧ second.toNat ≤ 0xBF := by
    split at above <;> split at below <;> omega
  rw [encodeChar_ofNat (by unfold Nat.isValidChar; omega), if_neg (by omega),
    if_neg (by omega), if_pos (by omega)]
  simp only [List.cons.injEq, and_true]
  exact ⟨ofNat_eq (by omega), ofNat_eq (by omega), ofNat_eq (by omega)⟩

theorem opens_four (low : 0xF0 ≤ byte.toNat) (high : byte.toNat ≤ 0xF4) :
    Opens read byte rest text := by
  rw [decodeFrom_open (by omega) (opened?_four low high)] at decoded
  obtain ⟨second, rest, rfl, above, below⟩ := byte_of_decodeFrom_pending decoded
  rw [decodeFrom_more above below] at decoded
  obtain ⟨third, rest, rfl, aboveThird, belowThird⟩ := byte_of_decodeFrom_pending decoded
  rw [decodeFrom_more aboveThird belowThird] at decoded
  obtain ⟨fourth, rest, rfl, aboveFourth, belowFourth⟩ := byte_of_decodeFrom_pending decoded
  rw [decodeFrom_last aboveFourth belowFourth] at decoded
  refine ⟨_, [second, third, fourth], rest, _, rfl, ?_, decoded⟩
  dsimp only at above below aboveThird belowThird aboveFourth belowFourth
  have inPlanes : (((byte.toNat - 0xF0) * 64 + (second.toNat - 0x80)) * 64 +
      (third.toNat - 0x80)) * 64 + (fourth.toNat - 0x80) < 0x110000 := by
    split at below <;> omega
  have long : 0xFFFF < (((byte.toNat - 0xF0) * 64 + (second.toNat - 0x80)) * 64 +
      (third.toNat - 0x80)) * 64 + (fourth.toNat - 0x80) := by
    split at above <;> omega
  have second_ge : 0x80 ≤ second.toNat ∧ second.toNat ≤ 0xBF := by
    split at above <;> split at below <;> omega
  rw [encodeChar_ofNat (by unfold Nat.isValidChar; omega), if_neg (by omega),
    if_neg (by omega), if_neg (by omega)]
  simp only [List.cons.injEq, and_true]
  exact ⟨ofNat_eq (by omega), ofNat_eq (by omega), ofNat_eq (by omega), ofNat_eq (by omega)⟩

theorem opens_of_decodeFrom : Opens read byte rest text := by
  by_cases ascii : byte.toNat < 0x80
  · exact opens_ascii decoded ascii
  by_cases outside : byte.toNat < 0xC2 ∨ 0xF4 < byte.toNat
  · rw [decodeFrom, if_neg ascii, opened?_eq_none outside] at decoded
    contradiction
  by_cases two : byte.toNat ≤ 0xDF
  · exact opens_two decoded (by omega) two
  by_cases three : byte.toNat ≤ 0xEF
  · exact opens_three decoded (by omega) three
  · exact opens_four decoded (by omega) (by omega)

end Forms

theorem decodeFrom_encode (read : List Char) (position : Nat) (text : List Char) :
    decodeFrom read position none (encode text) = .ok (read.reverse ++ text) := by
  induction text generalizing read position with
  | nil => rw [List.append_nil]; rfl
  | cons char text ih =>
    obtain ⟨after, same⟩ := decodeFrom_encodeChar read position char (encode text)
    rw [encode, List.flatMap_cons]
    change decodeFrom read position none (String.utf8EncodeChar char ++ encode text) = _
    rw [same, ih, List.reverse_cons, List.append_assoc]
    rfl

theorem encode_of_decodeFrom {count : Nat} {bytes : List UInt8} (short : bytes.length ≤ count)
    {text : List Char} (decoded : decodeFrom read position none bytes = .ok text) :
    ∃ more, text = read.reverse ++ more ∧ bytes = encode more := by
  -- on the number of bytes and not on the bytes, since a character takes several of them
  induction count generalizing bytes read position with
  | zero =>
    obtain rfl := List.length_eq_zero_iff.mp (Nat.le_zero.mp short)
    exact ⟨[], by cases decoded; simp, rfl⟩
  | succ count ih =>
    cases bytes with
    | nil => exact ⟨[], by cases decoded; simp, rfl⟩
    | cons byte rest =>
      obtain ⟨char, tail, more, after, rfl, same, decodedMore⟩ := opens_of_decodeFrom decoded
      have shorter : more.length ≤ count := by
        simp only [List.length_cons, List.length_append] at short
        omega
      obtain ⟨chars, rfl, rfl⟩ := ih shorter decodedMore
      refine ⟨char :: chars, by simp, ?_⟩
      simp [encode, same]

theorem decode_eq_ok_iff {bytes : List UInt8} {text : List Char} :
    decode bytes = .ok text ↔ bytes = encode text := by
  constructor
  · intro decoded
    obtain ⟨more, rfl, same⟩ := encode_of_decodeFrom (Nat.le_refl _) decoded
    exact same
  · rintro rfl
    exact decodeFrom_encode [] 0 text

theorem zero_mem_encodeChar_iff {char : Char} :
    0 ∈ String.utf8EncodeChar char ↔ char = '\x00' := by
  have ofNat_ne {value : Nat} (low : 0 < value) (high : value < 256) : 0 ≠ UInt8.ofNat value := by
    intro same
    have := congrArg UInt8.toNat same
    rw [UInt8.toNat_ofNat', Nat.mod_eq_of_lt high] at this
    exact Nat.ne_of_lt low this
  constructor
  · unfold String.utf8EncodeChar
    intro mem
    by_cases one : char.val.toNat ≤ 0x7F
    · simp only [one, if_true, List.mem_singleton] at mem
      have value : char.val.toNat = 0 := by
        have := congrArg UInt8.toNat mem
        rw [UInt8.toNat_ofNat', Nat.mod_eq_of_lt (by omega)] at this
        exact this.symm
      exact Char.ext (UInt32.toNat_inj.mp value)
    · exfalso
      simp only [one, if_false] at mem
      split at mem
      · simp only [List.mem_cons, List.not_mem_nil, or_false] at mem
        rcases mem with same | same <;> exact ofNat_ne (by omega) (by omega) same
      · split at mem
        · simp only [List.mem_cons, List.not_mem_nil, or_false] at mem
          rcases mem with same | same | same <;> exact ofNat_ne (by omega) (by omega) same
        · simp only [List.mem_cons, List.not_mem_nil, or_false] at mem
          rcases mem with same | same | same | same <;>
            exact ofNat_ne (by omega) (by omega) same
  · rintro rfl
    decide

theorem zero_mem_encode_iff {text : List Char} : 0 ∈ encode text ↔ '\x00' ∈ text := by
  simp only [encode, List.mem_flatMap, zero_mem_encodeChar_iff, exists_eq_right]

end Decoding

end OptimizedLookup.Utf8
