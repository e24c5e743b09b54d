/-! What a transducer's bytes spell. Words are numbers in base 256, the least significant byte first;
every list of bytes is what its value is written as. A symbol is a position in the alphabet and a
target is an address, a small one of a slot of the index table and a large one of a record of the
transition table. The greatest word of either width stands for "nothing here".

Texts are in UTF-8 and are read byte by byte. A character opens with a lead byte, which says how many
continuation bytes are owed and where the first of them must lie; the narrowed ranges after `E0`,
`ED`, `F0` and `F4` keep out overlong forms, surrogates and values past the last code point. A fault
names the position of the first character that is not well formed. -/
namespace OptimizedLookup

namespace LittleEndian

def value : List UInt8 → Nat
  | [] => 0
  | byte :: rest => byte.toNat + 256 * value rest

def bytes : (width : Nat) → Nat → List UInt8
  | 0, _ => []
  | width + 1, n => UInt8.ofNat n :: bytes width (n / 256)

@[simp] theorem length_bytes (width n : Nat) : (bytes width n).length = width := by
  induction width generalizing n with
  | zero => rfl
  | succ width ih => simp [bytes, ih]

def capacity : (width : Nat) → Nat
  | 0 => 1
  | width + 1 => 256 * capacity width

@[simp] theorem capacity_two : capacity 2 = 0x10000 := rfl

@[simp] theorem capacity_four : capacity 4 = 0x100000000 := rfl

theorem capacity_le {width other : Nat} (le : width ≤ other) : capacity width ≤ capacity other := by
  induction le with
  | refl => exact Nat.le_refl _
  | step _ ih =>
    rw [capacity]
    omega

theorem value_lt (digits : List UInt8) : value digits < capacity digits.length := by
  induction digits with
  | nil => exact Nat.one_pos
  | cons byte rest ih =>
    have := byte.toNat_lt
    simp only [value, List.length_cons, capacity]
    omega

theorem value_bytes (width n : Nat) : value (bytes width n) = n % capacity width := by
  induction width generalizing n with
  | zero => simp [bytes, value, capacity, Nat.mod_one]
  | succ width ih =>
    have low : (UInt8.ofNat n).toNat = n % 256 := UInt8.toNat_ofNat'
    rw [bytes, value, ih, low, capacity, Nat.mod_mul]

theorem bytes_value (digits : List UInt8) : bytes digits.length (value digits) = digits := by
  induction digits with
  | nil => rfl
  | cons byte rest ih =>
    have lt := byte.toNat_lt
    have low : (byte.toNat + 256 * value rest) % 256 = byte.toNat := by omega
    have high : (byte.toNat + 256 * value rest) / 256 = value rest := by omega
    have head : UInt8.ofNat (byte.toNat + 256 * value rest) = byte := by
      apply UInt8.toNat_inj.mp
      rw [UInt8.toNat_ofNat']
      exact low
    simp [bytes, value, high, ih, head]

def word16 (low high : UInt8) : UInt16 := UInt16.ofNat (value [low, high])

def word32 (first second third fourth : UInt8) : UInt32 :=
  UInt32.ofNat (value [first, second, third, fourth])

end LittleEndian

/-- A position in the alphabet; symbol 0 is the empty string on both tapes. -/
abbrev Symbol := UInt16

def noSymbol : UInt16 := 0xFFFF

def noTarget : UInt32 := 0xFFFFFFFF

/-- The first address of the transition table; smaller addresses are index table slots. -/
def transitionBase : UInt32 := 0x80000000

def symbol? (word : UInt16) : Option Symbol :=
  if word = noSymbol then none else some word

def target? (word : UInt32) : Option UInt32 :=
  if word = noTarget then none else some word

@[simp] theorem symbol?_eq_none_iff {word : UInt16} : symbol? word = none ↔ word = noSymbol := by
  simp [symbol?]

@[simp] theorem target?_eq_none_iff {word : UInt32} : target? word = none ↔ word = noTarget := by
  simp [target?]

namespace Utf8

/-- Why bytes are not text. The byte `length` places after `start` cannot continue the character
that opens there, or the bytes end inside that character. -/
inductive Fault where
  | invalid (start length : Nat)
  | incomplete (start : Nat)
  deriving DecidableEq

def Fault.message : Fault → String
  | .invalid start length => s!"invalid utf-8 sequence of {length} bytes from index {start}"
  | .incomplete start => s!"incomplete utf-8 byte sequence from index {start}"

/-- A character that has been opened at `start` and not closed. The next byte has to be between
`low` and `high`, `more` bytes come after it, and `bits` are the bits of the code point so far. -/
structure Pending where
  start : Nat
  low : Nat
  high : Nat
  more : Nat
  bits : Nat

def opened? (start lead : Nat) : Option Pending :=
  if 0xC2 ≤ lead ∧ lead ≤ 0xDF then some ⟨start, 0x80, 0xBF, 0, lead - 0xC0⟩
  else if lead = 0xE0 then some ⟨start, 0xA0, 0xBF, 1, 0⟩
  else if lead = 0xED then some ⟨start, 0x80, 0x9F, 1, 0xD⟩
  else if 0xE1 ≤ lead ∧ lead ≤ 0xEF then some ⟨start, 0x80, 0xBF, 1, lead - 0xE0⟩
  else if lead = 0xF0 then some ⟨start, 0x90, 0xBF, 2, 0⟩
  else if 0xF1 ≤ lead ∧ lead ≤ 0xF3 then some ⟨start, 0x80, 0xBF, 2, lead - 0xF0⟩
  else if lead = 0xF4 then some ⟨start, 0x80, 0x8F, 2, 4⟩
  else none

def decodeFrom (read : List Char) : (position : Nat) → Option Pending → List UInt8 →
    Except Fault (List Char)
  | _, none, [] => .ok read.reverse
  | _, some pending, [] => .error (.incomplete pending.start)
  | position, none, byte :: rest =>
    if byte.toNat < 0x80 then
      decodeFrom (Char.ofNat byte.toNat :: read) (position + 1) none rest
    else
      match opened? position byte.toNat with
      | none => .error (.invalid position 1)
      | some pending => decodeFrom read (position + 1) (some pending) rest
  | position, some pending, byte :: rest =>
    if pending.low ≤ byte.toNat ∧ byte.toNat ≤ pending.high then
      let bits := pending.bits * 64 + (byte.toNat - 0x80)
      match pending.more with
      | 0 => decodeFrom (Char.ofNat bits :: read) (position + 1) none rest
      | more + 1 =>
        decodeFrom read (position + 1) (some ⟨pending.start, 0x80, 0xBF, more, bits⟩) rest
    else .error (.invalid pending.start (position - pending.start))

def decode (bytes : List UInt8) : Except Fault (List Char) := decodeFrom [] 0 none bytes

end Utf8

end OptimizedLookup
