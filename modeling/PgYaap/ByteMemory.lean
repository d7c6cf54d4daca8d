import Mathlib

/-! # Byte memory

A memory gives every address a byte. Reading a block and writing a block are
functions; a copy is a write of what was read. A block reads back what was
written to it, and a write is not seen by a block apart from it. Numbers are
written with the low byte first. -/

abbrev ByteMemory := Nat → UInt8

namespace ByteMemory

/-- The bytes of a block, by start and length. -/
def read (m : ByteMemory) (start : Nat) : Nat → List UInt8
  | 0 => []
  | n + 1 => m start :: read m (start + 1) n

/-- Write bytes from an address on. -/
def write (m : ByteMemory) (start : Nat) (bytes : List UInt8) : ByteMemory := fun a =>
  if start ≤ a then (bytes[a - start]?).getD (m a) else m a

variable {m m' : ByteMemory} {start start' n n' : Nat} {bytes : List UInt8}

@[simp] theorem length_read : (m.read start n).length = n := by
  induction n generalizing start with
  | zero => rfl
  | succ n ih => rw [read, List.length_cons, ih]

/-- A block only depends on its own addresses. -/
theorem read_congr (h : ∀ a, start ≤ a → a < start + n → m' a = m a) :
    m'.read start n = m.read start n := by
  induction n generalizing start with
  | zero => rfl
  | succ n ih =>
    rw [read, read, h start (Nat.le_refl _) (by omega)]
    rw [ih fun a ha hb => h a (by omega) (by omega)]

/-- Two blocks with the same bytes at the same distance from their starts. -/
theorem read_eq_read (h : ∀ i, i < n → m' (start' + i) = m (start + i)) :
    m'.read start' n = m.read start n := by
  induction n generalizing start start' with
  | zero => rfl
  | succ n ih =>
    have h0 : m' start' = m start := h 0 (by omega)
    have hrest : ∀ i, i < n → m' (start' + 1 + i) = m (start + 1 + i) := by
      intro i hi
      rw [Nat.add_assoc, Nat.add_assoc, Nat.add_comm 1 i]
      exact h (i + 1) (by omega)
    rw [read, read, h0, ih hrest]

theorem write_of_lt {a : Nat} (h : a < start) : m.write start bytes a = m a :=
  if_neg (Nat.not_le_of_lt h)

theorem write_of_ge {a : Nat} (h : start + bytes.length ≤ a) : m.write start bytes a = m a := by
  unfold write
  split
  · rw [List.getElem?_eq_none (by omega)]
    rfl
  · rfl

theorem write_add {i : Nat} (h : i < bytes.length) :
    m.write start bytes (start + i) = bytes.get ⟨i, h⟩ := by
  unfold write
  rw [if_pos (Nat.le_add_right _ _), Nat.add_sub_cancel_left, List.getElem?_eq_getElem h]
  rfl

/-- **A block reads back what was written to it.** -/
theorem read_write : (m.write start bytes).read start bytes.length = bytes := by
  refine List.ext_getElem (by simp) fun i hi hb => ?_
  have hget : ∀ (k : Nat) (s : Nat) (hk : k < ((m.write start bytes).read s bytes.length).length),
      ((m.write start bytes).read s bytes.length)[k] = m.write start bytes (s + k) := by
    generalize bytes.length = len
    induction len with
    | zero => intro k s hk; cases hk
    | succ len ih =>
      intro k s hk
      cases k with
      | zero => rfl
      | succ k =>
        have hk' : k < ((m.write start bytes).read (s + 1) len).length := by
          simpa [read] using hk
        have hrest := ih k (s + 1) hk'
        rw [Nat.add_assoc, Nat.add_comm 1 k] at hrest
        exact hrest
  rw [hget i start hi, write_add hb]
  rfl

theorem read_write_of_length (h : bytes.length = n) :
    (m.write start bytes).read start n = bytes := by
  rw [← h]
  exact read_write

/-- A write is not seen by a block apart from it. -/
theorem read_write_apart (h : start' + n ≤ start ∨ start + bytes.length ≤ start') :
    (m.write start bytes).read start' n = m.read start' n := by
  refine read_congr fun a ha hb => ?_
  rcases h with h | h
  · exact write_of_lt (by omega)
  · exact write_of_ge (by omega)

/-! ## Numbers -/

/-- The low `width` bytes of a number, low byte first. -/
def encode : Nat → Nat → List UInt8
  | 0, _ => []
  | width + 1, v => UInt8.ofNat v :: encode width (v / 256)

/-- The number with the given bytes. -/
def decode : List UInt8 → Nat
  | [] => 0
  | b :: bs => b.toNat + 256 * decode bs

@[simp] theorem length_encode (width v : Nat) : (encode width v).length = width := by
  induction width generalizing v with
  | zero => rfl
  | succ width ih => rw [encode, List.length_cons, ih]

/-- **Bytes written come back**, up to the width. -/
theorem decode_encode (width v : Nat) : decode (encode width v) = v % 256 ^ width := by
  induction width generalizing v with
  | zero => rw [encode, decode, Nat.pow_zero, Nat.mod_one]
  | succ width ih =>
    have hlow : (UInt8.ofNat v).toNat = v % 256 := UInt8.toNat_ofNat'
    rw [encode, decode, ih, hlow, pow_succ', Nat.mod_mul]

theorem decode_encode_of_lt {width v : Nat} (h : v < 256 ^ width) :
    decode (encode width v) = v := by
  rw [decode_encode, Nat.mod_eq_of_lt h]

/-- Bytes make a number that fits them. -/
theorem decode_lt (bytes : List UInt8) : decode bytes < 256 ^ bytes.length := by
  induction bytes with
  | nil => exact Nat.one_pos
  | cons b bytes ih =>
    have hb : b.toNat < 256 := b.toNat_lt
    rw [decode, List.length_cons, pow_succ']
    omega

/-- Blocks of one length with one number are equal. -/
theorem decode_injective {bytes bytes' : List UInt8} (hlen : bytes.length = bytes'.length)
    (h : decode bytes = decode bytes') : bytes = bytes' := by
  induction bytes generalizing bytes' with
  | nil => exact (List.length_eq_zero_iff.1 hlen.symm).symm
  | cons b bytes ih =>
    cases bytes' with
    | nil => cases hlen
    | cons b' bytes' =>
      rw [decode, decode] at h
      have hb : b.toNat < 256 := b.toNat_lt
      have hb' : b'.toNat < 256 := b'.toNat_lt
      have hhead : b = b' := UInt8.toNat_inj.1 (by omega)
      have htail := ih (Nat.succ.inj hlen) (by omega)
      rw [hhead, htail]

/-- A number keeps the bytes it is made of. -/
theorem take_encode_decode {bytes : List UInt8} {width : Nat} (h : bytes.length ≤ width) :
    (encode width (decode bytes)).take bytes.length = bytes := by
  induction bytes generalizing width with
  | nil => rfl
  | cons b bytes ih =>
    cases width with
    | zero => exact absurd h (Nat.not_succ_le_zero _)
    | succ width =>
      have hb : b.toNat < 256 := b.toNat_lt
      have hlow : UInt8.ofNat (b.toNat + 256 * decode bytes) = b := by
        apply UInt8.toNat_inj.1
        rw [UInt8.toNat_ofNat']
        omega
      have hhigh : (b.toNat + 256 * decode bytes) / 256 = decode bytes := by omega
      rw [decode, encode, List.length_cons, List.take_succ_cons, hlow, hhigh,
        ih (Nat.le_of_succ_le_succ h)]

end ByteMemory
