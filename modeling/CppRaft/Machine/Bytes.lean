import Mathlib.Algebra.Group.Int.Defs
import Mathlib.Algebra.Group.Nat.Defs
import Mathlib.Data.List.Basic

/-!
# Words in memory

A machine stores the four bytes of a word by increasing or by decreasing weight.
Reading the bytes of a word in the order they were stored in gives the word back;
in the other order it gives the word with its bytes reversed.
-/

namespace CppRaft

namespace Machine

/-- A block of `n` bytes. -/
@[ext] structure Block (n : ℕ) where
  bytes : List UInt8
  sized : bytes.length = n
  deriving DecidableEq, Repr

namespace Block

variable {n : ℕ}

private theorem length_take {size count : ℕ} (block : Block ((count + 1) * size)) :
    (block.bytes.take size).length = size := by
  rw [List.length_take_of_le]
  rw [block.sized, Nat.succ_mul]
  exact Nat.le_add_left _ _

private theorem length_drop {size count : ℕ} (block : Block ((count + 1) * size)) :
    (block.bytes.drop size).length = count * size := by
  rw [List.length_drop, block.sized, Nat.succ_mul, Nat.add_sub_cancel]

/-- The records of an array. -/
def records (size : ℕ) : (count : ℕ) → Block (count * size) → List (Block size)
  | 0, _ => []
  | count + 1, block =>
      ⟨block.bytes.take size, length_take block⟩ ::
        records size count ⟨block.bytes.drop size, length_drop block⟩

@[simp] theorem length_records (size count : ℕ) (block : Block (count * size)) :
    (records size count block).length = count := by
  induction count with
  | zero => rfl
  | succ count ih => rw [records, List.length_cons, ih]

/-- A record of an array holds the bytes at its place. -/
theorem bytes_getElem_records {size count : ℕ} (block : Block (count * size)) {i : ℕ}
    (inside : i < (records size count block).length) :
    ((records size count block)[i]).bytes = (block.bytes.drop (i * size)).take size := by
  induction count generalizing i with
  | zero => cases inside
  | succ count ih =>
      cases i with
      | zero => simp [records]
      | succ i =>
          have later := ih ⟨block.bytes.drop size, length_drop block⟩
            (Nat.lt_of_succ_lt_succ inside)
          rw [List.drop_drop, Nat.add_comm size, ← Nat.succ_mul] at later
          exact later

/-- A buffer that begins with a block has at least the bytes of the block. -/
theorem le_length_append (block : Block n) (rest : List UInt8) :
    n ≤ (block.bytes ++ rest).length := by
  rw [List.length_append, block.sized]
  exact Nat.le_add_right _ _

/-- A block that is first in some bytes is what is taken from them. -/
theorem take_append (block : Block n) (rest : List UInt8) :
    (⟨(block.bytes ++ rest).take n,
      List.length_take_of_le (block.le_length_append rest)⟩ : Block n) = block :=
  Block.ext (List.take_left' block.sized)

private theorem length_fill {front : List UInt8} (block : Block n) (fits : front.length ≤ n) :
    (front ++ block.bytes.drop front.length).length = n := by
  rw [List.length_append, List.length_drop, block.sized, Nat.add_sub_cancel' fits]

/-- A block with its first bytes replaced. -/
def fill (front : List UInt8) (block : Block n) (fits : front.length ≤ n) : Block n :=
  ⟨front ++ block.bytes.drop front.length, length_fill block fits⟩

/-- The bytes of an array of records. -/
def flatten (blocks : List (Block n)) : List UInt8 :=
  blocks.flatMap Block.bytes

@[simp] theorem length_flatten (blocks : List (Block n)) :
    (flatten blocks).length = blocks.length * n := by
  induction blocks with
  | nil => simp [flatten]
  | cons block rest ih =>
      rw [flatten] at ih
      rw [flatten, List.flatMap_cons, List.length_append, ih, block.sized, List.length_cons,
        Nat.succ_mul, Nat.add_comm]

/-- The records of an array in the order they were written. -/
theorem records_flatten {count : ℕ} (blocks : List (Block n)) (counted : blocks.length = count)
    (whole : Block (count * n)) (same : whole.bytes = flatten blocks) :
    records n count whole = blocks := by
  subst counted
  induction blocks with
  | nil => rfl
  | cons block rest ih =>
      have front : whole.bytes = block.bytes ++ flatten rest := same
      have first : whole.bytes.take n = block.bytes := by rw [front, List.take_left' block.sized]
      have others : whole.bytes.drop n = flatten rest := by rw [front, List.drop_left' block.sized]
      exact congrArg₂ List.cons (Block.ext first) (ih _ others)

end Block

/-- The order in which a machine stores the bytes of a word. -/
inductive ByteOrder where
  | little
  | big
  deriving DecidableEq, Repr

/-- The byte of a word with weight `256 ^ weight`. -/
def byteOf (w : UInt32) (weight : ℕ) : UInt8 :=
  UInt8.ofNat (w.toNat / 256 ^ weight)

/-- The word with these bytes, the one of least weight first. -/
def wordOf (b₀ b₁ b₂ b₃ : UInt8) : UInt32 :=
  UInt32.ofNat (b₀.toNat + 256 * b₁.toNat + 256 ^ 2 * b₂.toNat + 256 ^ 3 * b₃.toNat)

/-- A byte of a word is a digit of its value to the base 256. -/
theorem toNat_byteOf (w : UInt32) (weight : ℕ) :
    (byteOf w weight).toNat = w.toNat / 256 ^ weight % 256 := by
  rw [byteOf, UInt8.toNat_ofNat']

/-- The value of a word is that of its four digits to the base 256: the sum does not reach
the modulus of the word, so nothing wraps. -/
theorem toNat_wordOf (b₀ b₁ b₂ b₃ : UInt8) :
    (wordOf b₀ b₁ b₂ b₃).toNat =
      b₀.toNat + 256 * b₁.toNat + 256 ^ 2 * b₂.toNat + 256 ^ 3 * b₃.toNat := by
  have h₀ := b₀.toNat_lt
  have h₁ := b₁.toNat_lt
  have h₂ := b₂.toNat_lt
  have h₃ := b₃.toNat_lt
  rw [wordOf, UInt32.toNat_ofNat']
  exact Nat.mod_eq_of_lt (by omega)

/-- A word is made of its bytes. -/
theorem wordOf_byteOf (w : UInt32) :
    wordOf (byteOf w 0) (byteOf w 1) (byteOf w 2) (byteOf w 3) = w := by
  have bounded := w.toNat_lt
  apply UInt32.toNat_inj.mp
  simp only [toNat_wordOf, toNat_byteOf]
  omega

/-- Different bytes make different words. This is what makes every image of a record below
determine the record. -/
theorem wordOf_inj {a₀ a₁ a₂ a₃ b₀ b₁ b₂ b₃ : UInt8}
    (same : wordOf a₀ a₁ a₂ a₃ = wordOf b₀ b₁ b₂ b₃) : a₀ = b₀ ∧ a₁ = b₁ ∧ a₂ = b₂ ∧ a₃ = b₃ := by
  have sum := congrArg UInt32.toNat same
  rw [toNat_wordOf, toNat_wordOf] at sum
  have bound (b : UInt8) := b.toNat_lt
  have := bound a₀; have := bound a₁; have := bound a₂; have := bound a₃
  have := bound b₀; have := bound b₁; have := bound b₂; have := bound b₃
  simp only [← UInt8.toNat_inj]
  omega

namespace ByteOrder

/-- The order of the other machines. -/
def other : ByteOrder → ByteOrder
  | little => big
  | big => little

@[simp] theorem other_other (o : ByteOrder) : o.other.other = o := by
  cases o <;> rfl

/-- The bytes of a word by address. -/
def bytes : ByteOrder → UInt32 → List UInt8
  | little, w => [byteOf w 0, byteOf w 1, byteOf w 2, byteOf w 3]
  | big, w => [byteOf w 3, byteOf w 2, byteOf w 1, byteOf w 0]

/-- The word in four bytes of memory. -/
def word : ByteOrder → List UInt8 → UInt32
  | little, [b₀, b₁, b₂, b₃] => wordOf b₀ b₁ b₂ b₃
  | big, [b₀, b₁, b₂, b₃] => wordOf b₃ b₂ b₁ b₀
  | _, _ => 0

variable (o : ByteOrder)

@[simp] theorem length_bytes (w : UInt32) : (o.bytes w).length = 4 := by
  cases o <;> rfl

@[simp] theorem word_bytes (w : UInt32) : o.word (o.bytes w) = w := by
  cases o <;> exact wordOf_byteOf w

/-- The two byte orders write a word in opposite directions. -/
theorem bytes_other (w : UInt32) : o.other.bytes w = (o.bytes w).reverse := by
  cases o <;> rfl

/-- Reading four bytes in either order loses nothing. -/
theorem word_inj {a₀ a₁ a₂ a₃ b₀ b₁ b₂ b₃ : UInt8}
    (same : o.word [a₀, a₁, a₂, a₃] = o.word [b₀, b₁, b₂, b₃]) :
    [a₀, a₁, a₂, a₃] = [b₀, b₁, b₂, b₃] := by
  cases o with
  | little =>
      obtain ⟨rfl, rfl, rfl, rfl⟩ := wordOf_inj same
      rfl
  | big =>
      obtain ⟨rfl, rfl, rfl, rfl⟩ := wordOf_inj same
      rfl

/-- The bytes of a word, taken apart; the names differ by byte order. -/
theorem exists_bytes (w : UInt32) : ∃ b₀ b₁ b₂ b₃, o.bytes w = [b₀, b₁, b₂, b₃] := by
  cases o <;> exact ⟨_, _, _, _, rfl⟩

/-- Writing a word that was read gives the bytes that were read. -/
theorem bytes_word (b₀ b₁ b₂ b₃ : UInt8) :
    o.bytes (o.word [b₀, b₁, b₂, b₃]) = [b₀, b₁, b₂, b₃] := by
  obtain ⟨a₀, a₁, a₂, a₃, stored⟩ := o.exists_bytes (o.word [b₀, b₁, b₂, b₃])
  have back := o.word_bytes (o.word [b₀, b₁, b₂, b₃])
  rw [stored] at back ⊢
  exact o.word_inj back

/-- The words of a record by address. -/
def image (words : List UInt32) : List UInt8 :=
  words.flatMap o.bytes

/-- The word at a position of a record. -/
def field (bytes : List UInt8) (position : ℕ) : UInt32 :=
  o.word ((bytes.drop (4 * position)).take 4)

@[simp] theorem length_image (words : List UInt32) : (o.image words).length = 4 * words.length := by
  induction words with
  | nil => rfl
  | cons w rest ih =>
      rw [image, List.flatMap_cons, List.length_append, length_bytes, List.length_cons]
      rw [image] at ih
      omega

/-- A field of a record is found where the record has it, whatever the byte order, as long
as writer and reader agree on it. -/
@[simp] theorem field_image (words : List UInt32) (position : ℕ)
    (inside : position < words.length) : o.field (o.image words) position = words[position] := by
  induction words generalizing position with
  | nil => cases inside
  | cons w rest ih =>
      have image : o.image (w :: rest) = o.bytes w ++ o.image rest := rfl
      cases position with
      | zero => rw [field, image, Nat.mul_zero, List.drop_zero, List.take_left' (o.length_bytes w),
          o.word_bytes, List.getElem_cons_zero]
      | succ position =>
          have skipped : (o.image (w :: rest)).drop (4 * (position + 1)) =
              (o.image rest).drop (4 * position) := by
            rw [image, Nat.mul_succ, Nat.add_comm, ← List.drop_drop,
              List.drop_left' (o.length_bytes w)]
          rw [field, skipped, List.getElem_cons_succ]
          exact ih position (Nat.lt_of_succ_lt_succ inside)

end ByteOrder

/-- The word that holds an `int`, in two's complement. -/
def intWord (i : Int) : UInt32 :=
  UInt32.ofBitVec (BitVec.ofInt 32 i)

/-- The `int` in a word. -/
def wordInt (w : UInt32) : Int :=
  w.toBitVec.toInt

/-- The values of an `int`. -/
def IsInt (i : Int) : Prop :=
  -2 ^ 31 ≤ i ∧ i < 2 ^ 31

instance (i : Int) : Decidable (IsInt i) :=
  inferInstanceAs (Decidable (-2 ^ 31 ≤ i ∧ i < 2 ^ 31))

/-- What an `int` holds of a number. -/
theorem wordInt_intWord_eq_bmod (i : Int) : wordInt (intWord i) = i.bmod (2 ^ 32) := by
  rw [wordInt, intWord, UInt32.toBitVec_ofBitVec, BitVec.toInt_ofInt]

/-- The value that is left of an integer after a stay in a 32-bit word, in the form that
case splits use. -/
theorem wordInt_intWord_eq_ite (i : Int) :
    wordInt (intWord i) =
      if i % 2 ^ 32 < 2 ^ 31 then i % 2 ^ 32 else i % 2 ^ 32 - 2 ^ 32 := by
  rw [wordInt_intWord_eq_bmod, Int.bmod]
  split <;> split <;> omega

/-- An `int` survives a stay in a word. -/
theorem wordInt_intWord {i : Int} (fits : IsInt i) : wordInt (intWord i) = i := by
  obtain ⟨low, high⟩ := fits
  rw [wordInt_intWord_eq_bmod]
  exact Int.bmod_eq_of_le (by omega) (by omega)

/-- What is read from a word is an `int`. -/
theorem isInt_wordInt (w : UInt32) : IsInt (wordInt w) :=
  ⟨w.toBitVec.le_toInt, w.toBitVec.toInt_lt⟩

@[simp] theorem intWord_wordInt (w : UInt32) : intWord (wordInt w) = w := by
  rw [intWord, wordInt, BitVec.ofInt_toInt]

/-- Comparing the value of a word with an `int` is comparing the words. -/
theorem wordInt_eq_iff {i : Int} (fits : IsInt i) (w : UInt32) : wordInt w = i ↔ w = intWord i := by
  constructor
  · rintro rfl
    rw [intWord_wordInt]
  · rintro rfl
    exact wordInt_intWord fits

end Machine

end CppRaft
