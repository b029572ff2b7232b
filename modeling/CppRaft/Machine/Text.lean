import Mathlib.Data.List.GetD
import Mathlib.Data.List.TakeWhile
import CppRaft.Machine.Bytes

/-!
# Texts in fixed buffers

A text in a buffer of fixed size ends at the first zero byte; what stands behind it belongs to
the buffer and not to the text. Two ways to write a text differ in these bytes: a padded copy
clears them, and a plain copy leaves them as they were. A buffer that several texts have been
copied to holds the last one as a padded copy would exactly if none of the earlier ones shows
behind its terminator.
-/

namespace CppRaft

namespace Machine

/-- A text has no zero byte. -/
def IsText (text : List UInt8) : Prop :=
  0 ∉ text

namespace Block

variable {n : ℕ}

/-- The text at the start of a buffer. -/
def text (buffer : Block n) : List UInt8 :=
  buffer.bytes.takeWhile fun byte => byte ≠ 0

/-- The text of a buffer ends within it. -/
def Terminated (buffer : Block n) : Prop :=
  0 ∈ buffer.bytes

instance (buffer : Block n) : Decidable buffer.Terminated :=
  inferInstanceAs (Decidable (0 ∈ buffer.bytes))

/-- A buffer of zeros. -/
def zeros (n : ℕ) : Block n :=
  ⟨List.replicate n 0, List.length_replicate⟩

private theorem length_padded (text : List UInt8) :
    ((text ++ List.replicate n 0).take n).length = n := by
  rw [List.length_take, List.length_append, List.length_replicate]
  omega

private theorem length_overwrite (text : List UInt8) (buffer : Block n) :
    ((text ++ 0 :: buffer.bytes.drop (text.length + 1)).take n).length = n := by
  rw [List.length_take, List.length_append, List.length_cons, List.length_drop, buffer.sized]
  omega

/-- A copy of a text with zeros up to the end of the buffer. -/
def padded (n : ℕ) (text : List UInt8) : Block n :=
  ⟨(text ++ List.replicate n 0).take n, length_padded text⟩

/-- A copy of a text and its terminator over the start of a buffer. -/
def overwrite (text : List UInt8) (buffer : Block n) : Block n :=
  ⟨(text ++ 0 :: buffer.bytes.drop (text.length + 1)).take n, length_overwrite text buffer⟩

/-- The bytes of a buffer from a position on are zero. -/
def ZeroFrom (k : ℕ) (buffer : Block n) : Prop :=
  ∀ byte ∈ buffer.bytes.drop k, byte = 0

/-- A cleared buffer is zero from any position on. -/
theorem zeroFrom_zeros (k : ℕ) : (zeros n).ZeroFrom k := by
  intro byte member
  exact List.eq_of_mem_replicate (List.mem_of_mem_drop member)

/-- A text in a cleared buffer is followed by zeros up to the end of the buffer. -/
theorem bytes_padded {text : List UInt8} (fits : text.length ≤ n) :
    (padded n text).bytes = text ++ List.replicate (n - text.length) 0 := by
  simp only [padded]
  rw [List.take_append, List.take_of_length_le fits, List.take_replicate,
    Nat.min_eq_left (Nat.sub_le _ _)]

/-- A text that is copied into a buffer is followed by its terminator and then by what the
buffer had there before. These stale bytes are part of the buffer as a key. -/
theorem bytes_overwrite {text : List UInt8} (buffer : Block n) (fits : text.length < n) :
    (overwrite text buffer).bytes = text ++ 0 :: buffer.bytes.drop (text.length + 1) := by
  rw [overwrite]
  refine List.take_of_length_le ?_
  rw [List.length_append, List.length_cons, List.length_drop, buffer.sized]
  omega

private theorem takeWhile_append_zero {text rest : List UInt8} (isText : IsText text) :
    (text ++ 0 :: rest).takeWhile (fun byte => decide (byte ≠ 0)) = text := by
  have nonzero : ∀ byte ∈ text, decide (byte ≠ 0) = true := by
    intro byte member
    refine decide_eq_true fun zero => isText ?_
    exact zero ▸ member
  rw [List.takeWhile_append_of_pos nonzero, List.takeWhile_cons_of_neg (by decide),
    List.append_nil]

/-- The text of a padded buffer is the text that was put there. -/
theorem text_padded {text : List UInt8} (isText : IsText text) (fits : text.length < n) :
    (padded n text).text = text := by
  obtain ⟨more, length⟩ : ∃ more, n - text.length = more + 1 := ⟨n - text.length - 1, by omega⟩
  rw [Block.text, bytes_padded (Nat.le_of_lt fits), length, List.replicate_succ]
  exact takeWhile_append_zero isText

/-- What is read from a buffer up to its terminator is a text. -/
theorem isText_text (buffer : Block n) : IsText buffer.text := fun zero => by
  have test := List.mem_takeWhile_imp zero
  exact absurd test (by decide)

/-- A text that ends within the buffer is shorter than the buffer. -/
theorem Terminated.length_text {buffer : Block n} (terminated : buffer.Terminated) :
    buffer.text.length < n := by
  have start : buffer.text <+: buffer.bytes := List.takeWhile_prefix _
  by_contra long
  have whole : buffer.text = buffer.bytes :=
    start.eq_of_length_le (by rw [buffer.sized]; omega)
  exact buffer.isText_text (whole ▸ terminated)

/-- A text that is shorter than the buffer ends within it. -/
theorem terminated_of_length_text {buffer : Block n} (short : buffer.text.length < n) :
    buffer.Terminated := by
  by_contra endless
  have whole : buffer.text = buffer.bytes := by
    refine List.takeWhile_eq_self_iff.mpr fun byte member => decide_eq_true ?_
    rintro rfl
    exact endless member
  rw [whole, buffer.sized] at short
  exact Nat.lt_irrefl n short

/-- A plain copy is a padded one if there were only zeros behind the terminator. -/
theorem overwrite_eq_padded_iff {text : List UInt8} (fits : text.length < n) (buffer : Block n) :
    overwrite text buffer = padded n text ↔ buffer.ZeroFrom (text.length + 1) := by
  obtain ⟨more, length⟩ : ∃ more, n - text.length = more + 1 := ⟨n - text.length - 1, by omega⟩
  rw [Block.ext_iff, bytes_overwrite buffer fits, bytes_padded (Nat.le_of_lt fits), length,
    List.replicate_succ, List.append_cancel_left_eq, List.cons.injEq, eq_self_iff_true, true_and,
    List.eq_replicate_iff, List.length_drop, buffer.sized]
  exact and_iff_right (by omega)

private theorem drop_copy (text rest : List UInt8) (more : ℕ) :
    (text ++ 0 :: rest).drop (text.length + more) = (0 :: rest).drop more := by
  rw [List.drop_append, List.drop_eq_nil_of_le (Nat.le_add_right _ _), Nat.add_sub_cancel_left,
    List.nil_append]

/-- What is zero after a plain copy: the terminator, and behind it whatever was zero before. -/
theorem zeroFrom_overwrite_iff {text : List UInt8} (isText : IsText text) (fits : text.length < n)
    (k : ℕ) (buffer : Block n) :
    (overwrite text buffer).ZeroFrom k ↔
      text.length ≤ k ∧ buffer.ZeroFrom (if text.length = k then k + 1 else k) := by
  rw [ZeroFrom, bytes_overwrite buffer fits]
  rcases Nat.lt_trichotomy text.length k with shorter | same | longer
  · obtain ⟨more, rfl⟩ : ∃ more, k = text.length + (more + 1) := ⟨k - text.length - 1, by omega⟩
    rw [if_neg (Nat.ne_of_lt shorter), drop_copy, List.drop_succ_cons, List.drop_drop,
      show text.length + 1 + more = text.length + (more + 1) by omega]
    exact (and_iff_right (Nat.le_of_lt shorter)).symm
  · subst same
    have behind := drop_copy text (buffer.bytes.drop (text.length + 1)) 0
    rw [Nat.add_zero, List.drop_zero] at behind
    rw [if_pos rfl, behind, List.forall_mem_cons]
    exact ⟨fun zero => ⟨Nat.le_refl _, zero.2⟩, fun zero => ⟨rfl, zero.2⟩⟩
  · -- The byte of the text at the position is not zero.
    refine iff_of_false (fun zero => isText ?_) fun bounded => absurd bounded.1 (by omega)
    have member : text[k] ∈ (text ++ 0 :: buffer.bytes.drop (text.length + 1)).drop k := by
      rw [List.drop_append, List.drop_eq_getElem_cons longer]
      exact List.mem_append_left _ List.mem_cons_self
    exact zero _ member ▸ List.getElem_mem longer

/-- Texts of these lengths, the latest first, leave only zeros from a position on: each of them
ends there or before, and behind one that ends exactly there the position is the next one. -/
def Covers : (k : ℕ) → (lengths : List ℕ) → Prop
  | _, [] => True
  | k, length :: lengths => length ≤ k ∧ Covers (if length = k then k + 1 else k) lengths

instance decidableCovers : (k : ℕ) → (lengths : List ℕ) → Decidable (Covers k lengths)
  | _, [] => isTrue trivial
  | k, length :: lengths =>
      have := decidableCovers (if length = k then k + 1 else k) lengths
      inferInstanceAs (Decidable (_ ∧ _))

/-- A buffer of zeros to which texts have been copied, the latest first in the list. -/
theorem zeroFrom_foldr_iff {texts : List (List UInt8)}
    (fit : ∀ text ∈ texts, IsText text ∧ text.length < n) (k : ℕ) :
    (texts.foldr overwrite (zeros n)).ZeroFrom k ↔ Covers k (texts.map List.length) := by
  induction texts generalizing k with
  | nil => exact iff_of_true (zeroFrom_zeros k) trivial
  | cons text texts ih =>
      obtain ⟨⟨isText, fits⟩, others⟩ := List.forall_mem_cons.mp fit
      rw [List.foldr_cons, zeroFrom_overwrite_iff isText fits, ih others]
      rfl

/-- The byte at a position after copies of texts, the latest first: it belongs to the latest one
that reaches the position with its terminator. -/
def latestByte : (texts : List (List UInt8)) → (i : ℕ) → UInt8
  | [], _ => 0
  | text :: earlier, i => if i ≤ text.length then text.getD i 0 else latestByte earlier i

private theorem getD_overwrite {text : List UInt8} (fits : text.length < n) (buffer : Block n)
    (i : ℕ) :
    (overwrite text buffer).bytes.getD i 0 =
      if i ≤ text.length then text.getD i 0 else buffer.bytes.getD i 0 := by
  rw [bytes_overwrite buffer fits]
  rcases Nat.lt_trichotomy i text.length with within | rfl | behind
  · rw [if_pos (Nat.le_of_lt within), List.getD_append _ _ _ _ within]
  · rw [if_pos (Nat.le_refl _), List.getD_append_right _ _ _ _ (Nat.le_refl _), Nat.sub_self,
      List.getD_cons_zero, List.getD_eq_default _ _ (Nat.le_refl _)]
  · obtain ⟨more, rfl⟩ : ∃ more, i = text.length + 1 + more := ⟨i - text.length - 1, by omega⟩
    rw [if_neg (by omega), List.getD_append_right _ _ _ _ (by omega),
      show text.length + 1 + more - text.length = more + 1 by omega, List.getD_cons_succ,
      List.getD_eq_getElem?_getD, List.getElem?_drop, ← List.getD_eq_getElem?_getD]

/-- What stands in a buffer of zeros after copies of texts. -/
theorem getD_foldr_overwrite {texts : List (List UInt8)}
    (fit : ∀ text ∈ texts, text.length < n) (i : ℕ) :
    (texts.foldr overwrite (zeros n)).bytes.getD i 0 = latestByte texts i := by
  induction texts with
  | nil =>
      rw [List.foldr_nil, List.getD_eq_getElem?_getD]
      exact List.getElem?_getD_replicate_default_eq 0 n i
  | cons text earlier ih =>
      obtain ⟨fits, others⟩ := List.forall_mem_cons.mp fit
      rw [List.foldr_cons, getD_overwrite fits, ih others]
      rfl

/-- Buffers are the same if they have the same bytes. -/
theorem eq_iff_getD {buffer buffer' : Block n} :
    buffer = buffer' ↔ ∀ i < n, buffer.bytes.getD i 0 = buffer'.bytes.getD i 0 := by
  refine ⟨fun same i _ => same ▸ rfl, fun same => Block.ext ?_⟩
  refine List.ext_getElem (buffer.sized.trans buffer'.sized.symm) fun i first second => ?_
  rw [← List.getD_eq_getElem _ 0 first, ← List.getD_eq_getElem _ 0 second]
  exact same i (buffer.sized ▸ first)

end Block

end Machine

end CppRaft
