/-
Fixed-width bytes of numbers, and fields of a buffer.

* `leBytes`, `beBytes`: the bytes of a number in a given width, least or most significant first,
  with their readings `leValue` and `beValue`. Each undoes the other.
* `slice`, `overwrite`: reading and writing a range of a buffer. Neighbouring slices join, and a
  write is read back where it was made and leaves the rest.
-/
import Mathlib

namespace Rtfsn.Bytes

/-! ### Numbers -/

/-- The low `width` bytes, least significant first. -/
def leBytes : ℕ → ℕ → List UInt8
  | 0, _ => []
  | width + 1, n => UInt8.ofNat n :: leBytes width (n / 256)

def leValue (bytes : List UInt8) : ℕ := Nat.ofDigits 256 (bytes.map UInt8.toNat)

/-- The low `width` bytes, most significant first. -/
def beBytes (width n : ℕ) : List UInt8 := (leBytes width n).reverse

def beValue (bytes : List UInt8) : ℕ := leValue bytes.reverse

@[simp] theorem length_leBytes (width n : ℕ) : (leBytes width n).length = width := by
  induction width generalizing n with
  | zero => rfl
  | succ width ih => rw [leBytes, List.length_cons, ih]

@[simp] theorem length_beBytes (width n : ℕ) : (beBytes width n).length = width := by
  rw [beBytes, List.length_reverse, length_leBytes]

theorem leValue_lt (bytes : List UInt8) : leValue bytes < 256 ^ bytes.length := by
  have below := Nat.ofDigits_lt_base_pow_length (b := 256) (l := bytes.map UInt8.toNat)
    (by norm_num) (by simpa using fun b _ => b.toNat_lt)
  rwa [List.length_map] at below

/-- Bytes after others count for more. -/
theorem leValue_append (low high : List UInt8) :
    leValue (low ++ high) = leValue low + 256 ^ low.length * leValue high := by
  rw [leValue, List.map_append, Nat.ofDigits_append, List.length_map]
  rfl

theorem leValue_leBytes_mod (width n : ℕ) : leValue (leBytes width n) = n % 256 ^ width := by
  induction width generalizing n with
  | zero => rw [pow_zero, Nat.mod_one]; rfl
  | succ width ih =>
    have rest : Nat.ofDigits 256 ((leBytes width (n / 256)).map UInt8.toNat) =
        n / 256 % 256 ^ width := ih (n / 256)
    rw [leBytes, leValue, List.map_cons, Nat.ofDigits_cons, rest, UInt8.toNat_ofNat',
      pow_succ' 256 width, Nat.mod_mul (a := 256)]

theorem leValue_leBytes {width n : ℕ} (fits : n < 256 ^ width) :
    leValue (leBytes width n) = n := by
  rw [leValue_leBytes_mod, Nat.mod_eq_of_lt fits]

theorem leValue_injective {bytes bytes' : List UInt8} (length : bytes.length = bytes'.length)
    (value : leValue bytes = leValue bytes') : bytes = bytes' := by
  have small : ∀ list : List UInt8, ∀ digit ∈ list.map UInt8.toNat, digit < 256 := fun list =>
    by simpa using fun b _ => b.toNat_lt
  exact List.map_injective_iff.mpr (fun _ _ => UInt8.toNat_inj.mp)
    (Nat.ofDigits_inj_of_len_eq (by norm_num) (by simpa using length) (small _) (small _) value)

theorem leBytes_leValue (bytes : List UInt8) : leBytes bytes.length (leValue bytes) = bytes :=
  leValue_injective (length_leBytes _ _) (leValue_leBytes (leValue_lt bytes))

/-- **Fixed-width bytes tell numbers apart.** -/
theorem leBytes_injective {width n m : ℕ} (fits : n < 256 ^ width) (fits' : m < 256 ^ width)
    (same : leBytes width n = leBytes width m) : n = m := by
  rw [← leValue_leBytes fits, same, leValue_leBytes fits']

theorem beValue_lt (bytes : List UInt8) : beValue bytes < 256 ^ bytes.length := by
  simpa [beValue] using leValue_lt bytes.reverse

theorem beValue_beBytes {width n : ℕ} (fits : n < 256 ^ width) :
    beValue (beBytes width n) = n := by
  rw [beValue, beBytes, List.reverse_reverse, leValue_leBytes fits]

theorem beBytes_beValue (bytes : List UInt8) : beBytes bytes.length (beValue bytes) = bytes := by
  rw [beBytes, beValue, ← List.length_reverse, leBytes_leValue, List.reverse_reverse]

/-! ### Ranges of a buffer -/

variable {α : Type}

/-- The range `i..j`. -/
def slice (buffer : List α) (i j : ℕ) : List α := (buffer.take j).drop i

/-- The buffer with the range that begins at `i` replaced by `field`. -/
def overwrite (buffer : List α) (i : ℕ) (field : List α) : List α :=
  buffer.take i ++ field ++ buffer.drop (i + field.length)

@[simp] theorem length_slice (buffer : List α) (i j : ℕ) :
    (slice buffer i j).length = min j buffer.length - i := by
  simp [slice]

theorem slice_append_slice (buffer : List α) {i j k : ℕ} (first : i ≤ j) (second : j ≤ k) :
    slice buffer i j ++ slice buffer j k = slice buffer i k := by
  have onward : buffer.drop j = (buffer.drop i).drop (j - i) := by
    rw [List.drop_drop, Nat.add_sub_cancel' first]
  unfold slice
  rw [List.drop_take, List.drop_take, List.drop_take, onward,
    show k - i = (j - i) + (k - j) by omega, List.take_add]

/-- What follows a range does not matter to it. -/
theorem slice_append_left {front after : List α} {i j : ℕ} (within : j ≤ front.length) :
    slice (front ++ after) i j = slice front i j := by
  unfold slice
  rw [List.take_append_of_le_length within]

/-- The last field of a buffer. -/
theorem slice_append_right {front field : List α} {i j : ℕ} (begins : front.length = i)
    (ends : front.length + field.length = j) : slice (front ++ field) i j = field := by
  unfold slice
  rw [List.take_of_length_le (by rw [List.length_append, ends]), List.drop_left' begins]

/-- Writing the next field of a buffer whose rest is still blank. -/
theorem overwrite_next {written field : List α} {blank : α} {i n m : ℕ}
    (begins : written.length = i) (rest : field.length + m = n) :
    overwrite (written ++ List.replicate n blank) i field =
      (written ++ field) ++ List.replicate m blank := by
  unfold overwrite
  rw [List.take_left' begins, ← begins, List.drop_append, List.drop_eq_nil_of_le (by omega),
    List.drop_replicate, List.nil_append, show n - (written.length + field.length - written.length)
      = m by omega]

end Rtfsn.Bytes
