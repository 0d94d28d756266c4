/-
The scalars of the curve.

* `groupOrder_prime`: their number is prime, by a chain of factors of predecessors.
* `Ristretto.modular`: the reductions and the canonical encoding of the scalars modulo `l`, and for
  points a group of the same order, encoded likewise.
-/
import Rtfsn.Layers.Layer1
import Rtfsn.Lib.Pocklington

namespace Rtfsn

namespace Layer1Store

open Pocklington (pocklington)

/-! ### The order is prime -/

/-- One prime factor of `n - 1` suffices where it is large. -/
theorem prime_of_factor {n q : ℕ} (prime : q.Prime) (divides : q ∣ n - 1) (large : n < q ^ 2)
    (one_lt : 1 < n) (a c inverse : ZMod n) (root : a ^ (n - 1) = 1)
    (power : a ^ ((n - 1) / q) = c) (unit : (c - 1) * inverse = 1) : n.Prime := by
  refine pocklington {q} (by simpa using prime) (by simpa using divides) (by simpa using large)
    one_lt a root fun p member => ?_
  rw [Finset.mem_singleton.mp member, power]
  exact IsUnit.of_mul_eq_one _ unit

theorem prime_51_bits : Nat.Prime 1257559732178653 := by
  refine pocklington {531581, 1224481} (by norm_num) (by norm_num) (by norm_num) (by norm_num) 2
    (by reduce_mod_char) fun q member => ?_
  rcases Finset.mem_insert.mp member with rfl | single
  · exact IsUnit.of_mul_eq_one 212927577457398 (by reduce_mod_char)
  · rw [Finset.mem_singleton.mp single]
    exact IsUnit.of_mul_eq_one 790900187493841 (by reduce_mod_char)

theorem prime_62_bits : Nat.Prime 4434155615661930479 :=
  prime_of_factor prime_51_bits (by norm_num) (by norm_num) (by norm_num) 2
    415787812636281767 1010501025739283171
    (by reduce_mod_char) (by reduce_mod_char) (by reduce_mod_char)

theorem prime_87_bits : Nat.Prime 172054593956031949258510691 :=
  prime_of_factor prime_62_bits (by norm_num) (by norm_num) (by norm_num) 2
    81982237619807054769897707 154275350521713489305385904
    (by reduce_mod_char) (by reduce_mod_char) (by reduce_mod_char)

theorem prime_134_bits : Nat.Prime 19757330305831588566944191468367130476339 :=
  prime_of_factor prime_87_bits (by norm_num) (by norm_num) (by norm_num) 2
    9148758478138211201771971577098600188172 16371654433361644093796961727196399386194
    (by reduce_mod_char) (by reduce_mod_char) (by reduce_mod_char)

theorem prime_138_bits : Nat.Prime 276602624281642239937218680557139826668747 :=
  prime_of_factor prime_134_bits (by norm_num) (by norm_num) (by norm_num) 2
    16384 94074944912245044309966580483695483989395
    (by reduce_mod_char) (by reduce_mod_char) (by reduce_mod_char)

/-- **The group has prime order.** -/
theorem groupOrder_prime : groupOrder.Prime := by
  have value : groupOrder =
      7237005577332262213973186563042994240857116359379907606001950938285454250989 := by
    norm_num [groupOrder]
  rw [value]
  exact prime_of_factor prime_138_bits (by norm_num) (by norm_num) (by norm_num) 2
    2975531125133123119648879457563281269120703404158613135195788908093573672641
    2233364593245673852815932892735013076939656528578070433728021143254617821614
    (by reduce_mod_char) (by reduce_mod_char) (by reduce_mod_char)

theorem groupOrder_ne_two : groupOrder ≠ 2 := by
  norm_num [groupOrder]

theorem two_ne_zero_mod : (2 : ZMod groupOrder) ≠ 0 := by
  intro zero
  have divides : groupOrder ∣ 2 :=
    (ZMod.natCast_eq_zero_iff 2 groupOrder).mp (by exact_mod_cast zero)
  exact groupOrder_ne_two ((Nat.prime_dvd_prime_iff_eq groupOrder_prime Nat.prime_two).mp divides)

theorem groupOrder_le : groupOrder ≤ 256 ^ 32 := by
  norm_num [groupOrder]

end Layer1Store

namespace PrimeOrder

/-- The scalars are a field where this namespace is open. -/
scoped instance groupOrderFact : Fact Layer1Store.groupOrder.Prime := ⟨Layer1Store.groupOrder_prime⟩

end PrimeOrder

/-! ### The encodings -/

namespace Ristretto

variable {l : ℕ} [NeZero l]

/-- The 32 bytes of a scalar. -/
def encode (scalar : ZMod l) : Bytes32 := ⟨(Bytes.leBytes 32 scalar.val).toArray, by simp⟩

/-- The scalar of its canonical bytes. -/
def decode (bytes : Bytes32) : Option (ZMod l) :=
  if Bytes.leValue bytes.toList < l then some (Bytes.leValue bytes.toList : ZMod l) else none

theorem leValue_encode (small : l ≤ 256 ^ 32) (scalar : ZMod l) :
    Bytes.leValue (encode scalar).toList = scalar.val :=
  Bytes.leValue_leBytes (scalar.val_lt.trans_le small)

theorem decode_encode (small : l ≤ 256 ^ 32) (scalar : ZMod l) :
    decode (encode scalar) = some scalar := by
  rw [decode, leValue_encode small, if_pos scalar.val_lt, ZMod.natCast_zmod_val]

/-- The scalars modulo `l`, over a group of that order whose points are encoded as they are. -/
def modular (l : ℕ) [NeZero l] : Ristretto (ZMod l) (ZMod l) where
  basepoint := 1
  identityGenerator := 2
  compress := encode
  decompress := decode
  toBytes := encode
  fromBytesModOrder bytes := Bytes.leValue bytes.toList
  fromCanonicalBytes := decode

theorem modular_decompress (small : l ≤ 256 ^ 32) (point : ZMod l) :
    (modular l).decompress ((modular l).compress point) = some point :=
  decode_encode small point

end Ristretto

end Rtfsn
