/-
**A state is decoded from its remainders.**

* `SAMRState.Decodable`: the moduli are pairwise coprime, and small enough together.
* `addend_eq`: a channel adds its summand of the Chinese remainder theorem, without an overflow.
* `crtDecode_spec`: the number that is decoded has every remainder, and no other state with these
  moduli is decoded to it.
* `classified_decodes`: whatever is measured, in whatever order, a clock's state is decoded.
-/
import Rtfsn.Holonomy.ModularInverse
import Rtfsn.Lib.ChineseRemainder

namespace Rtfsn

namespace PrimeChannel

def modulus (channel : PrimeChannel) : ℕ := channel.prime.toNat

def remainder (channel : PrimeChannel) : ℕ := channel.value.toNat

end PrimeChannel

namespace SAMRState

open scoped Function

open ChineseRemainder (cofactor term combine)
open PrimeChannel (modulus remainder)

/-- The states that a number below the product of the moduli stands for. -/
structure Decodable (state : SAMRState) : Prop where
  coprime : state.channels.Pairwise (Nat.Coprime on modulus)
  two_le : ∀ c ∈ state.channels, 2 ≤ c.modulus
  below : ∀ c ∈ state.channels, c.remainder < c.modulus
  small : (state.channels.map modulus).prod * (state.channels.map modulus).sum < 2 ^ 64

section

variable {state : SAMRState} (decodable : state.Decodable)
include decodable

theorem Decodable.modulus_pos {c : PrimeChannel} (listed : c ∈ state.channels) : 0 < c.modulus :=
  two_pos.trans_le (decodable.two_le c listed)

theorem Decodable.prod_pos : 0 < (state.channels.map modulus).prod :=
  List.prod_pos (List.forall_mem_map.mpr fun _ listed => decodable.modulus_pos listed)

/-- The product times a modulus, and so the product. -/
theorem Decodable.prod_mul_lt {c : PrimeChannel} (listed : c ∈ state.channels) :
    (state.channels.map modulus).prod * c.modulus < 2 ^ 64 :=
  (Nat.mul_le_mul_left _ (List.le_sum_of_mem (List.mem_map_of_mem listed))).trans_lt
    decodable.small

theorem Decodable.prod_lt : (state.channels.map modulus).prod < 2 ^ 64 := by
  rcases state.channels.eq_nil_or_concat with none | ⟨_, c, some⟩
  · rw [none]
    norm_num
  · have listed : c ∈ state.channels := by simp [some]
    exact (Nat.le_mul_of_pos_right _ (decodable.modulus_pos listed)).trans_lt
      (decodable.prod_mul_lt listed)

theorem Decodable.totalResolution_eq :
    state.totalResolution = some (state.channels.map modulus).prod := by
  have fits : 1 * (state.channels.map modulus).prod < 2 ^ 64 := by
    rw [one_mul]
    exact decodable.prod_lt
  have chain := foldlM_checkedU64_mul
    (List.forall_mem_map.mpr fun _ listed => decodable.modulus_pos listed) fits
  rwa [one_mul] at chain

/-- **The inverses are found.** -/
theorem Decodable.exists_inverse {fuel : ℕ} (enough : ∀ c ∈ state.channels, c.modulus < fuel)
    {c : PrimeChannel} (listed : c ∈ state.channels) :
    ∃ y, modInverse fuel (cofactor modulus state.channels c) c.modulus = some (some y) ∧
      y < c.modulus ∧ cofactor modulus state.channels c * y ≡ 1 [MOD c.modulus] := by
  have pos := decodable.modulus_pos listed
  have left : cofactor modulus state.channels c ≤ maxU64 :=
    (Nat.div_le_self _ _).trans (Nat.le_sub_one_of_lt decodable.prod_lt)
  have modulusFits : c.modulus ≤ maxU64 :=
    (Nat.le_of_lt c.prime.toNat_lt).trans (by norm_num [maxU64])
  obtain ⟨result, found, isSome, spec⟩ :=
    modInverse_spec left (decodable.two_le c listed) modulusFits (enough c listed)
  have coprime := ChineseRemainder.coprime_cofactor decodable.coprime listed pos
  obtain ⟨y, rfl⟩ := Option.isSome_iff_exists.mp (isSome.mpr coprime)
  obtain ⟨below, inverts⟩ := spec y rfl
  exact ⟨y, found, below,
    inverts.trans (Nat.mod_eq_of_lt (decodable.two_le c listed)).symm⟩

/-- **A channel adds its summand**, which fits. -/
theorem Decodable.addend_eq {fuel : ℕ} {y : PrimeChannel → ℕ} {c : PrimeChannel}
    (listed : c ∈ state.channels)
    (found : modInverse fuel (cofactor modulus state.channels c) c.modulus = some (some (y c)))
    (inverse : y c < c.modulus) :
    addend fuel (state.channels.map modulus).prod c =
      some (term modulus state.channels remainder y c) := by
  have below := decodable.below c listed
  have product : c.value.toNat * cofactor modulus state.channels c < 2 ^ 64 :=
    (ChineseRemainder.mul_cofactor_le listed below).trans_lt decodable.prod_lt
  have summand : term modulus state.channels remainder y c < 2 ^ 64 :=
    (ChineseRemainder.term_le listed below inverse).trans_lt (decodable.prod_mul_lt listed)
  have quotient : divU64 (state.channels.map modulus).prod c.prime.toNat =
      some (cofactor modulus state.channels c) :=
    if_neg (decodable.modulus_pos listed).ne'
  have inverted : modInverse fuel (cofactor modulus state.channels c) c.prime.toNat =
      some (some (y c)) := found
  simp only [addend, quotient, inverted, Option.bind_eq_bind, Option.bind_some, Option.getD_some,
    checkedU64_eq, if_pos product]
  exact if_pos summand

/-- **The number** is what the remainders combine to. -/
theorem Decodable.crtDecode_eq {fuel : ℕ} (enough : ∀ c ∈ state.channels, c.modulus < fuel) :
    ∃ x, state.crtDecode fuel = some x ∧ x < (state.channels.map modulus).prod ∧
      ∀ c ∈ state.channels, x % c.modulus = c.remainder := by
  have each : ∀ c ∈ state.channels, ∃ y,
      modInverse fuel (cofactor modulus state.channels c) c.modulus = some (some y) ∧
        y < c.modulus ∧ cofactor modulus state.channels c * y ≡ 1 [MOD c.modulus] :=
    fun c listed => decodable.exists_inverse enough listed
  choose! y found inverse inverts using each
  have total : combine modulus state.channels remainder y < 2 ^ 64 :=
    (ChineseRemainder.combine_le decodable.below inverse).trans_lt decodable.small
  have summed : state.channels.foldlM (fun result ch =>
      (addend fuel (state.channels.map modulus).prod ch).bind fun term =>
        checkedU64 (result + term : ℕ)) 0 =
      some (combine modulus state.channels remainder y) := by
    rw [Loop.foldlM_bind_eq (h := fun result term => checkedU64 (result + term : ℕ))
      fun c listed => decodable.addend_eq listed (found c listed) (inverse c listed),
      foldlM_checkedU64 _ (by norm_num), zero_add]
    exact if_pos total
  refine ⟨combine modulus state.channels remainder y % (state.channels.map modulus).prod, ?_,
    Nat.mod_lt _ decodable.prod_pos, fun c listed => ?_⟩
  · rw [crtDecode, decodable.totalResolution_eq, Option.bind_eq_bind, Option.bind_some, summed,
      Option.bind_some]
    exact if_neg decodable.prod_pos.ne'
  · rw [Nat.mod_mod_of_dvd _ (ChineseRemainder.dvd_prod listed)]
    exact Eq.trans (ChineseRemainder.combine_modEq inverts listed)
      (Nat.mod_eq_of_lt (decodable.below c listed))

end

/-- The values are the remainders of what was decoded. -/
theorem values_eq {state : SAMRState} {x : ℕ}
    (remainders : ∀ c ∈ state.channels, x % c.modulus = c.remainder) :
    state.channels.map remainder =
      (state.channels.map fun c => c.prime).map fun prime => x % prime.toNat := by
  rw [List.map_map]
  exact List.map_congr_left fun c listed => (remainders c listed).symm

/-- **Decoding by remainders.** No operation overflows; the number is below the product of the
moduli and has every remainder, and of the states with these moduli it is the number of this one
alone. -/
theorem crtDecode_spec {state : SAMRState} (decodable : state.Decodable) {fuel : ℕ}
    (enough : ∀ c ∈ state.channels, c.modulus < fuel) :
    ∃ n x, state.totalResolution = some n ∧ state.crtDecode fuel = some x ∧ x < n ∧
      (∀ c ∈ state.channels, x % c.prime.toNat = c.value.toNat) ∧
      ∀ other : SAMRState, other.Decodable →
        (other.channels.map fun c => c.prime) = (state.channels.map fun c => c.prime) →
        other.crtDecode fuel = some x →
        (other.channels.map fun c => c.value) = state.channels.map fun c => c.value := by
  obtain ⟨x, decoded, below, remainders⟩ := decodable.crtDecode_eq enough
  refine ⟨_, x, decodable.totalResolution_eq, decoded, below, remainders,
    fun other otherDecodable same decodes => ?_⟩
  have otherEnough : ∀ c ∈ other.channels, c.modulus < fuel := by
    have primes : ∀ prime ∈ state.channels.map fun c => c.prime, prime.toNat < fuel :=
      List.forall_mem_map.mpr enough
    rw [← same] at primes
    exact List.forall_mem_map.mp primes
  obtain ⟨x', decoded', -, remainders'⟩ := otherDecodable.crtDecode_eq otherEnough
  obtain rfl : x = x' := Option.some.inj (decodes.symm.trans decoded')
  have values : other.channels.map remainder = state.channels.map remainder := by
    rw [values_eq remainders, values_eq remainders', same]
  refine List.map_injective_iff.mpr (fun _ _ => UInt32.toNat_inj.mp) ?_
  rw [List.map_map, List.map_map]
  exact values

/-- A reachable node, fast, of middling precision, with a steady clock. -/
def reachable : SAMRState := ⟨[⟨2, 1, 0⟩, ⟨3, 0, 0⟩, ⟨5, 2, 0⟩, ⟨7, 3, 0⟩]⟩

theorem crtDecode_spec_reachable :
    ∃ n x, reachable.totalResolution = some n ∧ reachable.crtDecode 8 = some x ∧ x < n ∧
      (∀ c ∈ reachable.channels, x % c.prime.toNat = c.value.toNat) ∧
      ∀ other : SAMRState, other.Decodable →
        (other.channels.map fun c => c.prime) = (reachable.channels.map fun c => c.prime) →
        other.crtDecode 8 = some x →
        (other.channels.map fun c => c.value) = reachable.channels.map fun c => c.value :=
  crtDecode_spec ⟨by decide, by decide, by decide, by decide⟩ (by decide)

/-! ### The state of a clock -/

/-- A measurement of a clock. -/
inductive Classification where
  | reachability (reachable : Bool)
  | tier (rttNanos : ℕ)
  | offset (offsetNanos : ℤ) (uncertaintyNanos : ℕ)
  | drift (driftPpb : ℤ)

def apply (state : SAMRState) : Classification → Option SAMRState
  | .reachability reachable => state.classifyReachability reachable
  | .tier rttNanos => state.classifyTier rttNanos
  | .offset offsetNanos uncertaintyNanos => state.classifyOffset offsetNanos uncertaintyNanos
  | .drift driftPpb => state.classifyDrift driftPpb

/-- A state over the channels of a clock. -/
structure OfClock (state : SAMRState) : Prop where
  primes : (state.channels.map fun c => c.prime) = [2, 3, 5, 7]
  below : ∀ c ∈ state.channels, c.value < c.prime

theorem OfClock.default : OfClock clockDefault := ⟨rfl, by decide⟩

/-- A value in the range of its channel is set. -/
theorem OfClock.classify {state : SAMRState} (clock : OfClock state) {index : ℕ}
    {value prime : UInt32} (defect : ℕ) (channel : [2, 3, 5, 7][index]? = some prime)
    (below : value < prime) :
    ∃ state', state.classify index value defect = some state' ∧ OfClock state' := by
  rw [← clock.primes] at channel
  obtain ⟨inside, same⟩ := List.getElem?_eq_some_iff.mp channel
  rw [List.getElem?_map, Option.map_eq_some_iff] at channel
  obtain ⟨c, found, rfl⟩ := channel
  refine ⟨⟨state.channels.set index { c with value := value, defect := defect }⟩, ?_, ?_, ?_⟩
  · simp only [SAMRState.classify, found, PrimeChannel.set, if_pos below, Option.bind_eq_bind,
      Option.bind_some, Option.pure_def]
  · rw [List.map_set, ← clock.primes]
    dsimp only
    rw [← same]
    exact List.set_getElem_self inside
  · intro d listed
    rcases List.mem_or_eq_of_mem_set listed with old | rfl
    · exact clock.below d old
    · exact below

theorem tier_lt (rttNanos : ℕ) : tier rttNanos < 3 := by
  unfold tier
  split_ifs <;> decide

theorem precision_lt (uncertaintyNanos : ℕ) : precision uncertaintyNanos < 5 := by
  unfold precision
  split_ifs <;> decide

theorem driftCategory_lt (driftPpb : ℤ) : driftCategory driftPpb < 7 := by
  unfold driftCategory
  split_ifs <;> decide

/-- **A measurement** is recorded, and leaves a state of a clock. -/
theorem OfClock.apply {state : SAMRState} (clock : OfClock state) (c : Classification) :
    ∃ state', state.apply c = some state' ∧ OfClock state' := by
  cases c with
  | reachability reachable =>
    refine clock.classify 0 rfl ?_
    cases reachable <;> decide
  | tier rttNanos => exact clock.classify 0 rfl (tier_lt rttNanos)
  | offset offsetNanos uncertaintyNanos =>
    exact clock.classify uncertaintyNanos rfl (precision_lt uncertaintyNanos)
  | drift driftPpb => exact clock.classify driftPpb.natAbs rfl (driftCategory_lt driftPpb)

theorem OfClock.moduli {state : SAMRState} (clock : OfClock state) :
    state.channels.map modulus = [2, 3, 5, 7] := by
  have moduli := congrArg (List.map UInt32.toNat) clock.primes
  rwa [List.map_map] at moduli

theorem OfClock.decodable {state : SAMRState} (clock : OfClock state) : Decodable state where
  coprime := by
    have coprime : (state.channels.map modulus).Pairwise Nat.Coprime := by
      rw [clock.moduli]
      decide
    have each := List.pairwise_map.mp coprime
    exact each
  two_le := by
    have two_le : ∀ m ∈ state.channels.map modulus, 2 ≤ m := by
      rw [clock.moduli]
      decide
    exact List.forall_mem_map.mp two_le
  below c listed := UInt32.lt_iff_toNat_lt.mp (clock.below c listed)
  small := by
    rw [clock.moduli]
    decide

/-- **The state of a clock is decoded**, whatever was measured of it. -/
theorem classified_decodes (measured : List Classification) :
    ∃ state x, measured.foldlM apply clockDefault = some state ∧ state.crtDecode 8 = some x ∧
      x < 210 ∧ ∀ c ∈ state.channels, x % c.modulus = c.remainder := by
  have run (measured : List Classification) {start : SAMRState} (clock : OfClock start) :
      ∃ state, measured.foldlM apply start = some state ∧ OfClock state := by
    induction measured generalizing start with
    | nil => exact ⟨start, rfl, clock⟩
    | cons c measured ih =>
      obtain ⟨next, goes, clock'⟩ := clock.apply c
      rw [List.foldlM_cons, goes]
      exact ih clock'
  obtain ⟨state, went, clock⟩ := run measured .default
  have enough : ∀ c ∈ state.channels, c.modulus < 8 := by
    have moduli : ∀ m ∈ state.channels.map modulus, m < 8 := by
      rw [clock.moduli]
      decide
    exact List.forall_mem_map.mp moduli
  obtain ⟨x, decoded, below, remainders⟩ := clock.decodable.crtDecode_eq enough
  rw [clock.moduli] at below
  exact ⟨state, x, went, decoded, below, remainders⟩

end SAMRState

end Rtfsn
