/-
**NTP timestamps round-trip to the nanosecond.**

* `toNat_toNtp`: the timestamp is the second within its era and the truncated fraction.
* `fraction_round_trip`: truncating to `2⁻³² s` and rounding back loses nothing: the error of the
  one is less than half a nanosecond of the other.
* `exists_fracNs`: a timestamp's fraction in nanoseconds.
* `nearestEra_eq`: of the three eras tried, the nearest is the one within half an era of the clock.
* `fromNtp_toNtp`: so a timestamp read within `2³¹ s` of itself is read exactly, with no overflow.
-/
import Rtfsn.Sync.Ntp

namespace Rtfsn.Ntp

/-! ### Writing -/

theorem toNat_secs (unixNs : UInt64) : (unixNs / 1000000000).toNat = unixNs.toNat / 10 ^ 9 := by
  rw [UInt64.toNat_div]
  rfl

theorem toNat_frac (unixNs : UInt64) :
    (((unixNs % 1000000000) <<< 32) / 1000000000).toNat =
      unixNs.toNat % 10 ^ 9 * 2 ^ 32 / 10 ^ 9 := by
  have small : unixNs.toNat % 10 ^ 9 < 10 ^ 9 := Nat.mod_lt _ (by norm_num)
  rw [UInt64.toNat_div, UInt64.toNat_shiftLeft, UInt64.toNat_mod]
  show (unixNs.toNat % 10 ^ 9) <<< 32 % 2 ^ 64 / 10 ^ 9 = _
  rw [Nat.shiftLeft_eq, Nat.mod_eq_of_lt (by omega)]

/-- **The timestamp of an instant.** -/
theorem toNat_toNtp (unixNs : UInt64) : ∃ ts, toNtp unixNs = some ts ∧
    ts.toNat = (unixNs.toNat / 10 ^ 9 + 2208988800) % 2 ^ 32 * 2 ^ 32 +
      unixNs.toNat % 10 ^ 9 * 2 ^ 32 / 10 ^ 9 := by
  have below := unixNs.toNat_lt
  have fits : (unixNs / 1000000000).toNat + unixToNtpS.toNat < 2 ^ 64 := by
    rw [toNat_secs, show unixToNtpS.toNat = 2208988800 from rfl]
    omega
  obtain ⟨secs, added, value⟩ := U64.exists_checkedAdd fits
  rw [toNat_secs, show unixToNtpS.toNat = 2208988800 from rfl] at value
  refine ⟨_, by unfold toNtp; rw [added]; rfl, ?_⟩
  rw [UInt64.toNat_or, UInt64.toNat_shiftLeft, UInt64.toNat_mod, toNat_frac, value]
  show ((unixNs.toNat / 10 ^ 9 + 2208988800) % 2 ^ 32) <<< 32 % 2 ^ 64 ||| _ = _
  have fraction : unixNs.toNat % 10 ^ 9 * 2 ^ 32 / 10 ^ 9 < 2 ^ 32 := by omega
  have inWord : ((unixNs.toNat / 10 ^ 9 + 2208988800) % 2 ^ 32) <<< 32 < 2 ^ 64 := by
    rw [Nat.shiftLeft_eq]
    omega
  rw [Nat.mod_eq_of_lt inWord, ← Nat.shiftLeft_add_eq_or_of_lt fraction, Nat.shiftLeft_eq]

/-! ### Reading -/

/-- The nearest multiple of `10⁹ / 2³²` below, rounded, is the nanosecond it came from. -/
theorem fraction_round_trip (ns : ℕ) :
    (ns * 2 ^ 32 / 10 ^ 9 * 10 ^ 9 + 2 ^ 31) / 2 ^ 32 = ns := by
  omega

/-- **The fraction of any timestamp** is rounded to nanoseconds without overflow. -/
theorem exists_fracNs (ts : UInt64) : ∃ scaled rounded,
    U64.checkedMul (ts &&& 0xFFFFFFFF) 1000000000 = some scaled ∧
    U64.checkedAdd scaled ((1 : UInt64) <<< 31) = some rounded ∧
    (rounded >>> 32).toNat = (ts.toNat % 2 ^ 32 * 10 ^ 9 + 2 ^ 31) / 2 ^ 32 := by
  have billion : (1000000000 : UInt64).toNat = 10 ^ 9 := rfl
  have half : ((1 : UInt64) <<< 31).toNat = 2 ^ 31 := rfl
  have frac : (ts &&& 0xFFFFFFFF).toNat = ts.toNat % 2 ^ 32 := by
    rw [UInt64.toNat_and]
    exact Nat.and_two_pow_sub_one_eq_mod _ 32
  obtain ⟨scaled, multiplied, scaledValue⟩ := U64.exists_checkedMul
    (a := ts &&& 0xFFFFFFFF) (b := 1000000000) (by rw [frac, billion]; omega)
  rw [frac, billion] at scaledValue
  obtain ⟨rounded, added, roundedValue⟩ := U64.exists_checkedAdd
    (a := scaled) (b := (1 : UInt64) <<< 31) (by rw [scaledValue, half]; omega)
  refine ⟨scaled, rounded, multiplied, added, ?_⟩
  rw [UInt64.toNat_shiftRight, roundedValue, scaledValue, half]
  exact Nat.shiftRight_eq_div_pow _ 32

theorem toNat_eraS : eraS.toNat = 2 ^ 32 := rfl

/-- The candidate of an era. -/
theorem exists_inEra (secs era : UInt64) (below : secs.toNat < 2 ^ 32)
    (small : era.toNat < 2 ^ 20) :
    ∃ s, inEra secs era = some s ∧ s.toNat = era.toNat * 2 ^ 32 + secs.toNat := by
  obtain ⟨product, multiplied, value⟩ := U64.exists_checkedMul (a := era) (b := eraS)
    (by rw [toNat_eraS]; omega)
  rw [toNat_eraS] at value
  obtain ⟨s, added, sum⟩ := U64.exists_checkedAdd (a := product) (b := secs) (by omega)
  refine ⟨s, ?_, by rw [sum, value]⟩
  unfold inEra
  rw [multiplied]
  exact added

/-- **The nearest era** is that of the instant within half an era. -/
theorem nearestEra_eq (secs nearNtp : UInt64) {instant : ℕ}
    (offset : secs.toNat = instant % 2 ^ 32) (after : instant < nearNtp.toNat + 2 ^ 31)
    (before : nearNtp.toNat < instant + 2 ^ 31) (small : nearNtp.toNat < 2 ^ 40) :
    ∃ best, nearestEra secs nearNtp = some best ∧ best.toNat = instant := by
  have below : secs.toNat < 2 ^ 32 := by omega
  have era : (nearNtp / eraS).toNat = nearNtp.toNat / 2 ^ 32 := by
    rw [UInt64.toNat_div, toNat_eraS]
  have one : (1 : UInt64).toNat = 1 := rfl
  have previous := U64.toNat_saturatingSub (nearNtp / eraS) 1
  obtain ⟨next, counted, nextEra⟩ := U64.exists_checkedAdd (a := nearNtp / eraS) (b := 1)
    (by rw [era, one]; omega)
  obtain ⟨s, inBefore, value⟩ :=
    exists_inEra secs (U64.saturatingSub (nearNtp / eraS) 1) below (by omega)
  obtain ⟨s', inHere, value'⟩ := exists_inEra secs (nearNtp / eraS) below (by omega)
  obtain ⟨s'', inAfter, value''⟩ := exists_inEra secs next below (by omega)
  rw [one] at nextEra previous
  rw [nextEra] at value''
  rw [previous] at value
  rw [era] at value value' value''
  refine ⟨minByKey (fun s => U64.absDiff s nearNtp) s [s', s''], ?_, ?_⟩
  · unfold nearestEra
    refine Option.bind_eq_some_iff.mpr ⟨s, inBefore, ?_⟩
    refine Option.bind_eq_some_iff.mpr ⟨s', inHere, ?_⟩
    refine Option.bind_eq_some_iff.mpr ⟨next, counted, ?_⟩
    exact Option.bind_eq_some_iff.mpr ⟨s'', inAfter, rfl⟩
  · have apart := U64.toNat_absDiff s nearNtp
    have apart' := U64.toNat_absDiff s' nearNtp
    have apart'' := U64.toNat_absDiff s'' nearNtp
    unfold minByKey minByKey minByKey
    simp only [UInt64.lt_iff_toNat_lt]
    by_cases here : (U64.absDiff s' nearNtp).toNat < (U64.absDiff s nearNtp).toNat
    · rw [if_pos here]
      by_cases last : (U64.absDiff s'' nearNtp).toNat < (U64.absDiff s' nearNtp).toNat
      · rw [if_pos last]
        omega
      · rw [if_neg last]
        omega
    · rw [if_neg here]
      by_cases last : (U64.absDiff s'' nearNtp).toNat < (U64.absDiff s nearNtp).toNat
      · rw [if_pos last]
        omega
      · rw [if_neg last]
        omega

/-- **Wall time survives the wire**: read near a clock whose whole seconds are within `2³¹` of the
instant's, a timestamp gives back the instant. -/
theorem fromNtp_toNtp (unixNs near : UInt64)
    (after : unixNs.toNat / 10 ^ 9 < near.toNat / 10 ^ 9 + 2 ^ 31)
    (before : near.toNat / 10 ^ 9 < unixNs.toNat / 10 ^ 9 + 2 ^ 31) :
    (do fromNtp (← toNtp unixNs) near) = some unixNs := by
  have below := unixNs.toNat_lt
  have nearBelow := near.toNat_lt
  have toNtpS : unixToNtpS.toNat = 2208988800 := rfl
  have billion : (1000000000 : UInt64).toNat = 10 ^ 9 := rfl
  obtain ⟨ts, written, value⟩ := toNat_toNtp unixNs
  -- The two halves of the word.
  have secs : (ts >>> 32).toNat = (unixNs.toNat / 10 ^ 9 + 2208988800) % 2 ^ 32 := by
    rw [UInt64.toNat_shiftRight, value]
    show _ >>> 32 = _
    rw [Nat.shiftRight_eq_div_pow]
    omega
  have frac : ts.toNat % 2 ^ 32 = unixNs.toNat % 10 ^ 9 * 2 ^ 32 / 10 ^ 9 := by
    rw [value]
    omega
  obtain ⟨scaled, rounded, multiplied, added, fracNs⟩ := exists_fracNs ts
  rw [frac, fraction_round_trip] at fracNs
  obtain ⟨nearNtp, nearAdded, nearValue⟩ := U64.exists_checkedAdd
    (a := near / 1000000000) (b := unixToNtpS) (by rw [toNat_secs, toNtpS]; omega)
  rw [toNat_secs, toNtpS] at nearValue
  obtain ⟨best, found, bestValue⟩ :=
    nearestEra_eq (ts >>> 32) nearNtp secs (by omega) (by omega) (by omega)
  have unixSecs : (U64.saturatingSub best unixToNtpS).toNat = unixNs.toNat / 10 ^ 9 := by
    rw [U64.toNat_saturatingSub, bestValue, toNtpS]
    omega
  obtain ⟨whole, wholeMultiplied, wholeValue⟩ := U64.exists_checkedMul
    (a := U64.saturatingSub best unixToNtpS) (b := 1000000000) (by rw [unixSecs, billion]; omega)
  have total : U64.checkedAdd whole (rounded >>> 32) = some unixNs := by
    rw [U64.checkedAdd_eq_some, wholeValue, unixSecs, fracNs, billion]
    omega
  refine Option.bind_eq_some_iff.mpr ⟨ts, written, ?_⟩
  unfold fromNtp
  refine Option.bind_eq_some_iff.mpr ⟨scaled, multiplied, ?_⟩
  refine Option.bind_eq_some_iff.mpr ⟨rounded, added, ?_⟩
  refine Option.bind_eq_some_iff.mpr ⟨nearNtp, nearAdded, ?_⟩
  refine Option.bind_eq_some_iff.mpr ⟨best, found, ?_⟩
  exact Option.bind_eq_some_iff.mpr ⟨whole, wholeMultiplied, total⟩

/-- The first second of era 1, read by a clock a minute before it. -/
theorem fromNtp_toNtp_era1 :
    (do fromNtp (← toNtp 2085978496000000000) 2085978436000000000) = some 2085978496000000000 :=
  fromNtp_toNtp 2085978496000000000 2085978436000000000 (by decide) (by decide)

end Rtfsn.Ntp
