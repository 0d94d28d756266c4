/-
**The packet header and its 48 bytes determine each other.**

* `encode_eq`: the writes of `encode` lay the fields end to end, so that they neither overlap nor
  leave a gap.
* `decode_encode`: what was written is read back, whatever follows it.
* `encode_decode`: the fields read, written again, are the bytes they were read from.
* `packet_codec`: both, with when a packet is refused.
-/
import Rtfsn.Sync.Ntp

namespace Rtfsn.Ntp.Packet

open Bytes

/-! ### Fields -/

/-- The first byte: leap, version and mode. -/
def firstByte (leap version mode : UInt8) : UInt8 :=
  (leap &&& 3) <<< 6 ||| (version &&& 7) <<< 3 ||| (mode &&& 7)

theorem firstByte_fields {leap version mode : UInt8} (smallLeap : leap < 4)
    (smallVersion : version < 8) (smallMode : mode < 8) :
    firstByte leap version mode >>> 6 = leap ∧
      (firstByte leap version mode >>> 3) &&& 7 = version ∧
      firstByte leap version mode &&& 7 = mode := by
  have every : ∀ (l : Fin 4) (v m : Fin 8),
      firstByte (UInt8.ofNat l) (UInt8.ofNat v) (UInt8.ofNat m) >>> 6 = UInt8.ofNat l ∧
        (firstByte (UInt8.ofNat l) (UInt8.ofNat v) (UInt8.ofNat m) >>> 3) &&& 7 = UInt8.ofNat v ∧
        firstByte (UInt8.ofNat l) (UInt8.ofNat v) (UInt8.ofNat m) &&& 7 = UInt8.ofNat m := by
    decide +kernel
  have chosen := every ⟨leap.toNat, UInt8.lt_iff_toNat_lt.mp smallLeap⟩
    ⟨version.toNat, UInt8.lt_iff_toNat_lt.mp smallVersion⟩
    ⟨mode.toNat, UInt8.lt_iff_toNat_lt.mp smallMode⟩
  simpa only [UInt8.ofNat_toNat] using chosen

theorem firstByte_of_fields (b : UInt8) :
    firstByte (b >>> 6) ((b >>> 3) &&& 7) (b &&& 7) = b := by
  have every : ∀ i : Fin 256, firstByte (UInt8.ofNat i >>> 6) ((UInt8.ofNat i >>> 3) &&& 7)
      (UInt8.ofNat i &&& 7) = UInt8.ofNat i := by
    decide +kernel
  simpa only [UInt8.ofNat_toNat] using every ⟨b.toNat, b.toNat_lt⟩

theorem u32_read (x : UInt32) : UInt32.ofNat (beValue (beBytes 4 x.toNat)) = x := by
  rw [beValue_beBytes x.toNat_lt, UInt32.ofNat_toNat]

theorem u64_read (x : UInt64) : UInt64.ofNat (beValue (beBytes 8 x.toNat)) = x := by
  rw [beValue_beBytes x.toNat_lt, UInt64.ofNat_toNat]

theorem u32_written {bytes : List UInt8} (width : bytes.length = 4) :
    beBytes 4 (UInt32.ofNat (beValue bytes)).toNat = bytes := by
  have below := beValue_lt bytes
  rw [width] at below
  rw [UInt32.toNat_ofNat', Nat.mod_eq_of_lt (by omega), ← width, beBytes_beValue]

theorem u64_written {bytes : List UInt8} (width : bytes.length = 8) :
    beBytes 8 (UInt64.ofNat (beValue bytes)).toNat = bytes := by
  have below := beValue_lt bytes
  rw [width] at below
  rw [UInt64.toNat_ofNat', Nat.mod_eq_of_lt (by omega), ← width, beBytes_beValue]

/-! ### The layout -/

/-- The fields end to end. -/
def laidOut (p : Packet) : List UInt8 :=
  [firstByte p.leap p.version p.mode] ++ [p.stratum] ++ [p.poll.toUInt8] ++ [p.precision.toUInt8] ++
    beBytes 4 p.rootDelay.toNat ++ beBytes 4 p.rootDispersion.toNat ++ p.referenceId.toList ++
    beBytes 8 p.referenceTs.toNat ++ beBytes 8 p.originTs.toNat ++ beBytes 8 p.receiveTs.toNat ++
    beBytes 8 p.transmitTs.toNat

/-- **No field overlaps another, and none is left blank.** -/
theorem encode_eq (p : Packet) : p.encode = p.laidOut := by
  unfold encode laidOut packetLen
  dsimp only
  rw [← List.nil_append (List.replicate 48 0),
    overwrite_next (i := 0) (n := 48) (m := 47) rfl rfl,
    overwrite_next (i := 1) (n := 47) (m := 46) rfl rfl,
    overwrite_next (i := 2) (n := 46) (m := 45) rfl rfl,
    overwrite_next (i := 3) (n := 45) (m := 44) rfl rfl,
    overwrite_next (i := 4) (n := 44) (m := 40) (by simp) (by simp),
    overwrite_next (i := 8) (n := 40) (m := 36) (by simp) (by simp),
    overwrite_next (i := 12) (n := 36) (m := 32) (by simp) (by simp),
    overwrite_next (i := 16) (n := 32) (m := 24) (by simp) (by simp),
    overwrite_next (i := 24) (n := 24) (m := 16) (by simp) (by simp),
    overwrite_next (i := 32) (n := 16) (m := 8) (by simp) (by simp),
    overwrite_next (i := 40) (n := 8) (m := 0) (by simp) (by simp),
    List.replicate_zero, List.append_nil, List.nil_append]
  rfl

theorem length_encode (p : Packet) : p.encode.length = packetLen := by
  rw [encode_eq]
  simp [laidOut, packetLen]

/-- **What was written is read back.** -/
theorem decode_encode (p : Packet) (extra : List UInt8) (smallLeap : p.leap < 4)
    (smallVersion : p.version < 8) (smallMode : p.mode < 8) :
    decode (p.encode ++ extra) = .ok p := by
  obtain ⟨leap, version, mode⟩ := firstByte_fields smallLeap smallVersion smallMode
  have long : ¬ (p.laidOut ++ extra).length < packetLen := by
    rw [List.length_append, ← encode_eq, length_encode]
    omega
  obtain ⟨rest, head⟩ : ∃ rest, p.laidOut ++ extra = firstByte p.leap p.version p.mode ::
      p.stratum :: p.poll.toUInt8 :: p.precision.toUInt8 :: rest := ⟨_, rfl⟩
  have rootDelay : slice (p.laidOut ++ extra) 4 8 = beBytes 4 p.rootDelay.toNat := by
    unfold laidOut
    simp (disch := simp) only [slice_append_left, slice_append_right]
  have rootDispersion : slice (p.laidOut ++ extra) 8 12 = beBytes 4 p.rootDispersion.toNat := by
    unfold laidOut
    simp (disch := simp) only [slice_append_left, slice_append_right]
  have referenceId : slice (p.laidOut ++ extra) 12 16 = p.referenceId.toList := by
    unfold laidOut
    simp (disch := simp) only [slice_append_left, slice_append_right]
  have referenceTs : slice (p.laidOut ++ extra) 16 24 = beBytes 8 p.referenceTs.toNat := by
    unfold laidOut
    simp (disch := simp) only [slice_append_left, slice_append_right]
  have originTs : slice (p.laidOut ++ extra) 24 32 = beBytes 8 p.originTs.toNat := by
    unfold laidOut
    simp (disch := simp) only [slice_append_left, slice_append_right]
  have receiveTs : slice (p.laidOut ++ extra) 32 40 = beBytes 8 p.receiveTs.toNat := by
    unfold laidOut
    simp (disch := simp) only [slice_append_left, slice_append_right]
  have transmitTs : slice (p.laidOut ++ extra) 40 48 = beBytes 8 p.transmitTs.toNat := by
    unfold laidOut
    simp (disch := simp) only [slice_append_left, slice_append_right]
  rw [encode_eq]
  unfold decode
  rw [dif_neg long]
  simp only [rootDelay, rootDispersion, referenceId, referenceTs, originTs, receiveTs, transmitTs,
    u32_read, u64_read]
  simp only [head, List.getElem_cons_zero, List.getElem_cons_succ, leap, version, mode,
    Int8.toInt8_toUInt8]
  rfl

/-- The bytes of a header, field by field. -/
theorem take_eq_slices (b : List UInt8) : b.take packetLen =
    slice b 0 1 ++ slice b 1 2 ++ slice b 2 3 ++ slice b 3 4 ++ slice b 4 8 ++ slice b 8 12 ++
      slice b 12 16 ++ slice b 16 24 ++ slice b 24 32 ++ slice b 32 40 ++ slice b 40 48 := by
  rw [slice_append_slice b, slice_append_slice b, slice_append_slice b, slice_append_slice b,
    slice_append_slice b, slice_append_slice b, slice_append_slice b, slice_append_slice b,
    slice_append_slice b, slice_append_slice b]
  · rfl
  all_goals norm_num

/-- **What was read is written back.** -/
theorem encode_decode {b : List UInt8} {p : Packet} (read : decode b = .ok p) :
    p.encode = b.take packetLen := by
  unfold decode at read
  by_cases short : b.length < packetLen
  · rw [dif_pos short] at read
    cases read
  · have long : 48 ≤ b.length := not_lt.mp short
    rw [dif_neg short] at read
    cases read
    have byte (i : ℕ) (inside : i < 48) : slice b i (i + 1) = [b[i]] := by
      unfold slice
      rw [List.drop_take, List.drop_eq_getElem_cons (by omega), Nat.add_sub_cancel_left,
        List.take_succ_cons, List.take_zero]
    rw [encode_eq, take_eq_slices, byte 0 (by omega), byte 1 (by omega), byte 2 (by omega),
      byte 3 (by omega)]
    unfold laidOut
    simp only [firstByte_of_fields, UInt8.toUInt8_toInt8]
    rw [u32_written (by simp; omega), u32_written (by simp; omega), u64_written (by simp; omega),
      u64_written (by simp; omega), u64_written (by simp; omega), u64_written (by simp; omega)]
    rfl

theorem decode_error_iff (b : List UInt8) : (∃ e, decode b = .error e) ↔ b.length < packetLen := by
  unfold decode
  by_cases short : b.length < packetLen
  · simp [short]
  · simp [short]

/-- **The header codec**: every packet whose bit fields fit is read back from its bytes, whatever
follows them; bytes are refused exactly when they are too few; and otherwise the packet read has
them as its bytes. -/
theorem packet_codec :
    (∀ (p : Packet) (extra : List UInt8), p.leap < 4 → p.version < 8 → p.mode < 8 →
      decode (p.encode ++ extra) = .ok p) ∧
    (∀ b : List UInt8, (∃ e, decode b = .error e) ↔ b.length < packetLen) ∧
    (∀ (b : List UInt8) (p : Packet), decode b = .ok p → p.encode = b.take packetLen) :=
  ⟨fun p extra => decode_encode p extra, decode_error_iff, fun _ _ => encode_decode⟩

/-- A client's request, followed by one more byte. -/
theorem packet_codec_request :
    decode (request 77 ++ [1]) =
      .ok ⟨0, 4, 3, 0, 4, -20, 0, 0, Vector.replicate 4 0, 0, 0, 0, 77⟩ :=
  packet_codec.1 ⟨0, 4, 3, 0, 4, -20, 0, 0, Vector.replicate 4 0, 0, 0, 0, 77⟩ [1] (by decide)
    (by decide) (by decide)

end Rtfsn.Ntp.Packet
