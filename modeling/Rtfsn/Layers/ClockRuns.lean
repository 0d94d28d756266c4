/-
**Surface time is monotone as long as there is time left.**

* `emit_iff`: what one emission does, and that it needs a next epoch and a next nanosecond.
* `Emitted`: the stream after a run of requests. `Emitted.emit` is its step; `height` says where the
  last time comes from: a request, or nothing but the ticks themselves.
* `emitAll_sound_iff`: a run emits a sound stream exactly when every requested time leaves room for
  the ticks after it. At the top of `u64` the next tick has no time to be clamped to.
-/
import Rtfsn.Layers.Layer3
import Rtfsn.Lib.HashChain

namespace Rtfsn

/-- The arguments of one `emit`. -/
structure TickRequest where
  networkTimeNanos : UInt64
  confidenceNanos : UInt64
  epochHash : Bytes32
  vdfProof : Option VdfProof

namespace ClockStream

variable (blake3 : List UInt8 → Bytes32)

/-- The stream after the requests, one by one; `none` when one overflows. -/
def emitAll (stream : ClockStream) (requests : List TickRequest) : Option ClockStream :=
  requests.foldlM (fun stream request => stream.emit blake3 request.networkTimeNanos
    request.confidenceNanos request.epochHash request.vdfProof) stream

/-- What the surface promises of the stream after a run of requests. -/
structure Sound (requests : List TickRequest) (stream : ClockStream) : Prop where
  verifies : stream.verifyAll blake3 = some true
  epochs : ∀ i tick, stream.ticks[i]? = some tick →
    tick.epoch.number.toNat = i ∧ stream.get tick.epoch = some tick
  increasing : stream.ticks.IsChain fun older newer =>
    older.networkTimeNanos < newer.networkTimeNanos
  requested : ∀ i request, requests[i]? = some request → ∃ tick,
    stream.ticks[i + 1]? = some tick ∧ request.networkTimeNanos ≤ tick.networkTimeNanos
  complete : stream.ticks.length = requests.length + 1

/-- Every requested time leaves a nanosecond for each tick after it, and there is an epoch for each
tick. -/
def RoomFor (requests : List TickRequest) : Prop :=
  requests.length < 2 ^ 64 ∧ ∀ i request, requests[i]? = some request →
    request.networkTimeNanos.toNat + (requests.length - 1 - i) < 2 ^ 64

variable {blake3}

/-! ### One emission -/

/-- The tick that `emit` makes after `prev`. -/
def IsNext (blake3 : List UInt8 → Bytes32) (prev : ClockTick) (request : TickRequest)
    (tick : ClockTick) : Prop :=
  tick.epoch.number.toNat = prev.epoch.number.toNat + 1 ∧
    tick.networkTimeNanos.toNat =
      max request.networkTimeNanos.toNat (prev.networkTimeNanos.toNat + 1) ∧
    tick.prevHash = prev.hash blake3 ∧ tick.vdfProof = request.vdfProof ∧
    tick.confidenceNanos = request.confidenceNanos ∧ tick.epochHash = request.epochHash

theorem toNat_max (a b : UInt64) : (max a b).toNat = max a.toNat b.toNat := by
  by_cases ordered : a ≤ b
  · rw [show max a b = b from if_pos ordered, max_eq_right (UInt64.le_iff_toNat_le.mp ordered)]
  · have below := UInt64.le_iff_toNat_le.mp (UInt64.le_of_lt (UInt64.not_le.mp ordered))
    rw [show max a b = a from if_neg ordered, max_eq_left below]

/-- **One emission**: the next tick, when neither its epoch nor its time overflows. -/
theorem emit_iff {stream stream' : ClockStream} {request : TickRequest} :
    stream.emit blake3 request.networkTimeNanos request.confidenceNanos request.epochHash
        request.vdfProof = some stream' ↔
      ∃ tick, IsNext blake3 stream.latest request tick ∧ stream' = stream.push tick := by
  unfold emit Epoch.next
  simp only [Option.bind_eq_bind, Option.bind_eq_some_iff, Option.map_eq_some_iff,
    U64.checkedAdd_eq_some, Option.pure_def, Option.some.injEq]
  constructor
  · rintro ⟨_, ⟨epoch, counted, rfl⟩, floor, raised, rfl⟩
    refine ⟨_, ⟨counted.symm, ?_, rfl, rfl, rfl, rfl⟩, rfl⟩
    rw [toNat_max, ← raised]
    rfl
  · rintro ⟨tick, ⟨counted, raised, link, vdf, confidence, hash⟩, rfl⟩
    have small := tick.networkTimeNanos.toNat_lt
    have room : stream.latest.networkTimeNanos.toNat + 1 < 2 ^ 64 := by omega
    have floor : (UInt64.ofNat (stream.latest.networkTimeNanos.toNat + 1)).toNat =
        stream.latest.networkTimeNanos.toNat + 1 := UInt64.toNat_ofNat_of_lt room
    refine ⟨tick.epoch, ⟨tick.epoch.number, counted.symm, rfl⟩, _, floor.symm, ?_⟩
    have time : max request.networkTimeNanos
        (UInt64.ofNat (stream.latest.networkTimeNanos.toNat + 1)) = tick.networkTimeNanos := by
      rw [← UInt64.toNat_inj, toNat_max, floor, raised]
    rw [time, ← confidence, ← hash, ← vdf, ← link]

variable (blake3) in
theorem exists_isNext {prev : ClockTick} (request : TickRequest)
    (epoch : prev.epoch.number.toNat + 1 < 2 ^ 64)
    (time : prev.networkTimeNanos.toNat + 1 < 2 ^ 64) :
    ∃ tick, IsNext blake3 prev request tick := by
  have below := request.networkTimeNanos.toNat_lt
  refine ⟨⟨⟨UInt64.ofNat (prev.epoch.number.toNat + 1)⟩, UInt64.ofNat
    (max request.networkTimeNanos.toNat (prev.networkTimeNanos.toNat + 1)),
    request.confidenceNanos, request.epochHash, prev.hash blake3, request.vdfProof⟩, ?_, ?_, rfl,
    rfl, rfl, rfl⟩
  · exact UInt64.toNat_ofNat_of_lt epoch
  · exact UInt64.toNat_ofNat_of_lt (max_lt below time)

/-! ### A run of emissions -/

/-- The stream after the requests. -/
structure Emitted (blake3 : List UInt8 → Bytes32) (requests : List TickRequest)
    (stream : ClockStream) : Prop where
  begins : stream.ticks.head? = some ClockTick.genesis
  follows : stream.ticks.IsChain fun older newer =>
    older.Follows blake3 newer ∧ older.networkTimeNanos < newer.networkTimeNanos
  complete : stream.ticks.length = requests.length + 1
  requested : ∀ i request, requests[i]? = some request → ∃ tick,
    stream.ticks[i + 1]? = some tick ∧ request.networkTimeNanos ≤ tick.networkTimeNanos
  height : stream.latest.networkTimeNanos.toNat = requests.length ∨
    ∃ i request, requests[i]? = some request ∧ stream.latest.networkTimeNanos.toNat =
      request.networkTimeNanos.toNat + (requests.length - 1 - i)

theorem Emitted.new : Emitted blake3 [] new where
  begins := rfl
  follows := List.isChain_singleton _
  complete := rfl
  requested i request found := by cases found
  height := Or.inl rfl

variable {requests : List TickRequest} {stream stream' : ClockStream} {request : TickRequest}

theorem Emitted.emit (emitted : Emitted blake3 requests stream)
    (valid : ∀ vdf, request.vdfProof = some vdf → vdf.verify blake3 = true)
    (step : stream.emit blake3 request.networkTimeNanos request.confidenceNanos request.epochHash
      request.vdfProof = some stream') : Emitted blake3 (requests ++ [request]) stream' := by
  obtain ⟨tick, ⟨counted, raised, link, vdf, -, -⟩, rfl⟩ := emit_iff.mp step
  have later : stream.latest.networkTimeNanos < tick.networkTimeNanos := by
    rw [UInt64.lt_iff_toNat_lt, raised]
    omega
  have asked : request.networkTimeNanos ≤ tick.networkTimeNanos := by
    rw [UInt64.le_iff_toNat_le, raised]
    exact le_max_left _ _
  refine ⟨?_, ?_, ?_, ?_, ?_⟩
  · rw [push_ticks, List.head?_append, emitted.begins, Option.some_or]
  · rw [push_ticks]
    refine List.isChain_append.mpr ⟨emitted.follows, List.isChain_singleton _, ?_⟩
    intro older isLast newer isHead
    rw [getLast?_ticks] at isLast
    cases isLast
    cases isHead
    exact ⟨⟨link, counted, UInt64.le_of_lt later, fun v carried => valid v (vdf ▸ carried)⟩, later⟩
  · rw [push_ticks, List.length_append, List.length_append, emitted.complete]
    rfl
  · intro i r found
    rw [push_ticks]
    by_cases before : i < requests.length
    · rw [List.getElem?_append_left before] at found
      obtain ⟨older, stored, served⟩ := emitted.requested i r found
      exact ⟨older, by rw [List.getElem?_append_left (by rw [emitted.complete]; omega), stored],
        served⟩
    · obtain ⟨inside, rfl⟩ := List.getElem?_eq_some_iff.mp found
      rw [List.length_append, List.length_singleton] at inside
      have here : i = requests.length := by omega
      subst here
      refine ⟨tick, ?_, by simpa using asked⟩
      rw [List.getElem?_append_right (by rw [emitted.complete]), emitted.complete, Nat.sub_self]
      rfl
  · rw [push_latest, List.length_append, List.length_singleton, raised]
    by_cases clamped : request.networkTimeNanos.toNat ≤ stream.latest.networkTimeNanos.toNat + 1
    · rw [max_eq_right clamped]
      rcases emitted.height with none | ⟨i, r, found, same⟩
      · exact Or.inl (by rw [none])
      · have inside := (List.getElem?_eq_some_iff.mp found).1
        exact Or.inr ⟨i, r, by rw [List.getElem?_append_left inside, found], by omega⟩
    · rw [max_eq_left (by omega)]
      exact Or.inr ⟨requests.length, request, by simp, by omega⟩

/-- The ticks as a hash chain numbered by epoch. -/
theorem linked_of_follows {ticks : List ClockTick}
    (follows : ticks.IsChain (ClockTick.Follows blake3)) :
    HashChain.Linked (ClockTick.hash blake3) ClockTick.prevHash
      (fun tick => tick.epoch.number.toNat) ticks :=
  follows.imp fun _ _ next => ⟨next.link, next.epoch⟩

theorem Emitted.epoch (emitted : Emitted blake3 requests stream) {i : ℕ} {tick : ClockTick}
    (found : stream.ticks[i]? = some tick) : tick.epoch.number.toNat = i := by
  have count := (linked_of_follows (emitted.follows.imp fun _ _ next => next.1)).index_getElem
    emitted.begins found
  rw [count]
  show 0 + i = i
  rw [Nat.zero_add]

theorem Emitted.latest_epoch (emitted : Emitted blake3 requests stream) :
    stream.latest.epoch.number.toNat = requests.length := by
  have last := stream.getLast?_ticks
  rw [List.getLast?_eq_getElem?, emitted.complete, Nat.add_sub_cancel] at last
  exact emitted.epoch last

theorem Emitted.sound (emitted : Emitted blake3 requests stream) :
    stream.Sound blake3 requests where
  verifies := verifyAll_iff.mpr (emitted.follows.imp fun _ _ next => next.1)
  epochs i tick found := by
    have place := emitted.epoch found
    refine ⟨place, ?_⟩
    rw [ClockStream.get, place, found]
  increasing := emitted.follows.imp fun _ _ next => next.2
  requested := emitted.requested
  complete := emitted.complete

/-! ### Whether a run goes through -/

theorem emitAll_concat (stream : ClockStream) (requests : List TickRequest)
    (request : TickRequest) :
    stream.emitAll blake3 (requests ++ [request]) =
      (stream.emitAll blake3 requests).bind fun stream => stream.emit blake3
        request.networkTimeNanos request.confidenceNanos request.epochHash request.vdfProof := by
  rw [emitAll, List.foldlM_append]
  simp [emitAll]

theorem RoomFor.init (room : RoomFor (requests ++ [request])) : RoomFor requests := by
  obtain ⟨epochs, times⟩ := room
  rw [List.length_append, List.length_singleton] at epochs times
  refine ⟨by omega, fun i r found => ?_⟩
  have inside := (List.getElem?_eq_some_iff.mp found).1
  have kept := times i r (by rw [List.getElem?_append_left inside, found])
  omega

theorem emitAll_of_roomFor (requests : List TickRequest)
    (valid : ∀ request ∈ requests, ∀ vdf, request.vdfProof = some vdf → vdf.verify blake3 = true)
    (room : RoomFor requests) :
    ∃ stream, ClockStream.new.emitAll blake3 requests = some stream ∧
      Emitted blake3 requests stream := by
  induction requests using List.reverseRecOn with
  | nil => exact ⟨ClockStream.new, rfl, .new⟩
  | append_singleton requests request ih =>
    obtain ⟨stream, run, emitted⟩ :=
      ih (fun r member => valid r (List.mem_append_left _ member)) room.init
    obtain ⟨epochs, times⟩ := room
    rw [List.length_append, List.length_singleton] at epochs times
    have time : stream.latest.networkTimeNanos.toNat + 1 < 2 ^ 64 := by
      rcases emitted.height with ticks | ⟨i, r, found, same⟩
      · omega
      · have inside := (List.getElem?_eq_some_iff.mp found).1
        have kept := times i r (by rw [List.getElem?_append_left inside, found])
        omega
    obtain ⟨tick, next⟩ := exists_isNext blake3 request
      (by rw [emitted.latest_epoch]; exact epochs) time
    have step := emit_iff.mpr ⟨tick, next, rfl⟩
    refine ⟨stream.push tick, ?_, emitted.emit (valid request (by simp)) step⟩
    rw [emitAll_concat, run, Option.bind_some, step]

/-- Strictly increasing times leave room between any two ticks. -/
theorem gap_of_increasing {ticks : List ClockTick}
    (increasing : ticks.IsChain fun older newer => older.networkTimeNanos < newer.networkTimeNanos)
    {i : ℕ} (d : ℕ) {older newer : ClockTick} (found : ticks[i]? = some older)
    (found' : ticks[i + d]? = some newer) :
    older.networkTimeNanos.toNat + d ≤ newer.networkTimeNanos.toNat := by
  induction d generalizing newer with
  | zero =>
    rw [Nat.add_zero, found] at found'
    cases found'
    omega
  | succ d ih =>
    obtain ⟨inside, rfl⟩ := List.getElem?_eq_some_iff.mp found'
    have before := ih (List.getElem?_eq_getElem (by omega))
    have step := UInt64.lt_iff_toNat_lt.mp (List.isChain_iff_getElem.mp increasing (i + d) inside)
    show _ ≤ (ticks[i + d + 1]).networkTimeNanos.toNat
    omega

theorem Sound.roomFor (sound : stream.Sound blake3 requests) : RoomFor requests := by
  have last : stream.ticks[requests.length]? = some stream.latest := by
    rw [← stream.getLast?_ticks, List.getLast?_eq_getElem?, sound.complete, Nat.add_sub_cancel]
  refine ⟨?_, fun i request found => ?_⟩
  · rw [← (sound.epochs _ _ last).1]
    exact stream.latest.epoch.number.toNat_lt
  · have inside := (List.getElem?_eq_some_iff.mp found).1
    obtain ⟨tick, stored, served⟩ := sound.requested i request found
    have gap := gap_of_increasing sound.increasing (requests.length - 1 - i) stored
      (by rw [show i + 1 + (requests.length - 1 - i) = requests.length by omega, last])
    have asked := UInt64.le_iff_toNat_le.mp served
    have small := stream.latest.networkTimeNanos.toNat_lt
    omega

/-- **Monotone surface time**: a run of emissions ends in a sound stream exactly when each requested
time leaves room for the ticks that follow. -/
theorem emitAll_sound_iff (requests : List TickRequest)
    (valid : ∀ request ∈ requests, ∀ vdf, request.vdfProof = some vdf → vdf.verify blake3 = true) :
    (∃ stream, ClockStream.new.emitAll blake3 requests = some stream ∧
      stream.Sound blake3 requests) ↔ RoomFor requests := by
  constructor
  · rintro ⟨stream, _, sound⟩
    exact sound.roomFor
  · intro room
    obtain ⟨stream, run, emitted⟩ := emitAll_of_roomFor requests valid room
    exact ⟨stream, run, emitted.sound⟩

/-- Two requests, the second for an earlier time than the first. -/
theorem emitAll_sound_two :
    (∃ stream, ClockStream.new.emitAll firstDigests
        [⟨5, 7, Vector.replicate 32 0, some idleVdf⟩, ⟨3, 7, Vector.replicate 32 0, none⟩] =
          some stream ∧
      stream.Sound firstDigests
        [⟨5, 7, Vector.replicate 32 0, some idleVdf⟩, ⟨3, 7, Vector.replicate 32 0, none⟩]) ↔
    RoomFor [⟨5, 7, Vector.replicate 32 0, some idleVdf⟩, ⟨3, 7, Vector.replicate 32 0, none⟩] := by
  refine emitAll_sound_iff _ fun request asked vdf carried => ?_
  rcases List.mem_cons.mp asked with rfl | second
  · cases carried
    decide
  · rw [List.mem_singleton] at second
    subst second
    cases carried

/-- **A tick at the last nanosecond of `u64` is the last one**: the next emission overflows. -/
theorem emitAll_top_overflows :
    ¬ ∀ (blake3 : List UInt8 → Bytes32) (requests : List TickRequest),
      (∀ request ∈ requests, ∀ vdf, request.vdfProof = some vdf → vdf.verify blake3 = true) →
      ∃ stream, ClockStream.new.emitAll blake3 requests = some stream ∧
        stream.Sound blake3 requests := by
  intro sound
  obtain ⟨stream, run, _⟩ := sound firstDigests
    [⟨UInt64.ofNat maxU64, 7, Vector.replicate 32 0, none⟩, ⟨0, 7, Vector.replicate 32 0, none⟩]
    (by simp)
  have overflows : ClockStream.new.emitAll firstDigests
      [⟨UInt64.ofNat maxU64, 7, Vector.replicate 32 0, none⟩, ⟨0, 7, Vector.replicate 32 0, none⟩] =
        none := rfl
  rw [overflows] at run
  cases run

end ClockStream

end Rtfsn
