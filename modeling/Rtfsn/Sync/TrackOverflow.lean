/-
**Where `PeerTrack::observe` can leave an integer type.**

`observeChecked` is `observe` in a build with overflow checks: the same stages, with `t4 - t1`,
`t1 + (t4 - t1) / 2`, `rtt - floor`, `mid - last_ns` and `offset_nanos - base_offset_ns` as checked
operations, and `none` for the panic.

* `observeChecked_eq`: from a track that was reached, one exchange of `u64` stamps goes through
  exactly when `OffsetFits`, and then does what `observe` does; the other four operations are in
  range whatever the exchange.
* `run_checked_iff`: a run goes through exactly when every exchange of it meets the condition.
* `run_overflow`: two exchanges within the warm-up that do not.
-/
import Rtfsn.Sync.TrackRestart
import Rtfsn.Sync.TrackRuns

set_option linter.unusedSectionVars false

namespace Rtfsn

variable {F : Type} [F64 F]

/-- The stamps are `u64` values. -/
structure Exchange.Stamps (e : Exchange) : Prop where
  t1 : e.t1 ≤ maxU64
  t2 : e.t2 ≤ maxU64
  t3 : e.t3 ≤ maxU64
  t4 : e.t4 ≤ maxU64

namespace PeerTrack

/-! ### The checked track -/

/-- The step check, after the subtraction for its `dt`. -/
def checkStepChecked (t : PeerTrack F) (mid rtt : ℕ) (excess : F) (twist : TwistIndex) :
    Option (Except (ℤ × PeerTrack F) (PeerTrack F × Bool)) :=
  if t.cfg.warmup ≤ t.accepted then do
    let _since ← checkedU64 (mid - t.lastNs : ℤ)
    return t.checkStep mid rtt excess twist
  else return t.checkStep mid rtt excess twist

/-- The absorption: a first exchange subtracts nothing. -/
def absorbChecked (t : PeerTrack F) (mid rtt : ℕ) (excess : F) (twist : TwistIndex) :
    Option (PeerTrack F) :=
  if t.accepted = 0 then return t.absorb mid rtt excess twist
  else do
    let _since ← checkedU64 (mid - t.lastNs : ℤ)
    let _measured ← checkedI64 (twist.offsetNanos - t.baseOffsetNs)
    return t.absorb mid rtt excess twist

def judgeChecked (t : PeerTrack F) (e : Exchange) (mid : ℕ) :
    Option (Observation F × PeerTrack F) := do
  let rtt := e.rttU64
  let beyond ← checkedU64 (rtt - t.floor rtt : ℤ)
  let excess : F := F64.ofNat beyond
  if t.cfg.warmup ≤ t.accepted ∧ F64.lt (t.popcornLimit rtt) excess then
    return (.rejected (.popcorn (F64.toU64 excess)), t.countRejected)
  else
    let twist := TwistIndex.fromExchange e
    match ← t.checkStepChecked mid rtt excess twist with
    | .error (jump, t) => return (.rejected (.step jump), t.countRejected)
    | .ok (t, restarted) =>
      let t ← t.absorbChecked mid rtt excess twist
      let relation ← t.relation
      return (.accepted twist relation restarted, t)

/-- `observe` with its integer operations checked. -/
def observeChecked (t : PeerTrack F) (e : Exchange) : Option (Observation F × PeerTrack F) :=
  if e.rtt ≤ 0 ∨ e.t4 < e.t1 then some (.rejected .nonPositiveRtt, t.countRejected)
  else do
    let held ← checkedU64 (e.t4 - e.t1 : ℤ)
    let mid ← checkedU64 (e.t1 + held / 2 : ℤ)
    if 0 < t.accepted ∧ mid ≤ t.lastNs then return (.rejected .outOfOrder, t.countRejected)
    else (t.pushRtt e.rttU64).judgeChecked e mid

/-- A run of exchanges with checked operations. -/
def runChecked : PeerTrack F → List Exchange → Option (List (Observation F) × PeerTrack F) :=
  Machine.run observeChecked

/-! ### The condition -/

/-- Unless the exchange is turned away or starts the track over, its offset less the one the track
is based on is an `i64`. -/
def OffsetFits (t : PeerTrack F) (e : Exchange) : Prop :=
  t.Quiet e → ¬ t.Stepped e → 0 < t.accepted →
    IsI64 (wrapI64 (Int.tdiv ((e.t2 - e.t1 : ℤ) + (e.t3 - e.t4)) 2) - t.baseOffsetNs)

/-- What the other four operations rest on: an empty track has seen no instant. -/
def Fresh (t : PeerTrack F) : Prop := t.accepted = 0 → t.lastNs = 0

theorem fresh_outcome {t t' : PeerTrack F} {e : Exchange} {o : Observation F} (fresh : t.Fresh)
    (outcome : Outcome t e o t') : t'.Fresh := by
  cases outcome with
  | nonPositive _ => exact fresh
  | outOfOrder _ _ => exact fresh
  | popcorn _ _ => exact fresh
  | step _ _ _ => exact fresh
  | settled _ _ _ _ => exact fun none => absurd none (by simp [absorbed])
  | restarted _ _ _ _ _ => exact fun none => absurd none (by simp [absorbed])

/-- An exchange that gets past the first two checks is no older than the last one absorbed. -/
theorem lastNs_le_mid {t : PeerTrack F} {e : Exchange} (fresh : t.Fresh) (notStale : ¬ t.Stale e) :
    t.lastNs ≤ e.mid := by
  unfold Stale at notStale
  by_cases none : t.accepted = 0
  · rw [fresh none]
    exact Nat.zero_le _
  · omega

theorem mid_le {e : Exchange} (stamps : e.Stamps) (ordered : e.t1 ≤ e.t4) : e.mid ≤ maxU64 := by
  have top := stamps.t4
  unfold Exchange.mid
  omega

/-! ### One exchange -/

section Step

variable {t : PeerTrack F} {e : Exchange}

theorem checkStepChecked_eq (newer : t.lastNs ≤ e.mid) (top : e.mid ≤ maxU64) (excess : F) :
    (t.pushRtt e.rttU64).checkStepChecked e.mid e.rttU64 excess (.fromExchange e) =
      some ((t.pushRtt e.rttU64).checkStep e.mid e.rttU64 excess (.fromExchange e)) := by
  have since : checkedU64 (e.mid - (t.pushRtt e.rttU64).lastNs : ℤ) = some (e.mid - t.lastNs) :=
    checkedU64_sub newer top
  unfold checkStepChecked
  rw [since]
  split_ifs <;> rfl

/-- A track that holds an exchange absorbs another when the offsets' difference fits. -/
theorem absorbChecked_fits {u : PeerTrack F} (newer : u.lastNs ≤ e.mid) (top : e.mid ≤ maxU64)
    (excess : F)
    (fits : 0 < u.accepted → IsI64 ((TwistIndex.fromExchange e).offsetNanos - u.baseOffsetNs)) :
    u.absorbChecked e.mid e.rttU64 excess (.fromExchange e) =
      some (u.absorb e.mid e.rttU64 excess (.fromExchange e)) := by
  unfold absorbChecked
  by_cases none : u.accepted = 0
  · exact if_pos none
  · rw [if_neg none, checkedU64_sub newer top, checkedI64, if_pos (fits (Nat.pos_of_ne_zero none))]
    rfl

theorem absorbChecked_overflow {u : PeerTrack F} (newer : u.lastNs ≤ e.mid)
    (top : e.mid ≤ maxU64) (excess : F) (some : 0 < u.accepted)
    (fails : ¬ IsI64 ((TwistIndex.fromExchange e).offsetNanos - u.baseOffsetNs)) :
    u.absorbChecked e.mid e.rttU64 excess (.fromExchange e) = none := by
  rw [absorbChecked, if_neg some.ne', checkedU64_sub newer top, checkedI64, if_neg fails]
  rfl

/-- The first two checks do not subtract below zero, and the midpoint is a `u64`. -/
theorem observeChecked_positive (stamps : e.Stamps) (positive : e.Positive) :
    t.observeChecked e =
      if 0 < t.accepted ∧ e.mid ≤ t.lastNs then some (.rejected .outOfOrder, t.countRejected)
      else (t.pushRtt e.rttU64).judgeChecked e e.mid := by
  have ordered : e.t1 ≤ e.t4 := Nat.le_of_not_lt (not_or.mp positive).2
  have mid : checkedU64 (e.t1 + (e.t4 - e.t1 : ℕ) / 2 : ℤ) = some e.mid := by
    rw [← checkedU64_natCast (mid_le stamps ordered), Exchange.mid]
    push_cast
    rfl
  rw [observeChecked, if_neg positive, checkedU64_sub ordered stamps.t4]
  dsimp only [Option.bind_eq_bind, Option.bind_some]
  rw [mid]
  rfl

/-- A round trip in the window is never below its floor. -/
theorem checkedU64_excess (t : PeerTrack F) (e : Exchange) :
    checkedU64 (e.rttU64 - (t.pushRtt e.rttU64).floor e.rttU64 : ℤ) =
      some (e.rttU64 - (t.pushRtt e.rttU64).floor e.rttU64) := by
  obtain ⟨floor, found, below⟩ := floor_le_pushed t e.rttU64
  refine checkedU64_sub ?_ (wrapU64_le _)
  rwa [PeerTrack.floor, found, Option.getD_some]

theorem judgeChecked_popcorn (popcorn : t.Popcorn e) (mid : ℕ) :
    (t.pushRtt e.rttU64).judgeChecked e mid =
      some (.rejected (.popcorn (F64.toU64 (t.judgedExcess e))),
        (t.pushRtt e.rttU64).countRejected) := by
  rw [judgeChecked, checkedU64_excess]
  exact if_pos popcorn

/-- An exchange past the popcorn filter, from where the step check leaves it. -/
theorem observeChecked_quiet (fresh : t.Fresh) (stamps : e.Stamps) (quiet : t.Quiet e) :
    t.observeChecked e =
      match (t.pushRtt e.rttU64).checkStep e.mid e.rttU64 (t.judgedExcess e) (.fromExchange e) with
      | .error (jump, t) => some (.rejected (.step jump), t.countRejected)
      | .ok (u, restarted) => do
        let u ← u.absorbChecked e.mid e.rttU64 (t.judgedExcess e) (.fromExchange e)
        let relation ← u.relation
        return (.accepted (.fromExchange e) relation restarted, u) := by
  have ordered : e.t1 ≤ e.t4 := Nat.le_of_not_lt (not_or.mp quiet.positive).2
  rw [observeChecked_positive stamps quiet.positive]
  refine (if_neg quiet.fresh).trans ?_
  rw [judgeChecked, checkedU64_excess]
  refine (if_neg quiet.calm).trans ?_
  dsimp only [Option.bind_eq_bind]
  rw [checkStepChecked_eq (lastNs_le_mid fresh quiet.fresh) (mid_le stamps ordered)]
  rfl

/-- **One exchange of `u64` stamps goes through exactly when the offsets' difference fits**, and
then does what `observe` does. -/
theorem observeChecked_eq (fresh : t.Fresh) (stamps : e.Stamps) :
    (t.OffsetFits e → t.observeChecked e = t.observe e) ∧
      (¬ t.OffsetFits e → t.observeChecked e = none) := by
  obtain ⟨o, t', eq, outcome⟩ := t.observe_outcome e
  rw [eq]
  cases outcome with
  | nonPositive notPositive =>
    exact ⟨fun _ => if_pos (not_not.mp notPositive),
      fun fails => absurd (fun quiet => absurd quiet.positive notPositive) fails⟩
  | outOfOrder positive stale =>
    refine ⟨fun _ => ?_, fun fails => absurd (fun quiet => absurd stale quiet.fresh) fails⟩
    rw [observeChecked_positive stamps positive]
    exact if_pos stale
  | popcorn inOrder popcorn =>
    refine ⟨fun _ => ?_, fun fails => absurd (fun quiet => absurd popcorn quiet.calm) fails⟩
    rw [observeChecked_positive stamps inOrder.positive]
    exact (if_neg inOrder.fresh).trans (judgeChecked_popcorn popcorn e.mid)
  | step quiet stepped first =>
    refine ⟨fun _ => ?_, fun fails => absurd (fun _ still => absurd stepped still) fails⟩
    rw [observeChecked_quiet fresh stamps quiet]
    obtain ⟨checked, _, _⟩ | ⟨_, still⟩ | ⟨_, _, second⟩ := t.checkStep_eq e
    · rw [checked]
    · exact absurd stepped still
    · omega
  | settled relation quiet still found =>
    have ordered : e.t1 ≤ e.t4 := Nat.le_of_not_lt (not_or.mp quiet.positive).2
    obtain ⟨_, stepped, _⟩ | ⟨checked, _⟩ | ⟨_, stepped, _⟩ := t.checkStep_eq e
    · exact absurd stepped still
    · have newer := lastNs_le_mid fresh quiet.fresh
      have top := mid_le stamps ordered
      rw [observeChecked_quiet fresh stamps quiet, checked]
      dsimp only
      constructor
      · intro fits
        rw [absorbChecked_fits (u := t.settle e) newer top _ (fits quiet still)]
        simp only [absorbed] at found ⊢
        simp [found]
      · intro fails
        simp only [OffsetFits, Classical.not_imp] at fails
        obtain ⟨_, _, some, far⟩ := fails
        rw [absorbChecked_overflow (u := t.settle e) newer top _ some far]
        rfl
    · exact absurd stepped still
  | restarted relation quiet stepped second found =>
    have ordered : e.t1 ≤ e.t4 := Nat.le_of_not_lt (not_or.mp quiet.positive).2
    refine ⟨fun _ => ?_, fun fails => absurd (fun _ still => absurd stepped still) fails⟩
    obtain ⟨_, _, first⟩ | ⟨_, still⟩ | ⟨checked, _, _⟩ := t.checkStep_eq e
    · omega
    · exact absurd stepped still
    · have newer := lastNs_le_mid fresh quiet.fresh
      rw [observeChecked_quiet fresh stamps quiet, checked]
      dsimp only
      -- A restarted track is empty, so nothing is subtracted from the new offset.
      rw [absorbChecked_fits (u := t.restart e) newer (mid_le stamps ordered) _
        fun some => absurd some (lt_irrefl 0)]
      simp only [absorbed] at found ⊢
      simp [found]

end Step

/-! ### Runs -/

/-- The counters count exchanges. -/
structure Counts (n : ℕ) (t : PeerTrack F) : Prop where
  accepted : t.accepted ≤ n
  rejected : t.rejected ≤ n
  steps : t.steps ≤ n
  suspect : t.suspect ≤ 1

theorem Counts.reject {n : ℕ} {t : PeerTrack F} (counts : Counts n t) :
    Counts (n + 1) t.countRejected :=
  ⟨Nat.le_succ_of_le counts.accepted, Nat.succ_le_succ counts.rejected,
    Nat.le_succ_of_le counts.steps, counts.suspect⟩

theorem counts_absorb {n : ℕ} {u : PeerTrack F} (accepted : u.accepted ≤ n)
    (rejected : u.rejected ≤ n + 1) (steps : u.steps ≤ n + 1) (suspect : u.suspect ≤ 1)
    (mid rtt : ℕ) (excess : F) (twist : TwistIndex) :
    Counts (n + 1) (u.absorb mid rtt excess twist) := by
  refine ⟨?_, ?_, ?_, ?_⟩
  · rw [absorb_accepted]
    exact Nat.succ_le_succ accepted
  · rwa [absorb_rejected]
  · rwa [absorb_steps]
  · rwa [absorb_suspect]

theorem counts_outcome {n : ℕ} {t t' : PeerTrack F} {e : Exchange} {o : Observation F}
    (counts : Counts n t) (outcome : Outcome t e o t') : Counts (n + 1) t' := by
  obtain ⟨accepted, rejected, steps, suspect⟩ := counts
  cases outcome with
  | nonPositive _ => exact Counts.reject ⟨accepted, rejected, steps, suspect⟩
  | outOfOrder _ _ => exact Counts.reject ⟨accepted, rejected, steps, suspect⟩
  | popcorn _ _ => exact Counts.reject ⟨accepted, rejected, steps, suspect⟩
  | step _ _ _ => exact Counts.reject ⟨accepted, rejected, steps, le_rfl⟩
  | settled _ _ _ _ =>
    refine counts_absorb (u := t.settle e) accepted (Nat.le_succ_of_le rejected)
      (Nat.le_succ_of_le steps) ?_ _ _ _ _
    dsimp only [settle]
    split_ifs <;> omega
  | restarted _ _ _ _ _ =>
    exact counts_absorb (u := t.restart e) (Nat.zero_le n) (Nat.le_succ_of_le rejected)
      (Nat.succ_le_succ steps) (Nat.zero_le 1) _ _ _ _

/-- **When a run leaves no integer type.** In every run of exchanges of `u64` stamps, no operation
of `observe` leaves its type exactly when every exchange meets `OffsetFits` at the track it finds;
the run is then that of `observe`, and its counters count at most its exchanges. -/
theorem run_checked_iff (cfg : TrackConfig F) (es : List Exchange)
    (stamps : ∀ e ∈ es, e.Stamps) :
    ((runChecked (new cfg) es).isSome ↔ Machine.Along observe OffsetFits (new cfg) es) ∧
      ∀ os t, runChecked (new cfg) es = some (os, t) →
        (new cfg).run es = some (os, t) ∧ Counts es.length t := by
  have keep : ∀ (t : PeerTrack F) e o t', t.Fresh → t.observe e = some (o, t') → t'.Fresh :=
    fun t e o t' fresh eq => fresh_outcome fresh (outcome_of_observe eq)
  have start : (new cfg).Fresh := fun _ => rfl
  obtain ⟨along, off⟩ := Machine.run_guarded
    (fun t e fresh allowed fits => (observeChecked_eq (t := t) (e := e) fresh allowed).1 fits)
    (fun t e fresh allowed fails => (observeChecked_eq fresh allowed).2 fails)
    keep start es stamps
  have count : ∀ history (t : PeerTrack F) e, Counts history.length t → ∃ o t',
      observe t e = some (o, t') ∧ Counts (history ++ [(e, o)]).length t' :=
    fun history t e counts => by
      obtain ⟨o, t', eq, outcome⟩ := t.observe_outcome e
      refine ⟨o, t', eq, ?_⟩
      rw [List.length_append]
      exact counts_outcome counts outcome
  have zero : Counts ([] : List (Exchange × Observation F)).length (new cfg) :=
    ⟨le_rfl, le_rfl, le_rfl, Nat.zero_le 1⟩
  obtain ⟨os, t, ran, length, counts⟩ := Machine.run_spec count zero es
  by_cases fits : Machine.Along observe OffsetFits (new cfg) es
  · have same : runChecked (new cfg) es = some (os, t) := (along fits).trans ran
    refine ⟨by simp [same, fits], fun os' t' eq => ?_⟩
    obtain ⟨rfl, rfl⟩ : os = os' ∧ t = t' := by simpa [same] using eq
    refine ⟨ran, ?_⟩
    rwa [List.length_zip, length, min_self] at counts
  · have fails : runChecked (new cfg) es = none := off fits
    refine ⟨by simp [fails, fits], fun os' t' eq => ?_⟩
    simp [fails] at eq

/-- One exchange, which finds an empty track. -/
theorem run_checked_iff_first :
    ∃ os t, runChecked (new (.default : TrackConfig ℝ)) [⟨0, 2 ^ 63, 2 ^ 63, 2⟩] = some (os, t) ∧
      (new .default).run [⟨0, 2 ^ 63, 2 ^ 63, 2⟩] = some (os, t) ∧ Counts 1 t := by
  have stamps : ∀ e ∈ [(⟨0, 2 ^ 63, 2 ^ 63, 2⟩ : Exchange)], e.Stamps := by
    intro e member
    rw [List.mem_singleton.mp member]
    exact ⟨by decide, by decide, by decide, by decide⟩
  obtain ⟨passes, same⟩ := run_checked_iff (.default : TrackConfig ℝ) _ stamps
  have along : Machine.Along observe OffsetFits (new (.default : TrackConfig ℝ))
      [⟨0, 2 ^ 63, 2 ^ 63, 2⟩] :=
    ⟨fun _ _ some => absurd some (lt_irrefl 0), fun _ _ _ => trivial⟩
  obtain ⟨⟨os, t⟩, went⟩ := Option.isSome_iff_exists.mp (passes.mpr along)
  exact ⟨os, t, went, same os t went⟩

/-- **Two exchanges within the warm-up whose offsets are too far apart**: `2^63 - 1`, then `-2`. -/
theorem run_overflow :
    runChecked (new (.default : TrackConfig ℝ)) [⟨0, 2 ^ 63, 2 ^ 63, 2⟩, ⟨4, 3, 3, 6⟩] = none := by
  obtain ⟨relation, accepted, _⟩ := observe_new (F := ℝ)
    (e := ⟨0, 2 ^ 63, 2 ^ 63, 2⟩)
    (show 1 ≤ (TrackConfig.default : TrackConfig ℝ).warmup by simp [TrackConfig.default])
    (by decide)
  set t := (new (.default : TrackConfig ℝ)).absorbed
    ((new .default).settle ⟨0, 2 ^ 63, 2 ^ 63, 2⟩) ⟨0, 2 ^ 63, 2 ^ 63, 2⟩ with absorbed
  have first : (new (.default : TrackConfig ℝ)).observeChecked ⟨0, 2 ^ 63, 2 ^ 63, 2⟩ =
      some (.accepted _ relation false, t) :=
    ((observeChecked_eq (fun _ => rfl) ⟨by decide, by decide, by decide, by decide⟩).1
      fun _ _ some => absurd some (lt_irrefl 0)).trans accepted
  -- The second exchange is still within the warm-up, so nothing filters it.
  have cold : ¬ t.cfg.warmup ≤ t.accepted := by
    simp [absorbed, PeerTrack.absorbed, settle, new, TrackConfig.default]
  have fails : ¬ t.OffsetFits ⟨4, 3, 3, 6⟩ := fun fits => by
    have inRange := fits ⟨⟨by decide, fun stale => absurd stale.2 (by decide)⟩,
      fun popcorn => cold popcorn.1⟩ (fun stepped => cold stepped.1) (by decide)
    exact absurd inRange (by decide)
  have second : t.observeChecked ⟨4, 3, 3, 6⟩ = none :=
    (observeChecked_eq (fun empty => absurd empty (by decide))
      ⟨by decide, by decide, by decide, by decide⟩).2 fails
  rw [runChecked, Machine.run_cons first]
  simp [Machine.run, second]

end PeerTrack

end Rtfsn
