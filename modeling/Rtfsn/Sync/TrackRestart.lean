/-
**A restart starts truly afresh, and never from one outlier.**

* `Suspects`: a track is suspicious exactly while a step rejection stands with no exchange accepted
  since; past the warm-up every acceptance clears it, and within the warm-up there is none to clear.
* `restart_sameTrack`: absorbing into a restarted track gives the fresh track's result, up to the
  counters of rejections and steps.
* `observe_withCounters`: those two counters are never read, so the tracks answer alike from then
  on.
-/
import Rtfsn.Sync.PeerTrack

set_option linter.unusedSectionVars false

namespace Rtfsn.PeerTrack

variable {F : Type} [F64 F]

/-! ### The suspicion -/

/-- A step rejection stands with no exchange accepted since. -/
def StandingStep (history : List (Exchange × Observation F)) : Prop :=
  ∃ before e jumpNs after, history = before ++ (e, .rejected (.step jumpNs)) :: after ∧
    ∀ entry ∈ after, ∃ reason, entry.2 = .rejected reason

theorem StandingStep.snoc {history : List (Exchange × Observation F)}
    (standing : StandingStep history) (e : Exchange) (reason : Reject) :
    StandingStep (history ++ [(e, .rejected reason)]) := by
  obtain ⟨before, first, jumpNs, after, rfl, rejected⟩ := standing
  refine ⟨before, first, jumpNs, after ++ [(e, .rejected reason)], by simp, ?_⟩
  intro entry member
  rcases List.mem_append.mp member with early | last
  · exact rejected entry early
  · exact ⟨reason, by rw [List.mem_singleton.mp last]⟩

/-- The suspicion of a track and what it rests on. -/
structure Suspects (cfg : TrackConfig F) (history : List (Exchange × Observation F))
    (t : PeerTrack F) : Prop where
  config : t.cfg = cfg
  bounded : t.suspect ≤ 1
  warm : 1 ≤ t.suspect → cfg.warmup ≤ t.accepted
  standing : 1 ≤ t.suspect → StandingStep history

theorem suspects_new (cfg : TrackConfig F) : Suspects cfg [] (new cfg) :=
  ⟨rfl, Nat.zero_le _, by simp [new], by simp [new]⟩

/-- **Every exit of `observe` keeps the suspicion founded.** -/
theorem suspects_outcome {cfg : TrackConfig F} {history : List (Exchange × Observation F)}
    {t t' : PeerTrack F} {e : Exchange} {o : Observation F} (suspects : Suspects cfg history t)
    (outcome : Outcome t e o t') : Suspects cfg (history ++ [(e, o)]) t' := by
  cases outcome with
  | nonPositive _ =>
    exact ⟨suspects.config, suspects.bounded, suspects.warm,
      fun some => (suspects.standing some).snoc e _⟩
  | outOfOrder _ _ =>
    exact ⟨suspects.config, suspects.bounded, suspects.warm,
      fun some => (suspects.standing some).snoc e _⟩
  | popcorn _ _ =>
    exact ⟨suspects.config, suspects.bounded, suspects.warm,
      fun some => (suspects.standing some).snoc e _⟩
  | step _ stepped _ =>
    have warm := stepped.1
    rw [suspects.config] at warm
    exact ⟨suspects.config, le_rfl, fun _ => warm, fun _ => ⟨history, e, _, [], rfl, by simp⟩⟩
  | settled _ _ _ _ =>
    -- Past the warm-up the suspicion is cleared; within it there was none.
    have cleared : (t.absorbed (t.settle e) e).suspect = 0 := by
      rw [absorbed, absorb_suspect, settle]
      dsimp only
      split_ifs with warm
      · rfl
      · by_contra some
        have warmed := suspects.warm (Nat.pos_of_ne_zero some)
        rw [← suspects.config] at warmed
        exact warm warmed
    exact ⟨(absorb_cfg _ _ _ _ _).trans suspects.config, by omega, by omega, by omega⟩
  | restarted _ _ _ _ _ =>
    have cleared : (t.absorbed (t.restart e) e).suspect = 0 := absorb_suspect _ _ _ _ _
    exact ⟨(absorb_cfg _ _ _ _ _).trans suspects.config, by omega, by omega, by omega⟩

/-! ### The counters of rejections and steps are never read -/

/-- Replace the two counters. -/
def withCounters (t : PeerTrack F) (rejected steps : ℕ) : PeerTrack F :=
  { t with rejected := rejected, steps := steps }

/-- Two tracks that differ in the counters of rejections and steps at most. -/
def SameTrack (t u : PeerTrack F) : Prop := u = t.withCounters u.rejected u.steps

theorem relation_withCounters (t : PeerTrack F) (rejected steps : ℕ) :
    (t.withCounters rejected steps).relation = t.relation := rfl

theorem absorb_withCounters (t : PeerTrack F) (rejected steps mid rtt : ℕ) (excess : F)
    (twist : TwistIndex) :
    (t.withCounters rejected steps).absorb mid rtt excess twist =
      (t.absorb mid rtt excess twist).withCounters rejected steps := by
  dsimp only [absorb, withCounters]
  split <;> rfl

theorem checkStep_withCounters (t : PeerTrack F) (rejected steps mid rtt : ℕ) (excess : F)
    (twist : TwistIndex) :
    (t.withCounters rejected steps).checkStep mid rtt excess twist =
      match t.checkStep mid rtt excess twist with
      | .error (jump, u) => .error (jump, u.withCounters rejected steps)
      | .ok (u, restarted) =>
        .ok (u.withCounters rejected (if restarted then steps + 1 else steps), restarted) := by
  by_cases warm : t.cfg.warmup ≤ t.accepted
  · by_cases jumped : t.isStep mid excess twist = true
    · by_cases first : t.suspect + 1 < 2
      · have left : t.checkStep mid rtt excess twist = _ :=
          (if_pos warm).trans ((if_pos jumped).trans (if_pos first))
        have right : (t.withCounters rejected steps).checkStep mid rtt excess twist = _ :=
          (if_pos warm).trans ((if_pos jumped).trans (if_pos first))
        rw [left, right]
        rfl
      · have left : t.checkStep mid rtt excess twist = _ :=
          (if_pos warm).trans ((if_pos jumped).trans (if_neg first))
        have right : (t.withCounters rejected steps).checkStep mid rtt excess twist = _ :=
          (if_pos warm).trans ((if_pos jumped).trans (if_neg first))
        rw [left, right]
        rfl
    · have left : t.checkStep mid rtt excess twist = _ := (if_pos warm).trans (if_neg jumped)
      have right : (t.withCounters rejected steps).checkStep mid rtt excess twist = _ :=
        (if_pos warm).trans (if_neg jumped)
      rw [left, right]
      rfl
  · have left : t.checkStep mid rtt excess twist = _ := if_neg warm
    have right : (t.withCounters rejected steps).checkStep mid rtt excess twist = _ := if_neg warm
    rw [left, right]
    rfl

theorem judge_withCounters (t : PeerTrack F) (rejected steps : ℕ) (e : Exchange) :
    ∃ rejected' steps', (t.withCounters rejected steps).judge e =
      (t.judge e).map fun r => (r.1, r.2.withCounters rejected' steps') := by
  by_cases popcorn : t.cfg.warmup ≤ t.accepted ∧
    F64.lt (t.popcornLimit e.rttU64) (t.excess e.rttU64)
  · have left : t.judge e = _ := if_pos popcorn
    have right : (t.withCounters rejected steps).judge e = _ := if_pos popcorn
    rw [left, right]
    exact ⟨rejected + 1, steps, rfl⟩
  · have left : t.judge e = _ := if_neg popcorn
    have right : (t.withCounters rejected steps).judge e = _ := if_neg popcorn
    rw [left, right]
    dsimp only
    rw [show (t.withCounters rejected steps).excess e.rttU64 = t.excess e.rttU64 from rfl,
      checkStep_withCounters]
    cases t.checkStep e.mid e.rttU64 (t.excess e.rttU64) (.fromExchange e) with
    | error early => exact ⟨rejected + 1, steps, rfl⟩
    | ok passed =>
      refine ⟨rejected, if passed.2 then steps + 1 else steps, ?_⟩
      dsimp only
      rw [absorb_withCounters, relation_withCounters]
      cases (passed.1.absorb e.mid e.rttU64 (t.excess e.rttU64) (.fromExchange e)).relation <;> rfl

/-- **The counters are never read**: an exchange gives the same answer whatever they are. -/
theorem observe_withCounters (t : PeerTrack F) (rejected steps : ℕ) (e : Exchange) :
    ∃ rejected' steps', (t.withCounters rejected steps).observe e =
      (t.observe e).map fun r => (r.1, r.2.withCounters rejected' steps') := by
  by_cases notPositive : e.rtt ≤ 0 ∨ e.t4 < e.t1
  · have left : t.observe e = _ := if_pos notPositive
    have right : (t.withCounters rejected steps).observe e = _ := if_pos notPositive
    rw [left, right]
    exact ⟨rejected + 1, steps, rfl⟩
  by_cases stale : 0 < t.accepted ∧ e.mid ≤ t.lastNs
  · have left : t.observe e = _ := (if_neg notPositive).trans (if_pos stale)
    have right : (t.withCounters rejected steps).observe e = _ :=
      (if_neg notPositive).trans (if_pos stale)
    rw [left, right]
    exact ⟨rejected + 1, steps, rfl⟩
  · have left : t.observe e = _ := (if_neg notPositive).trans (if_neg stale)
    have right : (t.withCounters rejected steps).observe e =
        ((t.pushRtt e.rttU64).withCounters rejected steps).judge e :=
      (if_neg notPositive).trans (if_neg stale)
    rw [left, right]
    exact judge_withCounters _ _ _ _

theorem SameTrack.symm {t u : PeerTrack F} (same : t.SameTrack u) : u.SameTrack t := by
  rw [SameTrack, same]
  rfl

/-- Tracks that differ in the two counters only answer every sequence of exchanges alike. -/
theorem run_sameTrack {t u : PeerTrack F} (same : t.SameTrack u) (es : List Exchange) :
    ∃ os t' u', t.run es = some (os, t') ∧ u.run es = some (os, u') ∧ t'.SameTrack u' := by
  refine Machine.run_congr (fun t u e same => ?_) es same
  obtain ⟨o, t', eq, _⟩ := t.observe_outcome e
  obtain ⟨rejected', steps', eq'⟩ := t.observe_withCounters u.rejected u.steps e
  refine ⟨o, t', t'.withCounters rejected' steps', eq, ?_, rfl⟩
  rw [same, eq', eq]
  rfl

/-! ### A restart is a fresh track -/

/-- The first exchange of a warm-up sets the track from itself alone. -/
theorem absorb_first (t : PeerTrack F) (mid rtt : ℕ) (excess : F) (twist : TwistIndex)
    (first : t.accepted = 0) (warmup : 1 ≤ t.cfg.warmup) :
    t.absorb mid rtt excess twist =
      let sigmaS := (t.cfg.stampNoiseNs + F64.ofNat rtt / F64.lit 2) * F64.lit 1e-9
      { cfg := t.cfg
        anchorNs := mid
        baseOffsetNs := twist.offsetNanos
        lastNs := mid
        kalman :=
          { x := (0, 0)
            p := (sigmaS * sigmaS, 0, t.cfg.priorDrift * t.cfg.priorDrift)
            qOffset := t.cfg.qOffset
            qDrift := t.cfg.qDrift }
        rtts := t.rtts
        accepted := 1
        rejected := t.rejected
        last := some twist
        steps := t.steps
        suspect := t.suspect } := by
  have warming : t.accepted < t.cfg.warmup := by omega
  have variance : t.variance rtt excess =
      (t.cfg.stampNoiseNs + F64.ofNat rtt / F64.lit 2) * F64.lit 1e-9 *
        ((t.cfg.stampNoiseNs + F64.ofNat rtt / F64.lit 2) * F64.lit 1e-9) := by
    simp only [PeerTrack.variance, if_pos warming]
  simp only [absorb, variance, first, if_true]

/-- A fresh track accepts any exchange with a positive round trip. -/
theorem observe_new {cfg : TrackConfig F} (warmup : 1 ≤ cfg.warmup) {e : Exchange}
    (positive : e.Positive) :
    ∃ relation, (new cfg).observe e = some (.accepted (.fromExchange e) relation false,
        (new cfg).absorbed ((new cfg).settle e) e) ∧
      ((new cfg).absorbed ((new cfg).settle e) e).relation = some relation := by
  have cold : ¬ (new cfg).cfg.warmup ≤ (new cfg).accepted := by
    simp only [new]
    omega
  obtain ⟨o, t', eq, outcome⟩ := (new cfg).observe_outcome e
  cases outcome with
  | nonPositive notPositive => exact absurd positive notPositive
  | outOfOrder _ stale => exact absurd stale.1 (lt_irrefl 0)
  | popcorn _ popcorn => exact absurd popcorn.1 cold
  | step _ stepped _ => exact absurd stepped.1 cold
  | settled relation _ _ found => exact ⟨relation, eq, found⟩
  | restarted _ _ stepped _ _ => exact absurd stepped.1 cold

/-- **Absorbing into a restarted track gives the fresh track's result**, up to the counters. -/
theorem restart_sameTrack {cfg : TrackConfig F} (warmup : 1 ≤ cfg.warmup) {t : PeerTrack F}
    (config : t.cfg = cfg) (e : Exchange) :
    SameTrack ((new cfg).absorbed ((new cfg).settle e) e) (t.absorbed (t.restart e) e) := by
  have window : ((new cfg).settle e).rtts = [e.rttU64] := by
    simp [settle, pushRtt, new, List.rtake, PeerTrack.window]
  have suspicion : ((new cfg).settle e).suspect = 0 := by
    simp [settle, new, pushRtt]
  rw [SameTrack, absorbed, absorbed, absorb_first ((new cfg).settle e) _ _ _ _ rfl warmup,
    absorb_first (t.restart e) _ _ _ _ rfl (config ▸ warmup), window, suspicion]
  simp only [withCounters, restart, settle, pushRtt_cfg, config, new]

/-- **A restart is afresh, and never from one outlier.** In every run of a track with a warm-up,
an exchange accepted with a restart follows a step rejection with nothing accepted in between; the
fresh track accepts the same exchange with the same relation; and the two tracks then differ in the
counters of rejections and steps at most and answer every continuation alike. -/
theorem restart_afresh (cfg : TrackConfig F) (warmup : 1 ≤ cfg.warmup) (es : List Exchange)
    (e : Exchange) (os : List (Observation F)) (t t' : PeerTrack F) (twist : TwistIndex)
    (relation : Relation F) (ran : (new cfg).run es = some (os, t))
    (restarted : t.observe e = some (.accepted twist relation true, t')) :
    StandingStep (es.zip os) ∧
      ∃ fresh, (new cfg).observe e = some (.accepted twist relation false, fresh) ∧
        t'.SameTrack fresh ∧
        ∀ later, ∃ answers u u', t'.run later = some (answers, u) ∧
          fresh.run later = some (answers, u') ∧ u.SameTrack u' := by
  have keep : ∀ history t e, Suspects cfg history t → ∃ o t', observe t e = some (o, t') ∧
      Suspects cfg (history ++ [(e, o)]) t' := fun history t e suspects => by
    obtain ⟨o, t', eq, outcome⟩ := t.observe_outcome e
    exact ⟨o, t', eq, suspects_outcome suspects outcome⟩
  obtain ⟨os', t₀, ran', _, suspects⟩ := Machine.run_spec keep (suspects_new cfg) es
  obtain ⟨rfl, rfl⟩ : os' = os ∧ t₀ = t := by
    have both := ran'.symm.trans ran
    simpa using both
  cases outcome_of_observe restarted with
  | restarted _ quiet _ second found =>
    obtain ⟨relation', accepted, found'⟩ := observe_new (F := F) warmup quiet.positive
    have same := restart_sameTrack warmup suspects.config e
    have sameRelation : relation' = relation := by
      rw [same, relation_withCounters, found'] at found
      exact Option.some.inj found
    refine ⟨suspects.standing second, _, sameRelation ▸ accepted, ?_, ?_⟩
    · exact same.symm
    · exact run_sameTrack same.symm

/-! ### A track that restarts -/

section Stepping

/-- A warm-up of one exchange, and any jump past fifty spreads is a step. -/
def steppingConfig : TrackConfig ℝ where
  stampNoiseNs := 0
  qOffset := 0
  qDrift := 0
  priorDrift := 0
  floorWindow := 1
  popcornNs := 0
  popcornRatio := 0
  warmup := 1
  history := 0
  stepNs := 0

/-- The track of a peer read level, to within one nanosecond. -/
structure Level (t : PeerTrack ℝ) : Prop where
  config : t.cfg = steppingConfig
  base : t.baseOffsetNs = 0
  x : t.kalman.x = (0, 0)
  p : t.kalman.p = (1e-18, 0, 0)
  accepted : t.accepted = 1

/-- A microsecond is a step on such a track, and not a popcorn spike. -/
theorem Level.stepped {t : PeerTrack ℝ} (level : Level t) {e : Exchange} (rtt : e.rttU64 = 2)
    (offset : (TwistIndex.fromExchange e).offsetNanos = 1000) (inOrder : t.InOrder e) :
    t.Quiet e ∧ t.Stepped e := by
  have window : (t.pushRtt 2).rtts = [2] := by
    simp [pushRtt, PeerTrack.window, level.config, steppingConfig, List.rtake]
  have floor : (t.pushRtt 2).floor 2 = 2 := by
    simp [PeerTrack.floor, rttFloorNs, window]
  have excess : t.judgedExcess e = 0 := by
    simp [judgedExcess, PeerTrack.excess, rtt, floor]
  have root : Real.sqrt 1e-18 = 1e-9 := by
    rw [show (1e-18 : ℝ) = 1e-9 * 1e-9 by norm_num, Real.sqrt_mul_self (by norm_num)]
  refine ⟨⟨inOrder, fun popcorn => ?_⟩, ?_, ?_⟩
  · have above := popcorn.2
    rw [excess, rtt] at above
    simp [popcornLimit, level.config, steppingConfig] at above
  · simp [level.config, level.accepted, steppingConfig]
  · simp only [isStep, spread, jump, excess, offset, pushRtt, level.config, level.x, level.p,
      level.base, steppingConfig]
    norm_num [root]

theorem level_first (e : Exchange) (rtt : e.rttU64 = 2)
    (offset : (TwistIndex.fromExchange e).offsetNanos = 0) :
    Level ((new steppingConfig).absorbed ((new steppingConfig).settle e) e) := by
  rw [absorbed, absorb_first ((new steppingConfig).settle e) _ _ _ _ rfl le_rfl]
  refine ⟨rfl, offset, rfl, ?_, rfl⟩
  simp [settle, new, steppingConfig, rtt]
  norm_num

/-- One level exchange, then two with the peer a microsecond ahead. -/
theorem restart_afresh_stepping :
    let es : List Exchange := [⟨0, 1, 1, 2⟩, ⟨10, 1011, 1011, 12⟩]
    ∃ os t twist relation t', (new steppingConfig).run es = some (os, t) ∧
      t.observe ⟨20, 1021, 1021, 22⟩ = some (.accepted twist relation true, t') ∧
      StandingStep (es.zip os) ∧
      ∃ fresh, (new steppingConfig).observe ⟨20, 1021, 1021, 22⟩ =
          some (.accepted twist relation false, fresh) ∧
        t'.SameTrack fresh ∧
        ∀ later, ∃ answers u u', t'.run later = some (answers, u) ∧
          fresh.run later = some (answers, u') ∧ u.SameTrack u' := by
  intro es
  obtain ⟨relation, accepted, _⟩ := observe_new (show 1 ≤ steppingConfig.warmup from le_rfl)
    (e := ⟨0, 1, 1, 2⟩) (by decide)
  have level := level_first ⟨0, 1, 1, 2⟩ (by decide) (by decide)
  generalize new_last : (new steppingConfig).absorbed ((new steppingConfig).settle ⟨0, 1, 1, 2⟩)
    ⟨0, 1, 1, 2⟩ = t₁ at accepted level
  have last : t₁.lastNs = 1 := new_last ▸ rfl
  have unsuspected : t₁.suspect = 0 := new_last ▸ absorb_suspect _ _ _ _ _
  -- The second exchange is rejected as a step.
  have stepped := level.stepped (e := ⟨10, 1011, 1011, 12⟩) (by decide) (by decide)
    ⟨by decide, fun stale => absurd (last ▸ stale.2) (by decide)⟩
  obtain ⟨o, t₂, rejected, outcome⟩ := t₁.observe_outcome ⟨10, 1011, 1011, 12⟩
  cases outcome with
  | nonPositive notPositive => exact absurd stepped.1.positive notPositive
  | outOfOrder _ stale => exact absurd stale stepped.1.fresh
  | popcorn _ popcorn => exact absurd popcorn stepped.1.calm
  | settled _ _ still _ => exact absurd stepped.2 still
  | restarted _ _ _ second _ => omega
  | step _ _ _ =>
    -- So is the third, which finds the suspicion standing.
    have lastAgain : (t₁.doubt ⟨10, 1011, 1011, 12⟩).countRejected.lastNs = 1 := last
    have again := Level.stepped (t := (t₁.doubt ⟨10, 1011, 1011, 12⟩).countRejected)
      (e := ⟨20, 1021, 1021, 22⟩) ⟨level.config, level.base, level.x, level.p, level.accepted⟩
      (by decide) (by decide) ⟨by decide, fun stale => absurd (lastAgain ▸ stale.2) (by decide)⟩
    obtain ⟨o', t₃, restarted, outcome⟩ :=
      (t₁.doubt ⟨10, 1011, 1011, 12⟩).countRejected.observe_outcome ⟨20, 1021, 1021, 22⟩
    cases outcome with
    | nonPositive notPositive => exact absurd again.1.positive notPositive
    | outOfOrder _ stale => exact absurd stale again.1.fresh
    | popcorn _ popcorn => exact absurd popcorn again.1.calm
    | settled _ _ still _ => exact absurd again.2 still
    | step _ _ first => exact absurd first one_ne_zero
    | restarted relation' _ _ _ _ =>
      have ran : (new steppingConfig).run es = _ :=
        (Machine.run_cons accepted).trans (congrArg _ (Machine.run_cons rejected))
      exact ⟨_, _, _, _, _, ran, restarted,
        restart_afresh steppingConfig le_rfl es _ _ _ _ _ _ ran restarted⟩

end Stepping

end Rtfsn.PeerTrack
