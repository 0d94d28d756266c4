/-
One node's track of one peer.

`PeerTrack.observe` judges an exchange in four stages and then absorbs it: the round trip must be
positive, the midpoint newer than the last one absorbed, the round trip close to its windowed floor
(`popcorn`), and the offset close to the filter's prediction (`checkStep`, which restarts the track
on a second jump in a row). The `expect` on the relation after an accepted exchange is a failure of
`observe`.

`Outcome` lists what one exchange can do, one constructor for each exit of `observe`
(`observe_outcome`); what a run preserves is proved from it, never from `observe`.
-/
import Rtfsn.Sync.Kalman
import Rtfsn.Holonomy.Twist
import Rtfsn.Lib.Machine

set_option linter.unusedSectionVars false

namespace Rtfsn

variable {F : Type} [F64 F]

/-- Tuning for a `PeerTrack`. -/
structure TrackConfig (F : Type) where
  stampNoiseNs : F
  qOffset : F
  qDrift : F
  priorDrift : F
  floorWindow : ℕ
  popcornNs : F
  popcornRatio : F
  warmup : ℕ
  history : ℕ
  stepNs : F

def defaultStepNs : F := F64.lit 5000000

def TrackConfig.default : TrackConfig F where
  stampNoiseNs := F64.lit 20000
  qOffset := F64.lit 1e-16
  qDrift := F64.lit 1e-18
  priorDrift := F64.lit 1e-4
  floorWindow := 64
  popcornNs := F64.lit 100000
  popcornRatio := F64.lit 0.5
  warmup := 8
  history := 256
  stepNs := defaultStepNs

/-- One node's relation to one peer at an instant of its own clock. -/
structure Relation (F : Type) where
  /-- The instant, on the measuring node's clock. -/
  atNs : ℕ
  /-- The peer's clock minus ours at `atNs`. -/
  offsetNs : F
  /-- The peer's rate over ours, minus one. -/
  drift : F
  sigmaOffsetNs : F
  sigmaDrift : F

namespace Relation

/-- The offset extrapolated to `atNs` on the measuring node's clock. -/
def offsetAt (rel : Relation F) (atNs : F) : F :=
  rel.offsetNs + rel.drift * (atNs - F64.ofNat rel.atNs)

/-- The offset's standard deviation extrapolated to `atNs`. -/
def sigmaAt (rel : Relation F) (atNs : F) : F :=
  let age := atNs - F64.ofNat rel.atNs
  F64.sqrt (F64.powi rel.sigmaOffsetNs 2 + F64.powi (rel.sigmaDrift * age) 2)

end Relation

/-- Why an exchange was not used. -/
inductive Reject
  | nonPositiveRtt
  | popcorn (excessNs : ℕ)
  | outOfOrder
  | step (jumpNs : ℤ)

/-- The outcome of one exchange. -/
inductive Observation (F : Type)
  | accepted (twist : TwistIndex) (relation : Relation F) (restarted : Bool)
  | rejected (reason : Reject)

/-- What one node knows of one peer's oscillator relative to its own. -/
structure PeerTrack (F : Type) where
  cfg : TrackConfig F
  /-- Our-clock instant of the first accepted exchange; the filter is relative to it. -/
  anchorNs : ℕ
  baseOffsetNs : ℤ
  lastNs : ℕ
  kalman : ClockKalman F
  rtts : List ℕ
  accepted : ℕ
  rejected : ℕ
  last : Option TwistIndex
  steps : ℕ
  suspect : ℕ

/-! ### The quantities of an exchange -/

namespace Exchange

/-- The round trip less the responder's holding time. -/
def rtt (e : Exchange) : ℤ := (e.t4 - e.t1 : ℤ) - (e.t3 - e.t2)

/-- The round trip as the `u64` it is kept as. -/
def rttU64 (e : Exchange) : ℕ := wrapU64 e.rtt

/-- The midpoint on the initiator's clock. -/
def mid (e : Exchange) : ℕ := e.t1 + (e.t4 - e.t1) / 2

/-- The round trip is positive and time did not run backwards on the initiator's clock. -/
def Positive (e : Exchange) : Prop := ¬ (e.rtt ≤ 0 ∨ e.t4 < e.t1)

instance (e : Exchange) : Decidable e.Positive := inferInstanceAs (Decidable (¬ _))

end Exchange

namespace PeerTrack

/-- An empty track. -/
def new (cfg : TrackConfig F) : PeerTrack F where
  cfg := cfg
  anchorNs := 0
  baseOffsetNs := 0
  lastNs := 0
  kalman := ClockKalman.new
  rtts := []
  accepted := 0
  rejected := 0
  last := none
  steps := 0
  suspect := 0

/-- The windowed minimum round trip. -/
def rttFloorNs (t : PeerTrack F) : Option ℕ := t.rtts.min?

/-- The relation as of the last absorbed exchange. -/
def relation (t : PeerTrack F) : Option (Relation F) :=
  if t.accepted = 0 then none
  else some
    { atNs := t.lastNs
      offsetNs := F64.ofInt t.baseOffsetNs + t.kalman.x.1 * F64.lit 1e9
      drift := t.kalman.x.2
      sigmaOffsetNs := F64.sqrt (F64.max t.kalman.p.1 0) * F64.lit 1e9
      sigmaDrift := F64.sqrt (F64.max t.kalman.p.2.2 0) }

/-- The exchange is no newer than one already absorbed. -/
def Stale (t : PeerTrack F) (e : Exchange) : Prop := 0 < t.accepted ∧ e.mid ≤ t.lastNs

instance (t : PeerTrack F) (e : Exchange) : Decidable (t.Stale e) :=
  inferInstanceAs (Decidable (_ ∧ _))

/-- The round trips kept for the floor: at least one. -/
def window (t : PeerTrack F) : ℕ := max t.cfg.floorWindow 1

/-- Append a round trip and drop the oldest ones past the window. -/
def pushRtt (t : PeerTrack F) (rtt : ℕ) : PeerTrack F :=
  { t with rtts := (t.rtts ++ [rtt]).rtake t.window }

/-- Count an exchange as rejected. -/
def countRejected (t : PeerTrack F) : PeerTrack F := { t with rejected := t.rejected + 1 }

/-- Seconds from the last absorbed exchange to `mid`. -/
def sinceLast (t : PeerTrack F) (mid : ℕ) : F := F64.ofNat (mid - t.lastNs) * F64.lit 1e-9

/-- The measured offset less the filter's prediction. -/
def jump (t : PeerTrack F) (mid : ℕ) (twist : TwistIndex) : F :=
  let dt := t.sinceLast mid
  let predicted := F64.ofInt t.baseOffsetNs + (t.kalman.x.1 + t.kalman.x.2 * dt) * F64.lit 1e9
  F64.ofInt twist.offsetNanos - predicted

/-- The standard deviation the prediction and the exchange allow the jump. -/
def spread (t : PeerTrack F) (mid : ℕ) (excess : F) : F :=
  let dt := t.sinceLast mid
  let variance := t.kalman.p.1 + F64.lit 2 * dt * t.kalman.p.2.1 + dt * dt * t.kalman.p.2.2
  F64.sqrt (F64.max variance 0) * F64.lit 1e9 + t.cfg.stampNoiseNs + excess / F64.lit 2

/-- The jump is a step. -/
def isStep (t : PeerTrack F) (mid : ℕ) (excess : F) (twist : TwistIndex) : Bool :=
  F64.lt (F64.max t.cfg.stepNs (F64.lit 50 * t.spread mid excess)) (F64.abs (t.jump mid twist))

/-- The step check: an early return with the jump, or the track to absorb into and whether it was
started over. -/
def checkStep (t : PeerTrack F) (mid rtt : ℕ) (excess : F) (twist : TwistIndex) :
    Except (ℤ × PeerTrack F) (PeerTrack F × Bool) :=
  if t.cfg.warmup ≤ t.accepted then
    if t.isStep mid excess twist then
      if t.suspect + 1 < 2 then
        .error (F64.toI64 (t.jump mid twist), { t with suspect := t.suspect + 1 })
      -- Twice in a row: the peer's timescale moved. Start over from this exchange.
      else .ok ({ t with steps := t.steps + 1, accepted := 0, rtts := [rtt], suspect := 0 }, true)
    else .ok ({ t with suspect := 0 }, false)
  else .ok (t, false)

/-- The measurement variance: stamping noise plus the asymmetry the round trip allows. Until the
floor has settled that is half the round trip, then half the excess over the floor. -/
def variance (t : PeerTrack F) (rtt : ℕ) (excess : F) : F :=
  let biasBound :=
    if t.accepted < t.cfg.warmup then F64.ofNat rtt / F64.lit 2 else excess / F64.lit 2
  let sigmaS := (t.cfg.stampNoiseNs + biasBound) * F64.lit 1e-9
  sigmaS * sigmaS

/-- The track after absorbing an exchange. The difference of two `i64` offsets wraps, as it does in
a release build. -/
def absorb (t : PeerTrack F) (mid rtt : ℕ) (excess : F) (twist : TwistIndex) : PeerTrack F :=
  let r := t.variance rtt excess
  let t :=
    if t.accepted = 0 then
      { t with
        anchorNs := mid
        baseOffsetNs := twist.offsetNanos
        kalman :=
          { x := (0, 0)
            p := (r, 0, t.cfg.priorDrift * t.cfg.priorDrift)
            qOffset := t.cfg.qOffset
            qDrift := t.cfg.qDrift } }
    else
      let dt := t.sinceLast mid
      let measured := F64.ofInt (wrapI64 (twist.offsetNanos - t.baseOffsetNs)) * F64.lit 1e-9
      { t with kalman := t.kalman.step dt measured r }
  { t with lastNs := mid, accepted := t.accepted + 1, last := some twist }

/-- The floor of the window; `unwrap_or` the round trip itself. -/
def floor (t : PeerTrack F) (rtt : ℕ) : ℕ := t.rttFloorNs.getD rtt

/-- The excess of a round trip over the floor. -/
def excess (t : PeerTrack F) (rtt : ℕ) : F := F64.ofNat (rtt - t.floor rtt)

/-- The largest excess the popcorn filter allows. -/
def popcornLimit (t : PeerTrack F) (rtt : ℕ) : F :=
  F64.max t.cfg.popcornNs (t.cfg.popcornRatio * F64.ofNat (t.floor rtt))

/-- Judge an exchange whose round trip is already in the window, and absorb it. -/
def judge (t : PeerTrack F) (e : Exchange) : Option (Observation F × PeerTrack F) :=
  let rtt := e.rttU64
  let excess := t.excess rtt
  if t.cfg.warmup ≤ t.accepted ∧ F64.lt (t.popcornLimit rtt) excess then
    some (.rejected (.popcorn (F64.toU64 excess)), t.countRejected)
  else
    let twist := TwistIndex.fromExchange e
    match t.checkStep e.mid rtt excess twist with
    | .error (jump, t) => some (.rejected (.step jump), t.countRejected)
    | .ok (t, restarted) => do
      let t := t.absorb e.mid rtt excess twist
      -- `expect("just absorbed one")`
      let relation ← t.relation
      return (.accepted twist relation restarted, t)

/-- Absorb one exchange this node initiated. -/
def observe (t : PeerTrack F) (e : Exchange) : Option (Observation F × PeerTrack F) :=
  if e.rtt ≤ 0 ∨ e.t4 < e.t1 then some (.rejected .nonPositiveRtt, t.countRejected)
  else if 0 < t.accepted ∧ e.mid ≤ t.lastNs then some (.rejected .outOfOrder, t.countRejected)
  else (t.pushRtt e.rttU64).judge e

/-- A run of exchanges. -/
def run : PeerTrack F → List Exchange → Option (List (Observation F) × PeerTrack F) :=
  Machine.run observe

/-! ### Small facts about the parts -/

@[simp] theorem pushRtt_cfg (t : PeerTrack F) (rtt : ℕ) : (t.pushRtt rtt).cfg = t.cfg := rfl

@[simp] theorem pushRtt_accepted (t : PeerTrack F) (rtt : ℕ) :
    (t.pushRtt rtt).accepted = t.accepted := rfl

@[simp] theorem pushRtt_suspect (t : PeerTrack F) (rtt : ℕ) :
    (t.pushRtt rtt).suspect = t.suspect := rfl

@[simp] theorem absorb_accepted (t : PeerTrack F) (mid rtt : ℕ) (excess : F) (twist : TwistIndex) :
    (t.absorb mid rtt excess twist).accepted = t.accepted + 1 := by
  dsimp only [absorb]
  split <;> rfl

@[simp] theorem absorb_lastNs (t : PeerTrack F) (mid rtt : ℕ) (excess : F) (twist : TwistIndex) :
    (t.absorb mid rtt excess twist).lastNs = mid := rfl

@[simp] theorem absorb_last (t : PeerTrack F) (mid rtt : ℕ) (excess : F) (twist : TwistIndex) :
    (t.absorb mid rtt excess twist).last = some twist := rfl

@[simp] theorem absorb_cfg (t : PeerTrack F) (mid rtt : ℕ) (excess : F) (twist : TwistIndex) :
    (t.absorb mid rtt excess twist).cfg = t.cfg := by
  dsimp only [absorb]
  split <;> rfl

@[simp] theorem absorb_rtts (t : PeerTrack F) (mid rtt : ℕ) (excess : F) (twist : TwistIndex) :
    (t.absorb mid rtt excess twist).rtts = t.rtts := by
  dsimp only [absorb]
  split <;> rfl

@[simp] theorem absorb_suspect (t : PeerTrack F) (mid rtt : ℕ) (excess : F) (twist : TwistIndex) :
    (t.absorb mid rtt excess twist).suspect = t.suspect := by
  dsimp only [absorb]
  split <;> rfl

@[simp] theorem absorb_rejected (t : PeerTrack F) (mid rtt : ℕ) (excess : F) (twist : TwistIndex) :
    (t.absorb mid rtt excess twist).rejected = t.rejected := by
  dsimp only [absorb]
  split <;> rfl

@[simp] theorem absorb_steps (t : PeerTrack F) (mid rtt : ℕ) (excess : F) (twist : TwistIndex) :
    (t.absorb mid rtt excess twist).steps = t.steps := by
  dsimp only [absorb]
  split <;> rfl

/-! ### What one exchange can do -/

/-- The excess an exchange is judged by: its own round trip is in the window. -/
def judgedExcess (t : PeerTrack F) (e : Exchange) : F := (t.pushRtt e.rttU64).excess e.rttU64

/-- The track a first jump leaves. -/
def doubt (t : PeerTrack F) (e : Exchange) : PeerTrack F :=
  { t.pushRtt e.rttU64 with suspect := 1 }

/-- The track a second jump in a row is absorbed into. -/
def restart (t : PeerTrack F) (e : Exchange) : PeerTrack F :=
  { t with steps := t.steps + 1, accepted := 0, rtts := [e.rttU64], suspect := 0 }

/-- The track an ordinary exchange is absorbed into: past the warm-up it clears the suspicion. -/
def settle (t : PeerTrack F) (e : Exchange) : PeerTrack F :=
  { t.pushRtt e.rttU64 with suspect := if t.cfg.warmup ≤ t.accepted then 0 else t.suspect }

/-- An exchange that gets past the first two checks. -/
structure InOrder (t : PeerTrack F) (e : Exchange) : Prop where
  positive : e.Positive
  fresh : ¬ t.Stale e

/-- The exchange is past the popcorn filter's limit. -/
def Popcorn (t : PeerTrack F) (e : Exchange) : Prop :=
  t.cfg.warmup ≤ t.accepted ∧
    F64.lt ((t.pushRtt e.rttU64).popcornLimit e.rttU64) (t.judgedExcess e) = true

/-- The offset of the exchange jumped. -/
def Stepped (t : PeerTrack F) (e : Exchange) : Prop :=
  t.cfg.warmup ≤ t.accepted ∧
    (t.pushRtt e.rttU64).isStep e.mid (t.judgedExcess e) (.fromExchange e) = true

/-- An exchange that gets past the popcorn filter too. -/
structure Quiet (t : PeerTrack F) (e : Exchange) : Prop extends t.InOrder e where
  calm : ¬ t.Popcorn e

/-- The track an accepted exchange leaves. -/
def absorbed (t base : PeerTrack F) (e : Exchange) : PeerTrack F :=
  base.absorb e.mid e.rttU64 (t.judgedExcess e) (.fromExchange e)

/-- The exits of `observe`, each with what was found on the way there. -/
inductive Outcome (t : PeerTrack F) (e : Exchange) : Observation F → PeerTrack F → Prop
  | nonPositive (notPositive : ¬ e.Positive) :
      Outcome t e (.rejected .nonPositiveRtt) t.countRejected
  | outOfOrder (positive : e.Positive) (stale : t.Stale e) :
      Outcome t e (.rejected .outOfOrder) t.countRejected
  | popcorn (inOrder : t.InOrder e) (popcorn : t.Popcorn e) :
      Outcome t e (.rejected (.popcorn (F64.toU64 (t.judgedExcess e))))
        (t.pushRtt e.rttU64).countRejected
  | step (quiet : t.Quiet e) (stepped : t.Stepped e) (first : t.suspect = 0) :
      Outcome t e
        (.rejected (.step (F64.toI64 ((t.pushRtt e.rttU64).jump e.mid (.fromExchange e)))))
        (t.doubt e).countRejected
  | settled (relation : Relation F) (quiet : t.Quiet e) (still : ¬ t.Stepped e)
      (found : (t.absorbed (t.settle e) e).relation = some relation) :
      Outcome t e (.accepted (.fromExchange e) relation false) (t.absorbed (t.settle e) e)
  | restarted (relation : Relation F) (quiet : t.Quiet e) (stepped : t.Stepped e)
      (second : 1 ≤ t.suspect)
      (found : (t.absorbed (t.restart e) e).relation = some relation) :
      Outcome t e (.accepted (.fromExchange e) relation true) (t.absorbed (t.restart e) e)

/-- The relation of a track that just absorbed an exchange is there. -/
theorem absorb_relation (t : PeerTrack F) (mid rtt : ℕ) (excess : F) (twist : TwistIndex) :
    ∃ relation, (t.absorb mid rtt excess twist).relation = some relation ∧ relation.atNs = mid := by
  simp [relation]

/-- The step check on the judged track, in the words of `Outcome`. -/
theorem checkStep_eq (t : PeerTrack F) (e : Exchange) :
    ((t.pushRtt e.rttU64).checkStep e.mid e.rttU64 (t.judgedExcess e) (.fromExchange e) =
        .error (F64.toI64 ((t.pushRtt e.rttU64).jump e.mid (.fromExchange e)), t.doubt e) ∧
        t.Stepped e ∧ t.suspect = 0) ∨
      ((t.pushRtt e.rttU64).checkStep e.mid e.rttU64 (t.judgedExcess e) (.fromExchange e) =
        .ok (t.settle e, false) ∧ ¬ t.Stepped e) ∨
      ((t.pushRtt e.rttU64).checkStep e.mid e.rttU64 (t.judgedExcess e) (.fromExchange e) =
        .ok (t.restart e, true) ∧ t.Stepped e ∧ 1 ≤ t.suspect) := by
  unfold checkStep
  split_ifs with warm jumped first
  · have none : t.suspect = 0 := by
      have below : t.suspect + 1 < 2 := first
      omega
    refine Or.inl ⟨?_, ⟨warm, jumped⟩, none⟩
    rw [show (t.pushRtt e.rttU64).suspect + 1 = 1 by rw [pushRtt_suspect, none], doubt]
  · have some : ¬ t.suspect + 1 < 2 := first
    exact Or.inr (Or.inr ⟨rfl, ⟨warm, jumped⟩, by omega⟩)
  · refine Or.inr (Or.inl ⟨?_, fun stepped => jumped stepped.2⟩)
    rw [settle, if_pos (show t.cfg.warmup ≤ t.accepted from warm)]
  · refine Or.inr (Or.inl ⟨?_, fun stepped => warm stepped.1⟩)
    rw [settle, if_neg (show ¬ t.cfg.warmup ≤ t.accepted from warm)]
    rfl

/-- **Every exchange leaves `observe` by one of its exits, and never fails.** -/
theorem observe_outcome (t : PeerTrack F) (e : Exchange) :
    ∃ o t', t.observe e = some (o, t') ∧ Outcome t e o t' := by
  by_cases notPositive : e.rtt ≤ 0 ∨ e.t4 < e.t1
  · exact ⟨_, _, if_pos notPositive, .nonPositive (not_not.mpr notPositive)⟩
  by_cases stale : 0 < t.accepted ∧ e.mid ≤ t.lastNs
  · exact ⟨_, _, by rw [observe, if_neg notPositive, if_pos stale], .outOfOrder notPositive stale⟩
  have judged : t.observe e = (t.pushRtt e.rttU64).judge e :=
    (if_neg notPositive).trans (if_neg stale)
  rw [judged]
  by_cases popcorn : t.Popcorn e
  · exact ⟨_, _, if_pos popcorn, .popcorn ⟨notPositive, stale⟩ popcorn⟩
  have quiet : t.Quiet e := ⟨⟨notPositive, stale⟩, popcorn⟩
  have passed : (t.pushRtt e.rttU64).judge e = _ := if_neg popcorn
  rw [passed]
  obtain ⟨eq, stepped, first⟩ | ⟨eq, still⟩ | ⟨eq, stepped, second⟩ := t.checkStep_eq e
  · refine ⟨_, _, ?_, .step quiet stepped first⟩
    rw [← judgedExcess, eq]
  · obtain ⟨relation, found, _⟩ :
        ∃ relation, (t.absorbed (t.settle e) e).relation = some relation ∧ relation.atNs = e.mid :=
      absorb_relation _ _ _ _ _
    refine ⟨_, _, ?_, .settled relation quiet still found⟩
    rw [← judgedExcess, eq]
    simp only [absorbed] at found ⊢
    simp [found]
  · obtain ⟨relation, found, _⟩ :
        ∃ relation, (t.absorbed (t.restart e) e).relation = some relation ∧ relation.atNs = e.mid :=
      absorb_relation _ _ _ _ _
    refine ⟨_, _, ?_, .restarted relation quiet stepped second found⟩
    rw [← judgedExcess, eq]
    simp only [absorbed] at found ⊢
    simp [found]

theorem outcome_of_observe {t t' : PeerTrack F} {e : Exchange} {o : Observation F}
    (eq : t.observe e = some (o, t')) : Outcome t e o t' := by
  obtain ⟨o', t'', eq', outcome⟩ := t.observe_outcome e
  obtain ⟨rfl, rfl⟩ : o' = o ∧ t'' = t' := by simpa [eq] using eq'.symm
  exact outcome

end PeerTrack

end Rtfsn
