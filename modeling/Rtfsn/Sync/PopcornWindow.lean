/-
**The popcorn filter does not lock a peer out.**

Rejected round trips enter the window too. Once as many exchanges in order as the window holds came
in one after the other, the floor is theirs alone, and the last of them is judged by its own kind.

* `Observation.ordered`: the answers to exchanges in order, whatever became of them
  (`Outcome.ordered_iff`).
* `Recent`: the newest round trips of a log lie above a bound. `Recent.run`: so they do after any
  run of exchanges above it, and there is one for each in order unless a restart dropped the rest.
* `run_not_popcorn`: the last of them is not rejected as popcorn.
-/
import Rtfsn.Sync.TrackRestart
import Rtfsn.Sync.TrackRuns

set_option linter.unusedSectionVars false

namespace Rtfsn

variable {F : Type} [F64 F]

/-- The answer to an exchange in order: its round trip entered the window. -/
def Observation.ordered : Observation F → Bool
  | .rejected .nonPositiveRtt => false
  | .rejected .outOfOrder => false
  | .rejected (.popcorn _) => true
  | .rejected (.step _) => true
  | .accepted _ _ _ => true

namespace PeerTrack

/-- The answers so marked are those to the exchanges in order. -/
theorem Outcome.ordered_iff {t t' : PeerTrack F} {e : Exchange} {o : Observation F}
    (outcome : Outcome t e o t') : o.ordered = true ↔ t.InOrder e := by
  cases outcome with
  | nonPositive notPositive =>
    exact iff_of_false Bool.false_ne_true fun inOrder => notPositive inOrder.positive
  | outOfOrder _ stale =>
    exact iff_of_false Bool.false_ne_true fun inOrder => inOrder.fresh stale
  | popcorn inOrder _ => exact iff_of_true rfl inOrder
  | step quiet _ _ => exact iff_of_true rfl quiet.toInOrder
  | settled _ quiet _ _ => exact iff_of_true rfl quiet.toInOrder
  | restarted _ quiet _ _ _ => exact iff_of_true rfl quiet.toInOrder

/-! ### The newest round trips -/

/-- The newest round trips are at least `r`, and `count` of them or all there are. -/
def Recent (r : ℝ) (count : ℕ) (roundTrips : List ℕ) : Prop :=
  ∃ old recent, roundTrips = old ++ recent ∧ (∀ rtt ∈ recent, r ≤ rtt) ∧
    (old = [] ∨ count ≤ recent.length)

theorem Recent.start (r : ℝ) (roundTrips : List ℕ) : Recent r 0 roundTrips :=
  ⟨roundTrips, [], by simp, by simp, Or.inr le_rfl⟩

/-- One more round trip. -/
theorem Recent.snoc {r : ℝ} {count : ℕ} {roundTrips : List ℕ} (recent : Recent r count roundTrips)
    {rtt : ℕ} (above : r ≤ rtt) : Recent r (count + 1) (roundTrips ++ [rtt]) := by
  obtain ⟨old, new, rfl, high, enough⟩ := recent
  refine ⟨old, new ++ [rtt], List.append_assoc _ _ _, fun x listed => ?_, ?_⟩
  · rcases List.mem_append.mp listed with earlier | last
    · exact high x earlier
    · exact List.mem_singleton.mp last ▸ above
  · rw [List.length_append, List.length_singleton]
    exact enough.imp_right fun counted => by omega

/-- A restart leaves one round trip. -/
theorem Recent.restart {r : ℝ} {rtt : ℕ} (above : r ≤ rtt) (count : ℕ) : Recent r count [rtt] :=
  ⟨[], [rtt], rfl, fun _ listed => List.mem_singleton.mp listed ▸ above, Or.inl rfl⟩

theorem Recent.record {r : ℝ} {count : ℕ} {log : Log} (recent : Recent r count log.roundTrips)
    {e : Exchange} {o : Observation F} (above : o.ordered = true → r ≤ e.rttU64) :
    Recent r (count + [o].countP Observation.ordered) (log.record e o).roundTrips := by
  cases o with
  | rejected reason =>
    cases reason with
    | nonPositiveRtt => exact recent
    | outOfOrder => exact recent
    | popcorn _ => exact recent.snoc (above rfl)
    | step _ => exact recent.snoc (above rfl)
  | accepted _ _ restarted =>
    cases restarted with
    | false => exact recent.snoc (above rfl)
    | true => exact Recent.restart (above rfl) _

/-- **A run of exchanges above a bound fills the window with them.** -/
theorem Recent.run {r : ℝ} {history later : List (Exchange × Observation F)} {count : ℕ}
    (recent : Recent r count (Log.of history).roundTrips)
    (above : ∀ entry ∈ later, entry.2.ordered = true → r ≤ entry.1.rttU64) :
    Recent r (count + (later.map Prod.snd).countP Observation.ordered)
      (Log.of (history ++ later)).roundTrips := by
  induction later generalizing history count with
  | nil => simpa using recent
  | cons entry later ih =>
    have first := recent.record (above entry List.mem_cons_self)
    rw [← Log.of_snoc] at first
    have rest := ih first fun entry' listed => above entry' (List.mem_cons_of_mem _ listed)
    rw [List.append_cons, List.map_cons, ← List.singleton_append, List.countP_append, ← add_assoc]
    exact rest

/-- A window no longer than the newest round trips holds nothing below the bound. -/
theorem Recent.window {r : ℝ} {count : ℕ} {roundTrips : List ℕ} (recent : Recent r count roundTrips)
    {n : ℕ} (enough : n ≤ count) : ∀ rtt ∈ roundTrips.rtake n, r ≤ rtt := by
  obtain ⟨old, new, rfl, high, counted⟩ := recent
  intro rtt listed
  rcases counted with rfl | counted
  · exact high rtt (List.mem_of_mem_drop listed)
  · rw [List.rtake, List.length_append, List.drop_append] at listed
    rcases List.mem_append.mp listed with early | late
    · rw [List.drop_eq_nil_of_le (by omega)] at early
      exact absurd early List.not_mem_nil
    · exact high rtt (List.mem_of_mem_drop late)

/-! ### The filter -/

/-- The round trip is positive, fits in 64 bits, and lies in the band above `r` that the filter
allows over a floor of `r`. -/
structure InBand (cfg : TrackConfig ℝ) (r : ℝ) (e : Exchange) : Prop where
  positive : 0 < e.rtt
  fits : e.rtt < 2 ^ 64
  above : r ≤ (e.rtt : ℝ)
  below : (e.rtt : ℝ) ≤ r + max cfg.popcornNs (cfg.popcornRatio * r)

theorem InBand.rttU64 {cfg : TrackConfig ℝ} {r : ℝ} {e : Exchange} (band : InBand cfg r e) :
    (e.rttU64 : ℝ) = e.rtt := by
  have kept : (e.rttU64 : ℤ) = e.rtt :=
    wrapU64_eq_iff.mpr ⟨band.positive.le, by have fits := band.fits; unfold maxU64; omega⟩
  exact_mod_cast kept

/-- An exchange in the band is no popcorn over a window above `r`. -/
theorem InBand.calm {cfg : TrackConfig ℝ} {r : ℝ} {e : Exchange} (band : InBand cfg r e)
    (ratio : 0 ≤ cfg.popcornRatio) {t : PeerTrack ℝ} (config : t.cfg = cfg)
    (high : ∀ rtt ∈ (t.pushRtt e.rttU64).rtts, r ≤ rtt) : ¬ t.Popcorn e := by
  obtain ⟨floor, found, most⟩ := floor_le_pushed t e.rttU64
  have floored : (t.pushRtt e.rttU64).floor e.rttU64 = floor := by
    rw [PeerTrack.floor, found, Option.getD_some]
  have bottom : r ≤ floor := high floor (List.min?_mem found)
  rintro ⟨_, exceeds⟩
  rw [judgedExcess, excess, popcornLimit, floored, F64.lt_real, decide_eq_true_eq] at exceeds
  simp only [F64.ofNat_real, F64.max_real, pushRtt_cfg, config, Nat.cast_sub most, band.rttU64]
    at exceeds
  -- The higher the floor, the smaller the excess and the larger the limit.
  have limit : cfg.popcornRatio * r ≤ cfg.popcornRatio * floor :=
    mul_le_mul_of_nonneg_left bottom ratio
  have wider := max_le_max_left cfg.popcornNs limit
  have below := band.below
  linarith

/-- The log of a run and of another after it. -/
theorem follows_run {cfg : TrackConfig F} {history : List (Exchange × Observation F)}
    {t t' : PeerTrack F} (follows : Follows cfg (Log.of history) t) {es : List Exchange}
    {os : List (Observation F)} (went : t.run es = some (os, t')) :
    es.length = os.length ∧ Follows cfg (Log.of (history ++ es.zip os)) t' := by
  have keep : ∀ is answers (t : PeerTrack F) e o t',
      is.length = answers.length ∧ Follows cfg (Log.of (history ++ is.zip answers)) t →
      t.observe e = some (o, t') → (is ++ [e]).length = (answers ++ [o]).length ∧
        Follows cfg (Log.of (history ++ (is ++ [e]).zip (answers ++ [o]))) t' := by
    rintro is answers t e o t' ⟨length, held⟩ goes
    refine ⟨by simp [length], ?_⟩
    rw [List.zip_append length, ← List.append_assoc]
    exact Log.of_snoc (history ++ is.zip answers) e o ▸
      follows_outcome held (outcome_of_observe goes)
  have final := Machine.run_induction (fun is answers t => is.length = answers.length ∧
    Follows cfg (Log.of (history ++ is.zip answers)) t) keep [] [] ⟨rfl, by simpa using follows⟩
    went
  simpa using final

/-- **The popcorn filter does not lock a peer out.** Take any run before, and after it any run of
exchanges, those in order all in one band and at least as many as the window holds. The last of them
is not rejected as popcorn, whether or not a restart happened among them. -/
theorem run_not_popcorn {cfg : TrackConfig ℝ} (ratio : 0 ≤ cfg.popcornRatio)
    {before during : List Exchange} {last : Exchange} {os os' : List (Observation ℝ)}
    {o : Observation ℝ} {t t' t'' : PeerTrack ℝ} (ran : (new cfg).run before = some (os, t))
    (went : t.run during = some (os', t')) (goes : t'.observe last = some (o, t''))
    (enough : max cfg.floorWindow 1 ≤ (os' ++ [o]).countP Observation.ordered) {r : ℝ}
    (band : ∀ entry ∈ (during ++ [last]).zip (os' ++ [o]), entry.2.ordered = true →
      InBand cfg r entry.1) : ∀ excessNs, o ≠ .rejected (.popcorn excessNs) := by
  rintro excessNs rfl
  have new : Follows cfg (Log.of ([] : List (Exchange × Observation ℝ))) (new cfg) :=
    follows_new cfg
  have follows : Follows cfg (Log.of (before.zip os)) t := (follows_run new ran).2
  obtain ⟨length, follows'⟩ := follows_run follows went
  rw [List.zip_append length] at band
  have lastBand : InBand cfg r last := band _ (List.mem_append_right _ List.mem_cons_self) rfl
  have start : Recent r 0 (Log.of (before.zip os)).roundTrips := Recent.start r _
  have above : ∀ entry ∈ during.zip os', entry.2.ordered = true → r ≤ entry.1.rttU64 := by
    intro entry listed ordered
    have inside := band entry (List.mem_append_left _ listed) ordered
    exact inside.rttU64 ▸ inside.above
  have recent := start.run above
  rw [List.map_snd_zip length.ge, zero_add] at recent
  have lastAbove : r ≤ last.rttU64 := lastBand.rttU64 ▸ lastBand.above
  have full := recent.snoc lastAbove
  have outcome := outcome_of_observe goes
  generalize answer : Observation.rejected (.popcorn excessNs) = o at outcome enough
  cases outcome with
  | popcorn inOrder popcorn =>
    refine lastBand.calm ratio follows'.config ?_ popcorn
    rw [pushRtt_floor follows']
    exact full.window (by simpa [List.countP_append, Observation.ordered] using enough)
  | _ => cases answer

/-- A window of one: an exchange past the warm-up whose round trip is five hundred times the floor
is not popcorn, the floor being its own. -/
theorem run_not_popcorn_slow : ∃ os t o t',
    (new steppingConfig).run [⟨0, 1, 1, 2⟩] = some (os, t) ∧
    t.observe ⟨10, 11, 11, 1010⟩ = some (o, t') ∧
    ∀ excessNs, o ≠ .rejected (.popcorn excessNs) := by
  obtain ⟨relation, accepted, _⟩ := observe_new (show 1 ≤ steppingConfig.warmup from le_rfl)
    (show (⟨0, 1, 1, 2⟩ : Exchange).Positive by decide)
  generalize absorbed : (new steppingConfig).absorbed ((new steppingConfig).settle ⟨0, 1, 1, 2⟩)
    ⟨0, 1, 1, 2⟩ = t at accepted
  have last : t.lastNs = 1 := absorbed ▸ rfl
  have ran : (new steppingConfig).run [⟨0, 1, 1, 2⟩] =
      some ([.accepted (.fromExchange ⟨0, 1, 1, 2⟩) relation false], t) := by
    rw [run, Machine.run_cons accepted]
    rfl
  obtain ⟨o, t', goes, outcome⟩ := t.observe_outcome ⟨10, 11, 11, 1010⟩
  have ordered : o.ordered = true := by
    refine outcome.ordered_iff.mpr ⟨by decide, fun stale => ?_⟩
    have late := stale.2
    rw [last] at late
    exact absurd late (by decide)
  have inBand : InBand steppingConfig 1000 ⟨10, 11, 11, 1010⟩ := by
    refine ⟨by decide, by decide, ?_, ?_⟩ <;> norm_num [Exchange.rtt, steppingConfig]
  have band : ∀ entry ∈ ([] ++ [(⟨10, 11, 11, 1010⟩ : Exchange)]).zip ([] ++ [o]),
      entry.2.ordered = true → InBand steppingConfig 1000 entry.1 := by
    intro entry listed _
    obtain rfl := List.mem_singleton.mp listed
    exact inBand
  have enough : max steppingConfig.floorWindow 1 ≤ ([] ++ [o]).countP Observation.ordered := by
    simp [steppingConfig, ordered]
  exact ⟨_, t, o, t', ran, goes,
    run_not_popcorn le_rfl ran (Machine.run_nil _ t) goes enough band⟩

end PeerTrack

end Rtfsn
