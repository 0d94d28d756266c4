/-
**What a clock's offset and drift are fitted to.**

* `run_samples`: whatever the calls, the samples are those of the newest exchanges with a positive
  delay, up to 64 of them.
* `recompute_eq`: the regression takes the line through the weighted means, with the slope of the
  normal equation where the times are spread enough and zero else.
* `run_regression`: so offset and drift have the least cost over those exchanges, and exchanges on
  a line are fitted by it.
-/
import Rtfsn.Lib.LineFit
import Rtfsn.Lib.Window
import Rtfsn.Sync.Clock

namespace Rtfsn

open LineFit

/-- What the regression reads of a sample. -/
def ClockSample.datum (s : ClockSample ℝ) : Datum ℝ := ⟨s.weight, s.time, s.offset⟩

/-- The sample of an exchange: the weight is the inverse of the delay. -/
noncomputable def TimeExchange.sample (e : TimeExchange ℝ) (localTime : ℝ) : ClockSample ℝ :=
  ⟨localTime, e.offset, 1 / e.roundTripDelay⟩

namespace ClockState

/-- A sequence of calls of `addExchange`, each with its local time. -/
def run {F : Type} [F64 F] (state : ClockState F) (calls : List (TimeExchange F × F)) :
    ClockState F :=
  calls.foldl (fun state call => state.addExchange call.1 call.2) state

/-! ### The samples -/

/-- The newest exchanges with a positive delay, as the regression reads them. -/
noncomputable def newest (calls : List (TimeExchange ℝ × ℝ)) : List (Datum ℝ) :=
  ((calls.filter fun call => 0 < call.1.roundTripDelay).map fun call =>
    (call.1.sample call.2).datum).rtake maxSamples

variable {calls : List (TimeExchange ℝ × ℝ)} {e : TimeExchange ℝ} {localTime : ℝ}

theorem newest_ignored (late : e.roundTripDelay ≤ 0) :
    newest (calls ++ [(e, localTime)]) = newest calls := by
  simp [newest, List.filter_append, late.not_gt]

theorem newest_kept (positive : 0 < e.roundTripDelay) :
    newest (calls ++ [(e, localTime)]) =
      (newest calls ++ [(e.sample localTime).datum]).rtake maxSamples := by
  rw [newest, newest, Window.rtake_snoc, List.filter_append, List.map_append]
  simp [positive]

theorem newest_weighted (calls : List (TimeExchange ℝ × ℝ)) : Weighted (newest calls) := by
  intro d listed
  obtain ⟨call, member, rfl⟩ := List.mem_map.mp (List.mem_of_mem_drop listed)
  have positive : 0 < call.1.roundTripDelay := by simpa using (List.mem_filter.mp member).2
  exact one_div_pos.mpr positive

theorem addExchange_ignored (state : ClockState ℝ) (late : e.roundTripDelay ≤ 0) :
    state.addExchange e localTime = state := by
  rw [addExchange, F64.le_real]
  exact if_pos (decide_eq_true late)

theorem recompute_samples (state : ClockState ℝ) : state.recompute.samples = state.samples := by
  unfold recompute
  split <;> rfl

/-- The samples with that of an exchange put last, and the oldest left out where they are many. -/
noncomputable def pushed (state : ClockState ℝ) (e : TimeExchange ℝ) (localTime : ℝ) :
    List (ClockSample ℝ) :=
  (state.samples ++ [e.sample localTime]).rtake maxSamples

/-- The state of a kept exchange: fitted again, after the samples took it in. -/
theorem addExchange_kept {state : ClockState ℝ} (positive : 0 < e.roundTripDelay)
    (room : state.samples.length ≤ maxSamples) :
    state.addExchange e localTime =
      { recompute { state with samples := state.pushed e localTime } with
        lastUpdate := localTime } := by
  have trimmed := Window.drop_one_eq_rtake
    (show (state.samples ++ [e.sample localTime]).length ≤ maxSamples + 1 by simpa using room)
  have late : ¬ F64.le e.roundTripDelay 0 = true := by simpa using positive
  rw [pushed, ← trimmed]
  exact if_neg late

theorem room_of_samples {state : ClockState ℝ}
    (samples : state.samples.map ClockSample.datum = newest calls) :
    state.samples.length ≤ maxSamples := by
  rw [← List.length_map ClockSample.datum, samples]
  exact Window.length_rtake_le _ _

theorem map_pushed {state : ClockState ℝ}
    (samples : state.samples.map ClockSample.datum = newest calls)
    (positive : 0 < e.roundTripDelay) :
    (state.pushed e localTime).map ClockSample.datum = newest (calls ++ [(e, localTime)]) := by
  rw [newest_kept positive, ← samples]
  simp [pushed, List.rtake, List.map_drop]

/-- **The samples are the newest exchanges**, whatever the calls. -/
theorem run_samples (calls : List (TimeExchange ℝ × ℝ)) :
    ((new : ClockState ℝ).run calls).samples.map ClockSample.datum = newest calls := by
  induction calls using List.reverseRecOn with
  | nil => rfl
  | append_singleton calls call ih =>
    obtain ⟨e, localTime⟩ := call
    rw [run, List.foldl_concat, ← run]
    rcases le_or_gt e.roundTripDelay 0 with late | positive
    · rw [addExchange_ignored _ late, newest_ignored late, ih]
    · rw [addExchange_kept positive (room_of_samples ih), ← map_pushed ih positive]
      exact congrArg _ (recompute_samples _)

/-! ### The fit -/

/-- The slope that is fitted: none where the times are not spread enough. -/
noncomputable def fittedSlope (data : List (Datum ℝ)) : ℝ :=
  if 1e-20 < spread data then covariation data / spread data else 0

theorem fittedSlope_normal {data : List (Datum ℝ)} (weighted : Weighted data)
    (clear : spread data = 0 ∨ 1e-20 < spread data) :
    fittedSlope data * spread data = covariation data := by
  rcases clear with together | apart
  · rw [together, mul_zero, weighted.covariation_eq_zero together]
  · have positive : 0 < spread data := lt_trans (by norm_num) apart
    rw [fittedSlope, if_pos apart, div_mul_cancel₀ _ positive.ne']

/-- Two sums in one pass. -/
theorem foldl_both {A : Type} (f g : A → ℝ) (xs : List A) (a b : ℝ) :
    xs.foldl (fun acc x => (acc.1 + f x, acc.2 + g x)) (a, b) =
      (a + (xs.map f).sum, b + (xs.map g).sum) := by
  induction xs generalizing a b with
  | nil => simp
  | cons x xs ih =>
    rw [List.foldl_cons, ih]
    simp [add_assoc]

section Sums

variable (samples : List (ClockSample ℝ))

theorem mean_times :
    (samples.map fun s => s.weight * s.time).sum / (samples.map fun s => s.weight).sum =
      meanPosition (samples.map ClockSample.datum) := by
  simp [meanPosition, moment, ClockSample.datum, Function.comp_def]

theorem mean_offsets :
    (samples.map fun s => s.weight * s.offset).sum / (samples.map fun s => s.weight).sum =
      meanValue (samples.map ClockSample.datum) := by
  simp [meanValue, moment, ClockSample.datum, Function.comp_def]

theorem sum_times_about (c : ℝ) :
    (samples.map fun s => s.weight * (s.time - c) * (s.time - c)).sum =
      ((samples.map ClockSample.datum).map fun d => d.weight * (d.position - c) ^ 2).sum := by
  simp [ClockSample.datum, Function.comp_def, sq, mul_assoc]

theorem sum_offsets_about (c e : ℝ) :
    (samples.map fun s => s.weight * (s.time - c) * (s.offset - e)).sum =
      ((samples.map ClockSample.datum).map fun d =>
        d.weight * (d.position - c) * (d.value - e)).sum := by
  simp [ClockSample.datum, Function.comp_def]

end Sums

/-- **The line that is fitted** goes through the weighted means. -/
theorem recompute_eq (state : ClockState ℝ) (some : state.samples ≠ [])
    (weighted : Weighted (state.samples.map ClockSample.datum)) :
    state.recompute.driftRate = fittedSlope (state.samples.map ClockSample.datum) ∧
      state.recompute.offset = meanValue (state.samples.map ClockSample.datum) -
        fittedSlope (state.samples.map ClockSample.datum) *
          meanPosition (state.samples.map ClockSample.datum) := by
  obtain ⟨offset, driftRate, uncertainty, lastUpdate, samples⟩ := state
  dsimp only at *
  match samples with
  | [] => exact absurd rfl some
  | [s] =>
    have heavy : s.weight ≠ 0 := (weighted s.datum (List.mem_singleton.mpr rfl)).ne'
    have mean : meanPosition [s.datum] = s.time := by
      simp [meanPosition, moment, ClockSample.datum, heavy]
    have value : meanValue [s.datum] = s.offset := by
      simp [meanValue, moment, ClockSample.datum, heavy]
    have together : spread [s.datum] = 0 := by
      simp [spread, mean]
      simp [ClockSample.datum]
    have flat : fittedSlope [s.datum] = 0 := by
      rw [fittedSlope, together, if_neg (by norm_num)]
    rw [List.map_singleton, flat, value, zero_mul, sub_zero]
    exact ⟨rfl, rfl⟩
  | s :: s' :: rest =>
    unfold recompute
    dsimp only
    generalize s :: s' :: rest = samples at *
    rw [foldl_both]
    simp only [F64.sum_real, F64.lt_real, F64.lit_real, F64.abs_real, zero_add]
    rw [mean_times, mean_offsets, sum_times_about, sum_offsets_about, ← spread, ← covariation,
      abs_of_nonneg weighted.spread_nonneg, fittedSlope]
    norm_num only [decide_eq_true_eq]
    split_ifs
    · exact ⟨rfl, rfl⟩
    · exact ⟨rfl, by rw [zero_mul, sub_zero]⟩

/-- Offset and drift are the least squares fit of the data, as far as the times are spread. -/
structure Regresses (data : List (Datum ℝ)) (state : ClockState ℝ) : Prop where
  least : spread data = 0 ∨ 1e-20 < spread data →
    ∀ a b, cost data state.offset state.driftRate ≤ cost data a b
  unique : 1e-20 < spread data →
    ∀ a b, cost data a b ≤ cost data state.offset state.driftRate →
      a = state.offset ∧ b = state.driftRate
  predicts : 1e-20 < spread data →
    ∀ a b, (∀ d ∈ data, d.value = a + b * d.position) →
      ∀ time, state.predict time = a + b * time

theorem regresses_of_line {data : List (Datum ℝ)} (weighted : Weighted data) (some : data ≠ [])
    {state : ClockState ℝ} (slope : state.driftRate = fittedSlope data)
    (through : state.offset = meanValue data - fittedSlope data * meanPosition data) :
    Regresses data state where
  least clear a b := by
    rw [slope, through]
    exact cost_le weighted some (fittedSlope_normal weighted clear) a b
  unique apart a b least := by
    rw [slope, through] at least ⊢
    exact eq_of_cost_le weighted some (fittedSlope_normal weighted (Or.inr apart))
      (lt_trans (by norm_num) apart) least
  predicts apart a b onLine time := by
    obtain ⟨sameOffset, sameSlope⟩ := eq_of_on_line weighted some
      (fittedSlope_normal weighted (Or.inr apart)) (lt_trans (by norm_num) apart) onLine
    rw [predict, slope, through, ← sameSlope, sameOffset, sameSlope]

/-- **The regression.** Whatever the calls before: an exchange without a positive round trip leaves
the state as it is, and after any other offset and drift fit the newest exchanges that were kept. -/
theorem run_regression (calls : List (TimeExchange ℝ × ℝ)) (e : TimeExchange ℝ)
    (localTime : ℝ) :
    (e.roundTripDelay ≤ 0 →
      (new.run calls).addExchange e localTime = new.run calls) ∧
    (0 < e.roundTripDelay →
      Regresses (newest (calls ++ [(e, localTime)]))
        ((new.run calls).addExchange e localTime)) := by
  refine ⟨addExchange_ignored _, fun positive => ?_⟩
  have samples := run_samples calls
  have pushed : ((new.run calls).pushed e localTime).map ClockSample.datum =
      newest (calls ++ [(e, localTime)]) := map_pushed samples positive
  have some : newest (calls ++ [(e, localTime)]) ≠ [] := by
    rw [newest_kept positive]
    exact List.ne_nil_of_mem (Window.mem_rtake_snoc _ _ (by decide))
  obtain ⟨slope, through⟩ := recompute_eq
    { new.run calls with samples := (new.run calls).pushed e localTime }
    (fun none => some (pushed.symm.trans (congrArg _ none))) (pushed ▸ newest_weighted _)
  rw [pushed] at slope through
  rw [addExchange_kept positive (room_of_samples samples)]
  exact regresses_of_line (newest_weighted _) some slope through

/-- Two exchanges of a clock that gains a second in a second. -/
theorem run_regression_gaining (time : ℝ) :
    ((new.run [(⟨0, 1, 1, 2⟩, 0)]).addExchange ⟨0, 2, 2, 2⟩ 1).predict time = 0 + 1 * time := by
  have data : newest ([(⟨0, 1, 1, 2⟩, 0)] ++ [(⟨0, 2, 2, 2⟩, 1)]) =
      [⟨1 / 2, 0, 0⟩, ⟨1 / 2, 1, 1⟩] := by
    norm_num [newest, TimeExchange.roundTripDelay, TimeExchange.sample, TimeExchange.offset,
      ClockSample.datum, maxSamples, List.rtake]
  have regresses := (run_regression [(⟨0, 1, 1, 2⟩, 0)] ⟨0, 2, 2, 2⟩ 1).2
    (by norm_num [TimeExchange.roundTripDelay])
  rw [data] at regresses
  refine regresses.predicts ?_ 0 1 ?_ time
  · norm_num [spread, meanPosition, moment]
  · norm_num

end ClockState

end Rtfsn
