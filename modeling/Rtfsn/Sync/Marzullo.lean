/-
Marzullo's algorithm: where most of the confidence intervals meet.

* `marzullo`: the sweep over the sorted end points, with the candidate start and the best interval
  so far. The decrement of the counter is checked: the outer `none` is the panic of an underflow.
  `f64::NAN`, which the three points start as, is an argument.
* `Swept`: what the state says of the events behind it. `Swept.next`: every event keeps it.
* `marzullo_spec`: what the algorithm finds.
-/
import Rtfsn.Lib.Sweep

set_option linter.unusedSectionVars false

namespace Rtfsn

structure TimeInterval (α : Type) where
  low : α
  high : α
deriving DecidableEq

namespace Marzullo

open Sweep

variable {α : Type} [LinearOrder α]

/-- The order of the events: by the point, and starts before ends at the same point. -/
def compareEvents (a b : Event α) : Ordering :=
  (compare a.1 b.1).then
    (match a.2, b.2 with
      | .start, .«end» => .lt
      | .«end», .start => .gt
      | _, _ => .eq)

/-- The sorted events of the intervals. -/
def sortedEvents (intervals : List (TimeInterval α)) : List (Event α) :=
  (intervals.flatMap fun iv => [(iv.low, .start), (iv.high, .«end»)]).mergeSort
    fun a b => compareEvents a b ≠ .gt

/-- The variables of the sweep. -/
structure Sweeping (α : Type) where
  bestStart : α
  bestEnd : α
  bestCount : ℕ
  count : ℕ
  currentStart : α

/-- The loop body over the events. -/
def sweepEvent (threshold : ℕ) (s : Sweeping α) : Event α → Option (Sweeping α)
  | (point, .start) =>
    let count := s.count + 1
    some
      { s with
        count := count
        currentStart :=
          if threshold ≤ count ∧ s.bestCount < count then point else s.currentStart }
  | (point, .«end») =>
    let s :=
      if threshold ≤ s.count ∧ s.bestCount < s.count then
        { s with bestStart := s.currentStart, bestEnd := point, bestCount := s.count }
      else s
    if s.count = 0 then none else some { s with count := s.count - 1 }

/-- More than half of the intervals. -/
def majority (intervals : List (TimeInterval α)) : ℕ := intervals.length / 2 + 1

def marzullo (nan : α) (intervals : List (TimeInterval α)) : Option (Option (TimeInterval α)) :=
  if intervals.isEmpty then some none
  else do
    let threshold := majority intervals
    let s ← (sortedEvents intervals).foldlM (sweepEvent threshold) ⟨nan, nan, 0, 0, nan⟩
    return if threshold ≤ s.bestCount then some ⟨s.bestStart, s.bestEnd⟩ else none

/-- How many intervals the point lies in. -/
def covering (intervals : List (TimeInterval α)) (p : α) : ℕ :=
  intervals.countP fun iv => iv.low ≤ p ∧ p ≤ iv.high

/-! ### The sorted events -/

theorem compareEvents_ne_gt {a b : Event α} : compareEvents a b ≠ .gt ↔ Before a b := by
  obtain ⟨x, kind⟩ := a
  obtain ⟨y, kind'⟩ := b
  unfold compareEvents Before
  rcases lt_trichotomy x y with less | same | more
  · simp [compare_lt_iff_lt.mpr less, less]
  · subst same
    cases kind <;> cases kind' <;> simp
  · simp [compare_gt_iff_gt.mpr more, more.not_gt, more.ne']

/-- The end points of an interval. -/
def TimeInterval.ends (iv : TimeInterval α) : α × α := (iv.low, iv.high)

/-- **The sorted events are met in order.** -/
theorem sorts_sortedEvents {intervals : List (TimeInterval α)}
    (ordered : ∀ iv ∈ intervals, iv.low ≤ iv.high) :
    Sorts (intervals.map TimeInterval.ends) (sortedEvents intervals) where
  perm := by
    rw [events, List.flatMap_map]
    exact List.mergeSort_perm _ _
  inOrder := by
    have sorted : (sortedEvents intervals).Pairwise fun a b =>
        decide (compareEvents a b ≠ .gt) = true :=
      List.pairwise_mergeSort
        (fun a b c => by simpa only [decide_eq_true_eq, compareEvents_ne_gt] using Before.trans)
        (fun a b => by
          simpa only [Bool.or_eq_true, decide_eq_true_eq, compareEvents_ne_gt] using
            Before.total a b) _
    exact sorted.imp fun before => compareEvents_ne_gt.mp (of_decide_eq_true before)
  ordered := by
    intro i listed
    obtain ⟨iv, member, rfl⟩ := List.mem_map.mp listed
    exact ordered iv member

theorem depth_ends (intervals : List (TimeInterval α)) (p : α) :
    depth (intervals.map TimeInterval.ends) p = covering intervals p := by
  rw [depth, List.countP_map]
  rfl

/-! ### The sweep -/

/-- The best interval is a start and the end right after it, at a level no earlier end was at. -/
def Best (threshold : ℕ) (behind : List (Event α)) (s : Sweeping α) : Prop :=
  ∃ early late, behind = early ++ (s.bestStart, .start) :: (s.bestEnd, .«end») :: late ∧
    (s.bestCount : ℤ) = level early + 1 ∧ threshold ≤ s.bestCount ∧
    ∀ peak ∈ peaks early, peak < s.bestCount

/-- What the state says of the events behind it. -/
structure Swept (threshold : ℕ) (behind : List (Event α)) (s : Sweeping α) : Prop where
  counted : (s.count : ℤ) = level behind
  peaks : ∀ peak ∈ peaks behind, (threshold : ℤ) ≤ peak → peak ≤ s.bestCount
  best : s.bestCount = 0 ∨ Best threshold behind s
  candidate : ∀ early x, behind = early ++ [(x, .start)] → threshold ≤ s.count →
    s.bestCount < s.count → s.currentStart = x

theorem Swept.start (threshold : ℕ) (nan : α) : Swept threshold [] ⟨nan, nan, 0, 0, nan⟩ where
  counted := rfl
  peaks := by simp [Sweep.peaks, peaksFrom]
  best := Or.inl rfl
  candidate := by simp

theorem Best.later {threshold : ℕ} {behind : List (Event α)} {s s' : Sweeping α}
    (best : Best threshold behind s) (e : Event α) (bestStart : s'.bestStart = s.bestStart)
    (bestEnd : s'.bestEnd = s.bestEnd) (bestCount : s'.bestCount = s.bestCount) :
    Best threshold (behind ++ [e]) s' := by
  obtain ⟨early, late, split, count, most, first⟩ := best
  refine ⟨early, late ++ [e], ?_, ?_, ?_, ?_⟩
  · rw [split, bestStart, bestEnd]
    simp
  · rw [bestCount, count]
  · rw [bestCount]
    exact most
  · rw [bestCount]
    exact first

/-- A start is a candidate. -/
theorem Swept.next_start {threshold : ℕ} {behind : List (Event α)} {s : Sweeping α}
    (swept : Swept threshold behind s) (x : α) :
    ∃ s', sweepEvent threshold s (x, .start) = some s' ∧
      Swept threshold (behind ++ [(x, .start)]) s' := by
  refine ⟨_, rfl, ?_, ?_, ?_, fun early x' split enough better => ?_⟩
  · rw [level_append, ← swept.counted]
    simp
  · rw [peaks_snoc_start]
    exact swept.peaks
  · exact swept.best.imp_right fun best => best.later _ rfl rfl rfl
  · obtain ⟨-, same⟩ := List.append_inj' split rfl
    cases same
    exact if_pos ⟨enough, better⟩

/-- At an end that beats the best so far, the event before was its candidate. -/
theorem Swept.exists_candidate {threshold : ℕ} {behind : List (Event α)} {s : Sweeping α}
    (swept : Swept threshold behind s) (enough : threshold ≤ s.count)
    (better : s.bestCount < s.count) :
    ∃ early, behind = early ++ [(s.currentStart, .start)] := by
  rcases List.eq_nil_or_concat' behind with none | ⟨early, ⟨x, kind⟩, split⟩
  · have counted := swept.counted
    rw [none, level_nil] at counted
    omega
  · cases kind with
    | start =>
      rw [swept.candidate early x split enough better]
      exact ⟨early, split⟩
    | «end» =>
      -- The level was higher before that end, and it would have been the best.
      have counted := swept.counted
      rw [split, level_append, level_cons, change_end, level_nil] at counted
      have higher := swept.peaks (level early) (by rw [split, peaks_snoc_end]; simp) (by omega)
      omega

/-- An end may be the best so far. -/
theorem Swept.next_end {threshold : ℕ} {behind : List (Event α)} {s : Sweeping α}
    (swept : Swept threshold behind s) (opened : 0 < level behind) (x : α) :
    ∃ s', sweepEvent threshold s (x, .«end») = some s' ∧
      Swept threshold (behind ++ [(x, .«end»)]) s' := by
  have some : s.count ≠ 0 := by
    have counted := swept.counted
    omega
  have lowered : ((s.count - 1 : ℕ) : ℤ) = level (behind ++ [(x, .«end»)]) := by
    rw [level_append, ← swept.counted, level_cons, change_end, level_nil]
    omega
  have notStart : ∀ early x', behind ++ [(x, .«end»)] ≠ early ++ [(x', .start)] := by
    intro early x' split
    obtain ⟨-, same⟩ := List.append_inj' split rfl
    cases same
  dsimp only [sweepEvent]
  by_cases beats : threshold ≤ s.count ∧ s.bestCount < s.count
  · rw [if_pos beats, if_neg some]
    obtain ⟨early, split⟩ := swept.exists_candidate beats.1 beats.2
    refine ⟨_, rfl, lowered, fun peak listed enough => ?_, Or.inr ?_, fun early x' split' => ?_⟩
    · rw [peaks_snoc_end, List.mem_append, List.mem_singleton, ← swept.counted] at listed
      rcases listed with old | rfl
      · exact (swept.peaks peak old enough).trans (by exact_mod_cast beats.2.le)
      · exact le_rfl
    · refine ⟨early, [], by rw [split]; simp, ?_, beats.1, fun peak listed => ?_⟩
      · show (s.count : ℤ) = _
        rw [swept.counted, split, level_append, level_cons, change_start, level_nil]
        simp
      · show peak < (s.count : ℤ)
        have old := swept.peaks peak (by rw [split, peaks_snoc_start]; exact listed)
        have enough := beats.1
        have better := beats.2
        omega
    · exact absurd split' (notStart early x')
  · rw [if_neg beats, if_neg some]
    refine ⟨_, rfl, lowered, fun peak listed enough => ?_, ?_, fun early x' split' => ?_⟩
    · rw [peaks_snoc_end, List.mem_append, List.mem_singleton, ← swept.counted] at listed
      rcases listed with old | rfl
      · exact swept.peaks peak old enough
      · have within : ¬ s.bestCount < s.count := fun better =>
          beats ⟨by exact_mod_cast enough, better⟩
        show (s.count : ℤ) ≤ s.bestCount
        omega
    · exact swept.best.imp_right fun best => best.later _ rfl rfl rfl
    · exact absurd split' (notStart early x')

/-- **The sweep goes through, and ends with what it says of all events.** -/
theorem Swept.run {threshold : ℕ} {intervals : List (α × α)}
    {behind ahead : List (Event α)} (sorts : Sorts intervals (behind ++ ahead)) {s : Sweeping α}
    (swept : Swept threshold behind s) : ∃ s', ahead.foldlM (sweepEvent threshold) s = some s' ∧
      Swept threshold (behind ++ ahead) s' := by
  induction ahead generalizing behind s with
  | nil => exact ⟨s, rfl, by rwa [List.append_nil]⟩
  | cons e ahead ih =>
    have next : ∃ s', sweepEvent threshold s e = some s' ∧ Swept threshold (behind ++ [e]) s' := by
      obtain ⟨x, kind⟩ := e
      cases kind with
      | start => exact swept.next_start x
      | «end» => exact swept.next_end sorts.level_pos_of_end x
    obtain ⟨s₁, goes, held⟩ := next
    rw [List.append_cons] at sorts ⊢
    obtain ⟨s₂, went, final⟩ := ih sorts held
    refine ⟨s₂, ?_, final⟩
    rw [List.foldlM_cons, goes]
    exact went

/-! ### What is found -/

/-- What the algorithm finds is where most intervals meet, and as far left as they do. -/
structure Finds (intervals : List (TimeInterval α)) (iv : TimeInterval α) (most : ℕ) : Prop where
  nonempty : iv.low ≤ iv.high
  greatest : IsGreatest (Set.range (covering intervals)) most
  inside : ∀ p, iv.low ≤ p → p ≤ iv.high → covering intervals p = most
  left : ∀ p < iv.low, covering intervals p ≠ most

/-- What a swept state says of a best interval. -/
theorem Best.finds {threshold : ℕ} {intervals : List (TimeInterval α)} {sorted : List (Event α)}
    {s : Sweeping α} (sorts : Sorts (intervals.map TimeInterval.ends) sorted)
    (swept : Swept threshold sorted s) (best : Best threshold sorted s) :
    Finds intervals ⟨s.bestStart, s.bestEnd⟩ s.bestCount := by
  obtain ⟨early, late, split, count, enough, first⟩ := best
  have sorts' := split ▸ sorts
  obtain ⟨nonempty, inside⟩ := sorts'.depth_between
  have meet : ∀ p, s.bestStart ≤ p → p ≤ s.bestEnd → covering intervals p = s.bestCount := by
    intro p above below
    have deep := inside p above below
    rw [depth_ends, ← count] at deep
    exact_mod_cast deep
  refine ⟨nonempty, ⟨⟨s.bestStart, meet _ le_rfl nonempty⟩, ?_⟩, meet, fun p left same => ?_⟩
  · rintro _ ⟨p, rfl⟩
    by_contra more
    have covered : 0 < depth (intervals.map TimeInterval.ends) p := by
      rw [depth_ends]
      omega
    obtain ⟨peak, listed, above⟩ := sorts.exists_peak_ge covered
    rw [depth_ends] at above
    have bounded := swept.peaks peak listed (by omega)
    omega
  · have deep : level early + 1 ≤ (depth (intervals.map TimeInterval.ends) p : ℤ) := by
      rw [depth_ends, same, count]
    obtain ⟨peak, listed, above⟩ := sorts'.exists_peak_before left deep
    rw [depth_ends, same] at above
    have earlier := first peak listed
    omega

/-- **Marzullo's algorithm.** The counter never underflows. There is a result exactly when some
point lies in a majority of the intervals, and it is where most of them meet: every point of it
lies in as many as any point does, and no point left of it does. -/
theorem marzullo_spec (nan : α) {intervals : List (TimeInterval α)} (nonempty : intervals ≠ [])
    (ordered : ∀ iv ∈ intervals, iv.low ≤ iv.high) :
    ∃ result, marzullo nan intervals = some result ∧
      (result.isSome ↔ ∃ p, intervals.length / 2 + 1 ≤ covering intervals p) ∧
      ∀ iv, result = some iv → ∃ most, Finds intervals iv most := by
  have sorts : Sorts _ ([] ++ sortedEvents intervals) := sorts_sortedEvents ordered
  have start : Swept (majority intervals) [] ⟨nan, nan, 0, 0, nan⟩ := Swept.start _ nan
  obtain ⟨s, went, swept⟩ := start.run sorts
  rw [List.nil_append] at sorts swept
  have notEmpty : intervals.isEmpty ≠ true := by simpa using nonempty
  let result : Option (TimeInterval α) :=
    if majority intervals ≤ s.bestCount then some ⟨s.bestStart, s.bestEnd⟩ else none
  have ran : marzullo nan intervals = some result := by
    rw [marzullo, if_neg notEmpty]
    dsimp only
    rw [went]
    rfl
  refine ⟨result, ran, ?_, fun iv found => ?_⟩
  · rw [Option.isSome_ite]
    constructor
    · intro enough
      have best := swept.best.resolve_left (by unfold majority at enough; omega)
      have finds := best.finds sorts swept
      exact ⟨s.bestStart, by rw [finds.inside _ le_rfl finds.nonempty]; exact enough⟩
    · rintro ⟨p, enough⟩
      obtain ⟨peak, listed, above⟩ := sorts.exists_peak_ge (p := p)
        (by rw [depth_ends]; omega)
      rw [depth_ends] at above
      have bounded := swept.peaks peak listed (by unfold majority; omega)
      unfold majority
      omega
  · dsimp only [result] at found
    split_ifs at found with enough
    cases found
    have best := swept.best.resolve_left (by unfold majority at enough; omega)
    exact ⟨_, best.finds sorts swept⟩

/-- Three intervals, of which two meet in one point. -/
theorem marzullo_spec_touching :
    ∃ iv most, marzullo 0 [⟨0, 2⟩, ⟨2, 3⟩, ⟨5, 5⟩] = some (some iv) ∧
      Finds [⟨(0 : ℤ), 2⟩, ⟨2, 3⟩, ⟨5, 5⟩] iv most := by
  obtain ⟨result, found, isSome, finds⟩ :=
    @marzullo_spec ℤ _ 0 [⟨0, 2⟩, ⟨2, 3⟩, ⟨5, 5⟩] (by decide) (by decide)
  obtain ⟨iv, rfl⟩ := Option.isSome_iff_exists.mp (isSome.mpr ⟨2, by decide⟩)
  obtain ⟨most, holds⟩ := finds iv rfl
  exact ⟨iv, most, found, holds⟩

end Marzullo

end Rtfsn
