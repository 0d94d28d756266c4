/-
Sweeping the end points of closed intervals from left to right.

* `Event`, `Before`: an end point with its kind, and the order they are met in. Where a start and an
  end are at one point, the start comes first.
* `level`: how many intervals are open after some events. `peaks`: the levels just before each end.
* `depth`: how many intervals a point lies in. `level_eq_depth`: the level where the sweep arrives
  at a point is its depth.
* `level_pos_of_end`: whatever ends was open. `exists_peak_ge`: a depth is at most a peak.
* `depth_between`, `exists_peak_before`: what a start and the end right after it enclose.
-/
import Mathlib

namespace Rtfsn.Sweep

variable {α : Type}

inductive EventType where
  | start
  | «end»
deriving DecidableEq

abbrev Event (α : Type) := α × EventType

/-! ### Levels -/

/-- What an event does to the level. -/
def EventType.change : EventType → ℤ
  | .start => 1
  | .«end» => -1

@[simp] theorem change_start : EventType.change .start = 1 := rfl

@[simp] theorem change_end : EventType.change .«end» = -1 := rfl

/-- The intervals open after the events. -/
def level (events : List (Event α)) : ℤ := (events.map fun e => e.2.change).sum

@[simp] theorem level_nil : level ([] : List (Event α)) = 0 := rfl

@[simp] theorem level_cons (e : Event α) (events : List (Event α)) :
    level (e :: events) = e.2.change + level events := by
  simp [level]

@[simp] theorem level_append (events later : List (Event α)) :
    level (events ++ later) = level events + level later := by
  simp [level]

theorem level_perm {events events' : List (Event α)} (perm : events.Perm events') :
    level events = level events' :=
  (perm.map _).sum_eq

/-- Ends only lower the level. -/
theorem level_nonpos {events : List (Event α)} (onlyEnds : ∀ e ∈ events, e.2 = .«end») :
    level events ≤ 0 := by
  induction events with
  | nil => exact le_rfl
  | cons e events ih =>
    have rest := ih fun e' listed => onlyEnds e' (List.mem_cons_of_mem e listed)
    rw [level_cons, onlyEnds e List.mem_cons_self, change_end]
    omega

/-- The levels just before each end, from `l` on. -/
def peaksFrom (l : ℤ) : List (Event α) → List ℤ
  | [] => []
  | (_, .start) :: events => peaksFrom (l + 1) events
  | (_, .«end») :: events => l :: peaksFrom (l - 1) events

/-- The levels just before each end. -/
def peaks (events : List (Event α)) : List ℤ := peaksFrom 0 events

theorem peaksFrom_append (l : ℤ) (events later : List (Event α)) :
    peaksFrom l (events ++ later) = peaksFrom l events ++ peaksFrom (l + level events) later := by
  induction events generalizing l with
  | nil => simp [peaksFrom]
  | cons e events ih =>
    obtain ⟨x, kind⟩ := e
    cases kind with
    | start => simp only [List.cons_append, peaksFrom, ih, level_cons, change_start, add_assoc]
    | «end» =>
      simp only [List.cons_append, peaksFrom, ih, level_cons, change_end, sub_eq_add_neg, add_assoc]

theorem peaks_append (events later : List (Event α)) :
    peaks (events ++ later) = peaks events ++ peaksFrom (level events) later := by
  rw [peaks, peaksFrom_append, zero_add]
  rfl

@[simp] theorem peaks_snoc_start (events : List (Event α)) (x : α) :
    peaks (events ++ [(x, .start)]) = peaks events := by
  rw [peaks_append]
  exact List.append_nil _

@[simp] theorem peaks_snoc_end (events : List (Event α)) (x : α) :
    peaks (events ++ [(x, .«end»)]) = peaks events ++ [level events] :=
  peaks_append _ _

/-- **A level that goes down again was at most a peak.** -/
theorem exists_peak {l : ℤ} {events : List (Event α)} (falls : level events < 0) :
    ∃ peak ∈ peaksFrom l events, l ≤ peak := by
  induction events generalizing l with
  | nil => exact absurd falls (lt_irrefl _)
  | cons e events ih =>
    obtain ⟨x, kind⟩ := e
    cases kind with
    | start =>
      rw [level_cons, change_start] at falls
      obtain ⟨peak, listed, above⟩ := ih (l := l + 1) (by omega)
      exact ⟨peak, listed, by omega⟩
    | «end» => exact ⟨l, List.mem_cons_self, le_rfl⟩

/-- The end points of the intervals. -/
def events (intervals : List (α × α)) : List (Event α) :=
  intervals.flatMap fun i => [(i.1, .start), (i.2, .«end»)]

@[simp] theorem events_cons (i : α × α) (intervals : List (α × α)) :
    events (i :: intervals) = (i.1, .start) :: (i.2, .«end») :: events intervals := rfl

/-- Everything that starts ends. -/
theorem level_events (intervals : List (α × α)) : level (events intervals) = 0 := by
  induction intervals with
  | nil => rfl
  | cons i intervals ih => simp [ih]

/-! ### Depths -/

variable [LinearOrder α]

/-- How many intervals the point lies in. -/
def depth (intervals : List (α × α)) (p : α) : ℕ :=
  intervals.countP fun i => i.1 ≤ p ∧ p ≤ i.2

/-- The order events are met in. -/
def Before (a b : Event α) : Prop := a.1 < b.1 ∨ a.1 = b.1 ∧ (a.2 = .start ∨ b.2 = .«end»)

/-- The event is met on the way to `p`: up to the starts at `p`. -/
def reached (p : α) : Event α → Bool
  | (x, .start) => x ≤ p
  | (x, .«end») => x < p

theorem Before.point_le {a b : Event α} (before : Before a b) : a.1 ≤ b.1 := by
  rcases before with less | ⟨same, _⟩
  · exact le_of_lt less
  · exact le_of_eq same

theorem Before.reached {a b : Event α} (before : Before a b) {p : α}
    (there : reached p b = true) : reached p a = true := by
  obtain ⟨x, kind⟩ := a
  obtain ⟨y, kind'⟩ := b
  have below : x ≤ y := before.point_le
  cases kind with
  | start =>
    refine decide_eq_true (below.trans ?_)
    cases kind' with
    | start => exact of_decide_eq_true there
    | «end» => exact le_of_lt (of_decide_eq_true there)
  | «end» =>
    refine decide_eq_true ?_
    cases kind' with
    | start =>
      rcases before with less | ⟨_, impossible | impossible⟩
      · exact lt_of_lt_of_le less (of_decide_eq_true there)
      · cases impossible
      · cases impossible
    | «end» => exact below.trans_lt (of_decide_eq_true there)

theorem Before.trans {a b c : Event α} (first : Before a b) (second : Before b c) :
    Before a c := by
  rcases first with less | ⟨same, kinds⟩
  · exact Or.inl (less.trans_le second.point_le)
  · rcases second with less' | ⟨same', kinds'⟩
    · exact Or.inl (same.trans_lt less')
    · refine Or.inr ⟨same.trans same', ?_⟩
      rcases kinds with isStart | isEnd
      · exact Or.inl isStart
      · rcases kinds' with impossible | isEnd'
        · rw [isEnd] at impossible
          cases impossible
        · exact Or.inr isEnd'

theorem Before.total (a b : Event α) : Before a b ∨ Before b a := by
  rcases lt_trichotomy a.1 b.1 with less | same | more
  · exact Or.inl (Or.inl less)
  · cases kind : a.2 with
    | start => exact Or.inl (Or.inr ⟨same, Or.inl kind⟩)
    | «end» => exact Or.inr (Or.inr ⟨same.symm, Or.inr kind⟩)
  · exact Or.inr (Or.inl more)

/-- What starts and has not ended is what the point lies in. -/
theorem level_filter_reached {intervals : List (α × α)} (ordered : ∀ i ∈ intervals, i.1 ≤ i.2)
    (p : α) : level ((events intervals).filter (reached p)) = depth intervals p := by
  induction intervals with
  | nil => rfl
  | cons i intervals ih =>
    have rest := ih fun j listed => ordered j (List.mem_cons_of_mem i listed)
    have below := ordered i List.mem_cons_self
    rw [events_cons, depth, List.countP_cons, ← depth]
    by_cases started : i.1 ≤ p
    · by_cases ended : i.2 < p
      · simp [reached, started, ended, rest]
      · simp [reached, started, ended, rest, not_lt.mp ended, add_comm]
    · have later : ¬ i.2 < p := fun ended => started (below.trans ended.le)
      simp [reached, started, later, rest]

/-- Of the events up to a point, no more are ends than starts. -/
theorem level_filter_le {intervals : List (α × α)} (ordered : ∀ i ∈ intervals, i.1 ≤ i.2) (p : α) :
    0 ≤ level ((events intervals).filter fun e => decide (e.1 ≤ p)) := by
  induction intervals with
  | nil => exact le_rfl
  | cons i intervals ih =>
    have rest := ih fun j listed => ordered j (List.mem_cons_of_mem i listed)
    have below := ordered i List.mem_cons_self
    rw [events_cons]
    by_cases started : i.1 ≤ p
    · by_cases ended : i.2 ≤ p
      · simpa [started, ended] using rest
      · simp only [started, ended, List.filter_cons, decide_true, decide_false, if_true, if_false,
          level_cons, change_start, Bool.false_eq_true]
        omega
    · have later : ¬ i.2 ≤ p := fun ended => started (below.trans ended)
      simpa [started, later] using rest

/-! ### The events in order -/

section Sorted

variable {intervals : List (α × α)} {sorted : List (Event α)}

/-- The events of some intervals, in the order they are met in. -/
structure Sorts (intervals : List (α × α)) (sorted : List (Event α)) : Prop where
  perm : sorted.Perm (events intervals)
  inOrder : sorted.Pairwise Before
  ordered : ∀ i ∈ intervals, i.1 ≤ i.2

/-- The events met on the way to a point come first. -/
theorem exists_split (inOrder : sorted.Pairwise Before) (p : α) : ∃ early late,
    sorted = early ++ late ∧ (∀ e ∈ early, reached p e = true) ∧
      ∀ e ∈ late, reached p e = false := by
  induction sorted with
  | nil => exact ⟨[], [], rfl, by simp, by simp⟩
  | cons e sorted ih =>
    obtain ⟨first, rest⟩ := List.pairwise_cons.mp inOrder
    cases there : reached p e with
    | false =>
      refine ⟨[], e :: sorted, rfl, by simp, fun e' listed => ?_⟩
      rcases List.mem_cons.mp listed with rfl | later
      · exact there
      · by_contra met
        rw [Bool.not_eq_false] at met
        rw [(first e' later).reached met] at there
        cases there
    | true =>
      obtain ⟨early, late, split, met, unmet⟩ := ih rest
      refine ⟨e :: early, late, by rw [split]; rfl, fun e' listed => ?_, unmet⟩
      rcases List.mem_cons.mp listed with rfl | later
      · exact there
      · exact met e' later

/-- **Where the sweep arrives at a point, the level is its depth.** -/
theorem Sorts.level_eq_depth {early late : List (Event α)} (sorts : Sorts intervals (early ++ late))
    {p : α} (met : ∀ e ∈ early, reached p e = true) (unmet : ∀ e ∈ late, reached p e = false) :
    level early = depth intervals p := by
  have filtered : (early ++ late).filter (reached p) = early := by
    rw [List.filter_append, List.filter_eq_self.mpr met,
      List.filter_eq_nil_iff.mpr fun e listed => by simp [unmet e listed], List.append_nil]
  rw [← level_filter_reached sorts.ordered p, ← level_perm (sorts.perm.filter _), filtered]

/-- **Whatever ends was open.** -/
theorem Sorts.level_pos_of_end {early late : List (Event α)} {x : α}
    (sorts : Sorts intervals (early ++ (x, .«end») :: late)) : 0 < level early := by
  obtain ⟨_, inOrder, before⟩ := List.pairwise_append.mp sorts.inOrder
  have after := (List.pairwise_cons.mp inOrder).1
  -- Up to `x` there is all of `early`, the end itself, and nothing but ends after it.
  have upTo := level_filter_le sorts.ordered x
  rw [← level_perm (sorts.perm.filter _), List.filter_append, List.filter_cons_of_pos (by simp),
    List.filter_eq_self.mpr fun e listed =>
      decide_eq_true (before e listed _ List.mem_cons_self).point_le,
    level_append, level_cons, change_end] at upTo
  have ends : level (late.filter fun e => decide (e.1 ≤ x)) ≤ 0 := by
    refine level_nonpos fun e listed => ?_
    obtain ⟨later, here⟩ := List.mem_filter.mp listed
    rcases after e later with less | ⟨_, impossible | isEnd⟩
    · exact absurd (of_decide_eq_true here) (not_le.mpr less)
    · cases impossible
    · exact isEnd
  omega

/-- **A depth is at most a peak.** -/
theorem Sorts.exists_peak_ge (sorts : Sorts intervals sorted) {p : α}
    (covered : 0 < depth intervals p) : ∃ peak ∈ peaks sorted, (depth intervals p : ℤ) ≤ peak := by
  obtain ⟨early, late, rfl, met, unmet⟩ := exists_split sorts.inOrder p
  have here := sorts.level_eq_depth met unmet
  have whole := level_perm sorts.perm
  rw [level_events, level_append] at whole
  obtain ⟨peak, listed, above⟩ := exists_peak (l := level early) (show level late < 0 by omega)
  exact ⟨peak, by rw [peaks_append]; exact List.mem_append_right _ listed, here ▸ above⟩

/-- A start and the end right after it enclose points at one depth only. -/
theorem Sorts.depth_between {early late : List (Event α)} {x y : α}
    (sorts : Sorts intervals (early ++ (x, .start) :: (y, .«end») :: late)) :
    x ≤ y ∧ ∀ p, x ≤ p → p ≤ y → (depth intervals p : ℤ) = level early + 1 := by
  obtain ⟨_, inOrder, before⟩ := List.pairwise_append.mp sorts.inOrder
  obtain ⟨first, inOrder⟩ := List.pairwise_cons.mp inOrder
  have after := (List.pairwise_cons.mp inOrder).1
  refine ⟨(first _ List.mem_cons_self).point_le, fun p above below => ?_⟩
  have started : reached p (x, .start) = true := decide_eq_true above
  have notEnded : reached p (y, .«end») = false := decide_eq_false (not_lt.mpr below)
  rw [List.append_cons] at sorts
  rw [← sorts.level_eq_depth (p := p) (fun e listed => ?_) fun e listed => ?_]
  · rw [level_append, level_cons, change_start, level_nil, add_zero]
  · rcases List.mem_append.mp listed with old | last
    · exact (before e old _ List.mem_cons_self).reached started
    · rwa [List.mem_singleton.mp last]
  · rcases List.mem_cons.mp listed with rfl | later
    · exact notEnded
    · by_contra met
      rw [Bool.not_eq_false] at met
      rw [(after e later).reached met] at notEnded
      cases notEnded

/-- Left of a start a depth the start leads to was a peak already. -/
theorem Sorts.exists_peak_before {early late : List (Event α)} {x p : α}
    (sorts : Sorts intervals (early ++ (x, .start) :: late)) (left : p < x)
    (deep : level early + 1 ≤ depth intervals p) :
    ∃ peak ∈ peaks early, (depth intervals p : ℤ) ≤ peak := by
  obtain ⟨before, after, split, met, unmet⟩ := exists_split sorts.inOrder p
  have here := (split ▸ sorts).level_eq_depth met unmet
  have notMet : reached p (x, .start) = false := decide_eq_false (not_le.mpr left)
  rcases List.append_eq_append_iff.mp split with ⟨between, more, rest⟩ | ⟨between, rfl, _⟩
  · cases between with
    | nil =>
      rw [List.append_nil] at more
      rw [more] at here
      omega
    | cons e between =>
      obtain ⟨rfl, -⟩ := List.cons.inj rest
      rw [met _ (more ▸ List.mem_append_right _ List.mem_cons_self)] at notMet
      cases notMet
  · rw [level_append] at deep
    obtain ⟨peak, listed, above⟩ :=
      exists_peak (l := level before) (show level between < 0 by omega)
    exact ⟨peak, by rw [peaks_append]; exact List.mem_append_right _ listed, here ▸ above⟩

end Sorted

end Rtfsn.Sweep
