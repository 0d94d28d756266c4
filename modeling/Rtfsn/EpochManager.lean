/-
The epoch lifecycle: Measure, Solve, Publish.

* `tryAdvance`, `recordBeacon`: the manager, its `u64` subtraction and the epoch's successor
  checked.
* `History`: what an observer of the calls knows: when the phase began, who was recorded since the
  epoch began.
* `Lawful`: what a call may do, told in the observer's terms.
* `run_iff`: a run goes through lawfully, call by call, exactly when no call is given a time before
  the start of its phase and no epoch ends at the last number.
-/
import Rtfsn.Types

namespace Rtfsn

inductive EpochPhase where
  | measure
  | solve
  | publish
deriving DecidableEq

/-- The phase after this one; `none` at the end of the epoch. -/
def EpochPhase.next : EpochPhase → Option EpochPhase
  | measure => some solve
  | solve => some publish
  | publish => none

structure EpochManager where
  currentEpoch : Epoch
  currentPhase : EpochPhase
  quorumThreshold : ℕ
  receivedBeacons : Finset NodeId
  phaseStartTime : UInt64
  phaseTimeoutNanos : UInt64

namespace EpochManager

def new (quorumThreshold : ℕ) (phaseTimeoutNanos : UInt64) : EpochManager where
  currentEpoch := ⟨0⟩
  currentPhase := .measure
  quorumThreshold := quorumThreshold
  receivedBeacons := ∅
  phaseStartTime := 0
  phaseTimeoutNanos := phaseTimeoutNanos

/-- Try to advance the phase: whether it did, and the manager after. -/
def tryAdvance (m : EpochManager) (now : UInt64) : Option (Bool × EpochManager) :=
  match U64.checkedSub now m.phaseStartTime with
  | none => none
  | some elapsed =>
    let timedOut := m.phaseTimeoutNanos < elapsed
    match m.currentPhase with
    | .measure =>
      if timedOut then some (true, { m with currentPhase := .solve, phaseStartTime := now })
      else some (false, m)
    | .solve => some (true, { m with currentPhase := .publish, phaseStartTime := now })
    | .publish =>
      if m.quorumThreshold ≤ m.receivedBeacons.card ∨ timedOut then
        m.currentEpoch.next.map fun epoch =>
          (true, { m with
            currentEpoch := epoch
            currentPhase := .measure
            receivedBeacons := ∅
            phaseStartTime := now })
      else some (false, m)

def recordBeacon (m : EpochManager) (peer : NodeId) : EpochManager :=
  { m with receivedBeacons := insert peer m.receivedBeacons }

def hasQuorum (m : EpochManager) : Bool := decide (m.quorumThreshold ≤ m.receivedBeacons.card)

/-! ### Calls -/

inductive Call where
  | recordBeacon (peer : NodeId)
  | tryAdvance (now : UInt64)

/-- The manager after a call; `none` when it overflows. -/
def call (m : EpochManager) : Call → Option EpochManager
  | .recordBeacon peer => some (m.recordBeacon peer)
  | .tryAdvance now => (m.tryAdvance now).map Prod.snd

/-- What an observer of the calls knows. -/
structure History where
  phaseBegan : UInt64
  recorded : Finset NodeId

/-- At the start the observer knows what the manager holds. -/
def History.start (m : EpochManager) : History := ⟨m.phaseStartTime, m.receivedBeacons⟩

/-- A call seen to take `m` to `m'`. -/
def History.observe (h : History) (m m' : EpochManager) : Call → History
  | .recordBeacon peer => { h with recorded := insert peer h.recorded }
  | .tryAdvance now =>
    if m'.currentPhase = m.currentPhase then h
    else ⟨now, if m.currentPhase = .publish then ∅ else h.recorded⟩

/-- What a call may do. -/
structure Lawful (h : History) (m m' : EpochManager) (c : Call) : Prop where
  /-- The epoch counts on by one, on leaving Publish only. -/
  epoch : m'.currentEpoch = m.currentEpoch ∨
    m.currentPhase = .publish ∧ m'.currentPhase = .measure ∧
      m'.currentEpoch.number.toNat = m.currentEpoch.number.toNat + 1
  /-- Measure, Solve, Publish, and round again. -/
  phase : m'.currentPhase = m.currentPhase ∨
    m'.currentPhase = m.currentPhase.next.getD .measure
  /-- Measure is left after its timeout only. -/
  leaves_measure : m.currentPhase = .measure → m'.currentPhase ≠ .measure →
    ∃ now, c = .tryAdvance now ∧ h.phaseBegan.toNat + m.phaseTimeoutNanos.toNat < now.toNat
  /-- An epoch ends with a quorum, or after the timeout of Publish. -/
  ends_epoch : m'.currentEpoch ≠ m.currentEpoch → m.quorumThreshold ≤ h.recorded.card ∨
    ∃ now, c = .tryAdvance now ∧ h.phaseBegan.toNat + m.phaseTimeoutNanos.toNat < now.toNat

/-- Every call goes through, lawfully. -/
inductive Run : EpochManager → History → List Call → Prop
  | done (m : EpochManager) (h : History) : Run m h []
  | step {m m' : EpochManager} {h : History} {c : Call} {calls : List Call}
      (goes : m.call c = some m') (lawful : Lawful h m m' c)
      (rest : Run m' (h.observe m m' c) calls) : Run m h (c :: calls)

/-- A call with a time not before its phase, and an epoch after this one if this one ends. -/
def Timely (m : EpochManager) : Call → Prop
  | .recordBeacon _ => True
  | .tryAdvance now => m.phaseStartTime ≤ now ∧
      (m.currentPhase = .publish → (m.quorumThreshold ≤ m.receivedBeacons.card ∨
        m.phaseStartTime.toNat + m.phaseTimeoutNanos.toNat < now.toNat) →
        m.currentEpoch.number.toNat + 1 < 2 ^ 64)

/-- Every call of the run is timely for the manager it meets. -/
def AllTimely : EpochManager → List Call → Prop
  | _, [] => True
  | m, c :: calls => m.Timely c ∧ ∀ m', m.call c = some m' → AllTimely m' calls

/-! ### One call -/

/-- The observer knows what the manager holds. -/
def Known (h : History) (m : EpochManager) : Prop :=
  h.phaseBegan = m.phaseStartTime ∧ h.recorded = m.receivedBeacons

variable {m m' : EpochManager} {h : History} {now : UInt64}

/-- The time elapsed is past the timeout exactly when the phase's end is past. -/
theorem timeout_lt_iff {elapsed : UInt64}
    (count : now.toNat = m.phaseStartTime.toNat + elapsed.toNat) :
    m.phaseTimeoutNanos < elapsed ↔
      m.phaseStartTime.toNat + m.phaseTimeoutNanos.toNat < now.toNat := by
  rw [UInt64.lt_iff_toNat_lt]
  omega

/-- **What `try_advance` does**, when it does not overflow. -/
theorem call_tryAdvance (goes : m.call (.tryAdvance now) = some m') :
    m.phaseStartTime ≤ now ∧
    (m' = m ∨
      (m.currentPhase = .measure ∧
        m.phaseStartTime.toNat + m.phaseTimeoutNanos.toNat < now.toNat ∧
        m' = { m with currentPhase := .solve, phaseStartTime := now }) ∨
      (m.currentPhase = .solve ∧ m' = { m with currentPhase := .publish, phaseStartTime := now }) ∨
      (m.currentPhase = .publish ∧ (m.quorumThreshold ≤ m.receivedBeacons.card ∨
        m.phaseStartTime.toNat + m.phaseTimeoutNanos.toNat < now.toNat) ∧
        ∃ epoch, m.currentEpoch.number.toNat + 1 = epoch.number.toNat ∧
          m' = { m with
            currentEpoch := epoch
            currentPhase := .measure
            receivedBeacons := ∅
            phaseStartTime := now })) := by
  unfold call tryAdvance at goes
  cases difference : U64.checkedSub now m.phaseStartTime with
  | none => simp [difference] at goes
  | some elapsed =>
    have count := U64.checkedSub_eq_some.mp difference
    have late := timeout_lt_iff count
    refine ⟨by rw [UInt64.le_iff_toNat_le]; omega, ?_⟩
    simp only [difference, late] at goes
    cases phase : m.currentPhase with
    | measure =>
      simp only [phase] at goes
      by_cases timedOut : m.phaseStartTime.toNat + m.phaseTimeoutNanos.toNat < now.toNat
      · rw [if_pos timedOut, Option.map_some, Option.some.injEq] at goes
        exact Or.inr (Or.inl ⟨rfl, timedOut, goes.symm⟩)
      · rw [if_neg timedOut, Option.map_some, Option.some.injEq] at goes
        exact Or.inl goes.symm
    | solve =>
      simp only [phase, Option.map_some, Option.some.injEq] at goes
      exact Or.inr (Or.inr (Or.inl ⟨rfl, goes.symm⟩))
    | publish =>
      simp only [phase] at goes
      by_cases ends : m.quorumThreshold ≤ m.receivedBeacons.card ∨
          m.phaseStartTime.toNat + m.phaseTimeoutNanos.toNat < now.toNat
      · rw [if_pos ends, Option.map_map, Option.map_eq_some_iff] at goes
        obtain ⟨epoch, next, made⟩ := goes
        obtain ⟨number, counted, rfl⟩ := Option.map_eq_some_iff.mp next
        rw [U64.checkedAdd_eq_some] at counted
        exact Or.inr (Or.inr (Or.inr ⟨rfl, ends, ⟨number⟩, counted, made.symm⟩))
      · rw [if_neg ends, Option.map_some, Option.some.injEq] at goes
        exact Or.inl goes.symm

/-- **A call goes through exactly when it is timely.** -/
theorem exists_call_iff {c : Call} : (∃ m', m.call c = some m') ↔ m.Timely c := by
  cases c with
  | recordBeacon peer => exact ⟨fun _ => trivial, fun _ => ⟨_, rfl⟩⟩
  | tryAdvance now =>
    unfold call tryAdvance Timely
    by_cases before : now < m.phaseStartTime
    · simp [U64.checkedSub_eq_none.mpr before, before]
    · obtain ⟨elapsed, difference, count⟩ := U64.exists_checkedSub (UInt64.not_lt.mp before)
      have late := timeout_lt_iff count
      simp only [difference, late, UInt64.not_lt.mp before, true_and]
      cases m.currentPhase with
      | measure =>
        by_cases timedOut : m.phaseStartTime.toNat + m.phaseTimeoutNanos.toNat < now.toNat <;>
          simp [timedOut]
      | solve => simp
      | publish =>
        by_cases ends : m.quorumThreshold ≤ m.receivedBeacons.card ∨
            m.phaseStartTime.toNat + m.phaseTimeoutNanos.toNat < now.toNat
        · simp only [forall_const, ends, ← Epoch.exists_next_iff]
          cases m.currentEpoch.next <;> simp
        · simp [ends]

theorem known_start (m : EpochManager) : Known (History.start m) m := ⟨rfl, rfl⟩

/-- **What goes through is lawful**, and the observer still knows what the manager holds. -/
theorem lawful_of_call {c : Call} (known : Known h m) (goes : m.call c = some m') :
    Lawful h m m' c ∧ Known (h.observe m m' c) m' := by
  obtain ⟨began, recorded⟩ := known
  cases c with
  | recordBeacon peer =>
    cases goes
    refine ⟨⟨Or.inl rfl, Or.inl rfl, fun same left => absurd same left,
      fun changed => absurd rfl changed⟩, began, ?_⟩
    show insert peer h.recorded = insert peer m.receivedBeacons
    rw [recorded]
  | tryAdvance now =>
    rcases (call_tryAdvance goes).2 with stays | ⟨phase, late, rfl⟩ | ⟨phase, rfl⟩ |
        ⟨phase, ends, epoch, count, rfl⟩
    · subst stays
      refine ⟨⟨Or.inl rfl, Or.inl rfl, fun same left => absurd same left,
        fun changed => absurd rfl changed⟩, ?_⟩
      show Known (if m'.currentPhase = m'.currentPhase then h else _) m'
      rw [if_pos rfl]
      exact ⟨began, recorded⟩
    · refine ⟨⟨Or.inl rfl, Or.inr (by rw [phase]; rfl),
        fun _ _ => ⟨now, rfl, by rw [began]; exact late⟩, fun changed => absurd rfl changed⟩, ?_⟩
      simp [History.observe, Known, phase, recorded]
    · refine ⟨⟨Or.inl rfl, Or.inr (by rw [phase]; rfl), fun same => ?_,
        fun changed => absurd rfl changed⟩, ?_⟩
      · cases phase.symm.trans same
      · simp [History.observe, Known, phase, recorded]
    · refine ⟨⟨Or.inr ⟨phase, rfl, count.symm⟩, Or.inr (by rw [phase]; rfl), fun same => ?_,
        fun _ => ?_⟩, ?_⟩
      · cases phase.symm.trans same
      · rw [began, recorded]
        exact ends.imp_right fun late => ⟨now, rfl, late⟩
      · simp [History.observe, Known, phase]

/-! ### Runs -/

theorem run_iff_of_known {calls : List Call} (known : Known h m) :
    Run m h calls ↔ AllTimely m calls := by
  induction calls generalizing m h with
  | nil => exact ⟨fun _ => trivial, fun _ => .done m h⟩
  | cons c calls ih =>
    constructor
    · rintro (_ | ⟨goes, _, rest⟩)
      refine ⟨exists_call_iff.mp ⟨_, goes⟩, fun m' goes' => ?_⟩
      cases goes.symm.trans goes'
      exact (ih (lawful_of_call known goes).2).mp rest
    · rintro ⟨timely, later⟩
      obtain ⟨m', goes⟩ := exists_call_iff.mpr timely
      obtain ⟨lawful, known'⟩ := lawful_of_call known goes
      exact .step goes lawful ((ih known').mpr (later m' goes))

/-- **The epoch lifecycle.** A run goes through lawfully from call to call exactly when each of its
calls is timely for the manager it meets. -/
theorem run_iff (m : EpochManager) (calls : List Call) :
    Run m (History.start m) calls ↔ AllTimely m calls :=
  run_iff_of_known (known_start m)

/-- The clock steps back by a second after Measure timed out: the subtraction underflows. -/
theorem run_steps_back : ¬ ∀ (m : EpochManager) (calls : List Call),
    Run m (History.start m) calls := by
  intro always
  have run := always (new 3 10000000000) [.tryAdvance 20000000000, .tryAdvance 19000000000]
  have timely := ((run_iff_of_known (known_start _)).mp run).2
    { new 3 10000000000 with currentPhase := .solve, phaseStartTime := 20000000000 } rfl
  exact absurd timely.1.1 (by decide)

end EpochManager

end Rtfsn
