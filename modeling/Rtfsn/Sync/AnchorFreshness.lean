/-
**How far gossip walks an anchor back.**

A copy heard is weighed against the one held, not against the freshest heard so far: a tighter one
replaces it when measured at most ten seconds before.

* `HeardOnly.hearAnchor`: one call leaves a copy at most ten seconds behind the one it was given and
  the one that was held.
* `hearAll_fresh`: so a sequence of calls leaves one at most ten seconds behind a copy for each call
  since, that of the copy included. `hearAll_walks_back`: two calls may take twenty.
-/
import Rtfsn.Lib.Maps
import Rtfsn.Sync.RelationalClock

set_option linter.unusedSectionVars false

namespace Rtfsn.RelationalClock

open Maps

variable {F : Type} [F64 F]

/-- A sequence of copies, each heard at an instant. -/
def hearAll (clock : RelationalClock F) (copies : List (Anchor F × ℕ)) : RelationalClock F :=
  copies.foldl (fun clock p => clock.hearAnchor p.1 p.2) clock

/-- When a copy counts as measured. -/
def measuredAt (p : Anchor F × ℕ) : ℕ := p.2 - p.1.ageNs

/-- The copy of `node` held, if any, was heard, and measured ten seconds before the end of `u64`. -/
def HeardOnly (clock : RelationalClock F) (node : NodeId) : Prop :=
  ∀ held, clock.anchors[node]? = some held → held.own = false ∧ held.measuredNs + freshNs < 2 ^ 64

/-- One call kept a copy: at most ten seconds behind the one given and the one held before. -/
structure Keeps (clock after : RelationalClock F) (node : NodeId) (measured : ℕ)
    (held : HeldAnchor F) : Prop where
  found : after.anchors[node]? = some held
  heard : held.own = false ∧ held.measuredNs + freshNs < 2 ^ 64
  given : measured ≤ held.measuredNs + freshNs
  before : ∀ h, clock.anchors[node]? = some h → h.measuredNs ≤ held.measuredNs + freshNs

theorem Keeps.heardOnly {clock after : RelationalClock F} {node : NodeId} {measured : ℕ}
    {held : HeldAnchor F} (keeps : Keeps clock after node measured held) : after.HeardOnly node :=
  fun _ found => Option.some.inj (keeps.found.symm.trans found) ▸ keeps.heard

/-! ### One call -/

theorem wrapU64_of_lt {n : ℕ} (fits : n < 2 ^ 64) : wrapU64 n = n := by
  unfold wrapU64
  omega

section Replaces

variable {held : HeldAnchor F} {anchor : Anchor F} {measured : ℕ}

/-- What replaces a copy was measured at most ten seconds before it. -/
theorem replaces_some (notOwn : held.own = false) (fits : measured + freshNs < 2 ^ 64)
    (taken : replaces (some held) anchor measured = true) :
    held.measuredNs ≤ measured + freshNs := by
  by_contra older
  have wrapped : wrapU64 ((measured : ℤ) + freshNs) = measured + freshNs := by
    exact_mod_cast wrapU64_of_lt fits
  simp only [replaces, notOwn, wrapped, Bool.false_eq_true, if_false] at taken
  rw [if_pos (by omega)] at taken
  simp at taken

/-- What does not was measured at most ten seconds after it. -/
theorem not_replaces_some (notOwn : held.own = false) (fits : measured + freshNs < 2 ^ 64)
    (heldFits : held.measuredNs + freshNs < 2 ^ 64)
    (kept : ¬ replaces (some held) anchor measured = true) :
    measured ≤ held.measuredNs + freshNs := by
  have wrapped : wrapU64 ((measured : ℤ) + freshNs) = measured + freshNs := by
    exact_mod_cast wrapU64_of_lt fits
  have wrappedHeld : wrapU64 ((held.measuredNs : ℤ) + freshNs) = held.measuredNs + freshNs := by
    exact_mod_cast wrapU64_of_lt heldFits
  simp only [replaces, notOwn, wrapped, wrappedHeld, Bool.false_eq_true, if_false] at kept
  by_contra fresher
  rw [if_neg (by omega), if_neg (by omega)] at kept
  exact kept rfl

end Replaces

/-- What one call leaves of the reference. -/
theorem hearAnchor_anchors (clock : RelationalClock F) (anchor : Anchor F) (nowNs : ℕ) :
    (clock.hearAnchor anchor nowNs).anchors[anchor.node]? =
      if replaces clock.anchors[anchor.node]? anchor (nowNs - anchor.ageNs) then
        some { anchor := { anchor with ageNs := 0 }
               measuredNs := nowNs - anchor.ageNs
               own := false }
      else clock.anchors[anchor.node]? := by
  rw [(clock.hearAnchor_spec anchor nowNs).2.2]
  split_ifs
  · exact Std.ExtTreeMap.getElem?_insert_self
  · rfl

/-- **One call.** -/
theorem HeardOnly.hearAnchor {clock : RelationalClock F} {anchor : Anchor F}
    (only : clock.HeardOnly anchor.node) {nowNs : ℕ} (early : nowNs + freshNs < 2 ^ 64) :
    ∃ held,
      Keeps clock (clock.hearAnchor anchor nowNs) anchor.node (nowNs - anchor.ageNs) held := by
  have fits : nowNs - anchor.ageNs + freshNs < 2 ^ 64 := by omega
  have left := clock.hearAnchor_anchors anchor nowNs
  cases found : clock.anchors[anchor.node]? with
  | none =>
    rw [found, if_pos (show replaces none anchor _ = true from rfl)] at left
    refine ⟨_, left, ⟨rfl, fits⟩, Nat.le_add_right _ _, fun h same => ?_⟩
    cases found.symm.trans same
  | some h =>
    obtain ⟨notOwn, heldFits⟩ := only h found
    have same : ∀ h', clock.anchors[anchor.node]? = some h' → h' = h := fun h' found' =>
      Option.some.inj (found'.symm.trans found)
    rw [found] at left
    by_cases taken : replaces (some h) anchor (nowNs - anchor.ageNs) = true
    · rw [if_pos taken] at left
      refine ⟨_, left, ⟨rfl, fits⟩, Nat.le_add_right _ _, fun h' found' => ?_⟩
      rw [same h' found']
      exact replaces_some notOwn fits taken
    · rw [if_neg taken] at left
      refine ⟨h, left, ⟨notOwn, heldFits⟩, ?_, fun h' found' => ?_⟩
      · exact not_replaces_some notOwn fits heldFits taken
      · rw [same h' found']
        exact Nat.le_add_right _ _

/-! ### A sequence of calls -/

/-- Each call since takes the copy held at most ten seconds back. -/
theorem hearAll_held {node : NodeId} {copies : List (Anchor F × ℕ)}
    (about : ∀ p ∈ copies, p.1.node = node) (early : ∀ p ∈ copies, p.2 + freshNs < 2 ^ 64) :
    ∀ {clock : RelationalClock F}, clock.HeardOnly node →
      (clock.hearAll copies).HeardOnly node ∧
      ∀ {h}, clock.anchors[node]? = some h →
        ∃ held, (clock.hearAll copies).anchors[node]? = some held ∧
          h.measuredNs ≤ held.measuredNs + freshNs * copies.length := by
  induction copies with
  | nil => exact fun only => ⟨only, fun found => ⟨_, found, Nat.le_add_right _ _⟩⟩
  | cons p copies ih =>
    obtain ⟨aboutHead, aboutTail⟩ := List.forall_mem_cons.mp about
    obtain ⟨earlyHead, earlyTail⟩ := List.forall_mem_cons.mp early
    subst aboutHead
    intro clock only
    obtain ⟨held, keeps⟩ := only.hearAnchor earlyHead
    obtain ⟨onlyEnd, back⟩ := ih aboutTail earlyTail keeps.heardOnly
    refine ⟨onlyEnd, fun found => ?_⟩
    obtain ⟨last, foundLast, backLast⟩ := back keeps.found
    refine ⟨last, foundLast, (keeps.before _ found).trans ?_⟩
    rw [List.length_cons, mul_add, mul_one, ← add_assoc]
    exact Nat.add_le_add_right backLast _

/-- **How stale gossip leaves a copy.** After any sequence of copies of a reference that is not
measured here, the one held was measured at most ten seconds before each copy heard, and ten more
for every copy heard after that one. -/
theorem hearAll_fresh {clock : RelationalClock F} {node : NodeId} (only : clock.HeardOnly node)
    {before after : List (Anchor F × ℕ)} {p : Anchor F × ℕ}
    (about : ∀ q ∈ before ++ p :: after, q.1.node = node)
    (early : ∀ q ∈ before ++ p :: after, q.2 + freshNs < 2 ^ 64) :
    ∃ held, (clock.hearAll (before ++ p :: after)).anchors[node]? = some held ∧
      held.own = false ∧ measuredAt p ≤ held.measuredNs + freshNs * (after.length + 1) := by
  obtain ⟨aboutBefore, aboutRest⟩ := List.forall_mem_append.mp about
  obtain ⟨aboutHead, aboutAfter⟩ := List.forall_mem_cons.mp aboutRest
  obtain ⟨earlyBefore, earlyRest⟩ := List.forall_mem_append.mp early
  obtain ⟨earlyHead, earlyAfter⟩ := List.forall_mem_cons.mp earlyRest
  have onlyBefore := (hearAll_held aboutBefore earlyBefore only).1
  subst aboutHead
  obtain ⟨held, keeps⟩ := onlyBefore.hearAnchor earlyHead
  obtain ⟨onlyEnd, back⟩ := hearAll_held aboutAfter earlyAfter keeps.heardOnly
  obtain ⟨last, foundLast, backLast⟩ := back keeps.found
  have split : clock.hearAll (before ++ p :: after) =
      ((clock.hearAll before).hearAnchor p.1 p.2).hearAll after := by
    simp [hearAll]
  rw [split]
  refine ⟨last, foundLast, (onlyEnd last foundLast).1, keeps.given.trans ?_⟩
  rw [mul_add, mul_one, ← add_assoc]
  exact Nat.add_le_add_right backLast _

/-! ### Gossip that walks a copy back -/

section WalksBack

/-- A copy of one server's anchor. -/
def copyOf (spread : ℝ) (ageNs : ℕ) : Anchor ℝ := ⟨.replicate 3, spread, 0, 1, ageNs⟩

/-- A clock that has heard nothing. -/
noncomputable def quiet : RelationalClock ℝ := new (.replicate 1) .default

theorem heardOnly_quiet (node : NodeId) : quiet.HeardOnly node := by
  intro held found
  simp [quiet, new] at found

/-- Heard at 100 s: copies ten seconds old, new, and twenty seconds old, the last the tightest. -/
def threeCopies : List (Anchor ℝ × ℕ) :=
  [(copyOf 2 10000000000, 100000000000)] ++ (copyOf 3 0, 100000000000) ::
    [(copyOf 1 20000000000, 100000000000)]

theorem hearAll_fresh_threeCopies : ∃ held,
    (quiet.hearAll threeCopies).anchors[NodeId.replicate 3]? = some held ∧ held.own = false ∧
      measuredAt (copyOf 3 0, 100000000000) ≤ held.measuredNs + freshNs * 2 := by
  have about : ∀ q ∈ threeCopies, q.1.node = .replicate 3 := by simp [threeCopies, copyOf]
  have early : ∀ q ∈ threeCopies, q.2 + freshNs < 2 ^ 64 := by simp [threeCopies, freshNs]
  exact hearAll_fresh (heardOnly_quiet _) about early

theorem hearAnchor_copyOf (clock : RelationalClock ℝ) (spread : ℝ) (ageNs nowNs : ℕ) :
    (clock.hearAnchor (copyOf spread ageNs) nowNs).anchors[NodeId.replicate 3]? =
      if replaces clock.anchors[NodeId.replicate 3]? (copyOf spread ageNs) (nowNs - ageNs) then
        some ⟨copyOf spread 0, nowNs - ageNs, false⟩
      else clock.anchors[NodeId.replicate 3]? :=
  clock.hearAnchor_anchors (copyOf spread ageNs) nowNs

/-- Heard at 15 s and in the last nanosecond of `u64`, both new. -/
def lastCopies : List (Anchor ℝ × ℕ) :=
  [(copyOf 1 0, 15000000000), (copyOf 1 0, 18446744073709551615)]

/-- **Twenty seconds in two calls.** The new copy is too loose to replace the one ten seconds old,
which the one twenty seconds old then does. Near the end of `u64` the sum wraps, and a copy five
hundred years fresher is not taken. -/
theorem hearAll_walks_back :
    (∃ held, (quiet.hearAll threeCopies).anchors[NodeId.replicate 3]? = some held ∧
      ∃ p ∈ threeCopies, held.measuredNs + freshNs < measuredAt p) ∧
    ∃ held, (quiet.hearAll lastCopies).anchors[NodeId.replicate 3]? = some held ∧
      ∃ p ∈ lastCopies, held.measuredNs + freshNs < measuredAt p := by
  have first : quiet.anchors[NodeId.replicate 3]? = none := by simp [quiet, new]
  refine ⟨⟨⟨copyOf 1 0, 80000000000, false⟩, ?_, (copyOf 3 0, 100000000000), by simp [threeCopies],
    by decide⟩, ⟨copyOf 1 0, 15000000000, false⟩, ?_, (copyOf 1 0, 18446744073709551615),
    by simp [lastCopies], by decide⟩
  · simp only [threeCopies, hearAll, List.cons_append, List.nil_append, List.foldl_cons,
      List.foldl_nil, hearAnchor_copyOf, first]
    simp [replaces, wrapU64, copyOf, freshNs]
    norm_num
  · simp only [lastCopies, hearAll, List.foldl_cons, List.foldl_nil, hearAnchor_copyOf, first]
    simp [replaces, wrapU64, freshNs]

end WalksBack

end Rtfsn.RelationalClock
