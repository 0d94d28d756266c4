/-
**What the clustering leaves**, in exact reals.

* `robustSpread_real`: the robust spread is the median, and 1.4826 times the median absolute
  deviation with its floor, for odd and even numbers of values.
* `Chosen`: the chosen anchors are those of the start that are not set aside. Every turn keeps it.
* `selectTurn_leave`, `clusterTurn_again`, `clusterTurn_leave`: the frame a turn goes on with, or
  leaves with, is the one solved from the anchors then chosen, and a turn that leaves with more than
  three has found every one of them within four spreads of their median.
* `anchorOffsets_each`: every chosen anchor is in the frame, since its own edge joins it to UTC.
-/
import Rtfsn.Lib.Ranking
import Rtfsn.Sync.AbsoluteRuns

set_option linter.unusedSectionVars false

namespace Rtfsn

open Ranking

/-! ### The robust spread -/

theorem length_sortAscending (xs : List ℝ) : (sortAscending xs).length = xs.length :=
  List.length_mergeSort xs

/-- The middle of the sorted values is their median. -/
theorem middle_sortAscending {xs : List ℝ} (nonempty : xs ≠ []) :
    middle (sortAscending xs) = some (median xs) := by
  have positive : 0 < xs.length := List.length_pos_iff.mpr nonempty
  have length := length_sortAscending xs
  have found : ∀ i < xs.length, (sortAscending xs)[i]? = some ((ranked id xs).getD i 0) := by
    intro i inside
    have sorted : sortAscending xs = ranked id xs := rfl
    rw [sorted, List.getD_eq_getElem?_getD,
      List.getElem?_eq_getElem (by rw [length_ranked]; exact inside), Option.getD_some]
  unfold middle
  simp only [length, F64.lit_real]
  split
  · rename_i odd
    rw [found _ (by omega), median, show (xs.length - 1) / 2 = xs.length / 2 by omega,
      add_self_div_two]
  · rename_i even
    rw [found _ (by omega), found _ (by omega), median,
      show (xs.length - 1) / 2 = xs.length / 2 - 1 by omega]
    norm_num

/-- **The robust spread in exact reals.** -/
theorem robustSpread_real (xs : List ℝ) :
    robustSpread xs = some (median xs, max (1.4826 * medianDeviation xs) 50000) := by
  unfold robustSpread
  split
  · rename_i none
    rw [List.isEmpty_iff.mp none]
    norm_num [median, medianDeviation, ranked, minSpreadNs]
  · rename_i some
    have nonempty : xs ≠ [] := fun none => some (List.isEmpty_iff.mpr none)
    have deviates : (sortAscending xs).map (fun x => F64.abs (x - median xs)) ≠ [] := by
      simpa using sortAscending_ne_nil nonempty
    have same : median ((sortAscending xs).map fun x => F64.abs (x - median xs)) =
        medianDeviation xs := median_perm ((ranked_perm id xs).map _)
    simp only [middle_sortAscending nonempty, middle_sortAscending deviates, same,
      Option.bind_eq_bind, Option.bind_some, minSpreadNs]
    norm_num

/-! ### The chosen anchors -/

/-- The chosen anchors are those of the start that are not set aside. -/
def Chosen {F : Type} (start : List (Anchor F)) (s : Selection F) : Prop :=
  s.chosen = start.filter fun a => a.node ∉ s.aside

theorem Chosen.refl {F : Type} (start : List (Anchor F)) : Chosen start ⟨start, []⟩ := by
  simp [Chosen]

theorem Chosen.remove {F : Type} {start : List (Anchor F)} {s : Selection F}
    (chosen : Chosen start s) (node : NodeId) : Chosen start (s.remove node) := by
  unfold Chosen Selection.remove at *
  rw [chosen, List.filter_filter]
  refine List.filter_congr fun a _ => ?_
  simp [and_comm]

namespace RelationalClock

variable {clock : RelationalClock ℝ} {atNs : ℕ} {start : List (Anchor ℝ)}

/-! ### The turns -/

theorem selectTurn_again {s s' : Selection ℝ} (chosen : Chosen start s)
    (turned : clock.selectTurn atNs s = some (.inl s')) : Chosen start s' := by
  obtain ⟨frame, solved, _⟩ := clock.exists_solveWith atNs s.chosen
  simp only [selectTurn, solved, Option.bind_eq_bind, Option.bind_some] at turned
  cases worst : worstEdge frame with
  | none => simp [worst] at turned
  | some w =>
    simp only [worst] at turned
    split at turned
    · obtain rfl : s.remove w.toNode = s' := by simpa using turned
      exact chosen.remove _
    · simp at turned

/-- The selection leaves with the frame of the anchors still chosen. -/
theorem selectTurn_leave {s t : Selection ℝ} {frame : NetworkFrame ℝ}
    (turned : clock.selectTurn atNs s = some (.inr (t, frame))) :
    t = s ∧ clock.solveWith atNs s.chosen = some frame := by
  obtain ⟨frame', solved, _⟩ := clock.exists_solveWith atNs s.chosen
  simp only [selectTurn, solved, Option.bind_eq_bind, Option.bind_some] at turned
  cases worst : worstEdge frame' with
  | none =>
    obtain ⟨rfl, rfl⟩ : s = t ∧ frame' = frame := by simpa [worst] using turned
    exact ⟨rfl, solved⟩
  | some w =>
    simp only [worst] at turned
    split at turned
    · simp at turned
    · obtain ⟨rfl, rfl⟩ : s = t ∧ frame' = frame := by simpa using turned
      exact ⟨rfl, solved⟩

/-- The clustering goes on with the frame of the anchors still chosen. -/
theorem clusterTurn_again {s s' : Selection ℝ} {frame frame' : NetworkFrame ℝ}
    (chosen : Chosen start s)
    (turned : clock.clusterTurn atNs (s, frame) = some (.inl (s', frame'))) :
    Chosen start s' ∧ clock.solveWith atNs s'.chosen = some frame' := by
  simp only [clusterTurn, robustSpread_real, Option.bind_eq_bind, Option.bind_some] at turned
  split at turned
  · simp at turned
  · split at turned
    · simp at turned
    · split at turned
      · simp at turned
      · simp only [Option.bind_eq_some_iff, Option.pure_def, Option.some.injEq, Sum.inl.injEq,
          Prod.mk.injEq] at turned
        obtain ⟨next, solved, rfl, rfl⟩ := turned
        exact ⟨chosen.remove _, solved⟩

/-- A frame with the spread of the offsets, more than three of which are within four spreads of
their median. -/
structure Clustered (chosen : List (Anchor ℝ)) (xs : List ℝ) (base frame : NetworkFrame ℝ) :
    Prop where
  jitter : frame.selectionJitterNs = max (1.4826 * medianDeviation xs) 50000
  rest : frame = { base with selectionJitterNs := frame.selectionJitterNs }
  near : 3 < chosen.length → ∀ x ∈ xs, |x - median xs| ≤ 4 * frame.selectionJitterNs

/-- The clustering leaves with its own frame, the chosen anchors clustered in it. -/
theorem clusterTurn_leave {s t : Selection ℝ} {frame frame' : NetworkFrame ℝ} {xs : List ℝ}
    (offsets : (anchorOffsets s.chosen frame).map Prod.snd = xs)
    (turned : clock.clusterTurn atNs (s, frame) = some (.inr (t, frame'))) :
    t = s ∧ Clustered s.chosen xs frame frame' := by
  simp only [clusterTurn, offsets, robustSpread_real, Option.bind_eq_bind, Option.bind_some,
    minSurvivors] at turned
  split at turned
  · rename_i few
    obtain ⟨rfl, rfl⟩ : s = t ∧ _ = frame' := by simpa using turned
    exact ⟨rfl, rfl, rfl, fun many => absurd few (by omega)⟩
  · cases farthest : maxBy (fun x : NodeId × ℝ => F64.abs (x.2 - median xs))
        (anchorOffsets s.chosen frame) with
    | none =>
      simp only [farthest, Option.pure_def, Option.some.injEq, Sum.inr.injEq, Prod.mk.injEq]
        at turned
      obtain ⟨rfl, rfl⟩ := turned
      refine ⟨rfl, rfl, rfl, fun _ x listed => ?_⟩
      rw [← offsets] at listed
      obtain ⟨entry, member, _⟩ := List.mem_map.mp listed
      obtain ⟨_, found⟩ :=
        exists_maxBy (fun x : NodeId × ℝ => F64.abs (x.2 - median xs)) member
      rw [farthest] at found
      cases found
    | some entry =>
      obtain ⟨worst, off⟩ := entry
      simp only [farthest] at turned
      split at turned
      · rename_i near
        simp only [Option.pure_def, Option.some.injEq, Sum.inr.injEq, Prod.mk.injEq] at turned
        obtain ⟨rfl, rfl⟩ := turned
        simp only [F64.le_real, F64.abs_real, clusterK, F64.lit_real, decide_eq_true_eq,
          Rat.cast_ofNat] at near
        refine ⟨rfl, rfl, rfl, fun _ x listed => ?_⟩
        rw [← offsets] at listed
        obtain ⟨entry, member, rfl⟩ := List.mem_map.mp listed
        exact (le_maxBy farthest entry member).trans near
      · simp only [Option.bind_eq_some_iff, Option.pure_def, Option.some.injEq, reduceCtorEq,
          and_false] at turned
        obtain ⟨_, impossible⟩ := turned
        exact impossible.elim

/-! ### The loops -/

/-- The selection leaves the frame of the anchors it did not set aside. -/
theorem select_left {fuel : ℕ} {a : Selection ℝ × NetworkFrame ℝ}
    (ended : Loop.repeatUntil (clock.selectTurn atNs) fuel ⟨start, []⟩ = .ok a) :
    Chosen start a.1 ∧ clock.solveWith atNs a.1.chosen = some a.2 := by
  have again : ∀ s s' : Selection ℝ, Chosen start s →
      clock.selectTurn atNs s = some (.inl s') → Chosen start s' :=
    fun _ _ chosen turned => selectTurn_again chosen turned
  have leave : ∀ (s : Selection ℝ) (a : Selection ℝ × NetworkFrame ℝ), Chosen start s →
      clock.selectTurn atNs s = some (.inr a) →
      Chosen start a.1 ∧ clock.solveWith atNs a.1.chosen = some a.2 := by
    rintro s ⟨t, frame⟩ chosen turned
    obtain ⟨rfl, solved⟩ := selectTurn_leave turned
    exact ⟨chosen, solved⟩
  exact Loop.repeatUntil_induction again leave (Chosen.refl start) ended

/-- The clustering leaves the anchors it did not set aside clustered in their frame. -/
theorem cluster_left {fuel : ℕ} {frame : NetworkFrame ℝ} {a : Selection ℝ × NetworkFrame ℝ}
    (first : clock.solveWith atNs start = some frame)
    (ended : Loop.repeatUntil (clock.clusterTurn atNs) fuel (⟨start, []⟩, frame) = .ok a) :
    Chosen start a.1 ∧ ∃ base, clock.solveWith atNs a.1.chosen = some base ∧
      Clustered a.1.chosen ((anchorOffsets a.1.chosen base).map Prod.snd) base a.2 := by
  let Inv : Selection ℝ × NetworkFrame ℝ → Prop := fun a =>
    Chosen start a.1 ∧ clock.solveWith atNs a.1.chosen = some a.2
  have again : ∀ s s' : Selection ℝ × NetworkFrame ℝ, Inv s →
      clock.clusterTurn atNs s = some (.inl s') → Inv s' := by
    rintro ⟨s, frame⟩ ⟨s', frame'⟩ kept turned
    exact clusterTurn_again kept.1 turned
  have leave : ∀ s a : Selection ℝ × NetworkFrame ℝ, Inv s →
      clock.clusterTurn atNs s = some (.inr a) → Chosen start a.1 ∧ ∃ base,
        clock.solveWith atNs a.1.chosen = some base ∧
        Clustered a.1.chosen ((anchorOffsets a.1.chosen base).map Prod.snd) base a.2 := by
    rintro ⟨s, base⟩ ⟨t, left⟩ ⟨chosen, solved⟩ turned
    obtain ⟨rfl, clustered⟩ := clusterTurn_leave rfl turned
    exact ⟨chosen, base, solved, clustered⟩
  have begin : Inv (⟨start, []⟩, frame) := ⟨Chosen.refl start, first⟩
  exact Loop.repeatUntil_induction again leave begin ended

/-! ### The anchors in their frame -/

/-- No known edge touches UTC. -/
def ApartFromUtc (clock : RelationalClock ℝ) : Prop :=
  ∀ e ∈ clock.known, e.fromNode ≠ utc ∧ e.toNode ≠ utc

/-- A chosen anchor is in the frame. -/
theorem exists_chosen_node (apart : clock.ApartFromUtc) {chosen : List (Anchor ℝ)}
    {frame : NetworkFrame ℝ} (solved : clock.solveWith atNs chosen = some frame) {a : Anchor ℝ}
    (member : a ∈ chosen) (measured : a ∈ clock.measuredAnchors) :
    ∃ node, frame.node a.node = some node := by
  obtain ⟨net, frame', solves⟩ :=
    exists_solves clock.me utc atNs (clock.known ++ chosen.map (anchorEdge atNs))
  obtain rfl : frame' = frame := Option.some.inj (solves.solved.symm.trans solved)
  have other : utc ≠ a.node := by
    obtain ⟨_, e, known, ends⟩ := mem_measuredAnchors.mp measured
    rcases ends with same | same
    · exact same ▸ (apart e known).1.symm
    · exact same ▸ (apart e known).2.symm
  have joined : Joined (clock.known ++ chosen.map (anchorEdge atNs)) utc a.node := by
    refine ⟨anchorEdge atNs a, List.mem_append_right _ (List.mem_map_of_mem member), ?_,
      Or.inl ⟨rfl, rfl⟩⟩
    refine (EdgeEstimate.usable_iff _).mpr ⟨other, ?_⟩
    norm_num [anchorEdge]
  obtain ⟨node, listed, same⟩ :=
    List.mem_map.mp ((solves.members.2 a.node).mpr (Relation.ReflTransGen.single joined))
  rw [NetworkFrame.node, ← Option.isSome_iff_exists, List.find?_isSome]
  exact ⟨node, listed, decide_eq_true same⟩

/-- The offsets of anchors that are all in the frame are theirs, one each. -/
theorem anchorOffsets_each {frame : NetworkFrame ℝ} {chosen : List (Anchor ℝ)}
    (found : ∀ a ∈ chosen, ∃ node, frame.node a.node = some node) :
    List.Forall₂ (fun a x => ∃ node, frame.node a.node = some node ∧ node.offsetNs = x) chosen
      ((anchorOffsets chosen frame).map Prod.snd) := by
  induction chosen with
  | nil => exact List.Forall₂.nil
  | cons a chosen ih =>
    obtain ⟨node, there⟩ := found a List.mem_cons_self
    have first : anchorOffsets (a :: chosen) frame =
        (a.node, node.offsetNs) :: anchorOffsets chosen frame := by
      simp [anchorOffsets, there]
    rw [first]
    exact List.Forall₂.cons ⟨node, there, rfl⟩
      (ih fun b member => found b (List.mem_cons_of_mem _ member))

/-! ### The frame that is returned -/

/-- The measured anchors that a frame lists neither as falsetickers nor as outliers. -/
def kept {F : Type} [F64 F] (clock : RelationalClock F) (frame : NetworkFrame F) :
    List (Anchor F) :=
  clock.measuredAnchors.filter fun a => a.node ∉ frame.falsetickers ∧ a.node ∉ frame.outliers

/-- **The returned frame, its survivors and its jitter describe one state.** For a clock none of
whose edges touches UTC, the frame is the one solved from the clock's edges and UTC's joins to
exactly the kept anchors; the jitter is the robust spread of the kept anchors' offsets in it; and of
more than three kept anchors, each is within four jitters of their median. -/
theorem solveAbsolute_clustered (clock : RelationalClock ℝ) (apart : clock.ApartFromUtc)
    (atNs fuel : ℕ) (frame : NetworkFrame ℝ)
    (returned : clock.solveAbsolute atNs fuel = .ok (some frame)) :
    ∃ base xs,
      solveFrame clock.me utc atNs (clock.known ++ (clock.kept frame).map (anchorEdge atNs)) =
        some base ∧
      frame = { base with
        falsetickers := frame.falsetickers
        outliers := frame.outliers
        selectionJitterNs := frame.selectionJitterNs } ∧
      List.Forall₂ (fun a x => ∃ node, frame.node a.node = some node ∧ node.offsetNs = x)
        (clock.kept frame) xs ∧
      frame.selectionJitterNs = max (1.4826 * medianDeviation xs) 50000 ∧
      (3 < (clock.kept frame).length →
        ∀ x ∈ xs, |x - median xs| ≤ 4 * frame.selectionJitterNs) := by
  unfold solveAbsolute at returned
  split at returned
  · cases returned
  cases selected : Loop.repeatUntil (clock.selectTurn atNs) fuel ⟨clock.measuredAnchors, []⟩ with
  | error halt => simp [selected, bind, Except.bind] at returned
  | ok first =>
    obtain ⟨s, frame₀⟩ := first
    cases clustered : Loop.repeatUntil (clock.clusterTurn atNs) fuel (⟨s.chosen, []⟩, frame₀) with
    | error halt => simp [selected, clustered, bind, Except.bind] at returned
    | ok second =>
      obtain ⟨t, frame₁⟩ := second
      simp only [selected, clustered, bind, Except.bind, pure, Except.pure, Except.ok.injEq,
        Option.some.injEq] at returned
      obtain ⟨selection, solved₀⟩ := select_left selected
      obtain ⟨chosen, base, solved, ended⟩ := cluster_left solved₀ clustered
      dsimp only at selection chosen solved ended
      have survivors : clock.kept frame = t.chosen := by
        rw [chosen, selection, List.filter_filter, kept, ← returned]
        refine List.filter_congr fun a _ => ?_
        simp [Bool.and_comm]
      have found : ∀ a ∈ t.chosen, ∃ node, base.node a.node = some node := by
        intro a member
        refine exists_chosen_node apart solved member ?_
        rw [← survivors] at member
        exact List.mem_of_mem_filter member
      have nodes : ∀ id, frame.node id = base.node id := fun id => by
        rw [← returned, ended.rest]
        rfl
      refine ⟨base, (anchorOffsets t.chosen base).map Prod.snd, ?_, ?_, ?_, ?_, ?_⟩
      · rw [survivors]
        exact solved
      · rw [← returned, ended.rest]
      · simp only [survivors, nodes]
        exact anchorOffsets_each found
      · rw [← returned]
        exact ended.jitter
      · rw [survivors, ← returned]
        exact ended.near

/-! ### Four anchors that agree -/

/-- Edges between four nodes that all read the same. -/
def agreeingEdges : List (EdgeEstimate ℝ) :=
  [gossiped (.replicate 1) (.replicate 2) 0, gossiped (.replicate 2) (.replicate 3) 0,
    gossiped (.replicate 3) (.replicate 4) 0]

/-- The four as anchors. -/
def agreeingAnchors : List (Anchor ℝ) :=
  [gossipedAnchor (.replicate 1), gossipedAnchor (.replicate 2), gossipedAnchor (.replicate 3),
    gossipedAnchor (.replicate 4)]

theorem listened_agreeing (cfg : TrackConfig ℝ) :
    ∃ clock, (RelationalClock.new (.replicate 5) cfg).run (listen agreeingEdges agreeingAnchors) =
        some clock ∧ Listened (.replicate 5) agreeingEdges agreeingAnchors clock := by
  have listened := (((((((Listened.new (.replicate 5) cfg).hear
    (gossiped (.replicate 1) (.replicate 2) 0) ?_ ?_ 0).hear
    (gossiped (.replicate 2) (.replicate 3) 0) ?_ ?_ 0).hear
    (gossiped (.replicate 3) (.replicate 4) 0) ?_ ?_ 0).hearAnchor
    (gossipedAnchor (.replicate 1)) rfl ?_ 0).hearAnchor
    (gossipedAnchor (.replicate 2)) rfl ?_ 0).hearAnchor
    (gossipedAnchor (.replicate 3)) rfl ?_ 0).hearAnchor
    (gossipedAnchor (.replicate 4)) rfl ?_ 0
  · exact ⟨_, rfl, listened⟩
  all_goals simp [gossiped, gossipedAnchor]

/-- Their frame is zero everywhere: no residual and no offset. -/
theorem frame_agreeing {edges : List (EdgeEstimate ℝ)}
    (given : edges.Perm (agreeingEdges ++ agreeingAnchors.map (anchorEdge 0)))
    {frame : NetworkFrame ℝ} (solved : solveFrame (.replicate 5) utc 0 edges = some frame) :
    (∀ r ∈ frame.edges, r.zOffset = 0) ∧ ∀ node ∈ frame.nodes, node.offsetNs = 0 := by
  obtain ⟨net, frame', solves⟩ := exists_solves (.replicate 5) utc 0 edges
  obtain rfl : frame' = frame := Option.some.inj (solves.solved.symm.trans solved)
  have listed_iff : ∀ e, e ∈ edges ↔ e = gossiped (.replicate 1) (.replicate 2) 0 ∨
      e = gossiped (.replicate 2) (.replicate 3) 0 ∨ e = gossiped (.replicate 3) (.replicate 4) 0 ∨
      e = anchorEdge 0 (gossipedAnchor (.replicate 1)) ∨
      e = anchorEdge 0 (gossipedAnchor (.replicate 2)) ∨
      e = anchorEdge 0 (gossipedAnchor (.replicate 3)) ∨
      e = anchorEdge 0 (gossipedAnchor (.replicate 4)) := fun e => by
    simp [given.mem_iff, agreeingEdges, agreeingAnchors]
  have plain : ∀ e ∈ edges, Plain e ∧ e.relation.offsetNs = 0 := by
    intro e listed
    rcases (listed_iff e).mp listed with rfl | rfl | rfl | rfl | rfl | rfl | rfl
    on_goal 1 => exact ⟨plain_gossiped (by simp) _, rfl⟩
    on_goal 1 => exact ⟨plain_gossiped (by simp) _, rfl⟩
    on_goal 1 => exact ⟨plain_gossiped (by simp) _, rfl⟩
    all_goals exact ⟨plain_anchorEdge (by simp [utc]), rfl⟩
  have alone : ¬ Connected edges utc (.replicate 5) := fun connected => by
    refine absurd (connected.eq_of_untouched fun e listed => ?_) (by simp [utc])
    rcases (listed_iff e).mp listed with rfl | rfl | rfl | rfl | rfl | rfl | rfl <;>
      simp [gossiped, gossipedAnchor, anchorEdge, utc]
  have reached : ∀ e ∈ edges, Connected edges e.fromNode e.toNode := fun e listed =>
    .of_usable listed (plain e listed).1.usable
  have connected : ∀ e ∈ edges, Connected edges utc e.fromNode := by
    intro e listed
    rcases (listed_iff e).mp listed with rfl | rfl | rfl | rfl | rfl | rfl | rfl
    · exact reached (anchorEdge 0 (gossipedAnchor (.replicate 1))) (by simp [listed_iff])
    · exact reached (anchorEdge 0 (gossipedAnchor (.replicate 2))) (by simp [listed_iff])
    · exact reached (anchorEdge 0 (gossipedAnchor (.replicate 3))) (by simp [listed_iff])
    all_goals exact Relation.ReflTransGen.refl
  have balanced : ∀ id, (edges.map (pull (fun _ => 0) id)).sum = 0 := by
    intro id
    refine List.sum_eq_zero fun term inside => ?_
    obtain ⟨e, listed, rfl⟩ := List.mem_map.mp inside
    simp [pull, (plain e listed).2]
  constructor
  · intro r listed
    obtain ⟨e, known, _, _, zOffset⟩ := (solves.zOffset_plain alone (fun e listed =>
      (plain e listed).1) connected _ balanced).1 r listed
    rw [zOffset, (plain e known).2]
    norm_num
  · intro node listed
    rw [solves.offset_plain alone (fun e listed => (plain e listed).1) connected _ balanced node
      listed, sub_zero]

/-- The clustering leaves at once when the offsets are all zero. -/
theorem clusterTurn_of_zero {s : Selection ℝ} {frame : NetworkFrame ℝ} (many : 3 < s.chosen.length)
    (zeros : ∀ x ∈ (anchorOffsets s.chosen frame).map Prod.snd, x = 0) :
    ∃ frame', clock.clusterTurn atNs (s, frame) = some (.inr (s, frame')) := by
  have center : median ((anchorOffsets s.chosen frame).map Prod.snd) = 0 := by
    have entry : ∀ i, (ranked id ((anchorOffsets s.chosen frame).map Prod.snd)).getD i 0 = 0 := by
      intro i
      rw [List.getD_eq_getElem?_getD]
      cases found : (ranked id ((anchorOffsets s.chosen frame).map Prod.snd))[i]? with
      | none => rfl
      | some x => exact zeros x ((ranked_perm _ _).mem_iff.mp (List.mem_of_getElem? found))
    rw [median, entry, entry, add_zero, zero_div]
  simp only [clusterTurn, robustSpread_real, center, Option.bind_eq_bind, Option.bind_some,
    minSurvivors]
  rw [if_neg (not_le.mpr many)]
  cases farthest : maxBy (fun x : NodeId × ℝ => F64.abs (x.2 - 0))
      (anchorOffsets s.chosen frame) with
  | none => exact ⟨_, rfl⟩
  | some entry =>
    have off : entry.2 = 0 := zeros _ (List.mem_map_of_mem (maxBy_mem farthest))
    refine ⟨_, if_pos ?_⟩
    simp [off, clusterK]

/-- All four are kept, within four jitters of their median. -/
theorem solveAbsolute_clustered_agreeing :
    ∃ clock frame xs, (RelationalClock.new (.replicate 5) .default).run
        (listen agreeingEdges agreeingAnchors) = some clock ∧
      clock.solveAbsolute 0 1 = .ok (some frame) ∧ (clock.kept frame).length = 4 ∧
      xs.length = 4 ∧ ∀ x ∈ xs, |x - median xs| ≤ 4 * frame.selectionJitterNs := by
  obtain ⟨clock, ran, listened⟩ := listened_agreeing .default
  have measured := listened.measuredAnchors
    (by simp [agreeingEdges, agreeingAnchors, gossiped, gossipedAnchor])
  have nonempty : ¬ clock.measuredAnchors.isEmpty = true := by
    rw [List.isEmpty_iff]
    exact fun none => absurd (none ▸ measured).length_eq (by simp [agreeingAnchors])
  obtain ⟨base, solved, _⟩ := clock.exists_solveWith 0 clock.measuredAnchors
  have given := listened.known.append (measured.map (anchorEdge 0))
  obtain ⟨still, zero⟩ :=
    frame_agreeing given (by rw [← solved, solveWith, listened.me])
  have apart : clock.ApartFromUtc := by
    intro e known
    have listed := listened.known.mem_iff.mp known
    simp only [agreeingEdges, List.mem_cons, List.not_mem_nil, or_false] at listed
    rcases listed with rfl | rfl | rfl <;> simp [gossiped, utc]
  have select : clock.selectTurn 0 ⟨clock.measuredAnchors, []⟩ =
      some (.inr (⟨clock.measuredAnchors, []⟩, base)) := by
    simp only [selectTurn, solved, Option.bind_eq_bind, Option.bind_some]
    cases worst : worstEdge base with
    | none => rfl
    | some w =>
      have quiet : w.zOffset = 0 := still w (List.mem_of_mem_filter (maxBy_mem worst))
      simp [quiet]
  have zeros : ∀ x ∈ (anchorOffsets clock.measuredAnchors base).map Prod.snd, x = 0 := by
    intro x listed
    obtain ⟨entry, member, rfl⟩ := List.mem_map.mp listed
    obtain ⟨a, _, found⟩ := List.mem_filterMap.mp member
    obtain ⟨node, there, rfl⟩ := Option.map_eq_some_iff.mp found
    exact zero node (List.mem_of_find?_eq_some there)
  obtain ⟨frame, left⟩ : ∃ frame, clock.clusterTurn 0 (⟨clock.measuredAnchors, []⟩, base) =
      some (.inr (⟨clock.measuredAnchors, []⟩, frame)) :=
    clusterTurn_of_zero (by rw [measured.length_eq]; decide) zeros
  have returned : clock.solveAbsolute 0 1 =
      .ok (some { frame with falsetickers := [], outliers := [] }) := by
    rw [solveAbsolute, if_neg nonempty]
    simp only [Loop.repeatUntil, select, left, bind, Except.bind, pure, Except.pure]
  obtain ⟨_, xs, _, _, each, _, near⟩ := solveAbsolute_clustered clock apart 0 1 _ returned
  have four : (clock.kept { frame with falsetickers := [], outliers := [] }).length = 4 := by
    simp [kept, measured.length_eq, agreeingAnchors]
  exact ⟨clock, _, xs, ran, returned, four, each.length_eq.symm.trans four,
    near (by rw [four]; decide)⟩

end RelationalClock

end Rtfsn
