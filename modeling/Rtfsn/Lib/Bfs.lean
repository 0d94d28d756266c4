/-
Breadth-first search with a parent for each node.

The state is a search in progress: the nodes found, those waiting, the parents and the nodes
already expanded, in order.

* `Layered`: the invariant, against a depth the search does not keep. Expanded nodes come in order
  of depth, waiting ones are at most one layer further, and every neighbour of an expanded node is
  found, at most one layer below it.
* `Layered.expand`: one expansion keeps it, so the finished search satisfies it
  (`search_finished`).
* `mem_search`: the search finds exactly what is reachable.
-/
import Mathlib

set_option linter.unusedSectionVars false

namespace Rtfsn

variable {V : Type} [DecidableEq V]

/-- A search in progress. -/
structure Bfs (V : Type) where
  members : Finset V
  queue : List V
  parent : V → Option V
  order : List V

namespace Bfs

/-- Only the root is found. -/
def start (r : V) : Bfs V := ⟨{r}, [r], fun _ => none, []⟩

/-- Look at one neighbour of `u`. -/
def visit (u : V) (s : Bfs V) (v : V) : Bfs V :=
  if v ∈ s.members then s
  else
    { s with
      members := insert v s.members
      parent := Function.update s.parent v (some u)
      queue := s.queue ++ [v] }

/-- Take `u` from the queue and look at its neighbours. -/
def expand (next : V → List V) (s : Bfs V) (u : V) (queue : List V) : Bfs V :=
  (next u).foldl (visit u) { s with queue := queue, order := s.order ++ [u] }

/-- What is left to do: the nodes not found, and those waiting. -/
def remaining [Fintype V] (s : Bfs V) : ℕ := (Fintype.card V - s.members.card) + s.queue.length

theorem remaining_visit [Fintype V] (u : V) (s : Bfs V) (v : V) :
    (s.visit u v).remaining = s.remaining := by
  unfold visit
  split_ifs with found
  · rfl
  · have room : s.members.card < Fintype.card V :=
      Finset.card_lt_univ_of_notMem found
    simp only [remaining, Finset.card_insert_of_notMem found, List.length_append,
      List.length_singleton]
    omega

theorem remaining_expand [Fintype V] (next : V → List V) (s : Bfs V) (u : V) (queue : List V) :
    (s.expand next u queue).remaining =
      (Fintype.card V - s.members.card) + queue.length := by
  have visits : ∀ (vs : List V) (s : Bfs V),
      (vs.foldl (visit u) s).remaining = s.remaining := by
    intro vs
    induction vs with
    | nil => exact fun _ => rfl
    | cons v vs ih =>
      intro s
      rw [List.foldl_cons, ih, remaining_visit]
  exact visits _ _

/-- Expand until nothing waits. -/
def run [Fintype V] (next : V → List V) (s : Bfs V) : Bfs V :=
  match _waiting : s.queue with
  | [] => s
  | u :: queue => run next (s.expand next u queue)
termination_by s.remaining
decreasing_by
  rw [remaining_expand]
  simp only [remaining, _waiting, List.length_cons]
  omega

/-- The search from `r`. -/
def search [Fintype V] (next : V → List V) (r : V) : Bfs V := run next (start r)

/-! ### The invariant -/

/-- What holds of a search in progress, against depths `d`; `level` is the depth of the node last
expanded. -/
structure Layered (next : V → List V) (r : V) (s : Bfs V) (d : V → ℕ) (level : ℕ) : Prop where
  listed : ∀ v, v ∈ s.members ↔ v ∈ s.order ++ s.queue
  nodup : (s.order ++ s.queue).Nodup
  sorted : (s.order ++ s.queue).Pairwise fun u v => d u ≤ d v
  expanded : ∀ v ∈ s.order, d v ≤ level
  waiting : ∀ v ∈ s.queue, level ≤ d v ∧ d v ≤ level + 1
  root : r ∈ s.members
  root_parent : s.parent r = none
  has_parent : ∀ v ∈ s.members, v ≠ r →
    ∃ u ∈ s.order, s.parent v = some u ∧ v ∈ next u ∧ d v = d u + 1
  unfound : ∀ v ∉ s.members, s.parent v = none

/-- Every neighbour of a node is found, at most one layer below it. -/
def Closed (next : V → List V) (s : Bfs V) (d : V → ℕ) (u : V) : Prop :=
  ∀ v ∈ next u, v ∈ s.members ∧ d v ≤ d u + 1

theorem Layered.start (next : V → List V) (r : V) : Layered next r (start r) (fun _ => 0) 0 := by
  constructor <;> simp [Bfs.start]

/-- What is found is at most one layer below the node last expanded. -/
theorem Layered.le_succ {next : V → List V} {r : V} {s : Bfs V} {d : V → ℕ} {level : ℕ}
    (layered : Layered next r s d level) {w : V} (member : w ∈ s.members) : d w ≤ level + 1 := by
  rcases List.mem_append.mp ((layered.listed w).mp member) with early | late
  · exact (layered.expanded w early).trans (Nat.le_succ _)
  · exact (layered.waiting w late).2

/-- A neighbour not found before goes to the end of the queue, one layer below. -/
theorem Layered.visit_new {next : V → List V} {r u v : V} {s : Bfs V} {d : V → ℕ}
    (layered : Layered next r s d (d u)) (last : u ∈ s.order) (neighbour : v ∈ next u)
    (new : v ∉ s.members) :
    Layered next r (s.visit u v) (Function.update d v (d u + 1)) (d u) := by
  have kept : ∀ w ∈ s.members, Function.update d v (d u + 1) w = d w := fun w member =>
    Function.update_of_ne (fun same : w = v => new (same ▸ member)) _ _
  have listed_kept : ∀ w ∈ s.order ++ s.queue, Function.update d v (d u + 1) w = d w :=
    fun w member => kept w ((layered.listed w).mpr member)
  have order_kept : ∀ w ∈ s.order, Function.update d v (d u + 1) w = d w := fun w member =>
    listed_kept w (List.mem_append_left _ member)
  have self : Function.update d v (d u + 1) v = d u + 1 := Function.update_self _ _ _
  have next_state : s.visit u v =
      { s with
        members := insert v s.members
        parent := Function.update s.parent v (some u)
        queue := s.queue ++ [v] } := if_neg new
  rw [next_state]
  refine ⟨?_, ?_, ?_, ?_, ?_, ?_, ?_, ?_, ?_⟩
  · intro w
    have listed := layered.listed w
    simp only [Finset.mem_insert, List.mem_append, List.mem_singleton] at listed ⊢
    tauto
  · rw [← List.append_assoc]
    refine List.nodup_append.mpr ⟨layered.nodup, List.nodup_singleton v, fun w member w' same => ?_⟩
    rintro rfl
    exact new ((layered.listed v).mpr (List.mem_singleton.mp same ▸ member))
  · rw [← List.append_assoc, List.pairwise_append]
    refine ⟨?_, List.pairwise_singleton _ _, fun w member w' same => ?_⟩
    · refine layered.sorted.imp_of_mem fun {w w'} member member' before => ?_
      rwa [listed_kept w member, listed_kept w' member']
    · obtain rfl := List.mem_singleton.mp same
      rw [listed_kept w member, self]
      exact layered.le_succ ((layered.listed w).mpr member)
  · intro w member
    rw [order_kept w member]
    exact layered.expanded w member
  · intro w member
    rcases List.mem_append.mp member with old | added
    · rw [listed_kept w (List.mem_append_right _ old)]
      exact layered.waiting w old
    · obtain rfl := List.mem_singleton.mp added
      rw [self]
      omega
  · exact Finset.mem_insert_of_mem layered.root
  · have other : r ≠ v := fun same => new (same ▸ layered.root)
    show Function.update s.parent v (some u) r = none
    rw [Function.update_of_ne other, layered.root_parent]
  · intro w member other
    show ∃ u' ∈ s.order, Function.update s.parent v (some u) w = some u' ∧ _
    rcases Finset.mem_insert.mp member with rfl | old
    · exact ⟨u, last, Function.update_self _ _ _, neighbour, by rw [self, order_kept u last]⟩
    · have distinct : w ≠ v := fun same => new (same ▸ old)
      obtain ⟨u', before, parent, adjacent, deeper⟩ := layered.has_parent w old other
      refine ⟨u', before, ?_, adjacent, ?_⟩
      · rw [Function.update_of_ne distinct, parent]
      · rw [kept w old, order_kept u' before, deeper]
  · intro w outside
    rw [Finset.mem_insert, not_or] at outside
    show Function.update s.parent v (some u) w = none
    rw [Function.update_of_ne outside.1, layered.unfound w outside.2]

/-- Looking at a neighbour of the node last expanded keeps the invariant, and finds it. -/
theorem Layered.visit {next : V → List V} {r u v : V} {s : Bfs V} {d : V → ℕ}
    (layered : Layered next r s d (d u)) (last : u ∈ s.order) (neighbour : v ∈ next u) :
    ∃ d', (∀ w ∈ s.members, d' w = d w) ∧ s.members ⊆ (s.visit u v).members ∧
      (s.visit u v).order = s.order ∧ Layered next r (s.visit u v) d' (d' u) ∧
      v ∈ (s.visit u v).members ∧ d' v ≤ d' u + 1 := by
  by_cases found : v ∈ s.members
  · have same : s.visit u v = s := if_pos found
    exact ⟨d, fun _ _ => rfl, by rw [same], by rw [same], by rwa [same], by rwa [same],
      layered.le_succ found⟩
  · have kept : ∀ w ∈ s.members, Function.update d v (d u + 1) w = d w := fun w member =>
      Function.update_of_ne (fun same : w = v => found (same ▸ member)) _ _
    have depth := kept u ((layered.listed u).mpr (List.mem_append_left _ last))
    have members : (s.visit u v).members = insert v s.members := by
      rw [Bfs.visit, if_neg found]
    refine ⟨Function.update d v (d u + 1), kept, ?_, ?_, ?_, ?_, ?_⟩
    · rw [members]
      exact Finset.subset_insert _ _
    · rw [Bfs.visit, if_neg found]
    · rw [depth]
      exact layered.visit_new last neighbour found
    · rw [members]
      exact Finset.mem_insert_self _ _
    · rw [depth, Function.update_self]

/-- Looking at several neighbours keeps the invariant, and finds them all. -/
theorem Layered.visits {next : V → List V} {r u : V} (vs : List V) {s : Bfs V} {d : V → ℕ}
    (layered : Layered next r s d (d u)) (last : u ∈ s.order) (neighbours : ∀ v ∈ vs, v ∈ next u) :
    ∃ d', (∀ w ∈ s.members, d' w = d w) ∧ s.members ⊆ (vs.foldl (Bfs.visit u) s).members ∧
      (vs.foldl (Bfs.visit u) s).order = s.order ∧
      Layered next r (vs.foldl (Bfs.visit u) s) d' (d' u) ∧
      ∀ v ∈ vs, v ∈ (vs.foldl (Bfs.visit u) s).members ∧ d' v ≤ d' u + 1 := by
  induction vs generalizing s d with
  | nil => exact ⟨d, fun _ _ => rfl, Finset.Subset.refl _, rfl, layered, by simp⟩
  | cons v vs ih =>
    obtain ⟨d', kept, grown, order, layered', found, near⟩ :=
      layered.visit last (neighbours v List.mem_cons_self)
    obtain ⟨d'', kept', grown', order', layered'', rest⟩ := ih layered' (order ▸ last)
      fun w member => neighbours w (List.mem_cons_of_mem _ member)
    have u_found : u ∈ (s.visit u v).members :=
      grown ((layered.listed u).mpr (List.mem_append_left _ last))
    refine ⟨d'', fun w member => ?_, grown.trans grown', order'.trans order, layered'', ?_⟩
    · rw [kept' w (grown member), kept w member]
    · intro w member
      rcases List.mem_cons.mp member with rfl | later
      · exact ⟨grown' found, by rw [kept' w found, kept' u u_found]; exact near⟩
      · exact rest w later

/-- **One expansion keeps the invariant, and closes the expanded node.** -/
theorem Layered.expand {next : V → List V} {r u : V} {s : Bfs V} {d : V → ℕ} {level : ℕ}
    {queue : List V} (layered : Layered next r s d level) (waits : s.queue = u :: queue)
    (closed : ∀ w ∈ s.order, Closed next s d w) :
    ∃ d', Layered next r (s.expand next u queue) d' (d' u) ∧
      ∀ w ∈ (s.expand next u queue).order, Closed next (s.expand next u queue) d' w := by
  have regroup : (s.order ++ [u]) ++ queue = s.order ++ s.queue := by simp [waits]
  have u_waits : u ∈ s.queue := waits ▸ List.mem_cons_self
  have u_late := layered.waiting u u_waits
  have sorted := layered.sorted
  rw [waits] at sorted
  have u_first : ∀ w ∈ queue, d u ≤ d w :=
    (List.pairwise_cons.mp (List.pairwise_append.mp sorted).2.1).1
  have taken : Layered next r { s with queue := queue, order := s.order ++ [u] } d (d u) := by
    refine ⟨?_, ?_, ?_, ?_, ?_, layered.root, layered.root_parent, ?_, layered.unfound⟩
    · exact fun v => by rw [regroup]; exact layered.listed v
    · rw [regroup]
      exact layered.nodup
    · rw [regroup]
      exact layered.sorted
    · intro v member
      rcases List.mem_append.mp member with early | self
      · exact (layered.expanded v early).trans u_late.1
      · rw [List.mem_singleton.mp self]
    · intro v member
      have late := layered.waiting v (waits ▸ List.mem_cons_of_mem _ member)
      exact ⟨u_first v member, late.2.trans (Nat.succ_le_succ u_late.1)⟩
    · intro v member other
      obtain ⟨w, before, rest⟩ := layered.has_parent v member other
      exact ⟨w, List.mem_append_left _ before, rest⟩
  obtain ⟨d', kept, grown, order, layered', found⟩ :=
    taken.visits (next u) (by simp) fun v member => member
  refine ⟨d', layered', fun w member v neighbour => ?_⟩
  rw [Bfs.expand, order] at member
  rcases List.mem_append.mp member with early | self
  · obtain ⟨inside, near⟩ := closed w early v neighbour
    have w_found : w ∈ s.members := (layered.listed w).mpr (List.mem_append_left _ early)
    exact ⟨grown inside, by rw [kept v inside, kept w w_found]; exact near⟩
  · obtain rfl := List.mem_singleton.mp self
    exact found v neighbour

/-- The finished search satisfies the invariant, with nothing waiting. -/
theorem Layered.run [Fintype V] {next : V → List V} {r : V} {s : Bfs V} {d : V → ℕ} {level : ℕ}
    (layered : Layered next r s d level) (closed : ∀ w ∈ s.order, Closed next s d w) :
    ∃ d' level', Layered next r (s.run next) d' level' ∧ (s.run next).queue = [] ∧
      ∀ w ∈ (s.run next).order, Closed next (s.run next) d' w := by
  fun_induction Bfs.run next s generalizing d level with
  | case1 s waits => exact ⟨d, level, layered, waits, closed⟩
  | case2 s u queue waits ih =>
    obtain ⟨d', layered', closed'⟩ := layered.expand waits closed
    exact ih layered' closed'

/-! ### The finished search -/

/-- What the finished search leaves, against depths `d`. -/
structure Finished (next : V → List V) (r : V) (s : Bfs V) (d : V → ℕ) : Prop where
  listed : ∀ v, v ∈ s.members ↔ v ∈ s.order
  nodup : s.order.Nodup
  sorted : s.order.Pairwise fun u v => d u ≤ d v
  root : r ∈ s.order
  root_parent : s.parent r = none
  has_parent : ∀ v ∈ s.order, v ≠ r →
    ∃ u ∈ s.order, s.parent v = some u ∧ v ∈ next u ∧ d v = d u + 1
  closed : ∀ u ∈ s.order, ∀ v ∈ next u, v ∈ s.order ∧ d v ≤ d u + 1
  unfound : ∀ v ∉ s.order, s.parent v = none

/-- **The finished search is layered.** -/
theorem search_finished [Fintype V] (next : V → List V) (r : V) :
    ∃ d, Finished next r (search next r) d := by
  obtain ⟨d, level, layered, empty, closed⟩ : ∃ d level, Layered next r (search next r) d level ∧
      (search next r).queue = [] ∧ ∀ w ∈ (search next r).order, Closed next (search next r) d w :=
    (Layered.start next r).run (by simp [Bfs.start])
  have listed : ∀ v, v ∈ (search next r).members ↔ v ∈ (search next r).order := fun v => by
    rw [layered.listed v, empty, List.append_nil]
  refine ⟨d, listed, ?_, ?_, (listed r).mp layered.root, layered.root_parent,
    fun v member => layered.has_parent v ((listed v).mpr member), fun u member v neighbour => ?_,
    fun v outside => layered.unfound v fun found => outside ((listed v).mp found)⟩
  · simpa [empty] using layered.nodup
  · simpa [empty] using layered.sorted
  · obtain ⟨inside, near⟩ := closed u member v neighbour
    exact ⟨(listed v).mp inside, near⟩

theorem Finished.reached {next : V → List V} {r : V} {s : Bfs V} {d : V → ℕ}
    (finished : Finished next r s d) {v : V} (member : v ∈ s.order) :
    Relation.ReflTransGen (fun u v => v ∈ next u) r v := by
  induction depth : d v using Nat.strong_induction_on generalizing v with
  | _ k ih =>
    rcases eq_or_ne v r with rfl | other
    · exact Relation.ReflTransGen.refl
    · obtain ⟨u, before, _, neighbour, deeper⟩ := finished.has_parent v member other
      exact (ih (d u) (by omega) before rfl).tail neighbour

/-- **The search finds exactly what is reachable.** -/
theorem mem_search [Fintype V] (next : V → List V) (r v : V) :
    v ∈ (search next r).members ↔ Relation.ReflTransGen (fun u v => v ∈ next u) r v := by
  obtain ⟨d, finished⟩ := search_finished next r
  rw [finished.listed v]
  refine ⟨finished.reached, fun path => ?_⟩
  induction path with
  | refl => exact finished.root
  | tail _ neighbour ih => exact (finished.closed _ ih _ neighbour).1

end Bfs

end Rtfsn
