/-
Loops that write each entry of a vector once.

* `below`, `above`: the ranges `0..m` and `i+1..n` as lists of indices below `n`, with their sums.
* `fill`: visit indices in order and write each from the entries written so far; a step may fail.
* `fill_spec`, `fillAll_spec`: when every entry reads only entries visited before it, the result of
  a finished loop satisfies every step's equation at once, and a loop that failed did so at an
  entry whose predecessors do.
* `before_of_rel`: in a list sorted by a strict order, what is smaller is visited before.
* `mapM_eq_map`, `foldlM_eq_foldl`, `foldlM_bind_eq`: loops over lookups that are all found.
* `foldlM_induction`: what every step that goes through keeps, a loop that went through keeps.
* `repeatUntil`: a loop that ends by itself, run on fuel; it ends when its turns decrease a measure
  (`repeatUntil_ends`), and not when every turn asks for another (`repeatUntil_diverges`). A loop
  that ended establishes what its turns keep (`repeatUntil_induction`).
-/
import Mathlib

set_option linter.unusedSectionVars false

namespace Rtfsn.Loop

/-! ### Ranges -/

section Ranges

variable {n : ℕ}

/-- The range `0..m`, as indices below `n`. -/
def below (m : ℕ) : List (Fin n) := (List.finRange n).take m

/-- The range `i+1..n`. -/
def above (i : Fin n) : List (Fin n) := (List.finRange n).drop (i + 1)

theorem mem_below {m : ℕ} {i : Fin n} : i ∈ below m ↔ i.val < m := by
  simp only [below, List.mem_take_iff_getElem, List.getElem_finRange, Fin.ext_iff]
  constructor
  · rintro ⟨k, bound, eq⟩
    simp at bound eq
    omega
  · exact fun bound => ⟨i, by simp [bound], by simp⟩

theorem mem_above {i j : Fin n} : j ∈ above i ↔ i < j := by
  simp only [above, List.mem_drop_iff_getElem, List.getElem_finRange, Fin.ext_iff, Fin.lt_def]
  constructor
  · rintro ⟨k, bound, eq⟩
    simp at bound eq
    omega
  · exact fun bound => ⟨j - (i + 1), by simp; omega, by simp; omega⟩

theorem nodup_below (m : ℕ) : (below m : List (Fin n)).Nodup :=
  (List.nodup_finRange n).sublist (List.take_sublist _ _)

theorem nodup_above (i : Fin n) : (above i).Nodup :=
  (List.nodup_finRange n).sublist (List.drop_sublist _ _)

theorem pairwise_below (m : ℕ) : (below m : List (Fin n)).Pairwise (· < ·) :=
  (List.pairwise_lt_finRange n).sublist (List.take_sublist _ _)

theorem map_val_below {m : ℕ} (small : m ≤ n) :
    (below m : List (Fin n)).map Fin.val = List.range m := by
  rw [below, List.map_take, List.map_coe_finRange_eq_range, List.take_range, min_eq_left small]

theorem map_val_above (i : Fin n) :
    (above i).map Fin.val = List.range' (i + 1) (n - (i + 1)) := by
  rw [above, List.map_drop, List.map_coe_finRange_eq_range, List.range_eq_range', List.drop_range']
  simp

theorem sum_below {M : Type} [AddCommMonoid M] (f : Fin n → M) (j : Fin n) :
    ((below j).map f).sum = ∑ k with k < j, f k := by
  rw [← List.sum_toFinset f (nodup_below j)]
  refine Finset.sum_congr ?_ fun _ _ => rfl
  ext k
  simp [mem_below]

theorem sum_above {M : Type} [AddCommMonoid M] (f : Fin n → M) (i : Fin n) :
    ((above i).map f).sum = ∑ k with i < k, f k := by
  rw [← List.sum_toFinset f (nodup_above i)]
  refine Finset.sum_congr ?_ fun _ _ => rfl
  ext k
  simp [mem_above]

/-- A running difference subtracts the sum. -/
theorem foldl_sub {ι M : Type} [AddCommGroup M] (f : ι → M) (order : List ι) (start : M) :
    order.foldl (fun s k => s - f k) start = start - (order.map f).sum := by
  induction order generalizing start with
  | nil => simp
  | cons k order ih => rw [List.foldl_cons, ih, List.map_cons, List.sum_cons, sub_sub]

end Ranges

/-! ### Filling a vector -/

section Fill

variable {ι α : Type} [DecidableEq ι]

/-- Visit the indices in order and write each from the vector so far. -/
def fill (step : (ι → α) → ι → Option α) : List ι → (ι → α) → Option (ι → α)
  | [], y => some y
  | i :: rest, y =>
    match step y i with
    | some value => fill step rest (Function.update y i value)
    | none => none

/-- Each step reads only entries visited before it. -/
def ReadsBack (step : (ι → α) → ι → Option α) (order : List ι) : Prop :=
  ∀ before i after, order = before ++ i :: after → ∀ y y' : ι → α,
    (∀ k ∈ before, y k = y' k) → step y i = step y' i

/-- The entries of a prefix satisfy their own steps, and nothing else was written. -/
structure Filled (step : (ι → α) → ι → Option α) (start : ι → α) (done : List ι) (y : ι → α) :
    Prop where
  holds : ∀ i ∈ done, step y i = some (y i)
  untouched : ∀ i ∉ done, y i = start i

theorem Filled.nil (step : (ι → α) → ι → Option α) (start : ι → α) :
    Filled step start [] start := ⟨by simp, fun _ _ => rfl⟩

/-- One step of the loop extends the filled prefix. -/
theorem Filled.snoc {step : (ι → α) → ι → Option α} {start y : ι → α} {before after : List ι}
    {i : ι} {value : α} (readsBack : ReadsBack step (before ++ i :: after))
    (nodup : (before ++ i :: after).Nodup) (filled : Filled step start before y)
    (written : step y i = some value) :
    Filled step start (before ++ [i]) (Function.update y i value) := by
  have fresh : i ∉ before := fun member =>
    List.disjoint_of_nodup_append nodup member List.mem_cons_self
  have kept : ∀ k ∈ before, Function.update y i value k = y k := fun k member =>
    Function.update_of_ne (fun same : k = i => fresh (same ▸ member)) _ _
  constructor
  · intro k member
    rcases List.mem_append.mp member with early | last
    · obtain ⟨before', after', split⟩ := List.mem_iff_append.mp early
      rw [kept k early, ← filled.holds k early]
      refine readsBack before' k (after' ++ i :: after) (by rw [split]; simp) _ _ fun j inside => ?_
      exact kept j (split ▸ List.mem_append_left _ inside)
    · obtain rfl := List.mem_singleton.mp last
      rw [Function.update_self, ← written]
      exact readsBack before k after rfl _ _ kept
  · intro k outside
    rw [List.mem_append, List.mem_singleton, not_or] at outside
    rw [Function.update_of_ne outside.2, filled.untouched k outside.1]

theorem fill_from {step : (ι → α) → ι → Option α} {start : ι → α} (rest : List ι)
    {before : List ι} {y : ι → α} (readsBack : ReadsBack step (before ++ rest))
    (nodup : (before ++ rest).Nodup) (filled : Filled step start before y) :
    (∃ final, fill step rest y = some final ∧ Filled step start (before ++ rest) final) ∨
      (fill step rest y = none ∧ ∃ before' i after partialFill,
        before ++ rest = before' ++ i :: after ∧
        Filled step start before' partialFill ∧ step partialFill i = none) := by
  induction rest generalizing before y with
  | nil => exact Or.inl ⟨y, rfl, by simpa using filled⟩
  | cons i rest ih =>
    cases written : step y i with
    | none => exact Or.inr ⟨by simp [fill, written], before, i, rest, y, rfl, filled, written⟩
    | some value =>
      have next := filled.snoc readsBack nodup written
      have regroup : before ++ i :: rest = before ++ [i] ++ rest := by simp
      rw [regroup] at readsBack nodup ⊢
      simpa only [fill, written] using ih readsBack nodup next

/-- **A loop that reads back either fills every entry, or stops at an entry whose predecessors are
filled.** -/
theorem fill_spec {step : (ι → α) → ι → Option α} {order : List ι}
    (readsBack : ReadsBack step order) (nodup : order.Nodup) (start : ι → α) :
    (∃ final, fill step order start = some final ∧ Filled step start order final) ∨
      (fill step order start = none ∧ ∃ before i after partialFill, order = before ++ i :: after ∧
        Filled step start before partialFill ∧ step partialFill i = none) := by
  have readsAll : ReadsBack step ([] ++ order) := by simpa using readsBack
  simpa using fill_from order readsAll (by simpa using nodup) (Filled.nil step start)

/-- A loop whose steps never fail. -/
def fillAll (value : (ι → α) → ι → α) (order : List ι) (start : ι → α) : ι → α :=
  order.foldl (fun y i => Function.update y i (value y i)) start

theorem fill_some (value : (ι → α) → ι → α) (order : List ι) (start : ι → α) :
    fill (fun y i => some (value y i)) order start = some (fillAll value order start) := by
  induction order generalizing start with
  | nil => rfl
  | cons i order ih => exact ih _

/-- **Every entry of a finished loop satisfies its own equation.** -/
theorem fillAll_spec {value : (ι → α) → ι → α} {order : List ι}
    (readsBack : ReadsBack (fun y i => some (value y i)) order) (nodup : order.Nodup)
    (start : ι → α) : ∀ i ∈ order, fillAll value order start i =
      value (fillAll value order start) i := by
  intro i member
  obtain ⟨final, eq, filled⟩ | ⟨failed, _⟩ := fill_spec readsBack nodup start
  · obtain rfl := Option.some.inj ((fill_some value order start).symm.trans eq)
    exact (Option.some.inj (filled.holds i member)).symm
  · rw [fill_some] at failed
    cases failed

/-- In a list sorted by a strict relation, what is related to an entry is visited before it. -/
theorem before_of_rel {r : ι → ι → Prop} (asymm : ∀ a b, r a b → ¬ r b a)
    {order before after : List ι} {i j : ι} (sorted : order.Pairwise r)
    (split : order = before ++ i :: after) (member : j ∈ order) (smaller : r j i) : j ∈ before := by
  rw [split] at sorted member
  rcases List.mem_append.mp member with early | late
  · exact early
  · rcases List.mem_cons.mp late with rfl | later
    · exact absurd smaller (asymm _ _ smaller)
    · exact absurd smaller (asymm _ _
        ((List.pairwise_cons.mp (List.pairwise_append.mp sorted).2.1).1 j later))

end Fill

/-! ### Loops that fail with one of their steps -/

theorem mapM_eq_map {A B : Type} {f : A → Option B} {g : A → B} {l : List A}
    (found : ∀ a ∈ l, f a = some (g a)) : l.mapM f = some (l.map g) := by
  induction l with
  | nil => rfl
  | cons a l ih =>
    rw [List.mapM_cons, found a List.mem_cons_self,
      ih fun b member => found b (List.mem_cons_of_mem _ member)]
    rfl

/-- A map that the step turns into a map of its results. -/
theorem mapM_map_comm {A B : Type} {f : A → Option B} {s : A → A} {t : B → B}
    (comm : ∀ a, f (s a) = (f a).map t) (l : List A) :
    (l.map s).mapM f = (l.mapM f).map (List.map t) := by
  induction l with
  | nil => rfl
  | cons a l ih =>
    rw [List.map_cons, List.mapM_cons, List.mapM_cons, comm, ih]
    cases f a <;> cases l.mapM f <;> rfl

theorem foldlM_eq_foldl {A S : Type} {f : S → A → Option S} {g : S → A → S} {l : List A}
    (found : ∀ a ∈ l, ∀ s, f s a = some (g s a)) (s : S) : l.foldlM f s = some (l.foldl g s) := by
  induction l generalizing s with
  | nil => rfl
  | cons a l ih =>
    rw [List.foldlM_cons, found a List.mem_cons_self]
    exact ih (fun b member => found b (List.mem_cons_of_mem _ member)) _

/-- A loop whose steps first look something up that is found. -/
theorem foldlM_bind_eq {A B S : Type} {f : A → Option B} {g : A → B} {h : S → B → Option S}
    {l : List A} (found : ∀ a ∈ l, f a = some (g a)) (s : S) :
    l.foldlM (fun s a => (f a).bind (h s)) s = (l.map g).foldlM h s := by
  induction l generalizing s with
  | nil => rfl
  | cons a l ih =>
    rw [List.foldlM_cons, List.map_cons, List.foldlM_cons, found a List.mem_cons_self,
      Option.bind_some]
    refine congrArg _ (funext fun s' => ?_)
    exact ih (fun b member => found b (List.mem_cons_of_mem _ member)) s'

/-- What every step that goes through keeps, a loop that went through keeps. -/
theorem foldlM_induction {A S : Type} {f : S → A → Option S} {Inv : S → Prop}
    (keep : ∀ s a s', Inv s → f s a = some s' → Inv s') {l : List A} {s s' : S} (start : Inv s)
    (went : l.foldlM f s = some s') : Inv s' := by
  induction l generalizing s with
  | nil =>
    cases went
    exact start
  | cons a l ih =>
    rw [List.foldlM_cons, Option.bind_eq_bind, Option.bind_eq_some_iff] at went
    obtain ⟨s₁, first, rest⟩ := went
    exact ih (keep s a s₁ start first) rest

/-! ### Loops that end by themselves -/

/-- Why a loop gave no result. -/
inductive Halt
  | failed
  | outOfFuel

section Repeat

variable {S A : Type} {turn : S → Option (S ⊕ A)} {Inv : S → Prop}

/-- Take turns until one of them leaves the loop. -/
def repeatUntil (turn : S → Option (S ⊕ A)) : ℕ → S → Except Halt A
  | 0, _ => .error .outOfFuel
  | fuel + 1, s =>
    match turn s with
    | none => .error .failed
    | some (.inl s') => repeatUntil turn fuel s'
    | some (.inr a) => .ok a

/-- **A loop whose turns decrease a measure ends**, with whatever its last turn establishes. -/
theorem repeatUntil_ends {Post : A → Prop} (measure : S → ℕ)
    (keep : ∀ s, Inv s → (∃ a, turn s = some (.inr a) ∧ Post a) ∨
      ∃ s', turn s = some (.inl s') ∧ Inv s' ∧ measure s' < measure s)
    {s : S} (start : Inv s) :
    ∃ a, Post a ∧ ∀ fuel, measure s < fuel → repeatUntil turn fuel s = .ok a := by
  induction bound : measure s using Nat.strong_induction_on generalizing s with
  | h m ih =>
    obtain ⟨a, left, post⟩ | ⟨s', next, inv, smaller⟩ := keep s start
    · refine ⟨a, post, fun fuel enough => ?_⟩
      obtain ⟨rest, rfl⟩ := Nat.exists_eq_add_one.mpr (Nat.zero_lt_of_lt enough)
      simp only [repeatUntil, left]
    · obtain ⟨a, post, ends⟩ := ih (measure s') (bound ▸ smaller) inv rfl
      refine ⟨a, post, fun fuel enough => ?_⟩
      obtain ⟨rest, rfl⟩ := Nat.exists_eq_add_one.mpr (Nat.zero_lt_of_lt enough)
      simp only [repeatUntil, next]
      exact ends rest (by omega)

/-- What every turn keeps, and the last one turns into its result, a loop that ended establishes. -/
theorem repeatUntil_induction {Post : A → Prop}
    (again : ∀ s s', Inv s → turn s = some (.inl s') → Inv s')
    (leave : ∀ s a, Inv s → turn s = some (.inr a) → Post a) {fuel : ℕ} {s : S} {a : A}
    (start : Inv s) (ended : repeatUntil turn fuel s = .ok a) : Post a := by
  induction fuel generalizing s with
  | zero => cases ended
  | succ fuel ih =>
    cases turned : turn s with
    | none => simp [repeatUntil, turned] at ended
    | some next =>
      cases next with
      | inl s' => exact ih (again s s' start turned) (by simpa [repeatUntil, turned] using ended)
      | inr a' =>
        obtain rfl : a' = a := by simpa [repeatUntil, turned] using ended
        exact leave s a' start turned

/-- A loop whose every turn asks for another uses up any fuel. -/
theorem repeatUntil_diverges (again : ∀ s, Inv s → ∃ s', turn s = some (.inl s') ∧ Inv s')
    (fuel : ℕ) {s : S} (start : Inv s) : repeatUntil turn fuel s = .error .outOfFuel := by
  induction fuel generalizing s with
  | zero => rfl
  | succ fuel ih =>
    obtain ⟨s', next, inv⟩ := again s start
    simp only [repeatUntil, next]
    exact ih inv

end Repeat

end Rtfsn.Loop
