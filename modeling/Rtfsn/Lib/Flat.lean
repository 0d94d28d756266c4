/-
Vectors kept as lists, read and written by checked indices.

`Loop.fill` writes the entries of a function; `fill` here writes those of a list, where an index out
of range is a failure of its own (the outer `none`), apart from a loop that stops (the inner one).

* `Holds`: a list holds a function's values at the indices of its positions.
* `fill_holds`, `fillAll_holds`: a loop over the list whose steps are those of a loop over the
  function, as long as it has filled what came before, holds that loop's result and never fails.
* `eq_ofFn`: a list that holds a vector is the vector's list.
-/
import Rtfsn.Lib.Loop

namespace Rtfsn.Flat

variable {α P Q : Type}

/-- Write one entry; an index out of range fails. -/
def put (xs : List α) (i : ℕ) (value : α) : Option (List α) :=
  if i < xs.length then some (xs.set i value) else none

/-- Visit the positions in order and write each from the list so far; a step may fail or stop. -/
def fill (step : List α → Q → Option (Option α)) (index : Q → ℕ) :
    List Q → List α → Option (Option (List α))
  | [], xs => some (some xs)
  | q :: rest, xs =>
    match step xs q with
    | none => none
    | some none => some none
    | some (some value) =>
      match put xs (index q) value with
      | none => none
      | some xs => fill step index rest xs

/-- A loop whose steps never stop. -/
def fillAll (step : List α → Q → Option α) (index : Q → ℕ) (order : List Q) (xs : List α) :
    Option (List α) :=
  order.foldlM (fun xs q => do put xs (index q) (← step xs q)) xs

/-- The list holds the function's value at every position's index. -/
def Holds (index : P → ℕ) (xs : List α) (f : P → α) : Prop := ∀ p, xs[index p]? = some (f p)

section Put

variable [DecidableEq P] {index : P → ℕ} {xs : List α} {f : P → α}

/-- A write at a position's index. -/
theorem Holds.put (injective : Function.Injective index) (holds : Holds index xs f) (p : P)
    (value : α) : ∃ xs', put xs (index p) value = some xs' ∧
      Holds index xs' (Function.update f p value) ∧ xs'.length = xs.length := by
  have inside : index p < xs.length := (List.getElem?_eq_some_iff.mp (holds p)).1
  refine ⟨_, if_pos inside, fun q => ?_, List.length_set⟩
  by_cases same : q = p
  · rw [same, Function.update_self, List.getElem?_set_self inside]
  · rw [Function.update_of_ne same, List.getElem?_set_ne fun equal => same (injective equal).symm,
      holds q]

end Put

/-- A list of one value holds the constant function. -/
theorem holds_replicate {index : P → ℕ} {m : ℕ} (inside : ∀ p, index p < m) (value : α) :
    Holds index (List.replicate m value) fun _ => value := fun p => by
  rw [List.getElem?_replicate, if_pos (inside p)]

theorem holds_ofFn {n : ℕ} (f : Fin n → α) : Holds Fin.val (List.ofFn f) f := fun p => by
  rw [List.getElem?_ofFn, dif_pos p.isLt]

/-- A list that holds a vector and is no longer is its list. -/
theorem eq_ofFn {n : ℕ} {xs : List α} {f : Fin n → α} (holds : Holds Fin.val xs f)
    (length : xs.length = n) : xs = List.ofFn f := by
  refine List.ext_getElem? fun i => ?_
  by_cases inside : i < n
  · rw [holds ⟨i, inside⟩, holds_ofFn f ⟨i, inside⟩]
  · rw [List.getElem?_eq_none (by omega), List.getElem?_eq_none (by simpa using inside)]

/-! ### Loops -/

section Loops

variable [DecidableEq P] {index : Q → ℕ} {embed : P → Q}

/-- The rest of a loop, with the positions before it filled. -/
theorem fill_holds_from (injective : Function.Injective fun p => index (embed p))
    {step : (P → α) → P → Option α} {flat : List α → Q → Option (Option α)} {start : P → α}
    {before rest : List P} (readsBack : Loop.ReadsBack step (before ++ rest))
    (nodup : (before ++ rest).Nodup)
    (same : ∀ done p after y xs, before ++ rest = done ++ p :: after →
      Loop.Filled step start done y → Holds (fun p => index (embed p)) xs y →
      flat xs (embed p) = some (step y p))
    {y : P → α} {xs : List α} (filled : Loop.Filled step start before y)
    (holds : Holds (fun p => index (embed p)) xs y) :
    (Loop.fill step rest y = none → fill flat index (rest.map embed) xs = some none) ∧
      ∀ final, Loop.fill step rest y = some final →
        ∃ ys, fill flat index (rest.map embed) xs = some (some ys) ∧
          Holds (fun p => index (embed p)) ys final ∧ ys.length = xs.length := by
  induction rest generalizing before y xs with
  | nil =>
    refine ⟨fun none => absurd none (by simp [Loop.fill]), fun final found => ?_⟩
    obtain rfl := Option.some.inj found
    exact ⟨xs, rfl, holds, rfl⟩
  | cons p rest ih =>
    have here := same before p rest y xs rfl filled holds
    cases written : step y p with
    | none =>
      refine ⟨fun _ => ?_, fun final found => absurd found (by simp [Loop.fill, written])⟩
      simp only [List.map_cons, fill, here, written]
    | some value =>
      obtain ⟨xs', put', holds', length⟩ := holds.put injective p value
      have regroup : before ++ p :: rest = before ++ [p] ++ rest := by simp
      have next := filled.snoc readsBack nodup written
      rw [regroup] at readsBack nodup same
      have later := ih readsBack nodup same next holds'
      simp only [Loop.fill, List.map_cons, fill, here, written, put']
      rw [← length]
      exact later

/-- **A loop over the list follows the loop over the function.** -/
theorem fill_holds (injective : Function.Injective fun p => index (embed p))
    {step : (P → α) → P → Option α} {flat : List α → Q → Option (Option α)} {start : P → α}
    {order : List P} (readsBack : Loop.ReadsBack step order) (nodup : order.Nodup)
    (same : ∀ done p after y xs, order = done ++ p :: after → Loop.Filled step start done y →
      Holds (fun p => index (embed p)) xs y → flat xs (embed p) = some (step y p))
    {xs : List α} (holds : Holds (fun p => index (embed p)) xs start) :
    (Loop.fill step order start = none → fill flat index (order.map embed) xs = some none) ∧
      ∀ final, Loop.fill step order start = some final →
        ∃ ys, fill flat index (order.map embed) xs = some (some ys) ∧
          Holds (fun p => index (embed p)) ys final ∧ ys.length = xs.length := by
  have reads : Loop.ReadsBack step ([] ++ order) := readsBack
  exact fill_holds_from injective reads nodup same (Loop.Filled.nil step start) holds

theorem fillAll_holds (injective : Function.Injective fun p => index (embed p))
    {value : (P → α) → P → α} {flat : List α → Q → Option α} {order : List P}
    (same : ∀ p ∈ order, ∀ y xs, Holds (fun p => index (embed p)) xs y →
      flat xs (embed p) = some (value y p))
    {start : P → α} {xs : List α} (holds : Holds (fun p => index (embed p)) xs start) :
    ∃ ys, fillAll flat index (order.map embed) xs = some ys ∧
      Holds (fun p => index (embed p)) ys (Loop.fillAll value order start) ∧
      ys.length = xs.length := by
  induction order generalizing start xs with
  | nil => exact ⟨xs, rfl, holds, rfl⟩
  | cons p order ih =>
    obtain ⟨xs', put', holds', length⟩ := holds.put injective p (value start p)
    obtain ⟨ys, filled, final, length'⟩ :=
      ih (fun q member => same q (List.mem_cons_of_mem p member)) holds'
    refine ⟨ys, ?_, final, length'.trans length⟩
    rw [List.map_cons, fillAll, List.foldlM_cons, same p List.mem_cons_self start xs holds]
    simp only [Option.bind_eq_bind, Option.bind_some, put']
    exact filled

/-- The loop over a vector, whose positions are their own indices. -/
theorem fillAll_vector {n : ℕ} {value : (Fin n → α) → Fin n → α} {flat : List α → ℕ → Option α}
    (same : ∀ (i : Fin n) y xs, Holds Fin.val xs y → flat xs i = some (value y i))
    (order : List (Fin n)) {start : Fin n → α} {xs : List α} (holds : Holds Fin.val xs start) :
    ∃ ys, fillAll flat id (order.map Fin.val) xs = some ys ∧
      Holds Fin.val ys (Loop.fillAll value order start) ∧ ys.length = xs.length := by
  have injective : Function.Injective fun i : Fin n => id i.val := Fin.val_injective
  exact fillAll_holds injective (fun i _ y xs => same i y xs) holds

end Loops

end Rtfsn.Flat
