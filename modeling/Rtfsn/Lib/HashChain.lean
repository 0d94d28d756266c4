/-
Hash chains.

* `Linked`: each record names the hash of the one before it and counts one on.
* `index_getLast`: a record's count is its place, so the last one gives the length away.
* `eq_of_tip`: two chains that begin with the same count and end with the same hash are the same
  chain, unless two of their records collide.
-/
import Mathlib

namespace Rtfsn.HashChain

variable {R D : Type}

/-- Each record names the hash of its predecessor and has the next number. -/
def Linked (hash back : R → D) (index : R → ℕ) (chain : List R) : Prop :=
  chain.IsChain fun older newer => back newer = hash older ∧ index newer = index older + 1

variable {hash back : R → D} {index : R → ℕ}

theorem Linked.dropLast {chain : List R} {last : R}
    (linked : Linked hash back index (chain ++ [last])) :
    Linked hash back index chain :=
  (List.isChain_append.mp linked).1

theorem Linked.last {chain : List R} {older last : R}
    (linked : Linked hash back index (chain ++ [last])) (before : chain.getLast? = some older) :
    back last = hash older ∧ index last = index older + 1 :=
  (List.isChain_append.mp linked).2.2 older before last rfl

/-- **A record's number is its place.** -/
theorem Linked.index_getElem {chain : List R} (linked : Linked hash back index chain) {first : R}
    (begins : chain.head? = some first) {i : ℕ} {r : R} (at_i : chain[i]? = some r) :
    index r = index first + i := by
  induction i generalizing r with
  | zero =>
    rw [← List.head?_eq_getElem?, begins] at at_i
    cases at_i
    rfl
  | succ i ih =>
    obtain ⟨inside, rfl⟩ := List.getElem?_eq_some_iff.mp at_i
    have link := (List.isChain_iff_getElem.mp linked i inside).2
    rw [link, ih (List.getElem?_eq_getElem (by omega)), Nat.add_assoc]

theorem Linked.index_getLast {chain : List R} {first last : R}
    (linked : Linked hash back index chain) (begins : chain.head? = some first)
    (ends : chain.getLast? = some last) :
    index last + 1 = index first + chain.length := by
  rw [List.getLast?_eq_getElem?] at ends
  have some_length : 0 < chain.length := by
    cases chain with
    | nil => cases begins
    | cons => simp
  rw [linked.index_getElem begins ends]
  omega

/-- Chains of one length with one tip hash agree, record by record from the tip down. -/
theorem eq_of_length {chain chain' : List R} (linked : Linked hash back index chain)
    (linked' : Linked hash back index chain') (length : chain.length = chain'.length)
    (apart : Set.InjOn hash {r | r ∈ chain ∨ r ∈ chain'})
    (tip : chain.getLast?.map hash = chain'.getLast?.map hash) : chain = chain' := by
  induction chain using List.reverseRecOn generalizing chain' with
  | nil => exact (List.length_eq_zero_iff.mp length.symm).symm
  | append_singleton before last ih =>
    induction chain' using List.reverseRecOn with
    | nil => simp at length
    | append_singleton before' last' _ =>
      have sameLast : last = last' := by
        simp only [List.getLast?_append, List.getLast?_singleton, Option.some_or, Option.map_some,
          Option.some.injEq] at tip
        exact apart (Or.inl (by simp)) (Or.inr (by simp)) tip
      subst sameLast
      -- The record names the hash of what comes before it in both chains.
      have named {chain : List R} (linked : Linked hash back index (chain ++ [last]))
          {older : R} (ends : chain.getLast? = some older) :
          chain.getLast?.map hash = some (back last) := by
        rw [ends, Option.map_some, (linked.last ends).1]
      have tips : before.getLast?.map hash = before'.getLast?.map hash := by
        simp only [List.length_append, List.length_singleton, Nat.add_right_cancel_iff] at length
        cases ends : before.getLast? with
        | none =>
          rw [List.getLast?_eq_none_iff] at ends
          rw [ends] at length
          rw [List.length_eq_zero_iff.mp length.symm]
          rfl
        | some older =>
          cases ends' : before'.getLast? with
          | none =>
            rw [List.getLast?_eq_none_iff] at ends'
            rw [ends'] at length
            rw [List.length_eq_zero_iff.mp length] at ends
            cases ends
          | some older' =>
            rw [← ends, ← ends', named linked ends, named linked' ends']
      rw [ih linked.dropLast linked'.dropLast (by simpa using length)
        (apart.mono fun r inside => inside.imp (List.mem_append_left _) (List.mem_append_left _))
        tips]

/-- **The tip commits to the chain.** -/
theorem eq_of_tip {chain chain' : List R} (linked : Linked hash back index chain)
    (linked' : Linked hash back index chain') {first first' last last' : R}
    (begins : chain.head? = some first) (begins' : chain'.head? = some first')
    (start : index first = index first') (ends : chain.getLast? = some last)
    (ends' : chain'.getLast? = some last')
    (apart : Set.InjOn hash {r | r ∈ chain ∨ r ∈ chain'}) (tip : hash last = hash last') :
    chain = chain' := by
  have same : last = last' :=
    apart (Or.inl (List.mem_of_getLast? ends)) (Or.inr (List.mem_of_getLast? ends')) tip
  have count := linked.index_getLast begins ends
  have count' := linked'.index_getLast begins' ends'
  rw [same] at count
  refine eq_of_length linked linked' (by omega) apart ?_
  rw [ends, ends', Option.map_some, Option.map_some, tip]

end Rtfsn.HashChain
