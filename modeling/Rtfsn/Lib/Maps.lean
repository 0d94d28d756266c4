/-
What holds of every entry of an ordered map.

* `Entries`: a property of every key with its value, and what insertion, erasure and filtering keep
  of it.
* `getElem?_insert_of_ne`, `getElem?_erase_of_ne`, `getElem?_erase_of_none`: lookups of other keys.
* `insert_eq_self_iff`: an insertion changes nothing exactly when the entry is there.
* `toList_insert_perm`: a new key goes somewhere in the list of entries.
* `keys_singleton`: the keys of a map with one entry.
-/
import Mathlib

set_option linter.unusedSectionVars false

namespace Rtfsn.Maps

variable {K V : Type} [Ord K] [Std.TransOrd K] [Std.LawfulEqOrd K] {P Q : K → V → Prop}
  {m : Std.ExtTreeMap K V}

theorem getElem?_insert_of_ne {k k' : K} (other : k ≠ k') (v : V) :
    (m.insert k v)[k']? = m[k']? := by
  rw [Std.ExtTreeMap.getElem?_insert,
    if_neg fun equal => other (Std.LawfulEqCmp.eq_of_compare equal)]

theorem getElem?_erase_of_ne {k k' : K} (other : k ≠ k') : (m.erase k)[k']? = m[k']? := by
  rw [Std.ExtTreeMap.getElem?_erase,
    if_neg fun equal => other (Std.LawfulEqCmp.eq_of_compare equal)]

theorem getElem?_erase_of_none {k' : K} (absent : m[k']? = none) (k : K) :
    (m.erase k)[k']? = none := by
  rw [Std.ExtTreeMap.getElem?_erase, absent, ite_self]

/-- Every entry has the property. -/
def Entries (P : K → V → Prop) (m : Std.ExtTreeMap K V) : Prop :=
  ∀ (k : K) (v : V), m[k]? = some v → P k v

theorem Entries.empty (P : K → V → Prop) : Entries P (∅ : Std.ExtTreeMap K V) := by
  intro k v found
  simp at found

/-- An insertion keeps what holds of the new entry and of those it does not replace. -/
theorem Entries.insert {k : K} {v : V} (others : ∀ k' v', k' ≠ k → m[k']? = some v' → P k' v')
    (new : P k v) : Entries P (m.insert k v) := by
  intro k' v' found
  by_cases same : k = k'
  · subst same
    rw [Std.ExtTreeMap.getElem?_insert_self] at found
    exact Option.some.inj found ▸ new
  · rw [getElem?_insert_of_ne same] at found
    exact others k' v' (Ne.symm same) found

theorem Entries.erase (all : Entries P m) (k : K) : Entries P (m.erase k) := by
  intro k' v found
  rw [Std.ExtTreeMap.getElem?_erase] at found
  by_cases same : compare k k' = .eq
  · rw [if_pos same] at found
    cases found
  · rw [if_neg same] at found
    exact all k' v found

theorem Entries.filter (all : Entries P m) (keep : K → V → Bool) : Entries P (m.filter keep) := by
  intro k v found
  rw [Std.ExtTreeMap.getElem?_filter', Option.filter_eq_some_iff] at found
  exact all k v found.1

theorem Entries.imp (all : Entries P m) (weaker : ∀ k v, P k v → Q k v) : Entries Q m :=
  fun k v found => weaker k v (all k v found)

theorem Entries.toList (all : Entries P m) : ∀ entry ∈ m.toList, P entry.1 entry.2 :=
  fun entry listed => all entry.1 entry.2 (Std.ExtTreeMap.mem_toList_iff_getElem?_eq_some.mp listed)

theorem nodup_toList (m : Std.ExtTreeMap K V) : m.toList.Nodup := by
  refine List.Nodup.of_map Prod.fst ?_
  rw [Std.ExtTreeMap.map_fst_toList_eq_keys]
  exact m.nodup_keys

/-- A new key goes somewhere in the list of entries. -/
theorem toList_insert_perm {k : K} (fresh : m[k]? = none) (v : V) :
    (m.insert k v).toList.Perm (m.toList ++ [(k, v)]) := by
  have absent : (k, v) ∉ m.toList := fun listed => by
    rw [Std.ExtTreeMap.mem_toList_iff_getElem?_eq_some, fresh] at listed
    cases listed
  have distinct : (m.toList ++ [(k, v)]).Nodup :=
    (nodup_toList m).append (List.nodup_singleton _) (by simpa using absent)
  refine (List.perm_ext_iff_of_nodup (nodup_toList _) distinct).mpr fun ⟨k', v'⟩ => ?_
  simp only [List.mem_append, List.mem_singleton, Prod.mk.injEq, Std.ExtTreeMap.getElem?_insert,
    Std.ExtTreeMap.mem_toList_iff_getElem?_eq_some, Std.LawfulEqCmp.compare_eq_iff_eq]
  by_cases same : k = k'
  · subst same
    simp [fresh, eq_comm]
  · simp [same, Ne.symm same]

/-- The keys of a map with one entry. -/
theorem keys_singleton (k : K) (v : V) : ((∅ : Std.ExtTreeMap K V).insert k v).keys = [k] := by
  refine List.perm_singleton.mp ((List.perm_ext_iff_of_nodup Std.ExtTreeMap.nodup_keys
    (List.nodup_singleton k)).mpr fun k' => ?_)
  rw [Std.ExtTreeMap.mem_keys, Std.ExtTreeMap.mem_insert, List.mem_singleton,
    Std.LawfulEqCmp.compare_eq_iff_eq]
  simp [eq_comm]

end Rtfsn.Maps
