/-
Greedy grouping.

* `gather`: every item joins the first group that accepts it, or starts a group of its own
  (`place_of_first`, `place_of_none`).
  `gatherMembers` keeps the items beside their group: together they are all the items
  (`gatherMembers_perm`), and a group is what its own items built (`gatherMembers_built`).
* `groupIndices`: with a bitmap, every position not yet marked takes the later ones near it that are
  not marked either. The groups are a partition of the positions (`groupIndices_perm`), and the
  members of each are near its first one.
* `groupsOf`: the same for the entries of a list (`groupsOf_perm`, `near_of_groupsOf`).
* `aligned_modify`, `mem_zipWith`: two lists related entry by entry, and what is zipped from them.
-/
import Rtfsn.Lib.Loop

namespace Rtfsn.Grouping

/-! ### Joining the first group that accepts -/

section Gather

variable {A X : Type} (accepts : A → X → Bool) (add : A → X → A) (start : X → A)

/-- Add an item to the first group that accepts it, or start a group. -/
def place : List A → X → List A
  | [], x => [start x]
  | g :: groups, x => if accepts g x then add g x :: groups else g :: place groups x

def gather (xs : List X) : List A := xs.foldl (place accepts add start) []

/-- The groups with their items, in the order they came. -/
def gatherMembers (xs : List X) : List (A × List X) :=
  gather (fun g x => accepts g.1 x) (fun g x => (add g.1 x, g.2 ++ [x]))
    (fun x => (start x, [x])) xs

variable {accepts add start}

/-- An item passes over the groups that do not accept it. -/
theorem place_append {groups : List A} {x : X} (skipped : ∀ g ∈ groups, accepts g x = false)
    (later : List A) :
    place accepts add start (groups ++ later) x = groups ++ place accepts add start later x := by
  induction groups with
  | nil => rfl
  | cons g groups ih =>
    obtain ⟨here, others⟩ := List.forall_mem_cons.mp skipped
    simp only [List.cons_append, place, here, ih others, Bool.false_eq_true, if_false]

theorem place_of_none {groups : List A} {x : X} (skipped : ∀ g ∈ groups, accepts g x = false) :
    place accepts add start groups x = groups ++ [start x] := by
  conv_lhs => rw [← List.append_nil groups]
  exact place_append skipped []

theorem place_of_first {earlier later : List A} {g : A} {x : X}
    (skipped : ∀ h ∈ earlier, accepts h x = false) (taken : accepts g x = true) :
    place accepts add start (earlier ++ g :: later) x = earlier ++ add g x :: later := by
  rw [place_append skipped]
  simp only [place, taken, if_true]

/-- No group accepts an item, or there is a first one that does. -/
theorem none_or_first (accepts : A → X → Bool) (groups : List A) (x : X) :
    (∀ g ∈ groups, accepts g x = false) ∨
      ∃ earlier g later, groups = earlier ++ g :: later ∧
        (∀ h ∈ earlier, accepts h x = false) ∧ accepts g x = true := by
  cases found : groups.find? (accepts · x) with
  | none =>
    left
    intro g member
    simpa using List.find?_eq_none.mp found g member
  | some g =>
    right
    obtain ⟨taken, earlier, later, split, skipped⟩ := List.find?_eq_some_iff_append.mp found
    exact ⟨earlier, g, later, split, fun h member => by simpa using skipped h member, taken⟩

/-- What keeps the grouping of groups and items keeps the groups. -/
theorem gather_map {A' X' : Type} {accepts' : A' → X' → Bool} {add' : A' → X' → A'}
    {start' : X' → A'} (p : A → A') (q : X → X')
    (accepts_eq : ∀ g x, accepts g x = accepts' (p g) (q x))
    (add_eq : ∀ g x, p (add g x) = add' (p g) (q x)) (start_eq : ∀ x, p (start x) = start' (q x))
    (xs : List X) :
    (gather accepts add start xs).map p = gather accepts' add' start' (xs.map q) := by
  have placed (groups : List A) (x : X) : (place accepts add start groups x).map p =
      place accepts' add' start' (groups.map p) (q x) := by
    induction groups with
    | nil => exact congrArg (fun g => [g]) (start_eq x)
    | cons g groups ih =>
      simp only [place, List.map_cons, accepts_eq]
      split_ifs
      · rw [List.map_cons, add_eq]
      · rw [List.map_cons, ih]
  induction xs using List.reverseRecOn with
  | nil => rfl
  | append_singleton xs x ih =>
    unfold gather at *
    rw [List.map_append, List.map_singleton, List.foldl_concat, List.foldl_concat, placed, ih]

theorem map_fst_gatherMembers (xs : List X) :
    (gatherMembers accepts add start xs).map Prod.fst = gather accepts add start xs := by
  conv_rhs => rw [← List.map_id xs]
  apply gather_map Prod.fst id
  · exact fun _ _ => rfl
  · exact fun _ _ => rfl
  · exact fun _ => rfl

theorem place_perm (groups : List (A × List X)) (x : X) :
    ((place (fun g x => accepts g.1 x) (fun g x => (add g.1 x, g.2 ++ [x]))
      (fun x => (start x, [x])) groups x).flatMap Prod.snd).Perm
      (groups.flatMap Prod.snd ++ [x]) := by
  induction groups with
  | nil => exact .refl _
  | cons g groups ih =>
    simp only [place]
    split_ifs
    · simp only [List.flatMap_cons, List.append_assoc]
      exact List.Perm.append_left _ List.perm_append_comm
    · simp only [List.flatMap_cons, List.append_assoc]
      exact List.Perm.append_left _ ih

/-- **Every item is in one group.** -/
theorem gatherMembers_perm (xs : List X) :
    ((gatherMembers accepts add start xs).flatMap Prod.snd).Perm xs := by
  induction xs using List.reverseRecOn with
  | nil => exact .refl _
  | append_singleton xs x ih =>
    unfold gatherMembers gather at *
    rw [List.foldl_concat]
    exact (place_perm _ x).trans (ih.append_right _)

/-- The group is what its items built, in their order. -/
def Built (add : A → X → A) (start : X → A) (g : A × List X) : Prop :=
  ∃ x rest, g.2 = x :: rest ∧ g.1 = rest.foldl add (start x)

theorem Built.snoc {g : A × List X} (built : Built add start g) (x : X) :
    Built add start (add g.1 x, g.2 ++ [x]) := by
  obtain ⟨first, rest, members, value⟩ := built
  refine ⟨first, rest ++ [x], ?_, ?_⟩
  · rw [members, List.cons_append]
  · rw [List.foldl_concat, value]

theorem place_built {groups : List (A × List X)} (built : ∀ g ∈ groups, Built add start g) (x : X) :
    ∀ g ∈ place (fun g x => accepts g.1 x) (fun g x => (add g.1 x, g.2 ++ [x]))
      (fun x => (start x, [x])) groups x, Built add start g := by
  induction groups with
  | nil =>
    intro g member
    rw [List.mem_singleton.mp member]
    exact ⟨x, [], rfl, rfl⟩
  | cons h groups ih =>
    obtain ⟨first, others⟩ := List.forall_mem_cons.mp built
    simp only [place]
    split_ifs
    · exact List.forall_mem_cons.mpr ⟨first.snoc x, others⟩
    · exact List.forall_mem_cons.mpr ⟨first, ih others⟩

theorem gatherMembers_built (xs : List X) :
    ∀ g ∈ gatherMembers accepts add start xs, Built add start g := by
  induction xs using List.reverseRecOn with
  | nil => simp [gatherMembers, gather]
  | append_singleton xs x ih =>
    unfold gatherMembers gather at *
    rw [List.foldl_concat]
    exact place_built ih x

end Gather

/-! ### Taking the positions that are not marked -/

section Marked

variable {n : ℕ} (near : Fin n → Fin n → Bool)

/-- The group of a position: itself and the later positions near it that are not marked, all of
which are marked then. -/
def collect (i : Fin n) (merged : Fin n → Bool) : List (Fin n) × (Fin n → Bool) :=
  (Loop.above i).foldl
    (fun (group, merged) j =>
      if !merged j && near i j then (group ++ [j], Function.update merged j true)
      else (group, merged))
    ([i], Function.update merged i true)

/-- One turn: a marked position is skipped. -/
def visit (s : List (List (Fin n)) × (Fin n → Bool)) (i : Fin n) :
    List (List (Fin n)) × (Fin n → Bool) :=
  if s.2 i then s
  else
    let (group, merged) := collect near i s.2
    (s.1 ++ [group], merged)

def groupIndices : List (List (Fin n)) :=
  ((List.finRange n).foldl (visit near) ([], fun _ => false)).1

/-- What collecting a group marks. -/
structure Collected (before : Fin n → Bool) (group : List (Fin n)) (merged : Fin n → Bool) :
    Prop where
  nodup : group.Nodup
  fresh : ∀ j ∈ group, before j = false
  marked : ∀ j, merged j = true ↔ before j = true ∨ j ∈ group

theorem Collected.push {before merged : Fin n → Bool} {group : List (Fin n)}
    (collected : Collected before group merged) {j : Fin n} (unmarked : merged j = false) :
    Collected before (group ++ [j]) (Function.update merged j true) := by
  have apart : before j ≠ true ∧ j ∉ group := by
    rw [← not_or, ← collected.marked, unmarked]
    simp
  refine ⟨?_, fun k member => ?_, fun k => ?_⟩
  · rw [List.nodup_append]
    refine ⟨collected.nodup, List.nodup_singleton j, fun k member j' last same => ?_⟩
    rw [List.mem_singleton.mp last] at same
    exact apart.2 (same ▸ member)
  · rcases List.mem_append.mp member with earlier | last
    · exact collected.fresh k earlier
    · rw [List.mem_singleton.mp last]
      exact Bool.not_eq_true _ ▸ apart.1
  · rw [List.mem_append, List.mem_singleton, ← or_assoc, ← collected.marked]
    by_cases same : k = j
    · simp [same]
    · simp [same]

theorem collect_spec {i : Fin n} {merged : Fin n → Bool} (unmarked : merged i = false) :
    Collected merged (collect near i merged).1 (collect near i merged).2 ∧
      i ∈ (collect near i merged).1 := by
  have start : Collected merged [i] (Function.update merged i true) := by
    refine ⟨List.nodup_singleton i, fun j member => ?_, fun j => ?_⟩
    · rw [List.mem_singleton.mp member]
      exact unmarked
    · by_cases same : j = i
      · simp [same]
      · simp [same]
  unfold collect
  refine List.foldlRecOn (Loop.above i) _
    (motive := fun s : List (Fin n) × (Fin n → Bool) => Collected merged s.1 s.2 ∧ i ∈ s.1)
    ⟨start, List.mem_singleton_self i⟩ ?_
  rintro ⟨group, marks⟩ ⟨collected, member⟩ j _
  dsimp only
  split_ifs with takes
  · rw [Bool.and_eq_true, Bool.not_eq_true'] at takes
    exact ⟨collected.push takes.1, List.mem_append_left _ member⟩
  · exact ⟨collected, member⟩

theorem collect_near (i : Fin n) (merged : Fin n → Bool) :
    ∃ rest, (collect near i merged).1 = i :: rest ∧ ∀ j ∈ rest, near i j = true := by
  unfold collect
  refine List.foldlRecOn (Loop.above i) _
    (motive := fun s : List (Fin n) × (Fin n → Bool) =>
      ∃ rest, s.1 = i :: rest ∧ ∀ j ∈ rest, near i j = true)
    ⟨[], rfl, fun _ none => absurd none List.not_mem_nil⟩ ?_
  rintro ⟨group, marks⟩ ⟨rest, rfl, close⟩ j _
  dsimp only
  split_ifs with takes
  · rw [Bool.and_eq_true] at takes
    exact ⟨rest ++ [j], rfl, List.forall_mem_append.mpr
      ⟨close, List.forall_mem_singleton.mpr takes.2⟩⟩
  · exact ⟨rest, rfl, close⟩

/-- The members of a group are near its first one. -/
theorem groupIndices_near : ∀ group ∈ groupIndices near, ∃ i rest,
    group = i :: rest ∧ ∀ j ∈ rest, near i j = true := by
  unfold groupIndices
  refine List.foldlRecOn (List.finRange n) _
    (motive := fun s : List (List (Fin n)) × (Fin n → Bool) => ∀ group ∈ s.1, ∃ i rest,
      group = i :: rest ∧ ∀ j ∈ rest, near i j = true)
    (fun _ none => absurd none List.not_mem_nil) ?_
  intro s known i _
  unfold visit
  split_ifs
  · exact known
  · obtain ⟨rest, joined, close⟩ := collect_near near i s.2
    exact List.forall_mem_append.mpr
      ⟨known, List.forall_mem_singleton.mpr ⟨i, rest, joined, close⟩⟩

/-- The groups so far are disjoint, not empty, and hold exactly the marked positions. -/
structure Partition (groups : List (List (Fin n))) (merged : Fin n → Bool) : Prop where
  nodup : groups.flatten.Nodup
  marked : ∀ j, merged j = true ↔ j ∈ groups.flatten
  nonempty : ∀ group ∈ groups, group ≠ []

theorem Partition.visit {s : List (List (Fin n)) × (Fin n → Bool)} (partition : Partition s.1 s.2)
    (i : Fin n) :
    Partition (Grouping.visit near s i).1 (Grouping.visit near s i).2 ∧
      (Grouping.visit near s i).2 i = true ∧
      ∀ j, s.2 j = true → (Grouping.visit near s i).2 j = true := by
  unfold Grouping.visit
  split_ifs with skip
  · exact ⟨partition, skip, fun _ marked => marked⟩
  · obtain ⟨collected, member⟩ := collect_spec near (Bool.not_eq_true _ ▸ skip)
    dsimp only
    refine ⟨⟨?_, fun j => ?_, fun group listed => ?_⟩, (collected.marked i).mpr (Or.inr member),
      fun j marked => (collected.marked j).mpr (Or.inl marked)⟩
    · rw [List.flatten_concat, List.nodup_append]
      refine ⟨partition.nodup, collected.nodup, fun j earlier k now same => ?_⟩
      have fresh := collected.fresh k now
      rw [← same, ← Bool.not_eq_true, partition.marked] at fresh
      exact fresh earlier
    · rw [collected.marked, partition.marked, List.flatten_concat, List.mem_append]
    · rcases List.mem_append.mp listed with earlier | now
      · exact partition.nonempty group earlier
      · rw [List.mem_singleton.mp now]
        exact List.ne_nil_of_mem member

theorem Partition.foldl {s : List (List (Fin n)) × (Fin n → Bool)} (partition : Partition s.1 s.2)
    (order : List (Fin n)) :
    Partition (order.foldl (Grouping.visit near) s).1 (order.foldl (Grouping.visit near) s).2 ∧
      (∀ i ∈ order, (order.foldl (Grouping.visit near) s).2 i = true) ∧
      ∀ j, s.2 j = true → (order.foldl (Grouping.visit near) s).2 j = true := by
  induction order generalizing s with
  | nil => exact ⟨partition, by simp, fun _ marked => marked⟩
  | cons i order ih =>
    obtain ⟨next, here, kept⟩ := partition.visit near i
    obtain ⟨final, later, kept'⟩ := ih next
    refine ⟨final, fun j member => ?_, fun j marked => kept' j (kept j marked)⟩
    rcases List.mem_cons.mp member with rfl | rest
    · exact kept' j here
    · exact later j rest

/-- **The groups are a partition of the positions.** -/
theorem groupIndices_perm :
    (groupIndices near).flatten.Perm (List.finRange n) ∧
      ∀ group ∈ groupIndices near, group ≠ [] := by
  let start : List (List (Fin n)) × (Fin n → Bool) := ([], fun _ => false)
  have empty : Partition start.1 start.2 := ⟨.nil, by simp [start], by simp [start]⟩
  obtain ⟨partition, visited, _⟩ := empty.foldl near (List.finRange n)
  refine ⟨?_, partition.nonempty⟩
  refine (List.perm_ext_iff_of_nodup partition.nodup (List.nodup_finRange n)).mpr fun i => ?_
  exact iff_of_true ((partition.marked i).mp (visited i (List.mem_finRange i)))
    (List.mem_finRange i)

end Marked

/-! ### The groups of a list -/

section List

variable {A B : Type}

/-- The groups of a vector of entries. -/
def groupsAt (near : A → A → Bool) {n : ℕ} (get : Fin n → A) : List (List A) :=
  (groupIndices fun i j => near (get i) (get j)).map fun group => group.map get

def groupsOf (near : A → A → Bool) (xs : List A) : List (List A) := groupsAt near xs.get

/-- **The groups of a list are the list in another order**, and none is empty. -/
theorem groupsOf_perm (near : A → A → Bool) (xs : List A) :
    (groupsOf near xs).flatten.Perm xs ∧ ∀ group ∈ groupsOf near xs, group ≠ [] := by
  obtain ⟨perm, nonempty⟩ := groupIndices_perm fun i j => near (xs.get i) (xs.get j)
  refine ⟨?_, fun group listed => ?_⟩
  · have same : (List.finRange xs.length).map xs.get = xs := by simp
    rw [groupsOf, groupsAt, ← List.map_flatten]
    exact (perm.map xs.get).trans (.of_eq same)
  · obtain ⟨indices, member, rfl⟩ := List.mem_map.mp listed
    exact mt List.map_eq_nil_iff.mp (nonempty indices member)

theorem groupsAt_cast (near : A → A → Bool) {n m : ℕ} (same : n = m) (get : Fin m → A) :
    groupsAt near (fun i : Fin n => get (i.cast same)) = groupsAt near get := by
  subst same
  rfl

/-- The groups of the images are the images of the groups. -/
theorem groupsOf_map (near : B → B → Bool) (f : A → B) (xs : List A) :
    groupsOf near (xs.map f) =
      (groupsOf (fun a b => near (f a) (f b)) xs).map (List.map f) := by
  have length : (xs.map f).length = xs.length := List.length_map f
  have images : (xs.map f).get = fun i => (f ∘ xs.get) (i.cast length) := by
    funext i
    simp
  rw [groupsOf, images, groupsAt_cast near length, groupsAt, groupsOf, groupsAt, List.map_map]
  refine List.map_congr_left fun group _ => ?_
  exact (List.map_map ..).symm

/-- What belongs to the groups is what belongs to the list, in another order. -/
theorem groupsOf_flatMap_perm (near : A → A → Bool) (xs : List A) (f : A → List B) :
    ((groupsOf near xs).flatMap fun group => group.flatMap f).Perm (xs.flatMap f) := by
  have joined : ((groupsOf near xs).flatMap fun group => group.flatMap f) =
      (groupsOf near xs).flatten.flatMap f := by
    rw [List.flatten_eq_flatMap, List.flatMap_assoc]
    rfl
  rw [joined]
  exact (groupsOf_perm near xs).1.flatMap_right f

theorem mem_of_groupsOf {near : A → A → Bool} {xs group : List A}
    (listed : group ∈ groupsOf near xs) {x : A} (member : x ∈ group) : x ∈ xs :=
  (groupsOf_perm near xs).1.mem_iff.mp (List.mem_flatten_of_mem listed member)

/-- No part is longer than the whole. -/
theorem near_of_groupsOf {near : A → A → Bool} {xs group : List A}
    (listed : group ∈ groupsOf near xs) :
    ∃ first rest, group = first :: rest ∧ ∀ x ∈ rest, near first x = true := by
  obtain ⟨indices, grouped, rfl⟩ := List.mem_map.mp listed
  obtain ⟨i, rest, rfl, close⟩ := groupIndices_near _ indices grouped
  refine ⟨xs.get i, rest.map xs.get, rfl, fun x member => ?_⟩
  obtain ⟨j, later, rfl⟩ := List.mem_map.mp member
  exact close j later

theorem length_le_of_flatMap_perm {f : A → List B} {parts : List A} {whole : List B}
    (perm : (parts.flatMap f).Perm whole) {part : A} (listed : part ∈ parts) :
    (f part).length ≤ whole.length := by
  rw [← perm.length_eq]
  exact (List.sublist_flatten_of_mem (List.mem_map_of_mem listed)).length_le

end List

/-! ### Lists related entry by entry -/

section Aligned

variable {A B C : Type} {R : A → B → Prop} {f : A → B → C} {as : List A} {bs : List B}

theorem aligned_modify (aligned : List.Forall₂ R as bs) (change : A → A)
    (kept : ∀ a b, R a b → R (change a) b) (i : ℕ) : List.Forall₂ R (as.modify i change) bs := by
  induction aligned generalizing i with
  | nil =>
    rw [List.modify_nil]
    exact .nil
  | cons here rest ih =>
    cases i with
    | zero => exact .cons (kept _ _ here) rest
    | succ i => exact .cons here (ih i)

theorem aligned_mapIdx (g : ℕ → B → A) (related : ∀ i b, R (g i b) b) (bs : List B) :
    List.Forall₂ R (bs.mapIdx g) bs := by
  refine List.forall₂_iff_get.mpr ⟨List.length_mapIdx, fun i inside inside' => ?_⟩
  rw [List.get_eq_getElem, List.getElem_mapIdx]
  exact related i _

theorem mem_zipWith (aligned : List.Forall₂ R as bs) {c : C} (member : c ∈ List.zipWith f as bs) :
    ∃ a, ∃ b ∈ bs, R a b ∧ c = f a b := by
  induction aligned with
  | nil => cases member
  | cons here rest ih =>
    rcases List.mem_cons.mp member with rfl | later
    · exact ⟨_, _, List.mem_cons_self, here, rfl⟩
    · obtain ⟨a, b, listed, related, same⟩ := ih later
      exact ⟨a, b, List.mem_cons_of_mem _ listed, related, same⟩

theorem map_zipWith_left (aligned : List.Forall₂ R as bs) (g : C → A)
    (left : ∀ a b, g (f a b) = a) : (List.zipWith f as bs).map g = as := by
  induction aligned with
  | nil => rfl
  | cons _ _ ih => rw [List.zipWith_cons_cons, List.map_cons, left, ih]

variable (f) in
theorem flatMap_zipWith_right {D : Type} (aligned : List.Forall₂ R as bs) (g : C → List D)
    (h : B → List D) (right : ∀ a b, g (f a b) = h b) :
    (List.zipWith f as bs).flatMap g = bs.flatMap h := by
  induction aligned with
  | nil => rfl
  | cons _ _ ih => rw [List.zipWith_cons_cons, List.flatMap_cons, right, ih, List.flatMap_cons]

end Aligned

end Rtfsn.Grouping
