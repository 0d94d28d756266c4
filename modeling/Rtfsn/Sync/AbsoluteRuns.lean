/-
**`solve_absolute` terminates** unless an edge from UTC is heard.

* `Clean`: the invariant of a clock. No edge it knows is from UTC, and its anchors are kept under
  their own ids. `Clean.apply`: every operation keeps it, unless it hears an edge from UTC.
* `Removes`: a turn that takes one anchor out. `Clean.selectTurn`, `Clean.clusterTurn`: every turn
  does, or leaves its loop.
* `solveAbsolute_terminates`: so both loops end in every run, and every measured anchor is kept or
  set aside once, with two kept.
* `solveAbsolute_diverges`: a clock that heard an edge from UTC, and never returns.
-/
import Rtfsn.Lib.Maps
import Rtfsn.Sync.Absolute
import Rtfsn.Sync.FrameSolution

set_option linter.unusedSectionVars false

namespace Rtfsn

open Maps

variable {F : Type} [F64 F]

/-! ### The parts of a turn -/

theorem maxBy_mem {A : Type} {key : A → F} {xs : List A} {x : A} (found : maxBy key xs = some x) :
    x ∈ xs := by
  have among : ∀ (rest : List A) (first : A),
      rest.foldl (fun best x => if F64.totalLe (key best) (key x) then x else best) first ∈
        first :: rest := by
    intro rest
    induction rest with
    | nil => simp
    | cons y rest ih =>
      intro first
      rw [List.foldl_cons]
      split
      · exact List.mem_cons_of_mem _ (ih y)
      · rcases List.mem_cons.mp (ih first) with same | later
        · rw [same]
          exact List.mem_cons_self
        · exact List.mem_cons_of_mem _ (List.mem_cons_of_mem _ later)
  cases xs with
  | nil => cases found
  | cons first rest => exact Option.some.inj found ▸ among rest first

theorem exists_maxBy {A : Type} (key : A → F) {xs : List A} {x : A} (member : x ∈ xs) :
    ∃ y, maxBy key xs = some y := by
  cases xs with
  | nil => cases member
  | cons first rest => exact ⟨_, rfl⟩

theorem exists_middle {v : List F} (nonempty : v ≠ []) : ∃ m, middle v = some m := by
  have positive : 0 < v.length := List.length_pos_iff.mpr nonempty
  have low : v.length / 2 - 1 < v.length := by omega
  have high : v.length / 2 < v.length := by omega
  unfold middle
  dsimp only
  split
  · exact ⟨_, List.getElem?_eq_getElem high⟩
  · rw [List.getElem?_eq_getElem low, List.getElem?_eq_getElem high]
    exact ⟨_, rfl⟩

theorem sortAscending_ne_nil {xs : List F} (nonempty : xs ≠ []) : sortAscending xs ≠ [] := by
  rw [← List.length_pos_iff, sortAscending, List.length_mergeSort]
  exact List.length_pos_iff.mpr nonempty

/-- The robust spread is always there. -/
theorem exists_robustSpread (xs : List F) : ∃ m spread, robustSpread xs = some (m, spread) := by
  unfold robustSpread
  split
  · exact ⟨_, _, rfl⟩
  · rename_i some
    have nonempty : xs ≠ [] := fun none => some (List.isEmpty_iff.mpr none)
    have sorted := sortAscending_ne_nil nonempty
    obtain ⟨m, found⟩ := exists_middle sorted
    have deviates : (sortAscending xs).map (fun x => F64.abs (x - m)) ≠ [] := by simpa using sorted
    obtain ⟨deviation, found'⟩ := exists_middle (sortAscending_ne_nil deviates)
    simp only [found, found', Option.bind_eq_bind, Option.bind_some]
    exact ⟨_, _, rfl⟩

/-- Every residual of a frame is that of an edge it was solved from. -/
theorem Solves.residual_of_edge {solver reference : NodeId} {atNs : ℕ} {ids : List NodeId}
    {edges : List (EdgeEstimate F)} {net : Network F ids.length} {frame : NetworkFrame F}
    (solves : Solves solver reference atNs edges ids net frame) {r : EdgeResidual F}
    (listed : r ∈ frame.edges) : ∃ e ∈ edges, r.fromNode = e.fromNode ∧ r.toNode = e.toNode := by
  obtain ⟨nodes, _, rfl⟩ := solves.parts
  have sorted := (List.mergeSort_perm _ _).mem_iff.mp listed
  rw [Network.residuals_eq] at sorted
  obtain ⟨p, inside, rfl⟩ := List.mem_map.mp sorted
  exact ⟨p.edge, (solves.places.usable (Network.mem_inside.mp inside).1).1, rfl, rfl⟩

/-! ### Removing an anchor -/

/-- One anchor is taken out and set aside. -/
def Removes (s s' : Selection F) : Prop :=
  ∃ before a after, s.chosen = before ++ a :: after ∧ s'.chosen = before ++ after ∧
    s'.aside = s.aside ++ [a.node]

/-- Setting a chosen node aside takes one anchor out. -/
theorem Selection.removes {s : Selection F} (distinct : (s.chosen.map Anchor.node).Nodup)
    {a : Anchor F} (member : a ∈ s.chosen) : Removes s (s.remove a.node) := by
  obtain ⟨before, after, split⟩ := List.mem_iff_append.mp member
  refine ⟨before, a, after, split, ?_, rfl⟩
  rw [split, List.map_append, List.map_cons] at distinct
  have apart := List.nodup_middle.mp distinct
  rw [List.nodup_cons, List.mem_append, not_or] at apart
  have others : ∀ l : List (Anchor F), a.node ∉ l.map Anchor.node →
      l.filter (fun b => b.node ≠ a.node) = l := fun l absent => by
    refine List.filter_eq_self.mpr fun b listed => decide_eq_true fun same => ?_
    exact absent (List.mem_map.mpr ⟨b, listed, same⟩)
  show s.chosen.filter _ = _
  rw [split, List.filter_append, List.filter_cons_of_neg (by simp), others _ apart.1.1,
    others _ apart.1.2]

/-- What a loop has done so far: every anchor it started with is still chosen or set aside, and two
are still chosen. -/
structure Accounts (start : List (Anchor F)) (s : Selection F) : Prop where
  sublist : s.chosen.Sublist start
  accounted : (s.chosen.map Anchor.node ++ s.aside).Perm (start.map Anchor.node)
  kept : min start.length 2 ≤ s.chosen.length

theorem Accounts.refl (start : List (Anchor F)) : Accounts start ⟨start, []⟩ :=
  ⟨List.Sublist.refl _, by simp, min_le_left _ _⟩

theorem Removes.length {s s' : Selection F} (removes : Removes s s') :
    s'.chosen.length + 1 = s.chosen.length := by
  obtain ⟨before, a, after, split, rest, _⟩ := removes
  rw [split, rest]
  simp
  omega

/-- **A turn that takes one of at least three anchors out keeps the account.** -/
theorem Accounts.removes {start : List (Anchor F)} {s s' : Selection F}
    (accounts : Accounts start s) (removes : Removes s s') (three : 3 ≤ s.chosen.length) :
    Accounts start s' := by
  have length := removes.length
  obtain ⟨before, a, after, split, rest, aside⟩ := removes
  refine ⟨?_, ?_, (min_le_right _ _).trans (by omega)⟩
  · refine List.Sublist.trans ?_ accounts.sublist
    rw [split, rest]
    exact (List.sublist_cons_self _ _).append_left _
  · refine List.Perm.trans ?_ accounts.accounted
    rw [split, rest, aside]
    simp only [List.map_append, List.map_cons, List.append_assoc]
    refine List.Perm.append_left _ ?_
    rw [← List.append_assoc]
    exact List.perm_append_singleton _ _

/-- Every anchor the two loops started with is chosen, a falseticker or an outlier, once. -/
theorem Accounts.trans {start : List (Anchor F)} {s t : Selection F} (first : Accounts start s)
    (second : Accounts s.chosen t) :
    (t.chosen.map Anchor.node ++ (s.aside ++ t.aside)).Perm (start.map Anchor.node) ∧
      min start.length 2 ≤ t.chosen.length := by
  refine ⟨?_, ?_⟩
  · have regroup : (t.chosen.map Anchor.node ++ (s.aside ++ t.aside)).Perm
        (t.chosen.map Anchor.node ++ t.aside ++ s.aside) := by
      rw [List.append_assoc]
      exact List.Perm.append_left _ List.perm_append_comm
    exact regroup.trans ((second.accounted.append_right _).trans first.accounted)
  · have kept := first.kept
    have kept' := second.kept
    omega

/-! ### The clock -/

/-- The operation hears an edge from UTC. -/
def Op.FromUtc : Op F → Prop
  | .hear edge _ => edge.fromNode = utc
  | _ => False

namespace RelationalClock

/-- No heard edge is from UTC, and every anchor is kept under its own id. -/
structure Clean (me : NodeId) (clock : RelationalClock F) : Prop where
  me : clock.me = me
  heard : ∀ (key : NodeId ×ₗ NodeId) (h : Heard F), clock.heard[key]? = some h →
    h.edge.fromNode ≠ utc
  anchors : ∀ (node : NodeId) (held : HeldAnchor F), clock.anchors[node]? = some held →
    held.anchor.node = node

theorem Clean.new (me : NodeId) (cfg : TrackConfig F) : Clean me (RelationalClock.new me cfg) where
  me := rfl
  heard := Entries.empty _
  anchors := Entries.empty _

variable {me : NodeId} {clock : RelationalClock F}

theorem Clean.hear (clean : Clean me clock) {edge : EdgeEstimate F} (other : edge.fromNode ≠ utc)
    (nowNs : ℕ) : Clean me (clock.hear edge nowNs) := by
  unfold RelationalClock.hear
  by_cases ours : edge.fromNode = clock.me ∨ edge.fromNode = edge.toNode
  · rw [if_pos ours]
    exact clean
  · rw [if_neg ours]
    exact ⟨clean.me, Entries.insert (fun key h _ => clean.heard key h) other, clean.anchors⟩

theorem Clean.hearAnchor (clean : Clean me clock) (anchor : Anchor F) (nowNs : ℕ) :
    Clean me (clock.hearAnchor anchor nowNs) := by
  obtain ⟨same, heard, anchors⟩ := clock.hearAnchor_spec anchor nowNs
  refine ⟨same.trans clean.me, heard ▸ clean.heard, ?_⟩
  rw [anchors]
  by_cases taken : replaces clock.anchors[anchor.node]? anchor (nowNs - anchor.ageNs) = true
  · rw [if_pos taken]
    exact Entries.insert (fun node held _ => clean.anchors node held) rfl
  · rw [if_neg taken]
    exact clean.anchors

/-- **Every operation keeps the clock clean**, and never fails, unless it hears an edge from UTC. -/
theorem Clean.apply (clean : Clean me clock) {op : Op F} (other : ¬ op.FromUtc) :
    ∃ after, clock.apply op = some after ∧ Clean me after := by
  cases op with
  | observe peer e =>
    obtain ⟨obs, after, eq, same, _, heard, anchors⟩ := clock.observe_spec peer e
    refine ⟨after, by rw [RelationalClock.apply, eq]; rfl, same.trans clean.me, ?_, ?_⟩
    · exact heard ▸ clean.heard
    · exact anchors ▸ clean.anchors
  | observeReference server e rootDistanceNs stratum sigmaDrift nowNs =>
    obtain ⟨obs, after, eq, same, heard, anchors⟩ :=
      clock.observeReference_spec server e rootDistanceNs stratum sigmaDrift nowNs
    refine ⟨after, by rw [RelationalClock.apply, eq]; rfl, same.trans clean.me, ?_, ?_⟩
    · exact heard ▸ clean.heard
    · rcases anchors with ⟨_, kept⟩ | ⟨track, _, inserted⟩
      · exact kept ▸ clean.anchors
      · rw [inserted]
        exact Entries.insert (fun node held _ => clean.anchors node held) rfl
  | hear edge nowNs => exact ⟨_, rfl, clean.hear other nowNs⟩
  | hearAnchor anchor nowNs => exact ⟨_, rfl, clean.hearAnchor anchor nowNs⟩
  | forget peer =>
    exact ⟨_, rfl, clean.me, Entries.filter clean.heard _, Entries.erase clean.anchors peer⟩
  | expire nowNs maxAgeNs =>
    exact ⟨_, rfl, clean.me, Entries.filter clean.heard _, clean.anchors⟩
  | expireAnchors nowNs maxAgeNs =>
    exact ⟨_, rfl, clean.me, clean.heard, Entries.filter clean.anchors _⟩

theorem Clean.run (clean : Clean me clock) {ops : List (Op F)} (others : ∀ op ∈ ops, ¬ op.FromUtc) :
    ∃ after, clock.run ops = some after ∧ Clean me after := by
  induction ops generalizing clock with
  | nil => exact ⟨clock, rfl, clean⟩
  | cons op ops ih =>
    obtain ⟨next, eq, held⟩ := clean.apply (others op List.mem_cons_self)
    obtain ⟨after, rest, final⟩ :=
      ih held fun op listed => others op (List.mem_cons_of_mem _ listed)
    refine ⟨after, ?_, final⟩
    rw [RelationalClock.run, List.foldlM_cons, eq]
    exact rest

/-- No known edge is from UTC. -/
theorem Clean.known (clean : Clean me clock) (self : me ≠ utc) :
    ∀ e ∈ clock.known, e.fromNode ≠ utc := by
  intro e listed
  rcases List.mem_append.mp listed with own | other
  · obtain ⟨⟨peer, track⟩, _, eq⟩ := List.mem_filterMap.mp own
    obtain ⟨relation, _, made⟩ := Option.bind_eq_some_iff.mp eq
    obtain rfl := Option.some.inj made
    exact clean.me ▸ self
  · obtain ⟨⟨key, h⟩, found, rfl⟩ := List.mem_map.mp other
    exact Entries.toList clean.heard _ found

/-- The anchors have distinct ids. -/
theorem Clean.distinct (clean : Clean me clock) : (clock.anchorList.map Anchor.node).Nodup := by
  have ids : clock.anchorList.map Anchor.node = clock.anchors.keys := by
    rw [anchorList, List.map_map, ← Std.ExtTreeMap.map_fst_toList_eq_keys]
    exact List.map_congr_left (Entries.toList clean.anchors)
  rw [ids]
  exact Std.ExtTreeMap.nodup_keys

theorem mem_measuredAnchors {a : Anchor F} : a ∈ clock.measuredAnchors ↔ a ∈ clock.anchorList ∧
    ∃ e ∈ clock.known, a.node = e.fromNode ∨ a.node = e.toNode := by
  simp [measuredAnchors, measured]

/-! ### The turns -/

variable {s : Selection F}

theorem Clean.distinct_chosen (clean : Clean me clock)
    (chosen : s.chosen.Sublist clock.measuredAnchors) : (s.chosen.map Anchor.node).Nodup :=
  clean.distinct.sublist ((chosen.trans List.filter_sublist).map _)

theorem exists_solveWith (clock : RelationalClock F) (atNs : ℕ) (chosen : List (Anchor F)) :
    ∃ frame, clock.solveWith atNs chosen = some frame ∧ ∀ r ∈ frame.edges,
      (∃ e ∈ clock.known, r.fromNode = e.fromNode) ∨ ∃ a ∈ chosen, r.toNode = a.node := by
  obtain ⟨net, frame, solves⟩ :=
    exists_solves clock.me utc atNs (clock.known ++ chosen.map (anchorEdge atNs))
  refine ⟨frame, solves.solved, fun r listed => ?_⟩
  obtain ⟨e, given, fromNode, toNode⟩ := solves.residual_of_edge listed
  rcases List.mem_append.mp given with known | new
  · exact Or.inl ⟨e, known, fromNode⟩
  · obtain ⟨a, member, rfl⟩ := List.mem_map.mp new
    exact Or.inr ⟨a, member, toNode⟩

/-- **A turn of the selection** takes one of at least three anchors out, or ends it. -/
theorem Clean.selectTurn (clean : Clean me clock) (self : me ≠ utc) (atNs : ℕ)
    (chosen : s.chosen.Sublist clock.measuredAnchors) :
    (∃ frame, clock.selectTurn atNs s = some (.inr (s, frame))) ∨
      ∃ s', clock.selectTurn atNs s = some (.inl s') ∧ Removes s s' ∧ 3 ≤ s.chosen.length := by
  obtain ⟨frame, solved, origins⟩ := clock.exists_solveWith atNs s.chosen
  simp only [RelationalClock.selectTurn, solved, Option.bind_eq_bind, Option.bind_some]
  cases worst : worstEdge frame with
  | none => exact Or.inl ⟨frame, rfl⟩
  | some w =>
    dsimp only
    split
    · rename_i far
      obtain ⟨listed, fromUtc⟩ := List.mem_filter.mp (maxBy_mem worst)
      refine Or.inr ⟨_, rfl, ?_, far.1⟩
      -- UTC's edges are those of the chosen anchors: no known edge is from UTC.
      obtain ⟨e, known, same⟩ | ⟨a, member, same⟩ := origins w listed
      · exact absurd (same.symm.trans (of_decide_eq_true fromUtc)) (clean.known self e known)
      · rw [same]
        exact Selection.removes (clean.distinct_chosen chosen) member
    · exact Or.inl ⟨frame, rfl⟩

/-- **A turn of the clustering** takes one of more than three anchors out, or ends it. -/
theorem Clean.clusterTurn (clean : Clean me clock) (atNs : ℕ)
    (chosen : s.chosen.Sublist clock.measuredAnchors) (frame : NetworkFrame F) :
    (∃ frame', clock.clusterTurn atNs (s, frame) = some (.inr (s, frame'))) ∨
      ∃ s' frame', clock.clusterTurn atNs (s, frame) = some (.inl (s', frame')) ∧ Removes s s' ∧
        3 ≤ s.chosen.length := by
  obtain ⟨median, spread, robust⟩ :=
    exists_robustSpread ((anchorOffsets s.chosen frame).map Prod.snd)
  simp only [RelationalClock.clusterTurn, robust, Option.bind_eq_bind, Option.bind_some]
  split
  · exact Or.inl ⟨_, rfl⟩
  · rename_i many
    cases farthest : maxBy (fun x => F64.abs (x.2 - median)) (anchorOffsets s.chosen frame) with
    | none => exact Or.inl ⟨_, rfl⟩
    | some x =>
      obtain ⟨worst, off⟩ := x
      dsimp only
      split
      · exact Or.inl ⟨_, rfl⟩
      · obtain ⟨a, member, found⟩ := List.mem_filterMap.mp (maxBy_mem farthest)
        obtain ⟨n, _, same⟩ := Option.map_eq_some_iff.mp found
        obtain rfl : a.node = worst := congrArg Prod.fst same
        obtain ⟨frame', solved, _⟩ := clock.exists_solveWith atNs (s.remove a.node).chosen
        refine Or.inr ⟨s.remove a.node, frame', ?_,
          Selection.removes (clean.distinct_chosen chosen) member, ?_⟩
        · rw [solved]
          rfl
        · unfold minSurvivors at many
          omega

/-! ### The loops -/

/-- **The selection ends.** -/
theorem Clean.select (clean : Clean me clock) (self : me ≠ utc) (atNs : ℕ) :
    ∃ s frame, Accounts clock.measuredAnchors s ∧ ∀ fuel, clock.measuredAnchors.length < fuel →
      Loop.repeatUntil (clock.selectTurn atNs) fuel ⟨clock.measuredAnchors, []⟩ =
        .ok (s, frame) := by
  have turns : ∀ s, Accounts clock.measuredAnchors s →
      (∃ a, clock.selectTurn atNs s = some (.inr a) ∧ Accounts clock.measuredAnchors a.1) ∨
      ∃ s', clock.selectTurn atNs s = some (.inl s') ∧ Accounts clock.measuredAnchors s' ∧
        s'.chosen.length < s.chosen.length := fun s accounts => by
    obtain ⟨frame, left⟩ | ⟨s', next, removes, three⟩ :=
      clean.selectTurn self atNs accounts.sublist
    · exact Or.inl ⟨_, left, accounts⟩
    · have length := removes.length
      exact Or.inr ⟨s', next, accounts.removes removes three, by omega⟩
  obtain ⟨⟨s, frame⟩, accounts, ends⟩ := Loop.repeatUntil_ends
    (fun s : Selection F => s.chosen.length) turns (Accounts.refl clock.measuredAnchors)
  exact ⟨s, frame, accounts, ends⟩

/-- **The clustering ends.** -/
theorem Clean.cluster (clean : Clean me clock) (atNs : ℕ) {start : List (Anchor F)}
    (chosen : start.Sublist clock.measuredAnchors) (frame : NetworkFrame F) :
    ∃ t frame', Accounts start t ∧ ∀ fuel, start.length < fuel →
      Loop.repeatUntil (clock.clusterTurn atNs) fuel (⟨start, []⟩, frame) = .ok (t, frame') := by
  have turns : ∀ s : Selection F × NetworkFrame F, Accounts start s.1 →
      (∃ a, clock.clusterTurn atNs s = some (.inr a) ∧ Accounts start a.1) ∨
      ∃ s', clock.clusterTurn atNs s = some (.inl s') ∧ Accounts start s'.1 ∧
        s'.1.chosen.length < s.1.chosen.length := fun ⟨s, frame⟩ accounts => by
    obtain ⟨frame', left⟩ | ⟨s', frame', next, removes, three⟩ :=
      clean.clusterTurn (s := s) atNs (accounts.sublist.trans chosen) frame
    · exact Or.inl ⟨_, left, accounts⟩
    · have length := removes.length
      refine Or.inr ⟨_, next, accounts.removes removes three, ?_⟩
      show s'.chosen.length < s.chosen.length
      omega
  obtain ⟨⟨t, frame'⟩, accounts, ends⟩ := Loop.repeatUntil_ends
    (fun s : Selection F × NetworkFrame F => s.1.chosen.length) turns
    (s := (⟨start, []⟩, frame)) (Accounts.refl start)
  exact ⟨t, frame', accounts, ends⟩

/-- **`solve_absolute` terminates** for every clock that never heard an edge from UTC, at every
instant: each turn of either loop takes exactly one anchor out, and fuel for one turn more than
there are measured anchors suffices. The falsetickers and the outliers are then distinct anchors
that some edge measures, and two measured anchors are kept. -/
theorem solveAbsolute_terminates (me : NodeId) (cfg : TrackConfig F) (ops : List (Op F))
    (self : me ≠ utc) (others : ∀ op ∈ ops, ¬ op.FromUtc) :
    ∃ clock, (RelationalClock.new me cfg).run ops = some clock ∧ ∀ atNs,
      (∀ s s', s.chosen.Sublist clock.measuredAnchors →
        clock.selectTurn atNs s = some (.inl s') → Removes s s') ∧
      (∀ s frame s' frame', s.chosen.Sublist clock.measuredAnchors →
        clock.clusterTurn atNs (s, frame) = some (.inl (s', frame')) → Removes s s') ∧
      ∃ result,
        (∀ fuel, clock.measuredAnchors.length < fuel →
          clock.solveAbsolute atNs fuel = .ok result) ∧
        (result = none ↔ clock.measuredAnchors = []) ∧
        ∀ frame, result = some frame →
          (frame.falsetickers ++ frame.outliers).Nodup ∧
          (∀ node ∈ frame.falsetickers ++ frame.outliers, ∃ a ∈ clock.anchorList, a.node = node ∧
            ∃ e ∈ clock.known, node = e.fromNode ∨ node = e.toNode) ∧
          min clock.measuredAnchors.length 2 + frame.falsetickers.length + frame.outliers.length ≤
            clock.measuredAnchors.length := by
  obtain ⟨clock, ran, clean⟩ := (Clean.new me cfg).run others
  refine ⟨clock, ran, fun atNs => ⟨?_, ?_, ?_⟩⟩
  · intro s s' chosen turned
    obtain ⟨frame, left⟩ | ⟨next, again, removes, _⟩ :=
      clean.selectTurn self atNs chosen
    · rw [left] at turned
      cases turned
    · obtain rfl : next = s' := by simpa [again] using turned
      exact removes
  · intro s frame s' frame' chosen turned
    obtain ⟨_, left⟩ | ⟨next, _, again, removes, _⟩ :=
      clean.clusterTurn atNs chosen frame
    · rw [left] at turned
      cases turned
    · obtain ⟨rfl, _⟩ : next = s' ∧ _ := by simpa [again] using turned
      exact removes
  · by_cases none : clock.measuredAnchors = []
    · refine ⟨Option.none, fun fuel _ => ?_, by simp [none], by simp⟩
      rw [solveAbsolute, if_pos (by simp [none])]
      rfl
    obtain ⟨s, frame, first, selected⟩ := clean.select self atNs
    obtain ⟨t, frame', second, clustered⟩ := clean.cluster atNs first.sublist frame
    refine ⟨some { frame' with falsetickers := s.aside, outliers := t.aside },
      fun fuel enough => ?_, by simp [none], ?_⟩
    · have shorter := first.sublist.length_le
      rw [solveAbsolute, if_neg (by simpa using none), selected fuel enough]
      simp only [bind, Except.bind]
      rw [clustered fuel (by omega)]
      rfl
    · intro result found
      obtain rfl := Option.some.inj found
      obtain ⟨all, kept⟩ := first.trans second
      have distinct := all.nodup_iff.mpr
        (clean.distinct_chosen (s := ⟨_, []⟩) (List.Sublist.refl _))
      refine ⟨(List.nodup_append.mp distinct).2.1, fun node aside => ?_, ?_⟩
      · have listed := all.mem_iff.mp (List.mem_append_right _ aside)
        obtain ⟨a, member, rfl⟩ := List.mem_map.mp listed
        obtain ⟨known, measured⟩ := mem_measuredAnchors.mp member
        exact ⟨a, known, rfl, measured⟩
      · have length := all.length_eq
        simp only [List.length_append, List.length_map] at length
        show _ + s.aside.length + t.aside.length ≤ _
        omega

/-- An edge as another node gossips it. -/
def gossiped (fromNode toNode : NodeId) (offsetNs : ℝ) : EdgeEstimate ℝ where
  fromNode := fromNode
  toNode := toNode
  relation := { atNs := 0, offsetNs, drift := 0, sigmaOffsetNs := 1, sigmaDrift := 1 }
  rttFloorNs := 0
  samples := 1

/-- An anchor as another node gossips it. -/
def gossipedAnchor (node : NodeId) : Anchor ℝ where
  node := node
  sigmaOffsetNs := 1
  sigmaDrift := 1
  stratum := 1
  ageNs := 0

/-- Edges between three nodes that agree, and a fourth that is a microsecond behind UTC. -/
def gossipedEdges : List (EdgeEstimate ℝ) :=
  [gossiped (.replicate 1) (.replicate 2) 0, gossiped (.replicate 2) (.replicate 3) 0,
    gossiped (.replicate 4) utc 1000]

/-- The three as anchors. -/
def gossipedAnchors : List (Anchor ℝ) :=
  [gossipedAnchor (.replicate 1), gossipedAnchor (.replicate 2), gossipedAnchor (.replicate 3)]

/-- Hear edges, then anchors. -/
def listen (edges : List (EdgeEstimate ℝ)) (anchors : List (Anchor ℝ)) : List (Op ℝ) :=
  edges.map (.hear · 0) ++ anchors.map (.hearAnchor · 0)

/-- Heard by a node with no measurement of its own. -/
theorem solveAbsolute_terminates_heard :
    ∃ clock, (RelationalClock.new (.replicate 5) .default).run
        (listen gossipedEdges gossipedAnchors) = some clock ∧
      ∃ result, ∀ fuel, clock.measuredAnchors.length < fuel →
        clock.solveAbsolute 0 fuel = .ok result := by
  have others : ∀ op ∈ listen gossipedEdges gossipedAnchors, ¬ op.FromUtc := by
    simp [listen, gossipedEdges, gossipedAnchors, Op.FromUtc, gossiped, utc]
  obtain ⟨clock, ran, terminates⟩ :=
    solveAbsolute_terminates (.replicate 5) .default _ (by decide) others
  obtain ⟨_, _, result, ends, _⟩ := terminates 0
  exact ⟨clock, ran, result, ends⟩

end RelationalClock

/-! ### Frames of edges that all weigh the same -/

/-- A usable edge between clocks of one rate, with one nanosecond of spread. -/
structure Plain (e : EdgeEstimate ℝ) : Prop where
  usable : e.usable = true
  drift : e.relation.drift = 0
  sigma : e.relation.sigmaOffsetNs = 1

/-- What the misfit of an edge adds at a node. -/
def pull (x : NodeId → ℝ) (id : NodeId) (e : EdgeEstimate ℝ) : ℝ :=
  (x e.toNode - x e.fromNode - e.relation.offsetNs) *
    ((if e.toNode = id then 1 else 0) - if e.fromNode = id then 1 else 0)

section Plain

variable {solver reference : NodeId} {atNs : ℕ} {edges : List (EdgeEstimate ℝ)}
  {ids : List NodeId} {net : Network ℝ ids.length} {frame : NetworkFrame ℝ}

/-- A solver that is not connected reads such an edge as it was taken. -/
theorem Plain.offsetOb_eq {n : ℕ} {net : Network ℝ n} (alone : net.me ∉ net.members)
    (offset : Fin n → ℝ) {p : Placed ℝ n} (plain : Plain p.edge) :
    net.offsetOb offset p = ⟨p.a, p.b, p.edge.relation.offsetNs, 1⟩ := by
  have unmapped : net.instantMapped = false := decide_eq_false alone
  simp [Network.offsetOb, Network.readAt, unmapped, Relation.offsetAt, Relation.sigmaAt,
    plain.drift, plain.sigma, minSigmaNs]

/-- Values that balance plain edges fit the last pass's readings, all of which are inside. -/
theorem Solves.fits_plain (solves : Solves solver reference atNs edges ids net frame)
    (alone : ¬ Connected edges reference solver) (plain : ∀ e ∈ edges, Plain e)
    (connected : ∀ e ∈ edges, Connected edges reference e.fromNode) (x : NodeId → ℝ)
    (balanced : ∀ id, (edges.map (pull x id)).sum = 0) :
    net.placed.map Placed.edge = edges ∧ net.inside = net.placed ∧
      (∀ p ∈ net.placed, net.offsetOb net.settling p =
        ⟨p.a, p.b, p.edge.relation.offsetNs, 1⟩) ∧
      net.Fits (net.offsetOb net.settling) fun i => x (ids.get i) := by
  have places := solves.places
  have outside : net.me ∉ net.members := by
    rw [← places.connected_name, places.solver]
    exact alone
  have placed : net.placed.map Placed.edge = edges := by
    rw [places.edges, List.filter_eq_self]
    exact fun e listed => (plain e listed).usable
  have given : ∀ p ∈ net.placed, p.edge ∈ edges := fun p listed =>
    placed ▸ List.mem_map_of_mem listed
  have inside : net.inside = net.placed := by
    refine List.filter_eq_self.mpr fun p listed => decide_eq_true ?_
    rw [← places.connected_name, (places.ends p listed).1]
    exact connected _ (given p listed)
  have reading : ∀ p ∈ net.placed, net.offsetOb net.settling p =
      ⟨p.a, p.b, p.edge.relation.offsetNs, 1⟩ := fun p listed =>
    (plain _ (given p listed)).offsetOb_eq outside _
  refine ⟨placed, inside, reading, fun i => ?_⟩
  rw [← balanced (ids.get i), LeastSquares.inflow, inside, ← placed, List.map_map, List.map_map,
    List.map_map]
  refine congrArg List.sum (List.map_congr_left fun p listed => ?_)
  obtain ⟨nameA, nameB⟩ := places.ends p listed
  simp only [Function.comp, reading p listed, Obs.measurement, LeastSquares.Measurement.misfit,
    LeastSquares.Measurement.incidence, pull, ← nameA, ← nameB, places.injective.eq_iff]
  ring

theorem Solves.zOffset_plain (solves : Solves solver reference atNs edges ids net frame)
    (alone : ¬ Connected edges reference solver) (plain : ∀ e ∈ edges, Plain e)
    (connected : ∀ e ∈ edges, Connected edges reference e.fromNode) (x : NodeId → ℝ)
    (balanced : ∀ id, (edges.map (pull x id)).sum = 0) :
    (∀ r ∈ frame.edges, ∃ e ∈ edges, r.fromNode = e.fromNode ∧ r.toNode = e.toNode ∧
      r.zOffset = e.relation.offsetNs - (x e.toNode - x e.fromNode)) ∧
    ∀ e ∈ edges, ∃ r ∈ frame.edges, r.fromNode = e.fromNode ∧ r.toNode = e.toNode ∧
      r.zOffset = e.relation.offsetNs - (x e.toNode - x e.fromNode) := by
  have places := solves.places
  obtain ⟨placed, inside, reading, fits⟩ := solves.fits_plain alone plain connected x balanced
  have reads := Network.reads_offsetOb net net.settling
  have given : ∀ p ∈ net.placed, p.edge ∈ edges := fun p listed =>
    placed ▸ List.mem_map_of_mem listed
  have residual : ∀ p ∈ net.placed,
      (net.residual p (net.offsetOb net.settling p) p.driftOb).zOffset =
        p.edge.relation.offsetNs - (x p.edge.toNode - x p.edge.fromNode) := fun p listed => by
    obtain ⟨nameA, nameB⟩ := places.ends p listed
    obtain ⟨memberA, memberB⟩ := Network.inside_ends (inside ▸ listed)
    simp only [Network.residual, reading p listed, net.reading_offset,
      Network.solve_eq reads fits memberA, Network.solve_eq reads fits memberB, nameA, nameB]
    ring
  have edges_iff : ∀ r, r ∈ frame.edges ↔ ∃ p ∈ net.placed,
      net.residual p (net.offsetOb net.settling p) p.driftOb = r := fun r => by
    obtain ⟨nodes, _, rfl⟩ := solves.parts
    refine (List.mergeSort_perm _ _).mem_iff.trans ?_
    rw [Network.residuals_eq, inside, List.mem_map]
  refine ⟨fun r listed => ?_, fun e listed => ?_⟩
  · obtain ⟨p, member, rfl⟩ := (edges_iff r).mp listed
    exact ⟨p.edge, given p member, rfl, rfl, residual p member⟩
  · rw [← placed] at listed
    obtain ⟨p, member, rfl⟩ := List.mem_map.mp listed
    exact ⟨_, (edges_iff _).mpr ⟨p, member, rfl⟩, rfl, rfl, residual p member⟩

/-- The offsets of a frame of plain edges are any values that balance them. -/
theorem Solves.offset_plain (solves : Solves solver reference atNs edges ids net frame)
    (alone : ¬ Connected edges reference solver) (plain : ∀ e ∈ edges, Plain e)
    (connected : ∀ e ∈ edges, Connected edges reference e.fromNode) (x : NodeId → ℝ)
    (balanced : ∀ id, (edges.map (pull x id)).sum = 0) :
    ∀ node ∈ frame.nodes, node.offsetNs = x node.id - x reference := by
  obtain ⟨_, _, _, fits⟩ := solves.fits_plain alone plain connected x balanced
  intro node listed
  rw [solves.nodes_eq] at listed
  obtain ⟨v, member, rfl⟩ := List.mem_map.mp listed
  have value := Network.solve_eq (Network.reads_offsetOb net net.settling) fits
    (Network.mem_order.mp member)
  rw [← solves.places.reference]
  exact value

end Plain

/-- In exact reals `maxBy` takes a largest. -/
theorem le_maxBy {A : Type} {key : A → ℝ} {xs : List A} {x : A} (found : maxBy key xs = some x) :
    ∀ y ∈ xs, key y ≤ key x := by
  have largest : ∀ (rest : List A) (first : A), ∀ y ∈ first :: rest, key y ≤ key (rest.foldl
      (fun best x => if F64.totalLe (key best) (key x) then x else best) first) := by
    intro rest
    induction rest with
    | nil => simp
    | cons z rest ih =>
      intro first y listed
      rw [List.foldl_cons]
      have ofBest := ih (if F64.totalLe (key first) (key z) then z else first)
      have best := ofBest _ List.mem_cons_self
      simp only [F64.totalLe_real, decide_eq_true_eq] at best ofBest ⊢
      rcases List.mem_cons.mp listed with rfl | later
      · refine le_trans ?_ best
        split_ifs with above
        · exact above
        · exact le_rfl
      · rcases List.mem_cons.mp later with rfl | rest
        · refine le_trans ?_ best
          split_ifs with above
          · exact le_rfl
          · exact (not_le.mp above).le
        · exact ofBest y (List.mem_cons_of_mem _ rest)
  cases xs with
  | nil => cases found
  | cons first rest => exact Option.some.inj found ▸ largest rest first

/-! ### A clock that never returns -/

namespace RelationalClock

/-- The clock has only listened: these are the edges and the anchors it heard. -/
structure Listened (me : NodeId) (edges : List (EdgeEstimate F)) (anchors : List (Anchor F))
    (clock : RelationalClock F) : Prop where
  me : clock.me = me
  tracks : clock.tracks = ∅
  edges : clock.heardEdges.Perm edges
  keys : ∀ (key : NodeId ×ₗ NodeId) (h : Heard F), clock.heard[key]? = some h →
    toLex (h.edge.fromNode, h.edge.toNode) = key
  anchors : clock.anchorList.Perm anchors
  ids : ∀ (node : NodeId) (held : HeldAnchor F), clock.anchors[node]? = some held →
    held.anchor.node = node

theorem Listened.new (me : NodeId) (cfg : TrackConfig F) :
    Listened me [] [] (RelationalClock.new me cfg) := by
  refine ⟨rfl, rfl, ?_, Entries.empty _, ?_, Entries.empty _⟩
  · simp [heardEdges, RelationalClock.new]
  · simp [anchorList, RelationalClock.new]

variable {me : NodeId} {edges : List (EdgeEstimate F)} {anchors : List (Anchor F)}
  {clock : RelationalClock F}

/-- An edge of a new pair of other nodes is kept. -/
theorem Listened.hear (listened : Listened me edges anchors clock) (e : EdgeEstimate F)
    (other : e.fromNode ≠ me ∧ e.fromNode ≠ e.toNode)
    (fresh : ∀ f ∈ edges, (f.fromNode, f.toNode) ≠ (e.fromNode, e.toNode)) (nowNs : ℕ) :
    Listened me (edges ++ [e]) anchors (clock.hear e nowNs) := by
  have kept : clock.hear e nowNs = { clock with
      heard := clock.heard.insert (toLex (e.fromNode, e.toNode)) ⟨e, nowNs⟩ } := by
    refine if_neg ?_
    rw [listened.me, not_or]
    exact other
  have absent : clock.heard[toLex (e.fromNode, e.toNode)]? = none := by
    cases found : clock.heard[toLex (e.fromNode, e.toNode)]? with
    | none => rfl
    | some h =>
      have listed : h.edge ∈ edges := listened.edges.mem_iff.mp (List.mem_map.mpr
        ⟨_, Std.ExtTreeMap.mem_toList_iff_getElem?_eq_some.mpr found, rfl⟩)
      exact absurd (listened.keys _ h found) (fresh h.edge listed)
  rw [kept]
  refine ⟨listened.me, listened.tracks, ?_, ?_, listened.anchors, listened.ids⟩
  · have inserted :=
      (toList_insert_perm absent (⟨e, nowNs⟩ : Heard F)).map fun entry => entry.2.edge
    rw [List.map_append] at inserted
    exact inserted.trans (listened.edges.append_right _)
  · exact Entries.insert (fun key h _ => listened.keys key h) rfl

/-- A fresh anchor of a new node is kept. -/
theorem Listened.hearAnchor (listened : Listened me edges anchors clock) (a : Anchor F)
    (measured : a.ageNs = 0) (fresh : ∀ b ∈ anchors, b.node ≠ a.node) (nowNs : ℕ) :
    Listened me edges (anchors ++ [a]) (clock.hearAnchor a nowNs) := by
  have absent : clock.anchors[a.node]? = none := by
    cases found : clock.anchors[a.node]? with
    | none => rfl
    | some held =>
      have listed : held.anchor ∈ anchors := listened.anchors.mem_iff.mp (List.mem_map.mpr
        ⟨_, Std.ExtTreeMap.mem_toList_iff_getElem?_eq_some.mpr found, rfl⟩)
      exact absurd (listened.ids _ held found) (fresh held.anchor listed)
  have kept : clock.hearAnchor a nowNs =
      { clock with anchors := clock.anchors.insert a.node ⟨a, nowNs, false⟩ } := by
    have same : { a with ageNs := 0 } = a := by rw [← measured]
    rw [RelationalClock.hearAnchor, absent, same, measured]
    rfl
  rw [kept]
  refine ⟨listened.me, listened.tracks, listened.edges, listened.keys, ?_, ?_⟩
  · have inserted := (toList_insert_perm absent (⟨a, nowNs, false⟩ : HeldAnchor F)).map
      fun entry => entry.2.anchor
    rw [List.map_append] at inserted
    exact inserted.trans (listened.anchors.append_right _)
  · exact Entries.insert (fun node held _ => listened.ids node held) rfl

/-- What such a clock knows. -/
theorem Listened.known (listened : Listened me edges anchors clock) : clock.known.Perm edges := by
  have own : clock.edges = [] := by simp [RelationalClock.edges, listened.tracks]
  rw [RelationalClock.known, own]
  exact listened.edges

/-- Its anchors, when its edges measure them all. -/
theorem Listened.measuredAnchors (listened : Listened me edges anchors clock)
    (measured : ∀ a ∈ anchors, ∃ e ∈ edges, a.node = e.fromNode ∨ a.node = e.toNode) :
    clock.measuredAnchors.Perm anchors := by
  have all : clock.measuredAnchors = clock.anchorList := by
    refine List.filter_eq_self.mpr fun a listed => decide_eq_true ?_
    obtain ⟨e, known, ends⟩ := measured a (listened.anchors.mem_iff.mp listed)
    have given := listened.known.mem_iff.mpr known
    simp only [RelationalClock.measured, List.mem_toFinset, List.mem_flatMap]
    exact ⟨e, given, by simpa using ends⟩
  rw [all]
  exact listened.anchors

theorem listened_fromUtc (cfg : TrackConfig ℝ) :
    ∃ clock, (RelationalClock.new (.replicate 5) cfg).run
        (listen (gossiped utc (.replicate 4) 0 :: gossipedEdges) gossipedAnchors) = some clock ∧
      Listened (.replicate 5) (gossiped utc (.replicate 4) 0 :: gossipedEdges) gossipedAnchors
        clock := by
  have listened := (((((((Listened.new (.replicate 5) cfg).hear
    (gossiped utc (.replicate 4) 0) ?_ ?_ 0).hear
    (gossiped (.replicate 1) (.replicate 2) 0) ?_ ?_ 0).hear
    (gossiped (.replicate 2) (.replicate 3) 0) ?_ ?_ 0).hear
    (gossiped (.replicate 4) utc 1000) ?_ ?_ 0).hearAnchor
    (gossipedAnchor (.replicate 1)) rfl ?_ 0).hearAnchor
    (gossipedAnchor (.replicate 2)) rfl ?_ 0).hearAnchor
    (gossipedAnchor (.replicate 3)) rfl ?_ 0
  · exact ⟨_, rfl, listened⟩
  all_goals simp [gossiped, gossipedAnchor, utc]

/-- The consensus: everything on UTC but node `4`, half a microsecond behind. -/
noncomputable def consensus (id : NodeId) : ℝ := if id = .replicate 4 then -500 else 0

theorem plain_gossiped {fromNode toNode : NodeId} (apart : fromNode ≠ toNode) (x : ℝ) :
    Plain (gossiped fromNode toNode x) :=
  ⟨(EdgeEstimate.usable_iff _).mpr ⟨apart, by simp [gossiped]⟩, rfl, rfl⟩

theorem plain_anchorEdge {node : NodeId} (apart : utc ≠ node) :
    Plain (anchorEdge 0 (gossipedAnchor node)) := by
  refine ⟨(EdgeEstimate.usable_iff _).mpr ⟨apart, ?_⟩, rfl, ?_⟩
  · simp [anchorEdge]
  · simp [anchorEdge, gossipedAnchor, minSigmaNs]

/-- UTC's worst edge is the one that was heard. -/
theorem worstEdge_fromUtc {edges : List (EdgeEstimate ℝ)}
    (given : edges.Perm (gossiped utc (.replicate 4) 0 :: gossipedEdges ++
      gossipedAnchors.map (anchorEdge 0))) {frame : NetworkFrame ℝ}
    (solved : solveFrame (.replicate 5) utc 0 edges = some frame) :
    ∃ w, worstEdge frame = some w ∧ w.toNode = .replicate 4 ∧ 5 < |w.zOffset| := by
  obtain ⟨net, frame', solves⟩ := exists_solves (.replicate 5) utc 0 edges
  obtain rfl : frame' = frame := Option.some.inj (solves.solved.symm.trans solved)
  have listed_iff : ∀ e, e ∈ edges ↔ e = gossiped utc (.replicate 4) 0 ∨
      e = gossiped (.replicate 1) (.replicate 2) 0 ∨ e = gossiped (.replicate 2) (.replicate 3) 0 ∨
      e = gossiped (.replicate 4) utc 1000 ∨ e = anchorEdge 0 (gossipedAnchor (.replicate 1)) ∨
      e = anchorEdge 0 (gossipedAnchor (.replicate 2)) ∨
      e = anchorEdge 0 (gossipedAnchor (.replicate 3)) := fun e => by
    simp [given.mem_iff, gossipedEdges, gossipedAnchors]
  have plain : ∀ e ∈ edges, Plain e := by
    intro e listed
    rcases (listed_iff e).mp listed with rfl | rfl | rfl | rfl | rfl | rfl | rfl
    on_goal 5 => exact plain_anchorEdge (by simp [utc])
    on_goal 5 => exact plain_anchorEdge (by simp [utc])
    on_goal 5 => exact plain_anchorEdge (by simp [utc])
    all_goals exact plain_gossiped (by simp [utc]) _
  have alone : ¬ Connected edges utc (.replicate 5) := fun connected => by
    refine absurd (connected.eq_of_untouched fun e listed => ?_) (by simp [utc])
    rcases (listed_iff e).mp listed with rfl | rfl | rfl | rfl | rfl | rfl | rfl <;>
      simp [gossiped, gossipedAnchor, anchorEdge, utc]
  have reached : ∀ e ∈ edges, Connected edges e.fromNode e.toNode := fun e listed =>
    .of_usable listed (plain e listed).usable
  have connected : ∀ e ∈ edges, Connected edges utc e.fromNode := by
    intro e listed
    rcases (listed_iff e).mp listed with rfl | rfl | rfl | rfl | rfl | rfl | rfl
    · exact Relation.ReflTransGen.refl
    · exact reached (anchorEdge 0 (gossipedAnchor (.replicate 1))) (by simp [listed_iff])
    · exact reached (anchorEdge 0 (gossipedAnchor (.replicate 2))) (by simp [listed_iff])
    · exact reached (gossiped utc (.replicate 4) 0) (by simp [listed_iff])
    all_goals exact Relation.ReflTransGen.refl
  have balanced : ∀ id, (edges.map (pull consensus id)).sum = 0 := by
    intro id
    rw [(given.map _).sum_eq]
    simp [gossipedEdges, gossipedAnchors, pull, consensus, gossiped, gossipedAnchor, anchorEdge,
      utc]
    ring
  obtain ⟨residual, exist⟩ := solves.zOffset_plain alone plain connected consensus balanced
  have quiet : ∀ e ∈ edges, e.fromNode = utc → e.toNode ≠ .replicate 4 →
      e.relation.offsetNs - (consensus e.toNode - consensus e.fromNode) = 0 := by
    intro e listed first other
    rcases (listed_iff e).mp listed with rfl | rfl | rfl | rfl | rfl | rfl | rfl <;>
      simp [gossiped, gossipedAnchor, anchorEdge, utc, consensus] at first other ⊢
  obtain ⟨r, member, fromNode, _, zOffset⟩ :=
    exist (gossiped utc (.replicate 4) 0) (by simp [listed_iff])
  have loud : |r.zOffset| = 500 := by
    rw [zOffset]
    simp [gossiped, consensus, utc]
  have candidate : r ∈ frame'.edges.filter fun e => e.fromNode = utc :=
    List.mem_filter.mpr ⟨member, decide_eq_true fromNode⟩
  obtain ⟨w, worst⟩ := exists_maxBy (fun e : EdgeResidual ℝ => F64.abs e.zOffset) candidate
  have above : |r.zOffset| ≤ |w.zOffset| := le_maxBy worst r candidate
  obtain ⟨listed, first⟩ := List.mem_filter.mp (maxBy_mem worst)
  obtain ⟨e, known, fromNode', toNode', zOffset'⟩ := residual w listed
  refine ⟨w, worst, ?_, by linarith⟩
  by_contra other
  rw [zOffset', quiet e known (fromNode'.symm.trans (of_decide_eq_true first)) (toNode' ▸ other),
    abs_zero, loud] at above
  norm_num at above

/-- **An edge from UTC**, heard from another node, and the selection never ends: UTC's worst edge is
that one, and no anchor is at its far end to be set aside. -/
theorem solveAbsolute_diverges :
    ∃ clock, (RelationalClock.new (.replicate 5) .default).run
        (listen (gossiped utc (.replicate 4) 0 :: gossipedEdges) gossipedAnchors) = some clock ∧
      ∀ fuel, clock.solveAbsolute 0 fuel = .error .outOfFuel := by
  obtain ⟨clock, ran, listened⟩ := listened_fromUtc .default
  refine ⟨clock, ran, fun fuel => ?_⟩
  have chosen := listened.measuredAnchors
    (by simp [gossipedEdges, gossipedAnchors, gossiped, gossipedAnchor])
  have nonempty : ¬ clock.measuredAnchors.isEmpty = true := by
    rw [List.isEmpty_iff]
    exact fun none => absurd (none ▸ chosen).length_eq (by simp [gossipedAnchors])
  have again : ∀ s : Selection ℝ, s.chosen = clock.measuredAnchors →
      ∃ s', clock.selectTurn 0 s = some (.inl s') ∧ s'.chosen = clock.measuredAnchors := by
    intro s all
    obtain ⟨frame, solved, _⟩ := clock.exists_solveWith 0 s.chosen
    have given := listened.known.append (chosen.map (anchorEdge 0))
    obtain ⟨w, worst, toNode, far⟩ :=
      worstEdge_fromUtc given (by rw [← solved, solveWith, listened.me, all])
    have three : 3 ≤ s.chosen.length := by
      rw [all, chosen.length_eq]
      rfl
    refine ⟨s.remove w.toNode, ?_, ?_⟩
    · simp only [selectTurn, solved, worst, Option.bind_eq_bind, Option.bind_some]
      exact if_pos ⟨three, by simpa using far⟩
    · rw [← all, toNode]
      refine List.filter_eq_self.mpr fun a listed => ?_
      rw [all, chosen.mem_iff] at listed
      simp only [gossipedAnchors, List.mem_cons, List.not_mem_nil, or_false] at listed
      rcases listed with rfl | rfl | rfl <;> simp [gossipedAnchor]
  have stuck : Loop.repeatUntil (clock.selectTurn 0) fuel ⟨clock.measuredAnchors, []⟩ =
    .error .outOfFuel := Loop.repeatUntil_diverges again fuel rfl
  rw [solveAbsolute, if_neg nonempty, stuck]
  rfl

end RelationalClock

end Rtfsn
