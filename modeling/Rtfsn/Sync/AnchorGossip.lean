/-
**Anchors age over gossip.**

Any number of nodes on one time base measure references and hand anchors to each other. What was
handed on may be delivered to any node, at any later time, any number of times or never.

* `World`: the clocks, everything handed on so far, and two records that no node reads: when each
  reference was really measured, and the `Trail` of each copy, from a real measurement over the
  delays of its hops.
* `Aged`: the invariant. What is held is as old as its trail says, and so is what is in flight when
  it was sent. `Aged.step`: every step keeps it.
* `gossip_ages`: over any run, with the two consequences for instantaneous delivery.
-/
import Rtfsn.Lib.Maps
import Rtfsn.Sync.RelationalRuns

set_option linter.unusedSectionVars false

namespace Rtfsn

variable {F : Type} [F64 F] {ι : Type} [DecidableEq ι]

/-- Where a copy comes from: a real measurement, and how long each hop since took. -/
structure Trail where
  origin : ℕ
  delays : List ℕ

/-- When a copy counts as measured. -/
def Trail.measuredNs (trail : Trail) : ℕ := trail.origin + trail.delays.sum

/-- The copy one hop further. -/
def Trail.hop (trail : Trail) (delay : ℕ) : Trail := ⟨trail.origin, trail.delays ++ [delay]⟩

theorem Trail.measuredNs_hop (trail : Trail) (delay : ℕ) :
    (trail.hop delay).measuredNs = trail.measuredNs + delay := by
  simp [Trail.measuredNs, Trail.hop, add_assoc]

/-- A copy handed on. -/
structure Sent (F : Type) where
  anchor : Anchor F
  sentNs : ℕ
  trail : Trail

/-- The nodes, what they handed on, and the records that no node reads. -/
structure World (ι F : Type) where
  nowNs : ℕ
  clocks : ι → RelationalClock F
  flight : List (Sent F)
  /-- The trail of the copy each node holds of each reference. -/
  trails : ι → NodeId → Trail
  /-- Every real measurement: the reference and the time. -/
  measured : List (NodeId × ℕ)

namespace World

open Maps

/-- Nothing is measured or handed on yet. -/
def start (me : ι → NodeId) (cfg : ι → TrackConfig F) : World ι F where
  nowNs := 0
  clocks i := .new (me i) (cfg i)
  flight := []
  trails _ _ := ⟨0, []⟩
  measured := []

/-- Note the trail of the copy that node `i` now holds. -/
def note (trails : ι → NodeId → Trail) (i : ι) (node : NodeId) (trail : Trail) :
    ι → NodeId → Trail :=
  Function.update trails i (Function.update (trails i) node trail)

/-- The trails after node `i` observed a reference: a fresh one if it made an anchor of it. -/
def trailsMeasured (w : World ι F) (i : ι) (after : RelationalClock F) (server : NodeId) (t : ℕ) :
    ι → NodeId → Trail :=
  match after.referenceTrack server with
  | some _ => note w.trails i server ⟨t, []⟩
  | none => w.trails

/-- The trails after a copy was delivered to node `i`: a hop further if the copy was taken. -/
def trailsDelivered (w : World ι F) (i : ι) (m : Sent F) (t : ℕ) : ι → NodeId → Trail :=
  if RelationalClock.replaces (w.clocks i).anchors[m.anchor.node]? m.anchor
      (t - m.anchor.ageNs) then
    note w.trails i m.anchor.node (m.trail.hop (t - m.sentNs))
  else w.trails

/-- What the nodes do, at non-decreasing times; `allowed` says which delays a delivery may have. -/
inductive Step (allowed : ℕ → Prop) : World ι F → World ι F → Prop
  | observeReference (w : World ι F) (i : ι) (server : NodeId) (e : Exchange) (rootDistanceNs : F)
      (stratum : UInt8) (sigmaDrift : F) (t : ℕ) (obs : Observation F) (after : RelationalClock F)
      (later : w.nowNs ≤ t)
      (observed : (w.clocks i).observeReference server e rootDistanceNs stratum sigmaDrift t =
        some (obs, after)) :
      Step allowed w
        { w with
          nowNs := t
          clocks := Function.update w.clocks i after
          trails := w.trailsMeasured i after server t
          measured := (server, t) :: w.measured }
  | gossipAnchors (w : World ι F) (i : ι) (t : ℕ) (later : w.nowNs ≤ t) :
      Step allowed w
        { w with
          nowNs := t
          flight := w.flight ++ ((w.clocks i).gossipAnchors t).map fun anchor =>
            ⟨anchor, t, w.trails i anchor.node⟩ }
  | hearAnchor (w : World ι F) (i : ι) (m : Sent F) (t : ℕ) (later : w.nowNs ≤ t)
      (sent : m ∈ w.flight) (delay : allowed (t - m.sentNs)) :
      Step allowed w
        { w with
          nowNs := t
          clocks := Function.update w.clocks i ((w.clocks i).hearAnchor m.anchor t)
          trails := w.trailsDelivered i m t }
  | expireAnchors (w : World ι F) (i : ι) (t maxAgeNs : ℕ) (later : w.nowNs ≤ t) :
      Step allowed w
        { w with
          nowNs := t
          clocks := Function.update w.clocks i ((w.clocks i).expireAnchors t maxAgeNs) }

/-- The runs from the start. -/
def Reachable (allowed : ℕ → Prop) (me : ι → NodeId) (cfg : ι → TrackConfig F) (w : World ι F) :
    Prop :=
  Relation.ReflTransGen (Step allowed) (start me cfg) w

/-! ### The invariant -/

/-- A trail starts at a real measurement of the reference, and its hops had allowed delays. -/
structure Real (allowed : ℕ → Prop) (measured : List (NodeId × ℕ)) (node : NodeId) (trail : Trail) :
    Prop where
  origin : (node, trail.origin) ∈ measured
  delays : ∀ delay ∈ trail.delays, allowed delay

theorem Real.later {allowed : ℕ → Prop} {measured measured' : List (NodeId × ℕ)} {node : NodeId}
    {trail : Trail} (real : Real allowed measured node trail) (grown : measured ⊆ measured') :
    Real allowed measured' node trail := ⟨grown real.origin, real.delays⟩

theorem Real.hop {allowed : ℕ → Prop} {measured : List (NodeId × ℕ)} {node : NodeId} {trail : Trail}
    (real : Real allowed measured node trail) {delay : ℕ} (fits : allowed delay) :
    Real allowed measured node (trail.hop delay) := by
  refine ⟨real.origin, fun d listed => ?_⟩
  rcases List.mem_append.mp listed with old | new
  · exact real.delays d old
  · exact List.mem_singleton.mp new ▸ fits

/-- One held copy is as old as its trail says. -/
structure HeldAged (allowed : ℕ → Prop) (measured : List (NodeId × ℕ)) (nowNs : ℕ) (node : NodeId)
    (held : HeldAnchor F) (trail : Trail) : Prop where
  keyed : held.anchor.node = node
  aged : held.measuredNs = trail.measuredNs
  past : held.measuredNs ≤ nowNs
  real : Real allowed measured node trail

/-- So is one copy in flight, when it was sent. -/
structure SentAged (allowed : ℕ → Prop) (measured : List (NodeId × ℕ)) (nowNs : ℕ) (m : Sent F) :
    Prop where
  past : m.sentNs ≤ nowNs
  before : m.trail.measuredNs ≤ m.sentNs
  age : m.anchor.ageNs = m.sentNs - m.trail.measuredNs
  real : Real allowed measured m.anchor.node m.trail

/-- Everything held or handed on is as old as its trail says. -/
structure Aged (allowed : ℕ → Prop) (w : World ι F) : Prop where
  held : ∀ i, Entries (fun node held =>
    HeldAged allowed w.measured w.nowNs node held (w.trails i node)) (w.clocks i).anchors
  sent : ∀ m ∈ w.flight, SentAged allowed w.measured w.nowNs m

theorem Aged.start (allowed : ℕ → Prop) (me : ι → NodeId) (cfg : ι → TrackConfig F) :
    Aged allowed (start me cfg) := by
  refine ⟨fun i => Entries.empty _, ?_⟩
  simp [World.start]

section Step

variable {allowed : ℕ → Prop} {w : World ι F} {measured measured' : List (NodeId × ℕ)}
  {nowNs nowNs' t : ℕ}

theorem HeldAged.later {node : NodeId} {held : HeldAnchor F} {trail : Trail}
    (aged : HeldAged allowed measured nowNs node held trail) (later : nowNs ≤ nowNs')
    (grown : measured ⊆ measured') : HeldAged allowed measured' nowNs' node held trail :=
  ⟨aged.keyed, aged.aged, aged.past.trans later, aged.real.later grown⟩

theorem SentAged.later {m : Sent F} (aged : SentAged allowed measured nowNs m)
    (later : nowNs ≤ nowNs') (grown : measured ⊆ measured') : SentAged allowed measured' nowNs' m :=
  ⟨aged.past.trans later, aged.before, aged.age, aged.real.later grown⟩

theorem Aged.sent_later (aged : Aged allowed w) (later : w.nowNs ≤ t)
    (grown : w.measured ⊆ measured) : ∀ m ∈ w.flight, SentAged allowed measured t m :=
  fun m listed => (aged.sent m listed).later later grown

theorem Aged.held_later (aged : Aged allowed w) (later : w.nowNs ≤ t)
    (grown : w.measured ⊆ measured) (i : ι) :
    Entries (fun node held => HeldAged allowed measured t node held (w.trails i node))
      (w.clocks i).anchors :=
  (aged.held i).imp fun _ _ old => old.later later grown

/-- A step that changes what one node holds. -/
theorem Aged.held_update (aged : Aged allowed w) (later : w.nowNs ≤ t)
    (grown : w.measured ⊆ measured) (i : ι) (after : RelationalClock F)
    (trails : ι → NodeId → Trail) (others : ∀ j, j ≠ i → trails j = w.trails j)
    (changed : Entries (fun node held => HeldAged allowed measured t node held (trails i node))
      after.anchors) (j : ι) :
    Entries (fun node held => HeldAged allowed measured t node held (trails j node))
      (Function.update w.clocks i after j).anchors := by
  by_cases same : j = i
  · subst same
    rw [Function.update_self]
    exact changed
  · rw [Function.update_of_ne same, others j same]
    exact aged.held_later later grown j

theorem note_of_ne (trails : ι → NodeId → Trail) {i j : ι} (other : j ≠ i) (server : NodeId)
    (trail : Trail) : note trails i server trail j = trails j := Function.update_of_ne other _ _

/-- A node that takes a copy and notes its trail. -/
theorem Aged.held_note (aged : Aged allowed w) (later : w.nowNs ≤ t)
    (grown : w.measured ⊆ measured) (i : ι) {after : RelationalClock F} {server : NodeId}
    {copy : HeldAnchor F} {trail : Trail}
    (inserted : after.anchors = (w.clocks i).anchors.insert server copy)
    (new : HeldAged allowed measured t server copy trail) (j : ι) :
    Entries (fun node held =>
        HeldAged allowed measured t node held (note w.trails i server trail j node))
      (Function.update w.clocks i after j).anchors := by
  refine aged.held_update later grown i after _ (fun j other => note_of_ne w.trails other _ _) ?_ j
  rw [inserted]
  unfold note
  refine Entries.insert (fun node held other found => ?_) ?_
  · rw [Function.update_self, Function.update_of_ne other]
    exact aged.held_later later grown i node held found
  · rw [Function.update_self, Function.update_self]
    exact new

/-- Measuring a reference. -/
theorem Aged.observeReference (aged : Aged allowed w) (later : w.nowNs ≤ t) (i : ι)
    {server : NodeId} {e : Exchange} {rootDistanceNs : F} {stratum : UInt8} {sigmaDrift : F}
    {obs : Observation F} {after : RelationalClock F}
    (observed : (w.clocks i).observeReference server e rootDistanceNs stratum sigmaDrift t =
      some (obs, after)) :
    Aged allowed { w with
      nowNs := t
      clocks := Function.update w.clocks i after
      trails := w.trailsMeasured i after server t
      measured := (server, t) :: w.measured } := by
  have grown : w.measured ⊆ (server, t) :: w.measured := List.subset_cons_self _ _
  obtain ⟨obs', after', eq, _, _, anchors⟩ := (w.clocks i).observeReference_spec server e
    rootDistanceNs stratum sigmaDrift t
  obtain ⟨rfl, rfl⟩ : obs' = obs ∧ after' = after := by simpa [eq] using observed
  refine ⟨?_, aged.sent_later later grown⟩
  unfold trailsMeasured
  rcases anchors with ⟨none, kept⟩ | ⟨track, found, inserted⟩
  · rw [none]
    refine aged.held_update later grown i after' _ (fun _ _ => rfl) ?_
    rw [kept]
    exact aged.held_later later grown i
  · rw [found]
    refine aged.held_note later grown i inserted ⟨rfl, ?_, le_rfl, List.mem_cons_self, ?_⟩
    · show t = (⟨t, []⟩ : Trail).measuredNs
      simp [Trail.measuredNs]
    · simp

/-- Handing on what is held. -/
theorem Aged.gossipAnchors (aged : Aged allowed w) (later : w.nowNs ≤ t) (i : ι) :
    Aged allowed { w with
      nowNs := t
      flight := w.flight ++ ((w.clocks i).gossipAnchors t).map fun anchor =>
        ⟨anchor, t, w.trails i anchor.node⟩ } := by
  refine ⟨aged.held_later later fun _ => id, fun m listed => ?_⟩
  rcases List.mem_append.mp listed with old | new
  · exact aged.sent_later later (fun _ => id) m old
  · obtain ⟨anchor, given, rfl⟩ := List.mem_map.mp new
    obtain ⟨node, held, found, rfl⟩ := RelationalClock.mem_gossipAnchors.mp given
    obtain ⟨rfl, measured, past, real⟩ := aged.held i node held found
    refine ⟨le_rfl, ?_, ?_, real⟩
    · show (w.trails i held.anchor.node).measuredNs ≤ t
      exact measured ▸ past.trans later
    · show t - held.measuredNs = t - (w.trails i held.anchor.node).measuredNs
      rw [measured]

/-- Hearing a copy. -/
theorem Aged.hearAnchor (aged : Aged allowed w) (later : w.nowNs ≤ t) (i : ι) {m : Sent F}
    (sent : m ∈ w.flight) (delay : allowed (t - m.sentNs)) :
    Aged allowed { w with
      nowNs := t
      clocks := Function.update w.clocks i ((w.clocks i).hearAnchor m.anchor t)
      trails := w.trailsDelivered i m t } := by
  obtain ⟨past, before, age, real⟩ := aged.sent m sent
  obtain ⟨_, _, anchors⟩ := (w.clocks i).hearAnchor_spec m.anchor t
  refine ⟨?_, aged.sent_later later fun _ => id⟩
  unfold trailsDelivered
  by_cases taken : RelationalClock.replaces (w.clocks i).anchors[m.anchor.node]? m.anchor
      (t - m.anchor.ageNs) = true
  · rw [if_pos taken] at anchors ⊢
    refine aged.held_note later (fun _ => id) i anchors ⟨rfl, ?_, Nat.sub_le _ _, real.hop delay⟩
    -- The copy was sent that much after it was measured, and came `t - m.sentNs` later.
    show t - m.anchor.ageNs = (m.trail.hop (t - m.sentNs)).measuredNs
    rw [Trail.measuredNs_hop, age]
    omega
  · rw [if_neg taken] at anchors ⊢
    refine aged.held_update later (fun _ => id) i _ _ (fun _ _ => rfl) ?_
    rw [anchors]
    exact aged.held_later later (fun _ => id) i

/-- Forgetting old copies. -/
theorem Aged.expireAnchors (aged : Aged allowed w) (later : w.nowNs ≤ t) (i : ι) (maxAgeNs : ℕ) :
    Aged allowed { w with
      nowNs := t
      clocks := Function.update w.clocks i ((w.clocks i).expireAnchors t maxAgeNs) } := by
  refine ⟨?_, aged.sent_later later fun _ => id⟩
  refine aged.held_update later (fun _ => id) i _ w.trails (fun _ _ => rfl) ?_
  exact (aged.held_later later (fun _ => id) i).filter _

/-- **Every step keeps the ages.** -/
theorem Aged.step {w' : World ι F} (aged : Aged allowed w) (step : Step allowed w w') :
    Aged allowed w' := by
  cases step with
  | observeReference i _ _ _ _ _ _ _ _ later observed =>
    exact aged.observeReference later i observed
  | gossipAnchors i _ later => exact aged.gossipAnchors later i
  | hearAnchor i _ _ later sent delay => exact aged.hearAnchor later i sent delay
  | expireAnchors i _ maxAgeNs later => exact aged.expireAnchors later i maxAgeNs

end Step

theorem Reachable.aged {allowed : ℕ → Prop} {me : ι → NodeId} {cfg : ι → TrackConfig F}
    {w : World ι F} (reachable : Reachable allowed me cfg w) : Aged allowed w := by
  induction reachable with
  | refl => exact Aged.start allowed me cfg
  | tail _ step ih => exact ih.step step

/-! ### The ages -/

/-- When no hop takes time, a copy counts as measured when it was. -/
theorem Real.measuredNs_eq {allowed : ℕ → Prop} {measured : List (NodeId × ℕ)} {node : NodeId}
    {trail : Trail} (real : Real allowed measured node trail)
    (instant : ∀ delay, allowed delay → delay = 0) : trail.measuredNs = trail.origin := by
  have none : trail.delays.sum = 0 :=
    List.sum_eq_zero fun delay listed => instant delay (real.delays delay listed)
  rw [Trail.measuredNs, none, add_zero]

/-- **Anchors age over gossip.** In every run, what a node holds of a reference was measured, to its
books, when the reference really was, plus the delays of the hops the copy took. When no hop takes
time, no copy held or in flight is fresher than a real measurement, and expiry later than the age
limit after the last of these leaves no anchor of the reference, at any node. -/
theorem gossip_ages {allowed : ℕ → Prop} {me : ι → NodeId} {cfg : ι → TrackConfig F}
    {w : World ι F} (reachable : Reachable allowed me cfg w) :
    (∀ i node held, (w.clocks i).anchors[node]? = some held →
      held.measuredNs = (w.trails i node).origin + (w.trails i node).delays.sum ∧
        (node, (w.trails i node).origin) ∈ w.measured) ∧
      ((∀ delay, allowed delay → delay = 0) →
        (∀ i node held, (w.clocks i).anchors[node]? = some held →
          (node, held.measuredNs) ∈ w.measured) ∧
        (∀ m ∈ w.flight, (m.anchor.node, m.sentNs - m.anchor.ageNs) ∈ w.measured) ∧
        ∀ i node t maxAgeNs,
          (∀ measuredNs, (node, measuredNs) ∈ w.measured → measuredNs + maxAgeNs < t) →
            ((w.clocks i).expireAnchors t maxAgeNs).anchors[node]? = none) := by
  have aged := reachable.aged
  refine ⟨fun i node held found => ?_, fun instant => ?_⟩
  · obtain ⟨_, measured, _, real⟩ := aged.held i node held found
    exact ⟨measured, real.origin⟩
  · have fresh : ∀ i node held, (w.clocks i).anchors[node]? = some held →
        (node, held.measuredNs) ∈ w.measured := fun i node held found => by
      obtain ⟨_, measured, _, real⟩ := aged.held i node held found
      rw [measured, real.measuredNs_eq instant]
      exact real.origin
    refine ⟨fresh, fun m listed => ?_, fun i node t maxAgeNs old => ?_⟩
    · obtain ⟨_, before, age, real⟩ := aged.sent m listed
      rw [age, Nat.sub_sub_self before, real.measuredNs_eq instant]
      exact real.origin
    · rw [RelationalClock.expireAnchors_anchors, Option.filter_eq_none_iff]
      intro held found
      have past := old held.measuredNs (fresh i node held found)
      simp only [decide_eq_true_eq]
      omega

/-- Node `false` measures a reference at 100, and node `true` takes a copy of it at once. -/
theorem gossip_ages_handed :
    let me : Bool → NodeId := fun i => if i then NodeId.replicate 2 else NodeId.replicate 1
    let server := NodeId.replicate 3
    ∃ w : World Bool ℝ, Reachable (· = 0) me (fun _ => .default) w ∧
      (∃ held, (w.clocks true).anchors[server]? = some held ∧ held.measuredNs =
        (w.trails true server).origin + (w.trails true server).delays.sum) ∧
      ((w.clocks true).expireAnchors 200 50).anchors[server]? = none := by
  intro me server
  obtain ⟨relation, after, track, observed, _, _, found⟩ :=
    RelationalClock.observeReference_new (me false) server
      (show 1 ≤ (TrackConfig.default : TrackConfig ℝ).warmup by decide)
      (show (⟨0, 1, 1, 2⟩ : Exchange).Positive by decide) 0 1 0 100
  let held := RelationalClock.referenceAnchor server track (0 : ℝ) 1 0 100
  -- Measured, handed on and delivered, all at 100.
  let w₀ : World Bool ℝ := World.start me fun _ => TrackConfig.default
  have measuring : Step (· = 0) w₀ _ :=
    Step.observeReference w₀ false server ⟨0, 1, 1, 2⟩ 0 1 0 100 _ after (Nat.zero_le _) observed
  generalize measured : World.mk 100 (Function.update w₀.clocks false after) w₀.flight
    (w₀.trailsMeasured false after server 100) ((server, 100) :: w₀.measured) = w₁ at measuring
  have handing : Step (· = 0) w₁ _ := Step.gossipAnchors w₁ false 100 (by rw [← measured])
  have given : held.anchor ∈ (w₁.clocks false).gossipAnchors 100 := by
    refine RelationalClock.mem_gossipAnchors.mpr ⟨server, held, ?_, rfl⟩
    rw [← measured]
    exact found
  generalize handed : World.mk 100 w₁.clocks (w₁.flight ++ ((w₁.clocks false).gossipAnchors 100).map
    fun anchor => ⟨anchor, 100, w₁.trails false anchor.node⟩) w₁.trails w₁.measured = w₂ at handing
  let m : Sent ℝ := ⟨held.anchor, 100, w₁.trails false server⟩
  have sent : m ∈ w₂.flight := by
    rw [← handed]
    exact List.mem_append_right _ (List.mem_map.mpr ⟨held.anchor, given, rfl⟩)
  have hearing : Step (· = 0) w₂ _ :=
    Step.hearAnchor w₂ true m 100 (by rw [← handed]) sent (Nat.sub_self 100)
  have run : Reachable (· = 0) me (fun _ => TrackConfig.default) _ :=
    ((Relation.ReflTransGen.single measuring).tail handing).tail hearing
  have taken : ∃ copy, (Function.update w₂.clocks true
      ((w₂.clocks true).hearAnchor m.anchor 100) true).anchors[server]? = some copy := by
    obtain ⟨_, _, anchors⟩ := (w₂.clocks true).hearAnchor_spec m.anchor 100
    have none : (w₂.clocks true).anchors[m.anchor.node]? = none := by
      rw [← handed, ← measured]
      simp [w₀, World.start, RelationalClock.new]
    have free : RelationalClock.replaces (w₂.clocks true).anchors[m.anchor.node]? m.anchor
        (100 - m.anchor.ageNs) = true := by
      rw [none]
      rfl
    rw [Function.update_self, anchors, if_pos free]
    exact ⟨_, Std.ExtTreeMap.getElem?_insert_self⟩
  obtain ⟨copy, taken⟩ := taken
  have ages := gossip_ages run
  refine ⟨_, run, ⟨copy, taken, (ages.1 true server copy taken).1⟩,
    (ages.2 fun _ => id).2.2 true server 200 50 fun time listed => ?_⟩
  rw [← handed, ← measured] at listed
  obtain rfl : time = 100 := by simpa [w₀, World.start] using listed
  decide

end World

end Rtfsn
