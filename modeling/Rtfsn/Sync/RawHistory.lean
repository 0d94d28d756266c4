/-
**The raw measurements are a bounded, lossless history.**

* `get_insert`, `get_trim`: what an insertion and a trim do to one edge.
* `acceptedWith`: the exchanges with a peer that a run accepted, read from its answers.
* `Kept`: on every edge the table holds the newest of them, no fewer than asked for and at most as
  many more as measurements came in since the last trim. `Kept.respond`: every operation keeps it.
* `run_rawHistory`: over every run.
-/
import Rtfsn.Holonomy.LoopHolonomy
import Rtfsn.Sync.RelationalRuns

set_option linter.unusedSectionVars false

namespace Rtfsn

/-! ### One edge of the table -/

namespace TwistLUT

theorem edgeKey_inj {a b c : NodeId} : edgeKey a b = edgeKey a c ↔ b = c := by
  refine ⟨fun same => ?_, fun same => same ▸ rfl⟩
  unfold edgeKey at same
  split_ifs at same with less less' less'
  · exact (Prod.mk.inj same).2
  · obtain ⟨rfl, rfl⟩ := Prod.mk.inj same
    rfl
  · obtain ⟨rfl, rfl⟩ := Prod.mk.inj same
    rfl
  · exact (Prod.mk.inj same).1

/-- A measurement goes to its own edge, oriented from the smaller id to the larger. -/
theorem get_insert (lut : TwistLUT) (a b c : NodeId) (twist : TwistIndex) :
    ((lut.insert a b twist).get a c).getD [] = if b = c then
      (lut.get a c).getD [] ++ [if a ≤ b then twist else twist.reversed]
    else (lut.get a c).getD [] := by
  unfold insert get
  rw [Std.ExtTreeMap.getElem?_insert]
  by_cases same : b = c
  · subst same
    rw [if_pos Std.ReflCmp.compare_self, if_pos rfl, Option.getD_some]
    by_cases ordered : a ≤ b <;> simp [edgeKey_fst, ordered]
  · have other : ¬ compare (toLex (edgeKey a b)) (toLex (edgeKey a c)) = .eq := fun equal =>
      same (edgeKey_inj.mp (toLex_inj.mp (Std.LawfulEqCmp.eq_of_compare equal)))
    rw [if_neg other, if_neg same]

theorem get_trim (lut : TwistLUT) (maxPerEdge : ℕ) (a b : NodeId) :
    ((lut.trim maxPerEdge).get a b).getD [] = ((lut.get a b).getD []).rtake maxPerEdge := by
  unfold trim get
  rw [Std.ExtTreeMap.getElem?_map]
  cases lut.entries[toLex (edgeKey a b)]? with
  | none => simp [List.rtake]
  | some v =>
    simp only [Option.map_some, Option.getD_some, List.rtake]
    split_ifs with long
    · rfl
    · rw [Nat.sub_eq_zero_of_le (not_lt.mp long), List.drop_zero]

@[simp] theorem get_new (a b : NodeId) : new.get a b = none := by
  simp [get, new]

end TwistLUT

variable {F : Type} [F64 F]

/-! ### What a run accepted -/

/-- The measurement of an exchange `me` made with `peer`, read from the smaller id to the larger. -/
def oriented (me peer : NodeId) (e : Exchange) : TwistIndex :=
  if me ≤ peer then .fromExchange e else (TwistIndex.fromExchange e).reversed

/-- The exchange of an operation, when it was with `peer` and was accepted. -/
def acceptedExchange (peer : NodeId) : Op F × Option (Observation F) → Option Exchange
  | (op, some (.accepted _ _ _)) => (op.exchange.filter fun p => p.1 = peer).map Prod.snd
  | _ => none

theorem acceptedExchange_accepted {op : Op F} {peer : NodeId} {e : Exchange}
    (observes : op.exchange = some (peer, e)) (other : NodeId) (twist : TwistIndex)
    (relation : Relation F) (restarted : Bool) :
    acceptedExchange other (op, some (.accepted twist relation restarted)) =
      if peer = other then some e else none := by
  rw [acceptedExchange, observes, Option.filter_some]
  by_cases same : peer = other <;> simp [same]

/-- The exchanges with `peer` that were accepted, oldest first. -/
def acceptedWith (peer : NodeId) (history : List (Op F × Option (Observation F))) : List Exchange :=
  history.filterMap (acceptedExchange peer)

theorem acceptedWith_snoc (peer : NodeId) (history : List (Op F × Option (Observation F)))
    (entry : Op F × Option (Observation F)) : acceptedWith peer (history ++ [entry]) =
      acceptedWith peer history ++ (acceptedExchange peer entry).toList := by
  rw [acceptedWith, List.filterMap_append]
  cases found : acceptedExchange peer entry <;> simp [acceptedWith, found]

/-! ### What the table holds of it -/

namespace RelationalClock

/-- The measurements held of a peer. -/
def measurements (clock : RelationalClock F) (peer : NodeId) : List TwistIndex :=
  (clock.lut.get clock.me peer).getD []

/-- The newest measurements are held: `history` of them or all, and at most `spare` more. -/
structure Holds (history spare : ℕ) (all held : List TwistIndex) : Prop where
  newest : held <:+ all
  lossless : min all.length history ≤ held.length
  bounded : held.length ≤ history + spare

theorem Holds.weaken {history spare spare' : ℕ} {all held : List TwistIndex}
    (holds : Holds history spare all held) (more : spare ≤ spare') :
    Holds history spare' all held :=
  ⟨holds.newest, holds.lossless, holds.bounded.trans (Nat.add_le_add_left more _)⟩

/-- One measurement more. -/
theorem Holds.snoc {history spare : ℕ} {all held : List TwistIndex}
    (holds : Holds history spare all held) (twist : TwistIndex) :
    Holds history (spare + 1) (all ++ [twist]) (held ++ [twist]) := by
  obtain ⟨newest, lossless, bounded⟩ := holds
  refine ⟨?_, ?_, ?_⟩
  · obtain ⟨older, rfl⟩ := newest
    exact ⟨older, by rw [List.append_assoc]⟩
  · rw [List.length_append, List.length_append, List.length_singleton]
    omega
  · rw [List.length_append, List.length_singleton]
    omega

/-- A trim leaves no spare ones. -/
theorem Holds.trim {history spare : ℕ} {all held : List TwistIndex}
    (holds : Holds history spare all held) : Holds history 0 all (held.rtake history) := by
  obtain ⟨newest, lossless, bounded⟩ := holds
  refine ⟨(List.drop_suffix _ _).trans newest, ?_, ?_⟩
  · rw [List.rtake, List.length_drop]
    omega
  · rw [List.rtake, List.length_drop]
    omega

/-- What the table holds after the answers of a run. -/
structure Kept (me : NodeId) (cfg : TrackConfig F) (history : List (Op F × Option (Observation F)))
    (clock : RelationalClock F) : Prop where
  self : clock.me = me
  config : clock.cfg = cfg
  holds : ∀ peer, Holds cfg.history (clock.inserts % 64)
    ((acceptedWith peer history).map (oriented me peer)) (clock.measurements peer)

theorem Kept.new (me : NodeId) (cfg : TrackConfig F) : Kept me cfg [] (new me cfg) where
  self := rfl
  config := rfl
  holds peer := by
    have none : (RelationalClock.new me cfg).measurements peer = [] := by
      simp [measurements, RelationalClock.new]
    rw [none]
    exact ⟨List.nil_suffix, by simp [acceptedWith], by simp⟩

variable {me : NodeId} {cfg : TrackConfig F} {history : List (Op F × Option (Observation F))}
  {clock after : RelationalClock F}

/-- What leaves the table alone and accepts nothing keeps it. -/
theorem Kept.of_sameTable (kept : Kept me cfg history clock) (same : SameTable clock after)
    {op : Op F} {answer : Option (Observation F)}
    (refused : ∀ peer, acceptedExchange peer (op, answer) = none) :
    Kept me cfg (history ++ [(op, answer)]) after := by
  refine ⟨same.me.trans kept.self, same.cfg.trans kept.config, fun peer => ?_⟩
  rw [acceptedWith_snoc, refused peer, measurements, same.lut, same.me, same.inserts]
  simpa [measurements] using kept.holds peer

/-- Recording a measurement. -/
theorem Kept.record (kept : Kept me cfg history clock) {peer : NodeId} {e : Exchange} {op : Op F}
    (observes : op.exchange = some (peer, e)) (relation : Relation F) (restarted : Bool)
    (same : SameTable (clock.record peer (.fromExchange e)) after) :
    Kept me cfg (history ++ [(op, some (.accepted (.fromExchange e) relation restarted))])
      after := by
  refine ⟨same.me.trans kept.self, same.cfg.trans kept.config, fun other => ?_⟩
  have inserted : Holds cfg.history (clock.inserts % 64 + 1)
      ((acceptedWith other (history ++
        [(op, some (.accepted (.fromExchange e) relation restarted))])).map (oriented me other))
      (((clock.lut.insert clock.me peer (.fromExchange e)).get clock.me other).getD []) := by
    rw [acceptedWith_snoc, TwistLUT.get_insert, acceptedExchange_accepted observes, kept.self]
    have holds := kept.holds other
    rw [measurements, kept.self] at holds
    by_cases with_other : peer = other
    · subst with_other
      simpa [oriented] using holds.snoc (oriented me peer e)
    · simpa [with_other] using holds.weaken (Nat.le_succ _)
  rw [measurements, same.lut, same.me, same.inserts]
  by_cases due : (clock.inserts + 1) % 64 = 0
  · have trimmed := inserted.trim.weaken (Nat.zero_le ((clock.inserts + 1) % 64))
    simp only [RelationalClock.record, if_pos due, kept.config, TwistLUT.get_trim]
    exact trimmed
  · have counted : clock.inserts % 64 + 1 = (clock.inserts + 1) % 64 := by omega
    simp only [RelationalClock.record, if_neg due]
    exact counted ▸ inserted

/-- **Every operation keeps the history**, and never fails. -/
theorem Kept.respond (kept : Kept me cfg history clock) (op : Op F) :
    ∃ answer after, clock.respond op = some (answer, after) ∧
      Kept me cfg (history ++ [(op, answer)]) after := by
  cases observes : op.exchange with
  | none =>
    obtain ⟨after, goes, same⟩ := clock.sameTable_respond observes
    exact ⟨none, after, goes, kept.of_sameTable same fun _ => rfl⟩
  | some p =>
    obtain ⟨peer, e⟩ := p
    obtain ⟨obs, track, after, observed, goes, same⟩ := clock.keep_respond observes
    refine ⟨some obs, after, goes, ?_⟩
    cases obs with
    | rejected reason =>
      exact kept.of_sameTable ⟨same.me, same.cfg, same.lut, same.inserts⟩ fun _ => rfl
    | accepted twist relation restarted =>
      obtain rfl : twist = .fromExchange e := by
        cases PeerTrack.outcome_of_observe observed <;> rfl
      exact kept.record observes relation restarted
        ⟨same.me, same.cfg, same.lut, same.inserts⟩

/-- **The raw measurements are a bounded, lossless history.** No run of operations fails. After it
the table holds, of every peer, the newest exchanges accepted with it, each oriented from the
smaller id to the larger: as many as the configuration asks for or all there were, and at most 63
more. -/
theorem run_rawHistory (me : NodeId) (cfg : TrackConfig F) (ops : List (Op F)) :
    ∃ answers clock, Machine.run RelationalClock.respond (RelationalClock.new me cfg) ops =
        some (answers, clock) ∧ answers.length = ops.length ∧
      ∀ peer, Holds cfg.history 63 ((acceptedWith peer (ops.zip answers)).map (oriented me peer))
        ((clock.lut.get me peer).getD []) := by
  have keep : ∀ history (clock : RelationalClock F) op, Kept me cfg history clock →
      ∃ answer after, clock.respond op = some (answer, after) ∧
        Kept me cfg (history ++ [(op, answer)]) after := fun _ _ op kept => kept.respond op
  obtain ⟨answers, clock, ran, length, kept⟩ := Machine.run_spec keep (Kept.new me cfg) ops
  refine ⟨answers, clock, ran, length, fun peer => ?_⟩
  have spare : clock.inserts % 64 ≤ 63 := by omega
  have holds := (kept.holds peer).weaken spare
  rwa [measurements, kept.self] at holds

end RelationalClock

end Rtfsn
