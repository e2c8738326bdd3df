import RoostCore.Lockstep.Loops

/-! A tick cuts a frame, settles what has been sent, broadcasts and pumps the recoveries.
What its steps keep holds after it: one property up to the broadcast and one from there
on. -/
namespace Roost.Lockstep
open Go List

namespace Match
variable {m cut after : Match} {frame : Frame} {limit head : Nat}

structure Cut (m : Match) (frame : Frame) (cut : Match) : Prop where
  cuts : m.sequencer.Cuts frame cut.sequencer
  appended : m.history.append frame = some cut.history
  same : cut = { m with
                 sequencer := cut.sequencer, history := cut.history
                 encoder := Ring.push m.encoder frame }

theorem Regular.later {top later : Nat} (regular : Regular top limit state) (grown : top ≤ later)
    (raised : limit ≤ head) : Regular later head state := by
  refine ⟨regular.positive, Nat.le_trans regular.cursor grown, regular.shaped,
    fun send frames under served page => ?_, fun transfer image phase ready => ?_, regular.settled⟩
  · obtain ⟨start, stop, rest⟩ := regular.page send frames under served page
    exact ⟨start, Nat.le_trans stop grown, rest⟩
  · exact Nat.le_trans (regular.image transfer image phase ready) raised

theorem Cut.filled (made : m.Cut frame cut) (sound : m.Sound limit) :
    cut.history.Sound (m.sequencer.next + 1) ∧ cut.history.frames ≠ [] :=
  sound.history.append sound.live made.cuts.id made.appended

theorem Cut.recent (made : m.Cut frame cut) (live : 0 < m.sequencer.next)
    (recent : Recent m.encoder m.depth m.sequencer.next pushed) :
    Recent cut.encoder cut.depth cut.sequencer.next (pushed ++ [frame]) := by
  have ids : (pushed ++ [frame]).map Frame.id = range' 1 (m.sequencer.next + 1 - 1) := by
    rw [map_append, recent.ids, map_singleton, made.cuts.id, Nat.add_sub_cancel]
    conv_rhs => rw [← Nat.sub_add_cancel live, range'_concat]
    congr 2
    omega
  have encoder : cut.encoder = Ring.push m.encoder frame := by rw [made.same]
  have depth : cut.depth = m.depth := by rw [made.same]
  rw [encoder, depth, made.cuts.next]
  exact ⟨recent.holds.push frame, length_set.trans recent.cells, ids⟩

theorem Cut.sound (made : m.Cut frame cut) (sound : m.Sound limit)
    (bounded : m.sequencer.next + 1 < 2 ^ 32) (raised : limit ≤ head)
    (below : head ≤ m.sequencer.next) : cut.Sound head := by
  obtain ⟨pushed, recent⟩ := sound.recent
  have next := made.cuts.next
  have history := (made.filled sound).1
  rw [← next] at history
  refine
    { live := by omega, bounded := by omega, batch := ?_, below := by omega, history
      recent := ⟨_, made.recent sound.live recent⟩, states := ?_, fetch := ?_ }
  · rw [made.same]
    exact sound.batch
  · rw [next, made.same]
    exact fun session state held =>
      (sound.states session state held).later (Nat.le_succ _) raised
  · rw [made.same]
    exact fun request asked => Nat.le_trans (sound.fetch request asked) raised

/-- The packet of a match goes to the sessions that are not in recovery. -/
def broadcasts (m : Match) : List Event :=
  (m.broadcastOrder.filter fun session => (m.catchups.get session).isNone).map fun session =>
    .broadcast session (Ring.values m.encoder)

theorem tick_phases (sound : m.Sound limit) (ticked : m.tick sha256 input = some (after, events)) :
    ∃ frame cut, m.Cut frame cut ∧ m.sequencer.next + 1 < 2 ^ 32 ∧
      after = ((cut.collectCatchups input).1.pumpCatchup sha256 input).1.retainWindow frame.id ∧
      events = (cut.collectCatchups input).2 ++
        ((cut.collectCatchups input).1.broadcastOrder.filter fun session =>
          ((cut.collectCatchups input).1.catchups.get session).isNone).map
            (fun session => .broadcast session (Ring.values cut.encoder)) ++
        ((cut.collectCatchups input).1.pumpCatchup sha256 input).2 := by
  have bounded := sound.bounded
  unfold tick at ticked
  simp only [bind, Option.bind] at ticked
  split at ticked
  · contradiction
  split at ticked
  · contradiction
  rename_i advanced
  dsimp only at ticked
  split at ticked
  · contradiction
  rename_i history appended
  rename_i answer _ _
  obtain ⟨frame, sequencer⟩ := answer
  have last : m.sequencer.next + 1 < 2 ^ 32 := by
    have open_ : m.sequencer.next ≠ 2 ^ 32 - 1 := by
      intro full
      rw [Sequencer.advance, if_pos full] at advanced
      contradiction
    omega
  cases ticked
  exact ⟨frame, _, ⟨Sequencer.advance_cuts last advanced, appended, rfl⟩, last, rfl, rfl⟩

section
variable {σ : Type} {note : σ → Event → σ} {P Q : Match → σ → Prop} {seen : σ}

/-- `P` holds up to the broadcast and `Q` from there on. Snapshots are bounded by `limit'`
and pages by the head the tick may serve. -/
theorem tick_keeps (sound : m.Sound limit) (ticked : m.tick sha256 input = some (after, events))
    (reach : head = if m.committed then min m.sequencer.next input.committed else m.sequencer.next)
    (raised : limit ≤ limit') (below : limit' ≤ m.sequencer.next) (within : head ≤ limit')
    (early : Stable note ⟨True, numbered⟩ limit' head P)
    (late : Stable note ⟨False, numbered⟩ limit' head Q)
    (trim : ∀ {m seen} keep, Q m seen → Q (trimHistory m keep) seen)
    (start : ∀ frame cut, m.Cut frame cut → cut.Sound limit' → P cut seen)
    (counted : ∀ {m seen}, P m seen → numbered →
      m.lastTransfer.toNat + m.catchups.pairs.length < 2 ^ 64)
    (turn : ∀ {m seen}, m.Sound limit' → m.history.frames ≠ [] → P m seen →
      Q m (m.broadcasts.foldl note seen)) :
    after.Sound limit' ∧ Q after (events.foldl note seen) := by
  obtain ⟨frame, cut, made, bounded, rfl, rfl⟩ := tick_phases sound ticked
  have whole := made.sound sound bounded raised below
  have filled := (made.filled sound).2
  have collected : Kept cut limit' P (cut.collectCatchups input).1 _ :=
    collect_keeps trivial early (Kept.start whole filled (start frame cut made whole))
  have encoder := collected.alike.get Match.encoder fun _ _ _ _ => rfl
  rw [foldl_append, foldl_append, ← encoder]
  have turned := turn collected.sound collected.filled collected.holds
  have servable : (cut.collectCatchups input).1.servableHead input.committed = head := by
    have latest : cut.history.latest = m.sequencer.next := by
      have := (made.filled sound).1.latest filled
      omega
    have flag : cut.committed = m.committed := by rw [made.same]
    rw [collected.alike.get (fun m => m.servableHead input.committed) fun _ _ _ _ => rfl,
      servableHead, latest, flag, reach]
  have paced : Stable note ⟨False, numbered⟩ limit'
      ((cut.collectCatchups input).1.servableHead input.committed) Q := by
    rw [servable]
    exact late
  have pumped : Kept _ limit' Q ((cut.collectCatchups input).1.pumpCatchup sha256 input).1 _ :=
    pump_keeps paced (servable ▸ within) not_false (counted collected.holds)
      (Kept.start collected.sound collected.filled turned)
  exact retainWindow_keeps late trim pumped

end

end Match

end Roost.Lockstep
