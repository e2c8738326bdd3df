import RoostCore.Lockstep.Moves
import RoostCore.Lockstep.Sequencing

/-! The shape of a match at every point of a run: the history is a run of consecutive
frames that ends at the last one cut, cursors lie before the next frame, a page under way
starts at the cursor or after it, and snapshots are not ahead of what may be sent. -/
namespace Roost.Lockstep
open Go
open List hiding after below count head length min

theorem take_range' (first count limit : Nat) :
    (range' first count).take limit = range' first (min limit count) := by
  rcases Nat.le_total limit count with short | long
  · have split : range' first count =
        range' first limit ++ range' (first + limit) (count - limit) := by
      rw [range'_append_1]
      congr 1
      omega
    rw [split, Nat.min_eq_left short, take_left']
    exact length_range'
  · rw [Nat.min_eq_right long, take_of_length_le (by simpa using long)]

namespace History
variable {h : History} {top : Nat}

/-- Consecutive frames up to the last one before `top`. -/
structure Sound (h : History) (top : Nat) : Prop where
  ids : h.frames.map Frame.id = range' h.first h.frames.length
  reach : h.frames ≠ [] → 0 < h.first ∧ h.first + h.frames.length = top
  empty : h.frames = [] → h.first ≤ top

section
variable (sound : h.Sound top)
include sound

theorem Sound.latest (filled : h.frames ≠ []) : h.latest + 1 = top := by
  have := sound.reach filled
  rw [History.latest, if_neg filled]
  omega

theorem Sound.start_le (live : 0 < top) : h.start ≤ top := by
  rw [History.start]
  by_cases filled : h.frames = []
  · have := sound.empty filled
    omega
  · have := sound.reach filled
    omega

theorem Sound.append (live : 0 < top) (id : frame.id = top)
    (appended : h.append frame = some new) : new.Sound (top + 1) ∧ new.frames ≠ [] := by
  rw [History.append] at appended
  split at appended
  · cases appended
    exact ⟨⟨rfl, fun _ => ⟨by dsimp only; omega, by rw [id]; rfl⟩, nofun⟩, nofun⟩
  rename_i filled
  have reach := sound.reach filled
  split at appended
  · contradiction
  cases appended
  refine ⟨⟨?_, fun _ => ⟨reach.1, ?_⟩, fun empty => ?_⟩, by simp⟩
  · rw [map_append, sound.ids, length_append, length_singleton,
      range'_concat]
    simp [id, reach.2]
  · rw [length_append, length_singleton]
    dsimp only
    omega
  · exact absurd empty (by simp)

theorem Sound.trimBefore (keep : Nat) : (h.trimBefore keep).Sound top := by
  rw [History.trimBefore]
  split
  · exact sound
  rename_i old
  rw [not_or] at old
  have reach := sound.reach old.1
  refine ⟨?_, fun _ => ⟨by dsimp only; omega, ?_⟩, fun _ => ?_⟩
  · rw [map_drop, sound.ids, drop_range', length_drop]
    simp
  · rw [length_drop]
    dsimp only
    omega
  · dsimp only
    omega

theorem Sound.readRange_ids (filled : h.frames ≠ []) {first : Nat}
    (kept : h.start ≤ first) (limit : Nat) :
    (h.readRange first limit).map Frame.id = range' first (min limit (top - first)) := by
  have reach := sound.reach filled
  have low : h.first ≤ first := by
    rw [History.start] at kept
    omega
  rw [History.readRange]
  split
  · rename_i none
    rw [none.resolve_left filled]
    simp
  · rw [map_take, map_drop, sound.ids, drop_range', take_range']
    congr 1 <;> omega

end

end History

/-- The ring holds the last frames that were cut. -/
structure Recent (encoder : RedundantEncoder) (depth top : Nat) (pushed : List Frame) : Prop where
  holds : Ring.Holds encoder pushed
  cells : encoder.cells.length = depth
  ids : pushed.map Frame.id = range' 1 (top - 1)

theorem Recent.values (recent : Recent encoder depth top pushed) : encoder.values.map Frame.id =
      range' (1 + (top - 1 - depth)) (top - 1 - (top - 1 - depth)) := by
  have length : pushed.length = top - 1 := by
    rw [← length_map Frame.id, recent.ids, length_range']
  rw [recent.holds.values, map_drop, recent.ids, drop_range', length, recent.cells]
  simp

namespace Match

structure Regular (top limit : Nat) (state : CatchupState) : Prop where
  positive : 0 < state.next
  cursor : state.next ≤ top
  shaped : Shaped state
  page : ∀ send frames, state.inflight = some send → state.unservable = none →
    send.message = .page frames → state.next ≤ send.start ∧ send.stop ≤ top ∧ 0 < send.stop ∧
      frames.map Frame.id = range' send.start (send.stop - send.start)
  image : ∀ transfer image, state.snapshot = some transfer → transfer.image = some image →
    image.snapshot.frame ≤ limit
  settled : state.unservable.isSome → state.snapshot = none

structure Sound (m : Match) (limit : Nat) : Prop where
  live : 0 < m.sequencer.next
  bounded : m.sequencer.next < 2 ^ 32
  batch : 0 < m.catchupBatch
  below : limit < m.sequencer.next
  history : m.history.Sound m.sequencer.next
  recent : ∃ pushed, Recent m.encoder m.depth m.sequencer.next pushed
  states : ∀ session state, m.catchups.get session = some state →
    Regular m.sequencer.next limit state
  fetch : ∀ request, m.fetch = some request → request.maxFrame ≤ limit

section
variable {m after : Match} {stage : Stage} {limit head session : Nat} {state next : CatchupState}
  {events : List Event}

theorem Shaped.idle (idle : state.inflight = none) : Shaped state := by
  intro send under
  rw [idle] at under
  contradiction

theorem Regular.idle (positive : 0 < state.next) (cursor : state.next ≤ top)
    (idle : state.inflight = none)
    (image : ∀ transfer image, state.snapshot = some transfer → transfer.image = some image →
      image.snapshot.frame ≤ limit) (settled : state.unservable.isSome → state.snapshot = none) :
    Regular top limit state := by
  refine ⟨positive, cursor, .idle idle, fun send frames under => ?_, image, settled⟩
  rw [idle] at under
  contradiction

theorem Regular.waiting (regular : Regular top limit state) (phase : state.snapshot = some transfer)
    (waiting : transfer.image = none) : state.inflight = none ∧ state.unservable = none := by
  have served : state.unservable = none := by
    cases held : state.unservable with
    | none => rfl
    | some failure =>
      rw [regular.settled (by rw [held]; rfl)] at phase
      contradiction
  refine ⟨?_, served⟩
  cases under : state.inflight with
  | none => rfl
  | some send =>
    obtain ⟨frames, -, paging⟩ | ⟨id, image, bounds, other, -, same, ready⟩ :=
      regular.shaped send under served
    · rw [phase] at paging
      contradiction
    · rw [phase] at same
      cases same
      rw [waiting] at ready
      contradiction

/-- A recovery that has failed only waits for its notice to be sent. -/
theorem Regular.unserved (positive : 0 < state.next) (cursor : state.next ≤ top)
    (unserved : state.unservable.isSome) (phase : state.snapshot = none) :
    Regular top limit state := by
  have open_ : state.unservable ≠ none := by
    intro served
    rw [served] at unserved
    contradiction
  refine ⟨positive, cursor, fun send _ served => absurd served open_,
    fun send frames _ served => absurd served open_, fun transfer image held => ?_, fun _ => phase⟩
  rw [phase] at held
  contradiction

theorem readRange_page (sound : m.Sound limit) (filled : m.history.frames ≠ [])
    (kept : m.history.start ≤ first) (read : (m.history.readRange first count).getLast? = some last) :
    last.id + 1 ≤ m.sequencer.next ∧ (m.history.readRange first count).map Frame.id =
      range' first (last.id + 1 - first) := by
  have ids := sound.history.readRange_ids filled kept count
  have final := congrArg getLast? ids
  rw [getLast?_map, read, getLast?_range', Option.map_some] at final
  split at final
  · contradiction
  have id := Option.some.inj final
  rw [ids]
  constructor
  · omega
  · congr 1
    omega

theorem Regular.move (sound : m.Sound limit) (filled : m.history.frames ≠ [])
    (regular : Regular m.sequencer.next limit state)
    (moves : Moves m stage limit head session state (some next) events) :
    Regular m.sequencer.next limit next := by
  have below := sound.below
  cases moves with
  | retried failures served =>
    exact .idle regular.positive regular.cursor rfl regular.image regular.settled
  | paged send frames under message served =>
    obtain ⟨start, stop, positive, -⟩ := regular.page send frames under served message
    have cursor : 0 < Match.paged state send ∧ Match.paged state send ≤ m.sequencer.next := by
      have := regular.positive
      have := regular.cursor
      rw [Match.paged]
      split <;> omega
    exact .idle cursor.1 cursor.2 rfl regular.image regular.settled
  | chunked send id image bounds transfer result failures under message served phase =>
    refine .idle regular.positive regular.cursor rfl ?_ fun unserved => ?_
    · intro other picture same held
      cases same
      exact regular.image transfer picture phase held
    · rw [served] at unserved
      contradiction
  | restored send id image bounds transfer failures under message served phase =>
    have frame : image.snapshot.frame ≤ limit := by
      rcases regular.shaped send under served with ⟨frames, page, -⟩ | chunks
      · rw [message] at page
        contradiction
      · obtain ⟨id', image', bounds', transfer', same, phase', ready⟩ := chunks
        rw [message] at same
        cases same
        exact regular.image transfer' image phase' ready
    exact .idle (Nat.succ_pos _) (by dsimp only; omega) rfl nofun fun _ => rfl
  | given transfer image phase waiting offers counted =>
    obtain ⟨idle, served⟩ := regular.waiting phase waiting
    refine .idle regular.positive regular.cursor idle ?_ fun unserved => ?_
    · intro other picture same held
      cases same
      cases held
      exact offers.frame
    · rw [served] at unserved
      contradiction
  | fellBack transfer phase waiting fallback =>
    exact .idle regular.positive regular.cursor (regular.waiting phase waiting).1 nofun fun _ => rfl
  | attempted failures =>
    exact { regular with }
  | refused failures reason served other =>
    exact .idle regular.positive regular.cursor rfl nofun fun _ => rfl
  | notified failure idle unserved =>
    have held : state.unservable.isSome := by rw [unserved]; rfl
    exact .unserved regular.positive regular.cursor held (regular.settled held)
  | trimmed failure idle served paging gone made =>
    exact .unserved regular.positive regular.cursor rfl paging
  | sending transfer image settings message idle served phase ready configured made =>
    refine ⟨regular.positive, regular.cursor, fun send under _ => ?_,
      fun send frames under _ page => ?_, regular.image, regular.settled⟩
    · cases under
      exact .inr ⟨_, _, _, transfer, made, phase, ready⟩
    · cases under
      rw [made] at page
      contradiction
  | paging last count message idle served phase kept allowed read made =>
    obtain ⟨top, ids⟩ := readRange_page sound filled kept read
    refine ⟨regular.positive, regular.cursor, fun send under _ => ?_,
      fun send frames under _ page => ?_, regular.image, regular.settled⟩
    · cases under
      exact .inl ⟨_, made, phase⟩
    · cases under
      rw [made] at page
      cases page
      exact ⟨Nat.le_refl _, top, Nat.succ_pos _, ids⟩
  | begun served =>
    exact .idle regular.positive regular.cursor rfl
      (fun transfer image same held => by cases same; contradiction)
      (fun unserved => by rw [beginSnapshot, served] at unserved; contradiction)

theorem Sound.step (sound : m.Sound limit) (filled : m.history.frames ≠ [])
    (step : Step m stage limit head session after events) : after.Sound limit := by
  have sequencer : after.sequencer = m.sequencer := step.alike.get Match.sequencer fun _ _ _ _ => rfl
  have history : after.history = m.history := step.alike.get Match.history fun _ _ _ _ => rfl
  have encoder : after.encoder = m.encoder := step.alike.get Match.encoder fun _ _ _ _ => rfl
  have depth : after.depth = m.depth := step.alike.get Match.depth fun _ _ _ _ => rfl
  refine
    { live := sequencer ▸ sound.live
      bounded := sequencer ▸ sound.bounded
      batch := by
        rw [step.alike.get Match.catchupBatch fun _ _ _ _ => rfl]
        exact sound.batch
      below := sequencer ▸ sound.below
      history := by rw [sequencer, history]; exact sound.history
      recent := by rw [sequencer, encoder, depth]; exact sound.recent
      states := fun other state held => ?_
      fetch := by rw [step.fetch]; exact sound.fetch }
  rw [sequencer]
  by_cases same : other = session
  · subst same
    rcases step.entry with ⟨unchanged, -⟩ | ⟨before, found, moves⟩
    · rw [unchanged] at held
      exact sound.states other state held
    · rw [held] at moves
      exact (sound.states other before found).move sound filled moves
  · rw [step.others other same] at held
    exact sound.states other state held

end

end Match

end Roost.Lockstep
