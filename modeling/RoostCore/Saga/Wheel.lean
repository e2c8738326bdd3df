import Mathlib.Data.Multiset.Filter
import Mathlib.Tactic.Ring
import RoostCore.Go.Time
import RoostCore.Run
import RoostCore.Slots

/-! The hashed timing wheel of a partition (`wheel.go`). Seen from outside it is a set
of timers from which `advance` takes exactly the ones that are due, also after the
clock was set back or fell behind by more than a turn: it refines a bag of timers. -/
namespace Roost.Saga
open Go List Time

structure WheelEntry where
  id : String
  at_ : Int
  deriving DecidableEq, Repr

/-- `cursor` is the next tick to scan. -/
structure Wheel where
  tick : Int
  slots : List (List WheelEntry)
  cursor : Int
  size : Int
  deriving DecidableEq, Repr

def newWheel (tick : Duration) (slots : Int) (now : Time) : Wheel :=
  let tick := if tick ≤ 0 then 5 * millisecond else tick
  let slots := if slots ≤ 0 then 1024 else slots
  { tick, slots := replicate slots.toNat [],
    cursor := (unixNano now).tdiv tick, size := 0 }

namespace Wheel

def slotOf (w : Wheel) (tick : Int) : Nat := (tick.tmod w.slots.length).toNat

def slot (w : Wheel) (i : Nat) : List WheelEntry := w.slots.getD i []

def entries (w : Wheel) : List WheelEntry := w.slots.flatten

/-- A time that has passed goes to the slot that is scanned next. -/
def schedule (w : Wheel) (id : String) (time : Time) : Wheel :=
  let nanos := unixNano time
  let tick := max (nanos.tdiv w.tick) w.cursor
  { w with
    slots := w.slots.modify (w.slotOf tick) (· ++ [{ id, at_ := nanos }])
    size := w.size + 1 }

/-- Takes the due entries out of one slot. -/
def scan (w : Wheel) (i : Nat) (now : Int) : Wheel × List String :=
  let due := (w.slot i).filter (·.at_ ≤ now)
  ({ w with
      slots := w.slots.set i ((w.slot i).filter (now < ·.at_))
      size := w.size - due.length },
    due.map (·.id))

/-- The cursor past its tick. -/
def pass (w : Wheel) : Wheel := { w with cursor := w.cursor + 1 }

/-- The loop of `advance` over the ticks that have passed. -/
def sweep (now : Int) : Nat → Wheel → Wheel × List String
  | 0, w => (w, [])
  | ticks + 1, w =>
      let (scanned, due) := w.scan (w.slotOf w.cursor) now
      let (swept, rest) := sweep now ticks scanned.pass
      (swept, due ++ rest)

/-- The current tick is scanned but not passed; after a whole turn every slot is
scanned once. -/
def advance (w : Wheel) (now : Time) : Wheel × List String :=
  let nanos := unixNano now
  let target := nanos.tdiv w.tick
  if target < w.cursor then w.scan (w.slotOf w.cursor) nanos
  else
    let cursor :=
      if (w.slots.length : Int) ≤ target - w.cursor then target - w.slots.length + 1 else w.cursor
    let (swept, due) := sweep nanos (target - cursor).toNat { w with cursor }
    let (scanned, last) := swept.scan (swept.slotOf target) nanos
    (scanned, due ++ last)

theorem due_or_later (now : Int) (entries : List WheelEntry) :
    (entries.filter (·.at_ ≤ now) ++ entries.filter (now < ·.at_)).Perm entries := by
  have later : (fun e : WheelEntry => decide (now < e.at_)) = fun e => !decide (e.at_ ≤ now) := by
    simp only [← decide_not, Int.not_le]
  rw [later]
  exact filter_append_perm _ entries

/-- What taking the due entries out of some slots does. -/
structure Takes (w next : Wheel) (due : List String) (now : Int) (scanned : Nat → Prop) : Prop where
  tick : next.tick = w.tick
  length : next.slots.length = w.slots.length
  slots : ∀ i, scanned i ∧ next.slot i = (w.slot i).filter (now < ·.at_) ∨
    ¬ scanned i ∧ next.slot i = w.slot i
  taken : (due ++ next.entries.map (·.id)).Perm (w.entries.map (·.id))
  size : next.size + due.length = w.size

theorem scan_takes (w : Wheel) (i : Nat) (now : Int) :
    Takes w (w.scan i now).1 (w.scan i now).2 now (· = i) := by
  refine ⟨rfl, by simp [scan], fun j => ?_, ?_, by simp [scan]⟩
  · by_cases same : j = i
    · subst same
      by_cases bound : j < w.slots.length
      · simp [scan, slot, bound]
      · simp [scan, slot, bound]
    · simp [scan, slot, same, Ne.symm same, getElem?_set_ne]
  · simpa [scan, entries] using (flatten_set_perm (due_or_later now (w.slot i))).map (·.id)

theorem Takes.trans (first : Takes w middle due now scanned)
    (second : Takes middle new rest now later) :
    Takes w new (due ++ rest) now (fun i => scanned i ∨ later i) := by
  refine ⟨second.tick.trans first.tick, second.length.trans first.length, fun i => ?_, ?_, ?_⟩
  · rcases first.slots i with ⟨here, before⟩ | ⟨here, before⟩ <;>
      rcases second.slots i with ⟨also, after⟩ | ⟨also, after⟩ <;>
      simp [here, also, after, before]
  · rw [append_assoc]
    exact (second.taken.append_left due).trans first.taken
  · have := first.size
    have := second.size
    rw [length_append]
    omega

theorem Takes.congr (takes : Takes w new due now scanned) (same : ∀ i, scanned i ↔ other i) :
    Takes w new due now other := by
  have equal : scanned = other := funext fun i => propext (same i)
  exact equal ▸ takes

/-- The slots of the ticks from `first` up to `last`, without the latter. -/
def Spans (w : Wheel) (first last : Int) (i : Nat) : Prop :=
  ∃ t, first ≤ t ∧ t < last ∧ w.slotOf t = i

theorem sweep_takes (now : Int) (ticks : Nat) (w : Wheel) :
    Takes w (sweep now ticks w).1 (sweep now ticks w).2 now
        (w.Spans w.cursor (w.cursor + ticks)) ∧
      (sweep now ticks w).1.cursor = w.cursor + ticks := by
  induction ticks generalizing w with
  | zero =>
    refine ⟨⟨rfl, rfl, fun i => .inr ⟨?_, rfl⟩, .refl _, by simp [sweep]⟩, by simp [sweep]⟩
    rintro ⟨t, lower, upper, -⟩
    omega
  | succ ticks ih =>
    have first := scan_takes w (w.slotOf w.cursor) now
    have rest := ih (w.scan (w.slotOf w.cursor) now).1.pass
    have passed : (w.scan (w.slotOf w.cursor) now).1.pass.cursor = w.cursor + 1 := rfl
    have slots (t : Int) : (w.scan (w.slotOf w.cursor) now).1.pass.slotOf t = w.slotOf t := by
      change (t.tmod ((w.scan (w.slotOf w.cursor) now).1.slots.length : Nat)).toNat = _
      rw [first.length]
      rfl
    have here : Takes w (w.scan (w.slotOf w.cursor) now).1.pass
        (w.scan (w.slotOf w.cursor) now).2 now (· = w.slotOf w.cursor) :=
      ⟨first.tick, first.length, first.slots, first.taken, first.size⟩
    refine ⟨(here.trans rest.1).congr fun i => ?_, ?_⟩
    · simp only [Spans, slots, passed]
      constructor
      · rintro (rfl | ⟨t, lower, upper, same⟩)
        · exact ⟨w.cursor, by omega, by omega, rfl⟩
        · exact ⟨t, by omega, by omega, same⟩
      · rintro ⟨t, lower, upper, same⟩
        by_cases here : t = w.cursor
        · exact .inl (by rw [← same, here])
        · exact .inr ⟨t, by omega, by omega, same⟩
    · refine rest.2.trans ?_
      push_cast
      omega

/-- Every entry waits in the slot of a tick that is still to be scanned: that of its
own time, or the next one when it was scheduled late. -/
structure Sound (w : Wheel) : Prop where
  tick : 0 < w.tick
  slots : 0 < w.slots.length
  cursor : 0 ≤ w.cursor
  placed : ∀ i e, e ∈ w.slot i → ∃ t, w.cursor ≤ t ∧ w.slotOf t = i ∧
    (t = e.at_.tdiv w.tick ∨ (t = w.cursor ∧ e.at_.tdiv w.tick ≤ t))

variable {w : Wheel}

/-- Scanning the slots of all due entries takes exactly the due entries. -/
theorem Takes.slot_eq (takes : Takes w new due now scanned)
    (covers : ∀ i e, e ∈ w.slot i → e.at_ ≤ now → scanned i) (i : Nat) :
    new.slot i = (w.slot i).filter (now < ·.at_) := by
  rcases takes.slots i with ⟨-, filtered⟩ | ⟨skipped, same⟩
  · exact filtered
  · rw [same, filter_eq_self.mpr fun e member => ?_]
    simpa using fun due => skipped (covers i e member due)

theorem Takes.exact (takes : Takes w new due now scanned)
    (covers : ∀ i e, e ∈ w.slot i → e.at_ ≤ now → scanned i) :
    new.entries = w.entries.filter (now < ·.at_) ∧
      due.Perm ((w.entries.filter (·.at_ ≤ now)).map (·.id)) := by
  have slots : new.slots = w.slots.map (·.filter (now < ·.at_)) := by
    refine ext_getElem (by simpa using takes.length) fun i bound other => ?_
    have same := takes.slot_eq covers i
    simpa [slot, bound, takes.length ▸ bound] using same
  have kept : new.entries = w.entries.filter (now < ·.at_) := by
    rw [entries, entries, slots, filter_flatten]
  refine ⟨kept, (perm_append_right_iff (new.entries.map (·.id))).mp (takes.taken.trans ?_)⟩
  rw [kept, ← map_append]
  exact ((due_or_later now w.entries).map (·.id)).symm

theorem slotOf_turn (w : Wheel) (slots : 0 < w.slots.length) (t target : Int) (nonneg : 0 ≤ t)
    (far : (w.slots.length : Int) ≤ target) :
    ∃ u, target - w.slots.length < u ∧ u ≤ target ∧ w.slotOf u = w.slotOf t := by
  have lower := Int.emod_nonneg (target - t) (Int.ofNat_ne_zero.mpr (Nat.ne_of_gt slots))
  have upper := Int.emod_lt_of_pos (target - t) (Int.natCast_pos.mpr slots)
  have split := Int.mul_ediv_add_emod (target - t) w.slots.length
  refine ⟨target - (target - t) % w.slots.length, by omega, by omega, ?_⟩
  have same : target - (target - t) % w.slots.length =
      t + w.slots.length * ((target - t) / w.slots.length) := by omega
  unfold slotOf
  rw [Int.tmod_eq_emod_of_nonneg (by omega), Int.tmod_eq_emod_of_nonneg nonneg, same,
    Int.add_mul_emod_self_left]

/-- Whatever the clock did, `advance` scans the slot of every due entry, and the cursor
does not go back. -/
theorem advance_takes (sound : w.Sound) (now : Time) :
    ∃ scanned, Takes w (w.advance now).1 (w.advance now).2 (unixNano now) scanned ∧
      (∀ i e, e ∈ w.slot i → e.at_ ≤ unixNano now → scanned i) ∧
      (w.advance now).1.cursor = max ((unixNano now).tdiv w.tick) w.cursor := by
  have late {i : Nat} {e : WheelEntry} (member : e ∈ w.slot i) (due : e.at_ ≤ unixNano now) :
      ∃ t, w.cursor ≤ t ∧ w.slotOf t = i ∧
        (t = w.cursor ∨ t ≤ (unixNano now).tdiv w.tick) := by
    obtain ⟨t, ahead, slot, own | ⟨next, -⟩⟩ := sound.placed i e member
    · exact ⟨t, ahead, slot, .inr (own ▸ Int.tdiv_le_tdiv sound.tick due)⟩
    · exact ⟨t, ahead, slot, .inl next⟩
  unfold advance
  dsimp only
  split
  · refine ⟨_, scan_takes w _ _, fun i e member due => ?_, ?_⟩
    · obtain ⟨t, ahead, slot, here | past⟩ := late member due
      · rw [← slot, here]
      · omega
    · change w.cursor = _
      omega
  · generalize (unixNano now).tdiv w.tick = target at *
    generalize chosen : (if (w.slots.length : Int) ≤ target - w.cursor then
      target - w.slots.length + 1 else w.cursor) = cursor
    have slots := sound.slots
    have below : cursor ≤ target := by split at chosen <;> omega
    obtain ⟨swept, reached⟩ := sweep_takes (unixNano now) (target - cursor).toNat
      { w with cursor }
    have start : Takes w { w with cursor } [] (unixNano now) (fun _ => False) :=
      ⟨rfl, rfl, fun _ => .inr ⟨id, rfl⟩, .refl _, by simp⟩
    have last := scan_takes (sweep (unixNano now) (target - cursor).toNat
      { w with cursor }).1 ((sweep (unixNano now) (target - cursor).toNat
      { w with cursor }).1.slotOf target) (unixNano now)
    have same (t : Int) : (sweep (unixNano now) (target - cursor).toNat
        { w with cursor }).1.slotOf t = w.slotOf t := by
      unfold slotOf
      rw [swept.length]
    refine ⟨_, (start.trans swept).trans last, fun i e member due => ?_, ?_⟩
    · -- every tick from the cursor to the target is scanned, and a whole turn is every slot
      have reach : ∃ u, cursor ≤ u ∧ u ≤ target ∧ w.slotOf u = i := by
        obtain ⟨t, ahead, slot, past⟩ := late member due
        split at chosen
        · obtain ⟨u, lower, upper, turn⟩ :=
            slotOf_turn w slots t target (by have := sound.cursor; omega)
              (by have := sound.cursor; omega)
          exact ⟨u, by omega, upper, turn.trans slot⟩
        · exact ⟨t, by omega, by omega, slot⟩
      obtain ⟨u, lower, upper, slot⟩ := reach
      by_cases final : u = target
      · exact .inr (by rw [same, ← slot, final])
      · exact .inl (.inr ⟨u, lower, by dsimp only; omega, slot⟩)
    · change (sweep _ _ _).1.cursor = _
      rw [reached]
      dsimp only
      omega

theorem advance_sound (sound : w.Sound) (now : Time) : (w.advance now).1.Sound := by
  obtain ⟨scanned, takes, covers, cursor⟩ := advance_takes sound now
  have slots (t : Int) : (w.advance now).1.slotOf t = w.slotOf t := by
    unfold slotOf
    rw [takes.length]
  refine ⟨takes.tick ▸ sound.tick, takes.length ▸ sound.slots, ?_, fun i e member => ?_⟩
  · have := sound.cursor
    omega
  · rw [takes.slot_eq covers, mem_filter, decide_eq_true_eq] at member
    obtain ⟨before, later⟩ := member
    have target := Int.tdiv_le_tdiv sound.tick (Int.le_of_lt later)
    obtain ⟨t, ahead, slot, own | ⟨next, bound⟩⟩ := sound.placed i e before
    · exact ⟨t, by omega, (slots t).trans slot, .inl (by rw [takes.tick]; exact own)⟩
    · exact ⟨t, by omega, (slots t).trans slot, .inr ⟨by omega, by rw [takes.tick]; exact bound⟩⟩

/-- The wheel gives out exactly the entries whose time has come. -/
theorem advance_perm (sound : w.Sound) (now : Time) :
    (w.advance now).1.entries = w.entries.filter (unixNano now < ·.at_) ∧
      (w.advance now).2.Perm ((w.entries.filter (·.at_ ≤ unixNano now)).map (·.id)) ∧
      (w.advance now).1.size + (w.advance now).2.length = w.size := by
  obtain ⟨scanned, takes, covers, -⟩ := advance_takes sound now
  exact ⟨(takes.exact covers).1, (takes.exact covers).2, takes.size⟩

theorem advance_exact (sound : w.Sound) (now : Time) :
    (∀ e, e ∈ (w.advance now).1.entries ↔ e ∈ w.entries ∧ unixNano now < e.at_) ∧
      ∀ id, id ∈ (w.advance now).2 ↔
        ∃ e ∈ w.entries, e.at_ ≤ unixNano now ∧ e.id = id := by
  obtain ⟨kept, taken, -⟩ := advance_perm sound now
  exact ⟨fun e => by simp [kept], fun id => by simp [taken.mem_iff, and_assoc]⟩

theorem slotOf_lt (sound : w.Sound) (nonneg : 0 ≤ t) : w.slotOf t < w.slots.length := by
  have slots := sound.slots
  unfold slotOf
  rw [Int.tmod_eq_emod_of_nonneg nonneg]
  have upper := Int.emod_lt_of_pos t (Int.natCast_pos.mpr slots)
  omega

theorem schedule_slot (w : Wheel) (id : String) (time : Time) (i : Nat) :
    (w.schedule id time).slot i =
      if i = w.slotOf (max ((unixNano time).tdiv w.tick) w.cursor) ∧ i < w.slots.length then
        w.slot i ++ [{ id, at_ := unixNano time }]
      else w.slot i := by
  simp only [schedule, slot, getD_eq_getElem?_getD, getElem?_modify]
  by_cases bound : i < w.slots.length
  · by_cases here : w.slotOf (max ((unixNano time).tdiv w.tick) w.cursor) = i
    · simp [bound, here]
    · simp [bound, here, Ne.symm here]
  · simp [bound]

theorem schedule_perm (sound : w.Sound) (id : String) (time : Time) :
    (w.schedule id time).entries.Perm ({ id, at_ := unixNano time } :: w.entries) := by
  have nonneg : 0 ≤ max ((unixNano time).tdiv w.tick) w.cursor := by
    have := sound.cursor
    omega
  exact flatten_modify_perm (slotOf_lt sound nonneg) _

theorem schedule_mem (sound : w.Sound) (id : String) (time : Time) :
    e ∈ (w.schedule id time).entries ↔
      e ∈ w.entries ∨ e = { id, at_ := unixNano time } := by
  rw [(schedule_perm sound id time).mem_iff, mem_cons, or_comm]

theorem schedule_sound (sound : w.Sound) (id : String) (time : Time) :
    (w.schedule id time).Sound := by
  have length : (w.schedule id time).slots.length = w.slots.length := by simp [schedule]
  have slots (t : Int) : (w.schedule id time).slotOf t = w.slotOf t := by
    unfold slotOf
    rw [length]
  refine ⟨sound.tick, length ▸ sound.slots, sound.cursor, fun i e member => ?_⟩
  simp only [slots]
  change ∃ t, w.cursor ≤ t ∧ w.slotOf t = i ∧
    (t = e.at_.tdiv w.tick ∨ (t = w.cursor ∧ e.at_.tdiv w.tick ≤ t))
  rw [schedule_slot] at member
  split at member
  · rename_i here
    rcases mem_snoc.mp member with before | rfl
    · exact sound.placed i e before
    · exact ⟨_, Int.le_max_right _ _, here.1.symm, by dsimp only; omega⟩
  · exact sound.placed i e member

theorem newWheel_sound (tick : Duration) (slots : Int) (nonneg : 0 ≤ unixNano now) :
    (newWheel tick slots now).Sound := by
  have width : 0 < (newWheel tick slots now).tick := by
    simp only [newWheel]
    split
    · decide
    · exact Int.not_le.mp (by assumption)
  refine ⟨width, ?_, Int.tdiv_nonneg nonneg (Int.le_of_lt width), fun i e member => ?_⟩
  · simp only [newWheel, length_replicate]
    split
    · decide
    · omega
  · simp only [newWheel, slot, getD_eq_getElem?_getD, getElem?_replicate] at member
    generalize (if slots ≤ 0 then 1024 else slots).toNat = count at member
    split at member <;> simp at member

end Wheel

inductive WheelCall where
  | schedule (id : String) (time : Time)
  | advance (now : Time)

def Wheel.call (w : Wheel) : WheelCall → Wheel × List String
  | .schedule id time => (w.schedule id time, [])
  | .advance now => w.advance now

/-- The timers as a bag, from which the due ones are taken. -/
def bagCall (bag : Multiset WheelEntry) : WheelCall → Multiset WheelEntry × Multiset String
  | .schedule id time => ({ id, at_ := unixNano time } ::ₘ bag, 0)
  | .advance now =>
      (bag.filter (unixNano now < ·.at_), (bag.filter (·.at_ ≤ unixNano now)).map (·.id))

/-- The states after the calls, with what the calls returned. -/
def calls (call : S → C → S × O) : S → List C → List (S × O)
  | _, [] => []
  | s, c :: rest => call s c :: calls call (call s c).1 rest

structure Wheel.Refines (w : Wheel) (bag : Multiset WheelEntry) : Prop where
  sound : w.Sound
  entries : (w.entries : Multiset WheelEntry) = bag
  size : w.size = bag.card

theorem Wheel.Refines.call {w : Wheel} (refines : w.Refines bag) (c : WheelCall) :
    (w.call c).1.Refines (bagCall bag c).1 ∧
      ((w.call c).2 : Multiset String) = (bagCall bag c).2 := by
  obtain ⟨sound, rfl, size⟩ := refines
  cases c with
  | schedule id time =>
    have entries := Multiset.coe_eq_coe.mpr (schedule_perm sound id time)
    refine ⟨⟨schedule_sound sound id time, entries, ?_⟩, rfl⟩
    simp [bagCall, Wheel.call, schedule, size]
  | advance now =>
    obtain ⟨kept, taken, left⟩ := advance_perm sound now
    refine ⟨⟨advance_sound sound now, by simp [Wheel.call, bagCall, kept], ?_⟩, ?_⟩
    · have all := (due_or_later (unixNano now) w.entries).length_eq
      have due := taken.length_eq
      simp only [length_append, length_map, Multiset.coe_card] at all due size
      simp only [Wheel.call, bagCall, Multiset.filter_coe, Multiset.coe_card]
      omega
    · simpa [Wheel.call, bagCall] using Multiset.coe_eq_coe.mpr taken

/-- Whatever the tick, the number of slots and the times, each call leaves the timers of
the bag and returns the ids that the bag returns. -/
theorem wheel_refines_bag (tick : Duration) (slots : Int) (now : Time)
    (start : 0 ≤ unixNano now) (requests : List WheelCall) :
    (calls Wheel.call (newWheel tick slots now) requests).map
        (fun (w, due) => ((w.entries : Multiset WheelEntry), w.size, (due : Multiset String))) =
      (calls bagCall 0 requests).map (fun (bag, due) => (bag, (bag.card : Int), due)) := by
  have refines : (newWheel tick slots now).Refines 0 :=
    ⟨Wheel.newWheel_sound tick slots start, by simp [newWheel, Wheel.entries], rfl⟩
  generalize newWheel tick slots now = w, (0 : Multiset WheelEntry) = bag at refines
  induction requests generalizing w bag with
  | nil => rfl
  | cons c rest ih =>
    obtain ⟨after, returned⟩ := refines.call c
    simp [calls, ih _ _ after, after.entries, after.size, returned]

/-- A timer two turns ahead, taken after the clock was set back and jumped forward. -/
def clockJumps : List WheelCall :=
  [.schedule "late" (unixEpoch + 9), .advance unixEpoch, .advance (unixEpoch + 40)]

theorem wheel_refines_bag_jumps :
    (calls Wheel.call (newWheel 1 4 (unixEpoch + 2)) clockJumps).map
        (fun (w, due) => ((w.entries : Multiset WheelEntry), w.size, (due : Multiset String))) =
      (calls bagCall 0 clockJumps).map (fun (bag, due) => (bag, (bag.card : Int), due)) :=
  wheel_refines_bag 1 4 (unixEpoch + 2) (by decide +kernel) clockJumps

end Roost.Saga
