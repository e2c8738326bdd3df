import Mathlib.Data.List.Range
import RoostCore.Run

/-! Acknowledgements and the pruning of segments (`wal.go`). The files of a directory are
listed in order; a removal may fail, and the pass goes on with the next segment. -/
namespace Roost.Nestwal
open List

/-- The end of a record, or the acknowledged position. -/
structure CommitFence where
  segment : Nat
  offset : Nat
  deriving DecidableEq

def fenceAfter (left right : CommitFence) : Prop :=
  right.segment < left.segment ∨ left.segment = right.segment ∧ right.offset < left.offset
  deriving Decidable

/-- The directory and its writer. `records` are the ends of all records ever written, of
which the code keeps no list. -/
structure Log where
  retainSegments : Nat
  segments : List Nat
  segment : Nat
  offset : Nat
  checkpoint : CommitFence
  records : List CommitFence
  deriving DecidableEq

/-- A new directory, after `openActive` has made its first segment. -/
def Log.create (retainSegments : Nat) : Log :=
  { retainSegments, segments := [1], segment := 1, offset := 0, checkpoint := ⟨0, 0⟩, records := [] }

/-- The loop of `pruneAcked` over the listed segments. -/
def removeAcked (removeBefore : Nat) (fails : Nat → Bool) : List Nat → List Nat
  | [] => []
  | segment :: rest =>
      if removeBefore ≤ segment then segment :: rest
      else if fails segment then segment :: removeAcked removeBefore fails rest
      else removeAcked removeBefore fails rest

def Log.pruneAcked (log : Log) (ackSegment : Nat) (fails : Nat → Bool) : Log :=
  if ackSegment ≤ log.retainSegments then log
  else { log with segments := removeAcked (ackSegment - log.retainSegments) fails log.segments }

/-- An acknowledgement that is not refused and goes forward is stored before old segments
are removed. -/
def Log.ack (log : Log) (fence : CommitFence) (fails : Nat → Bool) : Log :=
  if fence.segment = 0 ∨ fence.offset = 0 ∨ ¬ fenceAfter fence log.checkpoint ∨
      fenceAfter fence ⟨log.segment, log.offset⟩ then log
  else { log with checkpoint := fence }.pruneAcked fence.segment fails

def Log.append (log : Log) (size : Nat) : Log :=
  { log with
    offset := log.offset + size
    records := log.records ++ [⟨log.segment, log.offset + size⟩] }

def Log.rotateLocked (log : Log) : Log :=
  { log with
    segments := log.segments ++ [log.segment + 1], segment := log.segment + 1, offset := 0 }

inductive LogInput where
  | append (size : Nat)
  | rotate
  | ack (fence : CommitFence) (fails : Nat → Bool)

def Log.step (log : Log) : LogInput → Log
  | .append size => log.append size
  | .rotate => log.rotateLocked
  | .ack fence fails => log.ack fence fails

/-- The check of `openActive` over neighbours. -/
def contiguous : List Nat → Bool
  | first :: second :: rest => second = first + 1 && contiguous (second :: rest)
  | _ => true

/-- `openActive` does not refuse the segments of the directory. -/
def Log.opens (log : Log) : Bool :=
  contiguous log.segments && !(1 < log.segments.headD 1 && log.checkpoint.segment = 0)

/-- Once a removal of the pass fails, the later ones of the pass fail as well. -/
def Stops (removeBefore : Nat) (fails : Nat → Bool) (segments : List Nat) : Prop :=
  segments.Pairwise fun first second =>
    second < removeBefore → fails first = true → fails second = true

/-- The removals of an acknowledgement stop at the first that fails. -/
def Orderly (log : Log) : LogInput → Prop
  | .ack fence fails => Stops (fence.segment - log.retainSegments) fails log.segments
  | _ => True

theorem removeAcked_of_fails (all : ∀ s ∈ segments, s < removeBefore → fails s = true) :
    removeAcked removeBefore fails segments = segments := by
  induction segments with
  | nil => rfl
  | cons s rest ih =>
    rw [forall_mem_cons] at all
    unfold removeAcked
    split
    · rfl
    · rename_i low
      rw [if_pos (all.1 (Nat.not_le.mp low)), ih all.2]

/-- A pass that stops removes a prefix of the listed segments. -/
theorem removeAcked_drop (stops : Stops removeBefore fails segments) :
    ∃ count, removeAcked removeBefore fails segments = segments.drop count ∧
      ∀ s ∈ segments.take count, s < removeBefore := by
  induction segments with
  | nil => exact ⟨0, rfl, by simp⟩
  | cons s rest ih =>
    obtain ⟨later, stops⟩ := pairwise_cons.mp stops
    unfold removeAcked
    split
    · exact ⟨0, rfl, by simp⟩
    rename_i low
    split
    · rename_i failed
      refine ⟨0, ?_, by simp⟩
      rw [removeAcked_of_fails fun t member low => later t member low failed, drop_zero]
    · obtain ⟨count, same, below⟩ := ih stops
      refine ⟨count + 1, same, fun t member => ?_⟩
      rw [take_succ_cons, mem_cons] at member
      rcases member with rfl | member
      · exact Nat.not_le.mp low
      · exact below t member

theorem mem_removeAcked (member : s ∈ segments) (high : removeBefore ≤ s) :
    s ∈ removeAcked removeBefore fails segments := by
  induction segments with
  | nil => contradiction
  | cons first rest ih =>
    unfold removeAcked
    split
    · exact member
    have later : s ∈ rest := by
      rcases mem_cons.mp member with rfl | later
      · contradiction
      · exact later
    split
    · exact mem_cons_of_mem first (ih later)
    · exact ih later

/-- The acknowledged segment and all after it are there, whatever removals fail. -/
structure Log.Kept (log : Log) : Prop where
  active : 1 ≤ log.segment
  acked : log.checkpoint.segment ≤ log.segment
  present : ∀ s, 1 ≤ s → log.checkpoint.segment ≤ s → s ≤ log.segment → s ∈ log.segments
  records : ∀ record ∈ log.records, 1 ≤ record.segment ∧ record.segment ≤ log.segment

/-- An acknowledgement does nothing, or it goes forward inside the log. -/
theorem Log.ack_cases (log : Log) (fence : CommitFence) (fails : Nat → Bool) :
    log.ack fence fails = log ∨ 1 ≤ fence.segment ∧ log.checkpoint.segment ≤ fence.segment ∧
      fence.segment ≤ log.segment ∧
      log.ack fence fails = { log with checkpoint := fence }.pruneAcked fence.segment fails := by
  unfold Log.ack
  split
  · exact .inl rfl
  rename_i taken
  simp only [fenceAfter, not_or, not_and, Nat.not_lt] at taken
  exact .inr ⟨by omega, by omega, by omega, rfl⟩

theorem Log.Kept.step (log : Log) (input : LogInput) (kept : log.Kept) : (log.step input).Kept := by
  obtain ⟨active, acked, present, records⟩ := kept
  cases input with
  | append size =>
    refine ⟨active, acked, present, fun record member => ?_⟩
    rcases mem_snoc.mp member with before | rfl
    · exact records record before
    · exact ⟨active, Nat.le_refl _⟩
  | rotate =>
    refine ⟨Nat.le_add_left 1 _, Nat.le_succ_of_le acked, fun s positive low high => ?_, fun record member => ?_⟩
    · rcases Nat.lt_or_eq_of_le high with before | rfl
      · exact mem_append_left _ (present s positive low (Nat.le_of_lt_succ before))
      · exact mem_append_right _ mem_cons_self
    · exact (records record member).imp_right Nat.le_succ_of_le
  | ack fence fails =>
    rcases log.ack_cases fence fails with same | ⟨positive, forward, inside, next⟩
    · rw [Log.step, same]
      exact ⟨active, acked, present, records⟩
    rw [Log.step, next]
    unfold Log.pruneAcked
    split
    · exact ⟨active, inside, fun s positive low => present s positive (Nat.le_trans forward low), records⟩
    refine ⟨active, inside, fun s positive low high => ?_, records⟩
    dsimp only at low
    exact mem_removeAcked (present s positive (by omega) high) (by omega)

/-- The segments of the directory are a range that starts at one or before the acknowledged
segment. -/
def Log.Ranges (log : Log) : Prop :=
  ∃ first, 1 ≤ first ∧ first ≤ log.segment ∧ (first = 1 ∨ first ≤ log.checkpoint.segment) ∧
    log.segments = range' first (log.segment + 1 - first)

theorem Log.Ranges.step (log : Log) (input : LogInput) (orderly : Orderly log input)
    (ranges : log.Ranges) : (log.step input).Ranges := by
  obtain ⟨first, positive, active, low, segments⟩ := ranges
  cases input with
  | append size => exact ⟨first, positive, active, low, segments⟩
  | rotate =>
    refine ⟨first, positive, Nat.le_succ_of_le active, low, ?_⟩
    have longer : log.segment + 1 + 1 - first = (log.segment + 1 - first) + 1 := by omega
    have last : first + (log.segment + 1 - first) = log.segment + 1 := by omega
    change log.segments ++ [log.segment + 1] = range' first (log.segment + 1 + 1 - first)
    rw [longer, range'_concat, Nat.one_mul, last, segments]
  | ack fence fails =>
    rcases log.ack_cases fence fails with same | ⟨acked, forward, inside, next⟩
    · rw [Log.step, same]
      exact ⟨first, positive, active, low, segments⟩
    rw [Log.step, next]
    unfold Log.pruneAcked
    split
    · exact ⟨first, positive, active, by dsimp only; omega, segments⟩
    obtain ⟨count, removed, below⟩ := removeAcked_drop orderly
    rw [segments] at removed below
    have reach : first + count ≤ fence.segment := by
      by_contra beyond
      -- the acknowledged segment would be among the removed ones
      have removed : fence.segment ∈ (range' first (log.segment + 1 - first)).take count := by
        rw [mem_take_iff_getElem]
        exact ⟨fence.segment - first, by simp; omega, by simp; omega⟩
      have := below _ removed
      omega
    refine ⟨first + count, by omega, by dsimp only; omega, .inr reach, ?_⟩
    dsimp only
    rw [segments, removed, drop_range']
    congr 1 <;> omega

theorem contiguous_range' (first count : Nat) : contiguous (range' first count) = true := by
  induction count generalizing first with
  | zero => rfl
  | succ count ih =>
    cases count with
    | zero => rfl
    | succ count => simpa [contiguous, range'_succ] using ih (first + 1)

/-- Whatever removals fail, no segment from the acknowledged one on is removed, nor one with a
record that is not acknowledged. When the removals of a pass stop at the first that fails, the
directory also stays a range that opens. -/
theorem pruning_keeps_directory (retainSegments : Nat) (inputs : List LogInput) :
    let log := run Log.step (Log.create retainSegments) inputs
    (∀ s, 1 ≤ s → log.checkpoint.segment ≤ s → s ≤ log.segment → s ∈ log.segments) ∧
      (∀ record ∈ log.records, fenceAfter record log.checkpoint → record.segment ∈ log.segments) ∧
      (Along Log.step Orderly (Log.create retainSegments) inputs →
        log.opens = true ∧ ∃ first, log.segments = range' first (log.segment + 1 - first)) := by
  intro log
  have kept : log.Kept := invariant Log.Kept.step
    ⟨Nat.le_refl _, Nat.zero_le _, fun s low _ high => by simp_all [Log.create]; omega, by simp [Log.create]⟩ inputs
  refine ⟨kept.present, fun record member after => ?_, fun orderly => ?_⟩
  · obtain ⟨positive, inside⟩ := kept.records record member
    exact kept.present _ positive (by unfold fenceAfter at after; omega) inside
  have ranges : log.Ranges := invariant_along Log.Ranges.step
    ⟨1, Nat.le_refl _, Nat.le_refl _, .inl rfl, rfl⟩ orderly
  obtain ⟨first, positive, active, low, segments⟩ := ranges
  refine ⟨?_, first, segments⟩
  have count : log.segment + 1 - first = (log.segment - first) + 1 := by omega
  rw [Log.opens, segments, contiguous_range', count, range'_succ, headD_cons]
  simp only [Bool.true_and, Bool.not_eq_true', Bool.and_eq_false_iff, decide_eq_false_iff_not]
  omega

/-- Four rotations and an acknowledgement of which the removals meet `fails`. -/
def prunedBy (fails : Nat → Bool) : List LogInput :=
  [.rotate, .rotate, .rotate, .rotate, .append 10, .ack ⟨5, 10⟩ fails]

theorem pruning_keeps_directory_removed :
    (run Log.step (Log.create 1) (prunedBy fun _ => false)).opens = true :=
  ((pruning_keeps_directory 1 (prunedBy fun _ => false)).2.2
    ⟨trivial, trivial, trivial, trivial, trivial, pairwise_of_forall fun _ _ _ => id, trivial⟩).1

/-- The pass goes on after the removal of segment two has failed: segments two, four and
five remain. -/
theorem failed_removal_leaves_gap :
    (run Log.step (Log.create 1) (prunedBy (· == 2))).segments = [2, 4, 5] ∧
      (run Log.step (Log.create 1) (prunedBy (· == 2))).opens = false := by
  decide

end Roost.Nestwal
