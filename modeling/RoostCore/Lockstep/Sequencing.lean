import RoostCore.Run
import RoostCore.Lockstep.Sequencer

/-! Lockstep input is sequenced exactly once. A play keeps all accepted submissions and
all cut frames beside the sequencer; the ring of a seat agrees with the submissions that
are inside the replay horizon, and the pending frames with the first of them. -/
namespace Roost.Lockstep
open Go
open List hiding after le length

/-- An accepted submission: the frame that was next then, the frame it went into, and
whether it repeated an earlier one inside the horizon. -/
structure Submission where
  player : Int
  original : Nat
  payload : Payload
  next : Nat
  target : Nat
  again : Bool
  deriving DecidableEq, Repr

structure Play where
  seq : Sequencer
  submissions : List Submission := []
  frames : List Frame := []

inductive Call where
  | submit (player : Int) (frame : Nat) (payload : Payload)
  | advance
  deriving DecidableEq, Repr

/-- The original was accepted before and has not left the replay horizon. -/
def repeats (submissions : List Submission) (next : Nat) (player : Int)
    (original : Nat) : Bool :=
  next ≤ original + replayHorizon &&
    submissions.any fun s => s.player == player && s.original == original

def Play.step (g : Play) : Call → Play
  | .submit player frame payload =>
      match g.seq.submitInput player frame payload with
      | (seq, .error _) => { g with seq }
      | (seq, .ok target) =>
          let submission :=
            { player, original := frame, payload, next := g.seq.next,
              target, again := repeats g.submissions g.seq.next player frame }
          { g with seq, submissions := g.submissions ++ [submission] }
  | .advance =>
      match g.seq.advance with
      | none => g
      | some (frame, seq) => { g with seq, frames := g.frames ++ [frame] }

/-- The submission asked for the frame it went into. -/
def Submission.explicitFor (s : Submission) (player : Int) (frame : Nat) : Bool :=
  s.player == player && s.target == frame && s.original == frame

/-- The submission was late and folded into the frame, and no repeat. -/
def Submission.foldedInto (s : Submission) (player : Int) (frame : Nat) : Bool :=
  s.player == player && s.target == frame && s.original != frame && !s.again

/-- The input a frame should hold: the first explicit submission, or else the first one
that was folded into it. -/
def chosen (submissions : List Submission) (player : Int) (frame : Nat) :
    Option PendingInput :=
  match submissions.find? (·.explicitFor player frame) with
  | some s => some { payload := s.payload, folded := false }
  | none =>
      (submissions.find? (·.foldedInto player frame)).map fun s =>
        { payload := s.payload, folded := true }

theorem repeats_of_mem (member : sub ∈ submissions) (player : sub.player = seat)
    (original : sub.original = asked) (horizon : new ≤ asked + replayHorizon) :
    repeats submissions new seat asked = true := by
  simp only [repeats, Bool.and_eq_true, decide_eq_true_eq, any_eq_true, beq_iff_eq]
  exact ⟨horizon, sub, member, player, original⟩

inductive Sequencer.Submits (s : Sequencer) (player : Int) (original : Nat)
    (payload : Payload) : Sequencer → Except SubmitError Nat → Prop where
  | refused {err} : Submits s player original payload s (.error err)
  | repeated (known : s.players.contains player = true)
      (horizon : s.next ≤ original + replayHorizon)
      (held : (s.slot player original).target ≠ 0)
      (same : (s.slot player original).original = original) :
      Submits s player original payload s (.ok (s.slot player original).target)
  | taken {next frame folded} (known : s.players.contains player = true) (within : frame ≤ s.next + s.window)
      (folds : folded = decide (original < s.next))
      (target : frame = if folded then s.next else original)
      (fresh : s.next ≤ original + replayHorizon → (s.slot player original).target ≠ 0 →
        (s.slot player original).original ≠ original)
      (stored : (s.loses player frame folded = true ∧ next = s) ∨
        (s.loses player frame folded = false ∧
          next = s.store player frame { payload, folded })) :
      Submits s player original payload
        (next.remember player original frame (decide (s.next ≤ original + replayHorizon)))
        (.ok frame)

namespace Sequencer
variable {s : Sequencer}

theorem replayFloor_le (s : Sequencer) (original : Nat) :
    s.replayFloor ≤ original ↔ s.next ≤ original + replayHorizon := by
  unfold replayFloor
  split <;> omega

theorem submitInput_submits (player : Int) (original : Nat) (payload : Payload)
    (bounded : s.next + s.window < 2 ^ 32) :
    s.Submits player original payload (s.submitInput player original payload).1
      (s.submitInput player original payload).2 := by
  unfold submitInput
  split
  · exact .refused
  rename_i seated
  have known : s.players.contains player = true := by simpa using seated
  split
  · exact .refused
  dsimp only
  rw [Nat.mod_eq_of_lt bounded]
  generalize folds : decide (original < s.next) = folded
  generalize target : (if folded = true then s.next else original) = frame
  simp only [replayFloor_le, decide_eq_true_eq]
  split
  · exact .refused
  rename_i within
  split
  · rename_i hit
    exact .repeated known hit.1 hit.2.1 hit.2.2
  rename_i miss
  have fresh (horizon : s.next ≤ original + replayHorizon)
      (held : (s.slot player original).target ≠ 0) :
      (s.slot player original).original ≠ original :=
    fun same => miss ⟨horizon, held, same⟩
  split
  · rename_i lost
    exact .taken known (Nat.not_lt.mp within) folds.symm target.symm fresh
      (.inl ⟨lost, rfl⟩)
  · rename_i wins
    exact .taken known (Nat.not_lt.mp within) folds.symm target.symm fresh
      (.inr ⟨Bool.eq_false_iff.mpr wins, rfl⟩)

/-- What a submission can change, also at the very last frame IDs. -/
structure Stores (s : Sequencer) (player : Int) (payload : Payload) (after : Sequencer) : Prop where
  next : after.next = s.next
  players : after.players = s.players
  maxInput : after.maxInput = s.maxInput
  pending : after.pending = s.pending ∨
    (s.players.contains player = true ∧ payload.length ≤ s.maxInput ∧
      ∃ frame folded, after.pending = s.pending.set frame
        ((s.inputsOf frame).set player { payload, folded }))

theorem Stores.remember (stores : s.Stores player payload after) (seat : Int)
    (original target : Nat) (inHorizon : Bool) :
    s.Stores player payload (after.remember seat original target inHorizon) := by
  rw [Sequencer.remember]
  split
  · exact { stores with }
  · exact stores

theorem submitInput_stores (s : Sequencer) (player : Int) (original : Nat) (payload : Payload) :
    s.Stores player payload (s.submitInput player original payload).1 := by
  have stays : s.Stores player payload s := ⟨rfl, rfl, rfl, .inl rfl⟩
  unfold submitInput
  split
  · exact stays
  rename_i seated
  split
  · exact stays
  rename_i small
  have known : s.players.contains player = true := by simpa using seated
  dsimp only
  generalize decide (original < s.next) = folded
  generalize (if folded = true then s.next else original) = frame
  split
  · exact stays
  split
  · exact stays
  split
  · exact stays.remember ..
  have stored : s.Stores player payload
      (s.store player frame { payload, folded }) :=
    ⟨rfl, rfl, rfl, .inr ⟨known, Int.not_lt.mp small, frame, folded, rfl⟩⟩
  exact stored.remember ..

@[simp] theorem remember_next (player : Int) (original target : Nat) (inHorizon : Bool) :
    (s.remember player original target inHorizon).next = s.next ∧
      (s.remember player original target inHorizon).window = s.window ∧
      (s.remember player original target inHorizon).pending = s.pending ∧
      (s.remember player original target inHorizon).players = s.players := by
  unfold remember
  split <;> exact ⟨rfl, rfl, rfl, rfl⟩

theorem ring_remember (player other : Int) (original target : Nat) (inHorizon : Bool) :
    (s.remember player original target inHorizon).ring other =
      if inHorizon ∧ other = player then
        (s.ring player).set (original % replayWindowSize) { original, target }
      else s.ring other := by
  unfold remember
  cases inHorizon with
  | false => simp
  | true =>
    simp only [if_true, true_and, ring, Table.get_set]
    split <;> rfl

theorem slot_remember (player other : Int) (original target asked : Nat) (inHorizon : Bool)
    (length : (s.ring player).length = replayWindowSize) :
    (s.remember player original target inHorizon).slot other asked =
      if inHorizon ∧ other = player ∧ asked % replayWindowSize = original % replayWindowSize then
        { original, target }
      else s.slot other asked := by
  unfold slot
  rw [ring_remember]
  by_cases here : inHorizon = true ∧ other = player
  · obtain ⟨horizon, rfl⟩ := here
    have bound : original % replayWindowSize < (s.ring other).length := by
      rw [length]
      exact Nat.mod_lt _ (by decide)
    by_cases same : asked % replayWindowSize = original % replayWindowSize
    · simp [horizon, same, bound, getD_eq_getElem?_getD]
    · simp [horizon, same, getD_eq_getElem?_getD, getElem?_set_ne (Ne.symm same)]
  · have elsewhere : ¬ (inHorizon = true ∧ other = player ∧
        asked % replayWindowSize = original % replayWindowSize) := fun both => here ⟨both.1, both.2.1⟩
    rw [if_neg here, if_neg elsewhere]

theorem inputsOf_store (player : Int) (frame other : Nat) (input : PendingInput) :
    (s.store player frame input).inputsOf other =
      if other = frame then (s.inputsOf frame).set player input else s.inputsOf other := by
  simp only [store, inputsOf, Table.get_set]
  split <;> rfl

theorem mem_inputs {inputs : Table Int PendingInput} {players : List Int}
    (listed : ∀ player, player ∈ players ↔ ∃ input, inputs.get player = some input)
    (player : Int) (payload : Payload) :
    { player, payload : Input } ∈ (players.map fun player =>
        { player
          payload := ((inputs.get player).map PendingInput.payload).getD [] : Input }) ↔
      (inputs.get player).map PendingInput.payload = some payload := by
  simp only [mem_map, Input.mk.injEq]
  constructor
  · rintro ⟨owner, member, rfl, held⟩
    obtain ⟨input, found⟩ := (listed owner).mp member
    rw [found] at held ⊢
    exact congrArg some held
  · intro held
    obtain ⟨input, found, rfl⟩ := Option.map_eq_some_iff.mp held
    exact ⟨player, (listed player).mpr ⟨input, found⟩, rfl, by rw [found]; rfl⟩

structure Cuts (s : Sequencer) (frame : Frame) (after : Sequencer) : Prop where
  id : frame.id = s.next
  next : after.next = s.next + 1
  window : after.window = s.window
  players : after.players = s.players
  maxInput : after.maxInput = s.maxInput
  accepted : after.accepted = s.accepted
  ascending : frame.inputs.Pairwise fun a b => a.player < b.player
  inputs : ∀ player payload, { player, payload : Input } ∈ frame.inputs ↔
    ((s.inputsOf s.next).get player).map PendingInput.payload = some payload
  others : ∀ other, other ≠ s.next → after.pending.get other = s.pending.get other
  cut : ∀ inputs, after.pending.get s.next = some inputs →
    s.pending.get s.next = some inputs ∧ inputs.pairs = []

theorem advance_cuts {frame : Frame} {after : Sequencer} (bounded : s.next + 1 < 2 ^ 32)
    (made : s.advance = some (frame, after)) : s.Cuts frame after := by
  unfold advance at made
  rw [if_neg (by omega)] at made
  cases made
  have sorted := @pairwise_mergeSort Int (fun a b => decide (a ≤ b))
    (fun _ _ _ ab bc => by simpa using Int.le_trans (by simpa using ab) (by simpa using bc))
    (fun a b => by simpa using Int.le_total a b) ((s.inputsOf s.next).pairs.map Prod.fst)
  have distinct := (mergeSort_perm ((s.inputsOf s.next).pairs.map Prod.fst)
    fun a b : Int => decide (a ≤ b)).nodup_iff.mpr (Table.pairs_nodup _)
  refine ⟨rfl, Nat.mod_eq_of_lt bounded, rfl, rfl, rfl, rfl, ?_, ?_, ?_, ?_⟩
  · refine pairwise_map.mpr ((sorted.and distinct).imp ?_)
    rintro a b ⟨le, ne⟩
    exact Int.lt_iff_le_and_ne.mpr ⟨by simpa using le, ne⟩
  · refine mem_inputs fun player => ?_
    simp [Table.mem_pairs]
  · intro other distinct
    split
    · exact Table.get_remove_ne _ distinct
    · rfl
  · intro inputs found
    split at found
    · rw [Table.get_remove_self] at found
      contradiction
    · rename_i empty
      refine ⟨found, ?_⟩
      rw [inputsOf, found] at empty
      exact length_eq_zero_iff.mp (Nat.eq_zero_of_not_pos empty)

end Sequencer

/-- Two originals that are live at one time do not share a cell. -/
theorem live_cells (bounded : window ≤ maxSubmitWindow) (lowA : new ≤ a + replayHorizon)
    (highA : a ≤ new + window) (lowB : new ≤ b + replayHorizon) (highB : b ≤ new + window)
    (cell : a % replayWindowSize = b % replayWindowSize) : a = b := by
  have horizon : replayHorizon = 64 := rfl
  have size : replayWindowSize = 129 := rfl
  have most : maxSubmitWindow = 64 := rfl
  rw [size] at cell
  omega

/-- The rings remember exactly the submissions inside the replay horizon. -/
structure Recalls (s : Sequencer) (submissions : List Submission) : Prop where
  rings : ∀ player, (s.ring player).length = replayWindowSize
  within : ∀ sub ∈ submissions, sub.original ≤ s.next + s.window ∧ 0 < sub.target ∧
    s.players.contains sub.player = true
  recent : ∀ sub ∈ submissions, s.next ≤ sub.original + replayHorizon →
    s.slot sub.player sub.original = { original := sub.original, target := sub.target }
  source : ∀ player original, (s.slot player original).target ≠ 0 → ∃ sub ∈ submissions,
    sub.player = player ∧ sub.original = (s.slot player original).original ∧
      sub.target = (s.slot player original).target

theorem Recalls.repeats_iff (recalls : Recalls s submissions) (player : Int) (original : Nat) :
    repeats submissions s.next player original = true ↔
      s.next ≤ original + replayHorizon ∧ (s.slot player original).target ≠ 0 ∧
        (s.slot player original).original = original := by
  simp only [repeats, Bool.and_eq_true, decide_eq_true_eq, any_eq_true, beq_iff_eq]
  constructor
  · rintro ⟨horizon, sub, member, rfl, rfl⟩
    rw [recalls.recent sub member horizon]
    exact ⟨horizon, Nat.ne_of_gt (recalls.within sub member).2.1, rfl⟩
  · rintro ⟨horizon, held, same⟩
    obtain ⟨sub, member, player, original, -⟩ := recalls.source _ _ held
    exact ⟨horizon, sub, member, player, original.trans same⟩

/-- The pending frames hold the chosen inputs. -/
structure Chooses (s : Sequencer) (submissions : List Submission) : Prop where
  inputs : ∀ frame player, s.next ≤ frame →
    (s.inputsOf frame).get player = chosen submissions player frame
  kept : ∀ frame inputs, s.pending.get frame = some inputs →
    s.next ≤ frame ∧ frame ≤ s.next + s.window ∧ inputs.pairs ≠ []

theorem chosen_append (submissions : List Submission) (sub : Submission) (player : Int)
    (frame : Nat) (explicit : sub.explicitFor player frame = false ∨
      (submissions.find? (·.explicitFor player frame)).isSome)
    (folded : sub.foldedInto player frame = false) :
    chosen (submissions ++ [sub]) player frame = chosen submissions player frame := by
  unfold chosen
  rw [find?_append, find?_append]
  cases found : submissions.find? (·.explicitFor player frame) with
  | some first => rfl
  | none =>
    have explicit := explicit.resolve_right (by simp [found])
    simp [explicit, folded]

section submissions
open Sequencer
variable {s : Sequencer} {submissions : List Submission} {sub : Submission}

/-- A new identity is written over a cell that no live identity uses. -/
theorem Recalls.remember (recalls : Recalls s submissions) (window : s.window ≤ maxSubmitWindow)
    (known : s.players.contains sub.player = true) (high : sub.original ≤ s.next + s.window)
    (positive : 0 < sub.target)
    (fresh : repeats submissions s.next sub.player sub.original = false) :
    Recalls (s.remember sub.player sub.original sub.target
      (decide (s.next ≤ sub.original + replayHorizon))) (submissions ++ [sub]) := by
  have slots (player : Int) (original : Nat) := slot_remember (s := s) sub.player player
    sub.original sub.target original (decide (s.next ≤ sub.original + replayHorizon))
    (recalls.rings sub.player)
  have frame := remember_next (s := s) sub.player sub.original sub.target
    (decide (s.next ≤ sub.original + replayHorizon))
  refine ⟨fun player => ?_, fun other member => ?_, fun other member horizon => ?_,
    fun player original held => ?_⟩
  · rw [ring_remember]
    split
    · rw [length_set, recalls.rings]
    · exact recalls.rings player
  · rw [frame.1, frame.2.1, frame.2.2.2]
    rcases mem_snoc.mp member with earlier | rfl
    · exact recalls.within other earlier
    · exact ⟨high, positive, known⟩
  · rw [frame.1] at horizon
    rw [slots]
    rcases mem_snoc.mp member with earlier | rfl
    · rw [if_neg, recalls.recent other earlier horizon]
      rintro ⟨inHorizon, player, cell⟩
      have same : other.original = sub.original :=
        live_cells window horizon (recalls.within other earlier).1 (by simpa using inHorizon) high cell
      rw [repeats_of_mem earlier player same (by simpa using inHorizon)] at fresh
      contradiction
    · rw [if_pos ⟨by simpa using horizon, rfl, rfl⟩]
  · rw [slots] at held ⊢
    split
    · rename_i here
      exact ⟨sub, mem_append_right _ mem_cons_self, here.2.1.symm, rfl, rfl⟩
    · rename_i elsewhere
      rw [if_neg elsewhere] at held
      obtain ⟨other, member, rest⟩ := recalls.source player original held
      exact ⟨other, mem_append_left _ member, rest⟩

theorem Recalls.again (recalls : Recalls s submissions)
    (held : (s.slot sub.player sub.original).target ≠ 0)
    (same : (s.slot sub.player sub.original).original = sub.original)
    (target : sub.target = (s.slot sub.player sub.original).target) :
    Recalls s (submissions ++ [sub]) := by
  obtain ⟨first, known, owner, original, aimed⟩ := recalls.source _ _ held
  refine ⟨recalls.rings, fun other member => ?_, fun other member horizon => ?_,
    fun player original held => ?_⟩
  · rcases mem_snoc.mp member with earlier | rfl
    · exact recalls.within other earlier
    · rw [target, ← aimed, ← same, ← original, ← owner]
      exact recalls.within first known
  · rcases mem_snoc.mp member with earlier | rfl
    · exact recalls.recent other earlier horizon
    rw [target]
    cases cell : s.slot other.player other.original
    rw [cell] at same
    rw [← same]
  · obtain ⟨other, member, rest⟩ := recalls.source player original held
    exact ⟨other, mem_append_left _ member, rest⟩

theorem Recalls.chosen_again (recalls : Recalls s submissions)
    (held : (s.slot sub.player sub.original).target ≠ 0)
    (same : (s.slot sub.player sub.original).original = sub.original)
    (target : sub.target = (s.slot sub.player sub.original).target) (again : sub.again = true)
    (player : Int) (frame : Nat) :
    chosen (submissions ++ [sub]) player frame = chosen submissions player frame := by
  refine chosen_append _ _ _ _ ?_ (by simp [Submission.foldedInto, again])
  by_cases explicit : sub.explicitFor player frame = true
  · obtain ⟨first, known, owner, original, aimed⟩ := recalls.source _ _ held
    refine .inr (find?_isSome.mpr ⟨first, known, ?_⟩)
    simp only [Submission.explicitFor, Bool.and_eq_true, beq_iff_eq] at explicit ⊢
    rw [owner, aimed, original, same, ← target]
    exact explicit
  · exact .inl (Bool.eq_false_iff.mpr explicit)

theorem chosen_taken (fresh : sub.again = false) :
    chosen (submissions ++ [sub]) sub.player sub.target =
      match chosen submissions sub.player sub.target with
      | some existing =>
          if !existing.folded || sub.original != sub.target then some existing
          else some { payload := sub.payload, folded := sub.original != sub.target }
      | none => some { payload := sub.payload, folded := sub.original != sub.target } := by
  unfold chosen
  rw [find?_append, find?_append]
  cases submissions.find? (·.explicitFor sub.player sub.target) with
  | some first => simp
  | none =>
    by_cases own : sub.original = sub.target
    · have explicit : sub.explicitFor sub.player sub.target = true := by
        simp [Submission.explicitFor, own]
      cases submissions.find? (·.foldedInto sub.player sub.target) <;> simp [explicit, own]
    · have explicit : sub.explicitFor sub.player sub.target = false := by
        simp [Submission.explicitFor, own]
      have folded : sub.foldedInto sub.player sub.target = true := by
        simp [Submission.foldedInto, own, fresh]
      cases submissions.find? (·.foldedInto sub.player sub.target) <;> simp [explicit, folded, own]

theorem chosen_elsewhere (distinct : player ≠ sub.player ∨ frame ≠ sub.target) :
    chosen (submissions ++ [sub]) player frame = chosen submissions player frame := by
  refine chosen_append _ _ _ _ (.inl ?_) ?_ <;>
    · rcases distinct with other | other <;>
        simp [Submission.explicitFor, Submission.foldedInto, Ne.symm other]

section
variable (chooses : Chooses s submissions)
include chooses

theorem Chooses.congr
    (same : ∀ player frame, chosen other player frame = chosen submissions player frame) :
    Chooses s other :=
  ⟨fun frame player uncut => (chooses.inputs frame player uncut).trans (same player frame).symm,
    chooses.kept⟩

theorem Chooses.loses (uncut : s.next ≤ sub.target) (fresh : sub.again = false)
    (lost : s.loses sub.player sub.target (sub.original != sub.target) = true) :
    Chooses s (submissions ++ [sub]) := by
  refine chooses.congr fun player frame => ?_
  by_cases here : player = sub.player ∧ frame = sub.target
  · obtain ⟨rfl, rfl⟩ := here
    rw [chosen_taken fresh, ← chooses.inputs sub.target sub.player uncut]
    unfold Sequencer.loses at lost
    split at lost
    · rename_i held
      rw [held]
      simp [lost]
    · contradiction
  · exact chosen_elsewhere (not_and_or.mp here)

theorem Chooses.store (uncut : s.next ≤ sub.target)
    (within : sub.target ≤ s.next + s.window) (fresh : sub.again = false)
    (wins : s.loses sub.player sub.target (sub.original != sub.target) = false) :
    Chooses (s.store sub.player sub.target
      { payload := sub.payload, folded := sub.original != sub.target }) (submissions ++ [sub]) := by
  refine ⟨fun frame player later => ?_, fun frame inputs found => ?_⟩
  · rw [inputsOf_store]
    by_cases same : frame = sub.target
    · subst same
      rw [if_pos rfl, Table.get_set]
      split
      · rename_i owner
        subst owner
        rw [chosen_taken fresh, ← chooses.inputs sub.target sub.player uncut]
        unfold Sequencer.loses at wins
        cases held : (s.inputsOf sub.target).get sub.player with
        | none => rfl
        | some existing =>
          rw [held] at wins
          simp [wins]
      · rename_i other
        rw [chosen_elsewhere (.inl other)]
        exact chooses.inputs _ _ uncut
    · rw [if_neg same, chosen_elsewhere (.inr same)]
      exact chooses.inputs _ _ later
  · rw [Sequencer.store, Table.get_set] at found
    split at found
    · rename_i same
      subst same
      cases found
      refine ⟨uncut, within, fun empty => ?_⟩
      have member := Table.mem_pairs.mpr (Table.get_set_self (s.inputsOf sub.target) sub.player
        { payload := sub.payload, folded := sub.original != sub.target })
      contradiction
    · exact chooses.kept frame inputs found

theorem Chooses.remember (player : Int) (original target : Nat) (inHorizon : Bool) :
    Chooses (s.remember player original target inHorizon) submissions := by
  obtain ⟨next, window, pending, -⟩ := s.remember_next player original target inHorizon
  refine ⟨fun frame other later => ?_, fun frame inputs found => ?_⟩
  · rw [next] at later
    rw [inputsOf, pending]
    exact chooses.inputs frame other later
  · rw [pending] at found
    rw [next, window]
    exact chooses.kept frame inputs found

end

end submissions

structure Play.Sound (g : Play) : Prop where
  width : 0 < g.seq.window
  window : g.seq.window ≤ maxSubmitWindow
  recalls : Recalls g.seq g.submissions
  chooses : Chooses g.seq g.submissions
  next : g.seq.next = g.frames.length + 1
  ids : g.frames.map Frame.id = range' 1 g.frames.length
  ascending : ∀ frame ∈ g.frames, frame.inputs.Pairwise fun a b => a.player < b.player
  cut : ∀ frame ∈ g.frames, ∀ player payload,
    { player, payload : Input } ∈ frame.inputs ↔
      (chosen g.submissions player frame.id).map PendingInput.payload = some payload
  once : g.submissions.Pairwise fun a b => a.player = b.player → a.original = b.original →
    b.next ≤ b.original + replayHorizon → a.target = b.target

namespace Play.Sound
variable {g : Play}

section
variable (sound : g.Sound)
include sound

theorem cut_lt (member : frame ∈ g.frames) : frame.id < g.seq.next := by
  have listed := mem_map_of_mem (f := Frame.id) member
  rw [sound.ids, mem_range'_1] at listed
  rw [sound.next]
  omega

/-- An accepted submission keeps the invariant if it changes no frame that is cut. -/
theorem extend {seq : Sequencer} (next : seq.next = g.seq.next)
    (window : seq.window = g.seq.window) (recalls : Recalls seq (g.submissions ++ [sub]))
    (chooses : Chooses seq (g.submissions ++ [sub])) (cut : ∀ player frame, frame < g.seq.next →
      chosen (g.submissions ++ [sub]) player frame = chosen g.submissions player frame)
    (once : ∀ first ∈ g.submissions, first.player = sub.player → first.original = sub.original →
      sub.next ≤ sub.original + replayHorizon → first.target = sub.target) :
    Sound { g with seq, submissions := g.submissions ++ [sub] } := by
  refine { sound with
    width := window ▸ sound.width, window := window ▸ sound.window, recalls, chooses
    next := next.trans sound.next, cut := fun frame member player payload => ?_, once := ?_ }
  · rw [cut player frame.id (sound.cut_lt member)]
    exact sound.cut frame member player payload
  · refine pairwise_append.mpr ⟨sound.once, pairwise_singleton _ _, ?_⟩
    intro first member last only
    rw [mem_singleton.mp only]
    exact once first member

/-- A submission that is no repeat is chosen for its frame or loses there. -/
theorem taken (sub : Submission) {next : Sequencer}
    (known : g.seq.players.contains sub.player = true) (now : sub.next = g.seq.next)
    (fresh : sub.again = false)
    (first : repeats g.submissions g.seq.next sub.player sub.original = false)
    (within : sub.target ≤ g.seq.next + g.seq.window)
    (folds : folded = decide (sub.original < g.seq.next))
    (target : sub.target = if folded then g.seq.next else sub.original)
    (stored : (g.seq.loses sub.player sub.target folded = true ∧ next = g.seq) ∨
      (g.seq.loses sub.player sub.target folded = false ∧
        next = g.seq.store sub.player sub.target { payload := sub.payload, folded })) :
    Sound { g with
      seq := next.remember sub.player sub.original sub.target
        (decide (g.seq.next ≤ sub.original + replayHorizon))
      submissions := g.submissions ++ [sub] } := by
  have aimed : g.seq.next ≤ sub.target ∧ folded = (sub.original != sub.target) ∧
      sub.original ≤ g.seq.next + g.seq.window := by
    rw [folds] at target ⊢
    by_cases late : sub.original < g.seq.next
    · rw [if_pos (decide_eq_true late)] at target
      rw [target]
      exact ⟨Nat.le_refl _, by simp [late, Nat.ne_of_lt late], by omega⟩
    · rw [if_neg (by simpa using late)] at target
      rw [target] at within ⊢
      exact ⟨Nat.not_lt.mp late, by simp [late], within⟩
  obtain ⟨uncut, marked, high⟩ := aimed
  rw [marked] at stored
  have positive : 0 < sub.target := by
    have := sound.next
    omega
  obtain ⟨kept, width, -, -⟩ := next.remember_next sub.player sub.original sub.target
    (decide (g.seq.next ≤ sub.original + replayHorizon))
  have elsewhere (player : Int) (cut : Nat) (earlier : cut < g.seq.next) :
      chosen (g.submissions ++ [sub]) player cut = chosen g.submissions player cut :=
    chosen_elsewhere (.inr (by omega))
  have single (earlier : Submission) (member : earlier ∈ g.submissions)
      (owner : earlier.player = sub.player) (asked : earlier.original = sub.original)
      (horizon : sub.next ≤ sub.original + replayHorizon) : earlier.target = sub.target := by
    rw [repeats_of_mem member owner asked (now ▸ horizon)] at first
    contradiction
  rcases stored with ⟨lost, rfl⟩ | ⟨wins, rfl⟩
  · refine sound.extend kept width (sound.recalls.remember sound.window known high positive first) ?_
      elsewhere single
    exact (sound.chooses.loses uncut fresh lost).remember _ _ _ _
  · have recalls : Recalls (g.seq.store sub.player sub.target
        { payload := sub.payload, folded := sub.original != sub.target }) g.submissions :=
      { sound.recalls with }
    refine sound.extend kept width (recalls.remember sound.window known high positive first) ?_
      elsewhere single
    exact (sound.chooses.store uncut within fresh wins).remember _ _ _ _

section
variable (bounded : g.seq.next + g.seq.window < 2 ^ 32)
include bounded

theorem submit (player : Int)
    (original : Nat) (payload : Payload) : (g.step (.submit player original payload)).Sound := by
  have submits := Sequencer.submitInput_submits player original payload bounded
  have hits := sound.recalls.repeats_iff player original
  rw [Play.step]
  generalize g.seq.submitInput player original payload = answer at submits
  obtain ⟨seq, result⟩ := answer
  cases submits with
  | refused => exact sound
  | repeated known horizon held same =>
    have again := hits.mpr ⟨horizon, held, same⟩
    refine sound.extend rfl rfl (sound.recalls.again held same rfl) ?_ ?_ ?_
    · exact sound.chooses.congr (sound.recalls.chosen_again held same rfl again)
    · exact fun player frame _ => sound.recalls.chosen_again held same rfl again player frame
    · rintro first member owner asked -
      have slot := sound.recalls.recent first member (asked ▸ horizon)
      rw [owner, asked] at slot
      rw [slot]
  | taken known within folds target fresh stored =>
    have first : repeats g.submissions g.seq.next player original = false := by
      rw [Bool.eq_false_iff]
      intro hit
      obtain ⟨horizon, held, same⟩ := hits.mp hit
      exact fresh horizon held same
    exact sound.taken ⟨player, original, payload, _, _, _⟩ known rfl first first within folds target stored

theorem advance : (g.step .advance).Sound := by
  have width := sound.width
  rw [Play.step]
  split
  · exact sound
  rename_i frame seq made
  have cuts := Sequencer.advance_cuts (by omega) made
  have slots (player : Int) (original : Nat) :
      seq.slot player original = g.seq.slot player original := by
    simp [Sequencer.slot, Sequencer.ring, cuts.accepted]
  refine
    { width := cuts.window ▸ sound.width
      window := cuts.window ▸ sound.window
      recalls := ⟨fun player => ?_, fun sub member => ?_, fun sub member horizon => ?_,
        fun player original held => ?_⟩
      chooses := ⟨fun frame player uncut => ?_, fun frame inputs found => ?_⟩
      next := ?_
      ids := ?_
      ascending := fun frame member => ?_
      cut := fun frame member => ?_
      once := sound.once }
  · rw [Sequencer.ring, cuts.accepted]
    exact sound.recalls.rings player
  · rw [cuts.next, cuts.window, cuts.players]
    have := sound.recalls.within sub member
    exact ⟨by omega, this.2⟩
  · rw [cuts.next] at horizon
    rw [slots]
    exact sound.recalls.recent sub member (by omega)
  · rw [slots] at held ⊢
    exact sound.recalls.source player original held
  · rw [cuts.next] at uncut
    rw [Sequencer.inputsOf, cuts.others frame (by omega)]
    exact sound.chooses.inputs frame player (by omega)
  · rw [cuts.next, cuts.window]
    by_cases here : frame = g.seq.next
    · -- the map of the cut frame is gone if it was there: a stored map has an input
      exfalso
      rw [here] at found
      obtain ⟨before, empty⟩ := cuts.cut inputs found
      exact (sound.chooses.kept _ _ before).2.2 empty
    · rw [cuts.others frame here] at found
      obtain ⟨low, high, filled⟩ := sound.chooses.kept frame inputs found
      exact ⟨by omega, by omega, filled⟩
  · rw [cuts.next, sound.next, length_append, length_singleton]
  · rw [map_append, map_singleton, sound.ids, length_append,
      length_singleton, cuts.id, sound.next, range'_concat]
    simp [Nat.add_comm]
  · rcases mem_snoc.mp member with earlier | rfl
    · exact sound.ascending frame earlier
    · exact cuts.ascending
  · rcases mem_snoc.mp member with earlier | rfl
    · exact sound.cut frame earlier
    rw [cuts.id]
    intro player payload
    rw [cuts.inputs, sound.chooses.inputs _ _ (Nat.le_refl _)]

theorem step : ∀ call, (g.step call).Sound
  | .submit player frame payload => sound.submit bounded player frame payload
  | .advance => sound.advance bounded

/-- Inside the horizon an accepted original answers with its target, or refuses a payload over
the limit, and changes nothing. -/
theorem repeated
    (member : sub ∈ g.submissions) (horizon : g.seq.next ≤ sub.original + replayHorizon)
    (payload : Payload) : g.seq.submitInput sub.player sub.original payload = (g.seq,
      if (payload.length : Int) ≤ g.seq.maxInput then .ok sub.target else .error .payloadTooBig) := by
  obtain ⟨high, positive, known⟩ := sound.recalls.within sub member
  have slot := sound.recalls.recent sub member horizon
  have within : ¬ g.seq.next + g.seq.window <
      if decide (sub.original < g.seq.next) = true then g.seq.next else sub.original := by
    split <;> omega
  unfold Sequencer.submitInput
  rw [if_neg (by simpa using known)]
  by_cases fits : (payload.length : Int) ≤ g.seq.maxInput
  case neg => rw [if_pos (Int.not_le.mp fits), if_neg fits]
  rw [if_neg (Int.not_lt.mpr fits), if_pos fits, Nat.mod_eq_of_lt bounded, if_neg within, slot]
  have remembered : g.seq.replayFloor ≤ sub.original := (g.seq.replayFloor_le _).mpr horizon
  rw [if_pos ⟨decide_eq_true remembered, Nat.ne_of_gt positive, rfl⟩]

end

end

end Play.Sound

/-- The constructor admits windows of 1 to 64 frames only. -/
theorem newSequencer_shape (legal : newSequencer config = .ok s) :
    (0 < s.window ∧ s.window ≤ maxSubmitWindow) ∧ s.next = 1 ∧ s.pending = ∅ ∧
      s.accepted = ∅ := by
  unfold newSequencer at legal
  generalize chosen : (if config.submitWindow = 0 then 2 else config.submitWindow) = window at legal
  have positive : 0 < window := by
    rw [← chosen]
    split <;> omega
  simp only [bind, Except.bind, pure, Except.pure] at legal
  by_cases wide : maxSubmitWindow < window
  · split at legal <;> contradiction
  repeat' split at legal
  all_goals first
    | contradiction
    | cases legal
      exact ⟨⟨positive, Nat.not_lt.mp wide⟩, rfl, rfl, rfl⟩

theorem Play.Sound.start (legal : newSequencer config = .ok s) : Play.Sound { seq := s } := by
  obtain ⟨⟨width, window⟩, next, pending, accepted⟩ := newSequencer_shape legal
  have slots (player : Int) (original : Nat) : (s.slot player original).target = 0 := by
    simp only [Sequencer.slot, Sequencer.ring, accepted, Table.get_empty, Option.getD_none]
    rw [getD_eq_getElem?_getD, getElem?_replicate]
    split <;> rfl
  refine
    { width, window
      recalls := ⟨fun player => ?_, nofun, nofun, fun player original held => ?_⟩
      chooses := ⟨fun frame player _ => ?_, fun frame inputs found => ?_⟩
      next
      ids := rfl
      ascending := nofun
      cut := nofun
      once := .nil }
  · simp [Sequencer.ring, accepted]
  · exact absurd (slots player original) held
  · simp [Sequencer.inputsOf, pending, chosen]
  · simp [pending] at found

/-- The invariant holds after every run whose frame IDs stay clear of the last window. -/
theorem Play.run_sound (start : g.Sound)
    (bounded : Along Play.step (fun g _ => g.seq.next + g.seq.window ≤ 2 ^ 32 - 1) g calls) :
    (run Play.step g calls).Sound :=
  invariant_along (fun _ call bounded sound => sound.step (by omega) call) start bounded

/-- Frames are cut in order with one input a seat. An original inside the horizon is answered
with its one frame or refused for its size, and changes nothing. A frame's input is the first
explicit submission or else the first folded into it; inputs wait only for the window. -/
theorem sequenced_once (config : SequencerConfig) (s : Sequencer) (calls : List Call)
    (legal : newSequencer config = .ok s)
    (bounded : Along Play.step (fun g _ => g.seq.next + g.seq.window ≤ 2 ^ 32 - 1)
      { seq := s } calls) :
    let g := run Play.step { seq := s } calls
    g.frames.map Frame.id = range' 1 g.frames.length ∧
    g.seq.next = g.frames.length + 1 ∧
    (∀ frame ∈ g.frames, frame.inputs.Pairwise fun a b => a.player < b.player) ∧
    (g.seq.next + g.seq.window ≤ 2 ^ 32 - 1 → ∀ sub ∈ g.submissions,
      g.seq.next ≤ sub.original + replayHorizon → ∀ payload : Payload,
        g.seq.submitInput sub.player sub.original payload = (g.seq,
          if (payload.length : Int) ≤ g.seq.maxInput then .ok sub.target
          else .error .payloadTooBig)) ∧
    (g.submissions.Pairwise fun a b => a.player = b.player → a.original = b.original →
      b.next ≤ b.original + replayHorizon → a.target = b.target) ∧
    (∀ frame ∈ g.frames, ∀ player payload,
      { player, payload : Input } ∈ frame.inputs ↔
        (chosen g.submissions player frame.id).map PendingInput.payload = some payload) ∧
    ∀ frame inputs, g.seq.pending.get frame = some inputs →
      g.seq.next ≤ frame ∧ frame ≤ g.seq.next + g.seq.window := by
  have sound := Play.run_sound (Play.Sound.start legal) bounded
  refine ⟨sound.ids, sound.next, sound.ascending, fun live sub member horizon payload => ?_,
    sound.once, sound.cut, fun frame inputs found => ?_⟩
  · exact sound.repeated (by omega) member horizon payload
  · obtain ⟨low, high, -⟩ := sound.chooses.kept frame inputs found
    exact ⟨low, high⟩

namespace Sample

def config : SequencerConfig := { players := [7, 8], maxInputBytes := 1 }

def sequencer : Sequencer := { players := [7, 8], window := 2, maxInput := 1 }

/-- A repeat before and after its frame is cut, and a late input that an explicit one
replaces. -/
def calls : List Call :=
  [.submit 7 1 [1], .submit 7 1 [2], .advance, .submit 7 1 [3], .submit 8 1 [4],
    .submit 8 2 [5], .advance]

end Sample

open Sample

theorem sequenced_once_sample : newSequencer config = .ok sequencer ∧
    Along Play.step (fun g _ => g.seq.next + g.seq.window ≤ 2 ^ 32 - 1)
      { seq := sequencer } calls ∧
    let g := run Play.step { seq := sequencer } calls
    g.frames.map Frame.id = range' 1 g.frames.length ∧
    g.frames = [{ id := 1, inputs := [{ player := 7, payload := [1] }] },
      { id := 2, inputs := [{ player := 8, payload := [5] }] }] :=
  ⟨rfl, by decide, (sequenced_once config sequencer calls rfl
    (by decide)).1, by decide +kernel⟩

/-- A repeat whose payload is over the limit is refused, whatever was accepted before. -/
theorem oversized_repeat_refused : newSequencer config = .ok sequencer ∧
    let g := run Play.step { seq := sequencer } [.submit 7 1 [1]]
    g.submissions.map Submission.target = [1] ∧ g.seq.next ≤ 1 + replayHorizon ∧
      g.seq.next + g.seq.window ≤ 2 ^ 32 - 1 ∧
      (g.seq.submitInput 7 1 [2, 3]).2 = .error .payloadTooBig :=
  ⟨rfl, by decide, by decide, by decide, rfl⟩

end Roost.Lockstep
