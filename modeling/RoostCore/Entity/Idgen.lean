import RoostCore.Entity.Remote
import RoostCore.Run
import RoostCore.Updates

/-! The generator of entity numbers. Goroutines interleave at every load, store and
compare-and-swap; a history keeps what the allocator and the calls returned. -/
namespace Roost.Entity
open Function Updates

def blockSize : Nat := 2 ^ 20

def maxBlockNo : Nat := (2 ^ 51 - 1) / 2 ^ 20

inductive IdError (E : Type) where
  | acquire (err : E)
  | invalidBlockNo
  | blockExhausted

/-- Where a goroutine stands in `Generate` and `rotateBlock`, with the words it has loaded. -/
inductive Point (E : Type) where
  | idle
  | loadNext
  | loadEnd (next : Nat)
  | swap (next stop : Nat)
  | rotate
  | wait
  | acquire
  | storeNext (blockNo : Nat)
  | storeEnd (blockNo : Nat)
  | release (err : Option (IdError E))

inductive IdEvent (E : Type) where
  | acquired (t : Nat) (result : Except E Nat)
  | returned (t : Nat) (result : Except (IdError E) Nat)

def IdEvent.owner : IdEvent E → Nat
  | .acquired t _ | .returned t _ => t

/-- `rotating` names the goroutine that swapped it from zero; `last` is the block number the next
one has to exceed. -/
structure IdGen (E : Type) where
  next : Nat
  stop : Nat
  rotating : Option Nat := none
  allocates : Bool
  last : Nat
  points : Nat → Point E := fun _ => .idle
  history : List (IdEvent E) := []

/-- What `resetBlock` stores; block 0 starts at 1. -/
def resetNext (blockNo : Nat) : Nat := if blockNo = 0 then 1 else blockNo * blockSize % 2 ^ 64

def resetEnd (blockNo : Nat) : Nat := (blockNo * blockSize % 2 ^ 64 + blockSize) % 2 ^ 64

def newIDGen (initialBlock : Nat) (allocates : Bool) : Except (IdError E) (IdGen E) :=
  if maxBlockNo < initialBlock then .error .invalidBlockNo
  else .ok { next := resetNext initialBlock, stop := resetEnd initialBlock, allocates, last := initialBlock }

namespace IdGen
variable {E : Type}

def goto (g : IdGen E) (t : Nat) (point : Point E) : IdGen E :=
  { g with points := update g.points t point }

def answer (g : IdGen E) (t : Nat) (result : Except (IdError E) Nat) : IdGen E :=
  { g.goto t .idle with history := .returned t result :: g.history }

inductive Move (E : Type) where
  | call (t : Nat)
  | step (t : Nat)
  | acquire (t : Nat) (result : Except E Nat)

/-- One atomic step of a goroutine. The allocator is stored once, before the first call. -/
def step (g : IdGen E) : Move E → IdGen E
  | .call t =>
      match g.points t with
      | .idle => g.goto t .loadNext
      | _ => g
  | .step t =>
      match g.points t with
      | .loadNext => g.goto t (.loadEnd g.next)
      | .loadEnd next => g.goto t (if next < g.stop then .swap next g.stop else .rotate)
      | .swap next _ =>
          if g.next = next then { g.answer t (.ok next) with next := (next + 1) % 2 ^ 64 }
          else g.goto t .loadNext
      | .rotate =>
          if g.allocates then
            match g.rotating with
            | none => { g.goto t .acquire with rotating := some t }
            | some _ => g.goto t .wait
          else g.answer t (.error .blockExhausted)
      | .wait => if g.rotating.isSome then g else g.goto t .loadNext
      | .storeNext blockNo => { g.goto t (.storeEnd blockNo) with next := resetNext blockNo }
      | .storeEnd blockNo => { g.goto t (.release none) with stop := resetEnd blockNo }
      | .release none => { g.goto t .loadNext with rotating := none }
      | .release (some err) => { g.answer t (.error err) with rotating := none }
      | _ => g
  | .acquire t result =>
      match g.points t, result with
      | .acquire, .error err =>
          { g.goto t (.release (some (.acquire err))) with history := .acquired t result :: g.history }
      | .acquire, .ok blockNo =>
          -- the allocator returns growing numbers
          if g.last < blockNo then
            { g.goto t (if maxBlockNo < blockNo then .release (some .invalidBlockNo)
                else .storeNext blockNo) with
              last := blockNo, history := .acquired t result :: g.history }
          else g
      | _, _ => g

/-- The numbers that were returned, the latest first. -/
def numbers (g : IdGen E) : List Nat :=
  g.history.filterMap fun
    | .returned _ (.ok n) => some n
    | _ => none

end IdGen

/-- A call fails with the error its own allocation just returned, over a block number out of
range, or without an allocator. -/
def Explained (allocates : Bool) (older : List (IdEvent E)) (t : Nat) : IdError E → Prop
  | .acquire err => older.find? (·.owner = t) = some (.acquired t (.error err))
  | .invalidBlockNo => ∃ blockNo, maxBlockNo < blockNo ∧
      older.find? (·.owner = t) = some (.acquired t (.ok blockNo))
  | .blockExhausted => allocates = false

def Allowed (allocates : Bool) (older : List (IdEvent E)) : IdEvent E → Prop
  | .returned t (.error err) => Explained allocates older t err
  | _ => True

section
variable {E : Type} {b initial t u : Nat} {g next : IdGen E} {point : Point E}

theorem resetEnd_eq (small : b ≤ maxBlockNo) : resetEnd b = (b + 1) * blockSize := by
  simp only [resetEnd, maxBlockNo, blockSize] at small ⊢
  omega

theorem resetNext_eq (small : b ≤ maxBlockNo) (later : b ≠ 0) : resetNext b = b * blockSize := by
  simp only [resetNext, maxBlockNo, blockSize, if_neg later] at small ⊢
  omega

/-- The allocator returned the block, or the generator started with it. -/
def Granted (initial : Nat) (history : List (IdEvent E)) (b : Nat) : Prop :=
  b = initial ∨ ∃ t, .acquired t (.ok b) ∈ history

/-- The goroutine won the swap of `rotating` and has not stored zero yet. -/
def Point.Rotates : Point E → Prop
  | .acquire | .storeNext _ | .storeEnd _ | .release _ => True
  | _ => False

namespace IdGen

/-- What a goroutine knows of the shared words at its point. -/
def At (initial : Nat) (g : IdGen E) (t : Nat) : Point E → Prop
  | .idle | .loadNext | .rotate | .wait => True
  | .loadEnd n => n ≤ g.next
  | .swap n e => n ≤ g.next ∧ n < e ∧ e ≤ g.stop
  | .acquire => g.next ≤ g.stop
  | .storeNext b => g.next ≤ g.stop ∧ g.stop ≤ b * blockSize ∧ b ≤ maxBlockNo ∧ b ≤ g.last ∧
      Granted initial g.history b
  | .storeEnd b => g.next = b * blockSize ∧ g.stop ≤ b * blockSize ∧ b ≤ maxBlockNo ∧ b ≤ g.last ∧
      Granted initial g.history b
  | .release err => g.next ≤ g.stop ∧ ∀ e ∈ err, Explained g.allocates g.history t e

/-- The block that ends at `stop`. -/
def Open (initial : Nat) (g : IdGen E) : Prop :=
  ∃ b ≤ g.last, Granted initial g.history b ∧ g.stop = (b + 1) * blockSize ∧
    (g.next < g.stop → b * blockSize ≤ g.next)

structure Sound (initial : Nat) (g : IdGen E) : Prop where
  points : ∀ t, g.At initial t (g.points t)
  rotating : ∀ t, (g.points t).Rotates ↔ g.rotating = some t
  calm : g.rotating = none → g.next ≤ g.stop
  block : g.Open initial
  bounded : g.stop < 2 ^ 64
  positive : 0 < g.next
  unique : g.numbers.Nodup
  issued : ∀ n ∈ g.numbers, n < g.next ∧ n ≠ 0 ∧ Granted initial g.history (n / blockSize)
  lawful : Lawful (Allowed g.allocates) g.history

/-- A number is returned as `next` moves past it. -/
def Logs (g next : IdGen E) (t : Nat) : Prop :=
  next.history = g.history ∨ ∃ event, event.owner = t ∧ next.history = event :: g.history ∧
    Allowed g.allocates g.history event ∧
    ∀ u n, event = .returned u (.ok n) → n = g.next ∧ g.next < g.stop ∧ g.next < next.next

/-- What a step of a goroutine may do to the shared words: they only grow, and only the one that
rotates moves `next` past the block. -/
structure Passes (g next : IdGen E) (t : Nat) : Prop where
  words : g.next ≤ next.next ∧ g.stop ≤ next.stop ∧ g.last ≤ next.last
  allocates : next.allocates = g.allocates
  history : g.Logs next t
  others : ¬ (g.points t).Rotates → next.stop = g.stop ∧
    (next.next = g.next ∨ g.next < g.stop ∧ next.next ≤ g.stop)

theorem Passes.granted (passes : g.Passes next t) (granted : Granted initial g.history b) :
    Granted initial next.history b := by
  rcases passes.history with same | ⟨event, -, more, -⟩
  · rwa [same]
  · rw [more]
    exact granted.imp_right fun ⟨u, member⟩ => ⟨u, List.mem_cons_of_mem _ member⟩

theorem Passes.explained (passes : g.Passes next t) (other : u ≠ t)
    (explained : Explained g.allocates g.history u err) : Explained next.allocates next.history u err := by
  have found : next.history.find? (·.owner = u) = g.history.find? (·.owner = u) := by
    rcases passes.history with same | ⟨event, owner, more, -⟩
    · rw [same]
    · rw [more, List.find?_cons_of_neg]
      simp [owner, Ne.symm other]
  cases err <;> simpa only [Explained, found, passes.allocates] using explained

theorem Sound.stays (sound : g.Sound initial) (passes : g.Passes next t) (other : u ≠ t) :
    next.At initial u (g.points u) := by
  have known := sound.points u
  obtain ⟨ahead, above, later⟩ := passes.words
  have others (rotates : (g.points u).Rotates) : next.stop = g.stop ∧
      (next.next = g.next ∨ g.next < g.stop ∧ next.next ≤ g.stop) := by
    refine passes.others fun both => other (Option.some.inj ?_)
    exact ((sound.rotating u).mp rotates).symm.trans ((sound.rotating t).mp both)
  have granted (b : Nat) (old : Granted initial g.history b) := passes.granted old
  cases place : g.points u <;> rw [place] at known others <;> simp only [At] at known ⊢ <;>
    simp only [Point.Rotates, forall_const] at others
  case loadEnd n => omega
  case swap n e => omega
  case acquire => omega
  case storeNext b => exact ⟨by omega, by omega, known.2.2.1, by omega, granted b known.2.2.2.2⟩
  case storeEnd b => exact ⟨by omega, by omega, known.2.2.1, by omega, granted b known.2.2.2.2⟩
  case release err => exact ⟨by omega, fun e member => passes.explained other (known.2 e member)⟩

/-- The step of one goroutine: what it does to the shared words, where it goes and who rotates. -/
theorem Sound.after (sound : g.Sound initial) (passes : g.Passes next t)
    (points : next.points = update g.points t point) (here : next.At initial t point)
    (rotates : point.Rotates ↔ next.rotating = some t)
    (rotating : ∀ u, u ≠ t → (next.rotating = some u ↔ g.rotating = some u))
    (calm : next.rotating = none → next.next ≤ next.stop)
    (block : next.stop = g.stop ∨ next.Open initial ∧ next.stop < 2 ^ 64) : next.Sound initial := by
  obtain ⟨ahead, above, later⟩ := passes.words
  obtain ⟨b, old, granted, ends, inside⟩ := sound.block
  have opened : next.Open initial ∧ next.stop < 2 ^ 64 := by
    rcases block with same | new
    · have := sound.bounded
      refine ⟨⟨b, by omega, passes.granted granted, by omega, fun less => ?_⟩, by omega⟩
      have := inside (by omega)
      omega
    · exact new
  have issued (n : Nat) (member : n ∈ g.numbers) :
      n < next.next ∧ n ≠ 0 ∧ Granted initial next.history (n / blockSize) := by
    obtain ⟨less, nonzero, granted⟩ := sound.issued n member
    exact ⟨by omega, nonzero, passes.granted granted⟩
  have numbers : next.numbers = g.numbers ∨ next.numbers = g.next :: g.numbers ∧ g.next < g.stop ∧
      g.next < next.next := by
    rcases passes.history with same | ⟨event, -, more, -, number⟩
    · exact .inl (by simp only [numbers, same])
    · cases event with
      | acquired => exact .inl (by simp [IdGen.numbers, more])
      | returned u result =>
        cases result with
        | error => exact .inl (by simp [IdGen.numbers, more])
        | ok n =>
          obtain ⟨rfl, rest⟩ := number u n rfl
          exact .inr ⟨by simp [IdGen.numbers, more], rest⟩
  refine ⟨fun u => ?_, fun u => ?_, calm, opened.1, opened.2, Nat.lt_of_lt_of_le sound.positive ahead,
    ?_, ?_, ?_⟩
  · rw [points]
    by_cases same : u = t
    · rwa [same, update_self]
    · rw [update_of_ne same]
      exact sound.stays passes same
  · rw [points]
    by_cases same : u = t
    · rwa [same, update_self]
    · rw [update_of_ne same, sound.rotating, rotating u same]
  · rcases numbers with same | ⟨more, -⟩
    · rw [same]
      exact sound.unique
    · rw [more]
      exact List.nodup_cons.mpr ⟨fun again => Nat.lt_irrefl _ (sound.issued _ again).1, sound.unique⟩
  · intro n member
    rcases numbers with same | ⟨more, less, past⟩
    · exact issued n (same ▸ member)
    · rw [more] at member
      rcases List.mem_cons.mp member with rfl | earlier
      · have low := inside less
        have number : g.next / blockSize = b := by
          simp only [blockSize] at ends low ⊢
          omega
        exact ⟨past, Nat.ne_of_gt sound.positive, number ▸ passes.granted granted⟩
      · exact issued n earlier
  · rw [passes.allocates]
    rcases passes.history with same | ⟨event, -, more, allowed, -⟩
    · exact same ▸ sound.lawful
    · exact more ▸ ⟨allowed, sound.lawful⟩

theorem Sound.quiet (sound : g.Sound initial) (same : next.next = g.next ∧ next.stop = g.stop)
    (later : g.last ≤ next.last) (allocates : next.allocates = g.allocates) (logs : g.Logs next t)
    (points : next.points = update g.points t point) (here : next.At initial t point)
    (rotates : point.Rotates ↔ next.rotating = some t)
    (rotating : ∀ u, u ≠ t → (next.rotating = some u ↔ g.rotating = some u))
    (calm : next.rotating = none → g.next ≤ g.stop) : next.Sound initial := by
  obtain ⟨low, high⟩ := same
  refine sound.after ⟨⟨?_, ?_, later⟩, allocates, logs, fun _ => ⟨high, .inl low⟩⟩ points here rotates
    rotating ?_ (.inl high)
  · exact Nat.le_of_eq low.symm
  · exact Nat.le_of_eq high.symm
  · rwa [low, high]

theorem Sound.goto (sound : g.Sound initial) (t : Nat) (known : g.At initial t point)
    (rotates : point.Rotates ↔ g.rotating = some t) : (g.goto t point).Sound initial := by
  refine sound.quiet (t := t) ⟨rfl, rfl⟩ (Nat.le_refl _) rfl (.inl rfl) rfl ?_ rotates
    (fun _ _ => Iff.rfl) sound.calm
  cases point <;> exact known

theorem Sound.step_step (sound : g.Sound initial) (t : Nat) : (g.step (.step t)).Sound initial := by
  have known := sound.points t
  have owner := sound.rotating t
  have bounded := sound.bounded
  cases place : g.points t <;> rw [place] at known owner <;> simp only [IdGen.step, place]
  case idle => exact sound
  case loadNext => exact sound.goto t (Nat.le_refl _) owner
  case loadEnd n =>
    split
    · exact sound.goto t ⟨known, ‹_›, Nat.le_refl _⟩ owner
    · exact sound.goto t trivial owner
  case swap n e =>
    obtain ⟨-, low, high⟩ := known
    split
    · rename_i same
      have up : (n + 1) % 2 ^ 64 = g.next + 1 := by omega
      refine sound.after (t := t) ⟨?_, rfl, .inr ⟨_, rfl, rfl, trivial, ?_⟩,
        fun _ => ⟨rfl, .inr ?_⟩⟩ rfl trivial owner (fun _ _ => Iff.rfl) (fun _ => ?_) (.inl rfl) <;>
        simp only [answer, IdGen.goto, up]
      · omega
      · rintro u m ⟨⟩
        omega
      · omega
      · omega
    · exact sound.goto t trivial owner
  case rotate =>
    split
    · cases free : g.rotating with
      | none =>
        exact sound.quiet (t := t) ⟨rfl, rfl⟩ (Nat.le_refl _) rfl (.inl rfl) rfl (sound.calm free)
          (by simp [Point.Rotates]) (fun u other => by simp [free, Ne.symm other]) nofun
      | some u => exact sound.goto t trivial owner
    · exact sound.quiet (t := t) ⟨rfl, rfl⟩ (Nat.le_refl _) rfl
        (.inr ⟨_, rfl, rfl, eq_false_of_ne_true ‹_›, nofun⟩) rfl trivial owner (fun _ _ => Iff.rfl) sound.calm
  case acquire => exact sound
  case wait =>
    split
    · exact sound
    · exact sound.goto t trivial owner
  case storeNext b =>
    have mine := owner.mp trivial
    obtain ⟨low, high, small, old, granted⟩ := known
    obtain ⟨c, -, -, ends, -⟩ := sound.block
    have first : resetNext b = b * blockSize := resetNext_eq small (by simp only [blockSize] at high ends; omega)
    exact sound.after (t := t) ⟨⟨by simp only [first]; omega, Nat.le_refl _, Nat.le_refl _⟩, rfl, .inl rfl,
      fun calm => absurd (place ▸ trivial) calm⟩ rfl ⟨first, high, small, old, granted⟩ owner
      (fun _ _ => Iff.rfl) (fun free => nomatch mine.symm.trans free) (.inl rfl)
  case storeEnd b =>
    have mine := owner.mp trivial
    obtain ⟨first, high, small, old, granted⟩ := known
    have ends := resetEnd_eq small
    have room : g.next ≤ resetEnd b ∧ g.stop ≤ resetEnd b ∧ resetEnd b < 2 ^ 64 := by
      simp only [blockSize, maxBlockNo] at first high ends small
      omega
    exact sound.after (t := t) ⟨⟨Nat.le_refl _, room.2.1, Nat.le_refl _⟩, rfl, .inl rfl,
      fun calm => absurd (place ▸ trivial) calm⟩ rfl ⟨room.1, nofun⟩ owner
      (fun _ _ => Iff.rfl) (fun free => nomatch mine.symm.trans free)
      (.inr ⟨⟨b, old, granted, ends, fun _ => Nat.le_of_eq first.symm⟩, room.2.2⟩)
  case release err =>
    have mine := owner.mp trivial
    have free (u : Nat) (other : u ≠ t) : none = some u ↔ g.rotating = some u := by
      simp [mine, Ne.symm other]
    cases err with
    | none =>
      exact sound.quiet (t := t) ⟨rfl, rfl⟩ (Nat.le_refl _) rfl (.inl rfl) rfl trivial
        (by simp [Point.Rotates]) free (fun _ => known.1)
    | some err =>
      exact sound.quiet (t := t) ⟨rfl, rfl⟩ (Nat.le_refl _) rfl
        (.inr ⟨_, rfl, rfl, known.2 err rfl, nofun⟩) rfl trivial (by simp [Point.Rotates]) free
        (fun _ => known.1)

theorem Sound.step (sound : g.Sound initial) (move : Move E) : (g.step move).Sound initial := by
  cases move with
  | call t =>
    have owner := sound.rotating t
    cases place : g.points t <;> rw [place] at owner <;> simp only [IdGen.step, place]
    case idle => exact sound.goto t trivial owner
    all_goals exact sound
  | step t => exact sound.step_step t
  | acquire t result =>
    have known := sound.points t
    have owner := sound.rotating t
    obtain ⟨c, old, -, ends, -⟩ := sound.block
    cases place : g.points t <;> simp only [IdGen.step, place]
    case acquire =>
      rw [place] at known owner
      have mine := owner.mp trivial
      have found (event : IdEvent E) (own : event.owner = t) :
          (event :: g.history).find? (·.owner = t) = some event := List.find?_cons_of_pos (by simp [own])
      cases result with
      | error err =>
        exact sound.quiet (t := t) ⟨rfl, rfl⟩ (Nat.le_refl _) rfl (.inr ⟨_, rfl, rfl, trivial, nofun⟩) rfl
          ⟨known, by rintro e ⟨⟩; exact found _ rfl⟩ owner (fun _ _ => Iff.rfl) (fun _ => known)
      | ok b =>
        simp only
        split
        · rename_i grows
          refine sound.quiet (t := t) ⟨rfl, rfl⟩ (Nat.le_of_lt grows) rfl
            (.inr ⟨_, rfl, rfl, trivial, nofun⟩) rfl ?_ ?_ (fun _ _ => Iff.rfl) (fun _ => known)
          · split
            · exact ⟨known, by rintro e ⟨⟩; exact ⟨b, ‹_›, found _ rfl⟩⟩
            · have last : g.stop ≤ b * blockSize := by
                simp only [blockSize] at ends ⊢
                omega
              exact ⟨known, last, Nat.le_of_not_lt ‹_›, Nat.le_refl _, .inr ⟨t, .head _⟩⟩
          · split <;> exact owner
        · exact sound
    all_goals exact sound

theorem Sound.new {allocates : Bool} (made : newIDGen initial allocates = .ok g) : g.Sound initial := by
  unfold newIDGen at made
  split at made
  · cases made
  cases made
  have ends := resetEnd_eq (Nat.le_of_not_lt ‹_›)
  have first : 0 < resetNext initial ∧ initial * blockSize ≤ resetNext initial ∧
      resetNext initial ≤ resetEnd initial ∧ resetEnd initial < 2 ^ 64 := by
    simp only [resetNext, ends, maxBlockNo, blockSize] at *
    split <;> omega
  refine ⟨fun _ => trivial, fun _ => by simp [Point.Rotates], fun _ => first.2.2.1,
    ⟨initial, Nat.le_refl _, .inl rfl, ends, fun _ => first.2.1⟩, first.2.2.2, first.1, List.nodup_nil,
    nofun, trivial⟩

end IdGen

end

/-- Under every schedule no number is returned twice, each one is of a block the generator was given,
and a call fails for a reason of its own. -/
theorem generate_unique {E : Type} (initial : Nat) (allocates : Bool) (start : IdGen E)
    (made : newIDGen initial allocates = .ok start) (moves : List (IdGen.Move E)) :
    let g := run IdGen.step start moves
    g.numbers.Nodup ∧ (∀ n ∈ g.numbers, n ≠ 0 ∧ Granted initial g.history (n / blockSize)) ∧
      ∀ later older t err, g.history = later ++ .returned t (.error err) :: older →
        Explained g.allocates older t err := by
  have sound : (run IdGen.step start moves).Sound initial :=
    invariant (fun _ move sound => sound.step move) (.new made) moves
  refine ⟨sound.unique, fun n member => (sound.issued n member).2, ?_⟩
  intro later older t err split
  exact sound.lawful.at split

/-- Two goroutines load 1; the one that loses the swap returns 2. -/
theorem generate_unique_race : ∃ start : IdGen Unit, newIDGen 0 true = .ok start ∧
    let g := run IdGen.step start (.call 0 :: .call 1 :: [0, 1, 0, 1, 0, 1, 1, 1, 1].map .step)
    g.numbers = [2, 1] ∧ g.numbers.Nodup :=
  ⟨_, rfl, by decide, (generate_unique 0 true _ rfl _).1⟩

/-- Only the end of a rotation moves `stop`, to the end of a block in range. -/
theorem IdGen.Sound.stop_step {g : IdGen E} (sound : g.Sound initial) (small : g.stop ≤ 2 ^ 51)
    (move : Move E) : (g.step move).stop ≤ 2 ^ 51 := by
  unfold IdGen.step
  repeat' split
  all_goals try simp only [IdGen.goto, answer]
  any_goals with_reducible exact small
  rename_i t _ b place
  have known := sound.points t
  rw [place] at known
  have ends := resetEnd_eq known.2.2.1
  simp only [At, maxBlockNo, blockSize] at known ends ⊢
  omega

theorem IdGen.Sound.next_le {g : IdGen E} (sound : g.Sound initial) (small : g.stop ≤ 2 ^ 51) :
    g.next ≤ 2 ^ 51 := by
  cases turning : g.rotating with
  | none => exact (sound.calm turning).trans small
  | some t =>
    have known := sound.points t
    have rotates := (sound.rotating t).mpr turning
    generalize g.points t = point at known rotates
    cases point <;> simp only [Point.Rotates, At, blockSize, maxBlockNo] at rotates known <;> omega

theorem build_number (registry : Registry) (range : 0 < n ∧ n < 2 ^ 51)
    (named : category ≠ 0 ∧ kind ≠ .none) :
    ∃ id, buildEntityIDWithCategory registry (.ofNat n) category kind = .ok id ∧
      (getUniqueIDFromEntityID id).toInt = n := by
  have exact : (Int64.ofNat n).toInt = n := Int64.toInt_ofNat_of_lt (by omega)
  have positive : ¬ Int64.ofNat n ≤ 0 := by
    rw [Int64.le_iff_toInt_le, exact, Int64.toInt_zero]
    omega
  have within : ¬ uniqueIDMask < (Int64.ofNat n).toUInt64 := by
    change ¬ 2 ^ 52 - 1 < n % 2 ^ 64
    omega
  rw [buildEntityIDWithCategory, if_neg (not_or.mpr ⟨positive, within⟩), if_neg named.1, if_neg named.2]
  exact ⟨_, rfl, by rw [unique_makeEntityID within, exact]⟩

/-- Every generated number makes a full ID, and no two of them make the same one, whatever kinds
they are used for. -/
theorem generated_ids_distinct {E : Type} (initial : Nat) (allocates : Bool) (start : IdGen E)
    (made : newIDGen initial allocates = .ok start) (moves : List (IdGen.Move E)) (registry : Registry)
    (category : Nat → UInt8) (kind : Nat → EntityKind) (named : ∀ n, category n ≠ 0 ∧ kind n ≠ .none) :
    let ids := (run IdGen.step start moves).numbers.map fun n =>
      buildEntityIDWithCategory registry (.ofNat n) (category n) (kind n)
    (∀ x ∈ ids, ∃ id, x = .ok id) ∧ ids.Nodup := by
  have first : start.stop ≤ 2 ^ 51 := by
    unfold newIDGen at made
    split at made
    · contradiction
    cases made
    have ends := resetEnd_eq (Nat.le_of_not_lt ‹_›)
    simp only [maxBlockNo, blockSize] at *
    omega
  obtain ⟨sound, small⟩ := invariant (P := fun g : IdGen E => g.Sound initial ∧ g.stop ≤ 2 ^ 51)
    (fun g move inv => ⟨inv.1.step move, inv.1.stop_step inv.2 move⟩) ⟨.new made, first⟩ moves
  have below := sound.next_le small
  have made (n : Nat) (member : n ∈ (run IdGen.step start moves).numbers) :=
    build_number (n := n) registry (by have := sound.issued n member; omega) (named n)
  refine ⟨fun x member => ?_, List.pairwise_map.mpr (sound.unique.imp_of_mem ?_)⟩
  · obtain ⟨n, inside, rfl⟩ := List.mem_map.mp member
    exact (made n inside).imp fun _ => And.left
  · intro m n mine other differ same
    obtain ⟨_, built, back⟩ := made m mine
    obtain ⟨_, again, forth⟩ := made n other
    rw [built, again] at same
    cases same
    exact differ (Int.ofNat_inj.mp (back.symm.trans forth))

theorem generated_ids_distinct_race : ∃ start : IdGen Unit, newIDGen 0 true = .ok start ∧
    let g := run IdGen.step start (.call 0 :: .call 1 :: [0, 1, 0, 1, 0, 1, 1, 1, 1].map .step)
    g.numbers = [2, 1] ∧ (g.numbers.map fun n =>
      buildEntityIDWithCategory ⟨fun _ => true, fun _ => 0⟩ (.ofNat n) 1 7).Nodup :=
  ⟨_, rfl, by decide, (generated_ids_distinct 0 true _ rfl _ _ (fun _ => 1) (fun _ => 7) fun _ => by decide).2⟩

end Roost.Entity
