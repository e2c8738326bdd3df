import Mathlib.Data.List.Sort
import RoostCore.Go.Table
import RoostCore.Run

/-! How `Interest` tells the Manager which pairs of a player and a target it holds
(`policy/interest.go`). Views contribute to pairs; a settle says the pairs whose contributions
changed, then those of the retry list, which takes the pairs the Manager refused. The views,
the spatial index and the log in front of them come in as the contributions they make. -/
namespace Roost.Policy
open Go List

structure Pair where
  observer : Int
  subject : Int
  deriving DecidableEq

/-- The order in which a settle says the pairs. -/
def Pair.le (a b : Pair) : Prop :=
  a.observer < b.observer ∨ a.observer = b.observer ∧ a.subject ≤ b.subject
  deriving Decidable

/-- What holds a pair: a view by its number, by distance or by its extra blocks. -/
structure Contribution where
  view : Int
  block : Bool := false
  deriving DecidableEq

structure Hold (P : Type) [Inhabited P] where
  layers : Table Contribution P := ∅
  profile : P := default
  subscribed : Bool := false

inductive ManagerError where
  | subscriptionNotFound
  | subjectNotRegistered
  | other

inductive Call (P : Type) where
  | subscribe (key : Pair) (profile : P)
  | unsubscribe (key : Pair)

/-- The Manager's answers, which may depend on what it was told before in the same settle. -/
abbrev Manager (P : Type) := List (Call P) → Call P → Option ManagerError

/-- How layers are merged and which profiles are legal. -/
structure Layering (P : Type) where
  selectedProfile : Table Contribution P → P
  validateProfile : P → Option ManagerError

structure Refusal where
  key : Pair
  retry : Bool := false
  err : ManagerError

structure Interest (P : Type) [Inhabited P] where
  held : Table Pair (Hold P) := ∅
  touched : List Pair := []
  retry : List Pair := []
  /-- Consecutive refusals of a pair with the last error. -/
  refused : Table Pair (Nat × ManagerError) := ∅
  departedPlayers : List Int := []
  departedSubjects : List Int := []
  closed : Bool := false

/-- An `Interest` that talks to the Manager: what it has said and been refused so far. -/
structure Settle (P : Type) [Inhabited P] extends Interest P where
  said : List (Call P) := []
  refusals : List Refusal := []

open Settle

/-- A view begins or ceases to hold a pair. -/
structure Move (P : Type) where
  key : Pair
  source : Contribution
  layer : P
  enter : Bool

variable {P : Type} [Inhabited P]

/-- The layers of a pair are changed; the next settle says it. -/
def Interest.place (i : Interest P) (key : Pair) (hold : Hold P) (layers : Table Contribution P) :
    Interest P :=
  { i with held := i.held.set key { hold with layers }, touched := i.touched.insert key }

def Interest.contribute [DecidableEq P] (i : Interest P) (move : Move P) : Interest P :=
  let hold := (i.held.get move.key).getD {}
  if move.enter then
    if hold.layers.get move.source = some move.layer then i
    else i.place move.key hold (hold.layers.set move.source move.layer)
  else if (hold.layers.get move.source).isSome then
    i.place move.key hold (hold.layers.remove move.source)
  else i

namespace Settle

def tell (m : Manager P) (s : Settle P) (call : Call P) : Option ManagerError × Settle P :=
  (m s.said call, { s with said := s.said ++ [call] })

def subscribe (policy : Layering P) (m : Manager P) (s : Settle P) (key : Pair) (current : Hold P)
    (retry : Bool) : Settle P :=
  let profile := policy.selectedProfile current.layers
  let (err, s) := match policy.validateProfile profile with
    | some err => (some err, s)
    | none => s.tell m (.subscribe key profile)
  let current := { current with profile, subscribed := err.isNone }
  match err with
  | none => { s with held := s.held.set key current, refused := s.refused.remove key }
  | some err =>
      { s with
        held := s.held.set key current
        retry := s.retry ++ [key]
        refused := s.refused.set key (((s.refused.get key).elim 0 Prod.fst) + 1, err)
        refusals := s.refusals ++ [⟨key, retry, err⟩] }

def settlePair [DecidableEq P] (policy : Layering P) (m : Manager P) (s : Settle P) (key : Pair) : Settle P :=
  match s.held.get key with
  | none => s
  | some current =>
      if current.layers.keys = [] then
        let s := { s with held := s.held.remove key, refused := s.refused.remove key }
        let (err, s) := s.tell m (.unsubscribe key)
        match err with
        | some .other => { s with refusals := s.refusals ++ [{ key, err := .other }] }
        | _ => s
      else if current.subscribed = false then s.subscribe policy m key current false
      else if key.observer ∈ s.departedPlayers ∨ key.subject ∈ s.departedSubjects then
        (s.tell m (.unsubscribe key)).2.subscribe policy m key current false
      else if policy.selectedProfile current.layers = current.profile then s
      else s.subscribe policy m key current false

/-- One pair of the retry list, unless it has gone or has been said meanwhile. -/
def again (policy : Layering P) (m : Manager P) (s : Settle P) (key : Pair) : Settle P :=
  match s.held.get key with
  | none => { s with refused := s.refused.remove key }
  | some hold => if hold.subscribed then s else s.subscribe policy m key hold true

end Settle

namespace Interest
variable [DecidableEq P]

/-- The first half of a settle: the changes of the spatial index, then the pairs that changed. -/
def sayTouched (policy : Layering P) (i : Interest P) (moves : List (Move P)) (m : Manager P) :
    Settle P :=
  let i := moves.foldl contribute { i with retry := [] }
  (i.touched.insertionSort Pair.le).foldl (settlePair policy m)
    { i with touched := [], said := [], refusals := [] }

def applyLocked (policy : Layering P) (i : Interest P) (moves : List (Move P)) (m : Manager P) :
    Settle P :=
  let s := i.sayTouched policy moves m
  i.retry.foldl (again policy m) { s with departedPlayers := [], departedSubjects := [] }

/-- The loops over the map of held pairs take its keys in some order, here by `rank`. -/
def heldBy (i : Interest P) (rank : Pair → Nat) : List Pair :=
  i.held.keys.insertionSort fun a b => rank a ≤ rank b

def resubscribeLocked (i : Interest P) (observer : Int) (rank : Pair → Nat) : Interest P :=
  (i.heldBy rank).foldl (fun i key =>
    match i.held.get key with
    | some current =>
        if key.observer ≠ observer ∨ current.subscribed = false then i
        else { i with
          held := i.held.set key { current with subscribed := false }
          retry := i.retry ++ [key] }
    | none => i) i

def resubmit (policy : Layering P) (i : Interest P) (retracted : List Pair) (rank : Pair → Nat)
    (m : Manager P) : Settle P :=
  (i.heldBy rank).foldl (fun s key =>
    match s.held.get key with
    | some current =>
        if key ∉ retracted ∨ current.subscribed = false then s
        else s.subscribe policy m key current true
    | none => s) { i with said := [], refusals := [] }

end Interest

/-- What the appliers of the log, the policy phase and the Manager do with an `Interest`. -/
inductive InterestOp (P : Type) where
  | contribute (move : Move P)
  | leave (player : Int)
  | hide (subject : Int)
  | resubscribe (observer : Int) (rank : Pair → Nat)
  | resubmit (retracted : List Pair) (rank : Pair → Nat) (m : Manager P)
  | settle (moves : List (Move P)) (m : Manager P)
  | close

def Interest.step [DecidableEq P] (policy : Layering P) (i : Interest P) (op : InterestOp P) : Interest P :=
  if i.closed then i
  else
    match op with
    | .contribute move => i.contribute move
    | .leave player => { i with departedPlayers := player :: i.departedPlayers }
    | .hide subject => { i with departedSubjects := subject :: i.departedSubjects }
    | .resubscribe observer rank => i.resubscribeLocked observer rank
    | .resubmit retracted rank m => (i.resubmit policy retracted rank m).toInterest
    | .settle moves m => (i.applyLocked policy moves m).toInterest
    | .close => { closed := true }

/-- The pairs that `Subscribe` was called for. -/
def subscribes {P : Type} (said : List (Call P)) : List Pair :=
  said.filterMap fun
    | .subscribe key _ => some key
    | .unsubscribe _ => none

/-- The retry list: each pair once, held and not subscribed. -/
structure Interest.Sound (i : Interest P) : Prop where
  once : i.retry.Nodup
  waits : ∀ key ∈ i.retry, ∃ hold, i.held.get key = some hold ∧ hold.subscribed = false
  touched : i.touched.Nodup

/-- Within a settle: a pair that was asked for is subscribed or on the new retry list. -/
structure Settle.Asked (s : Settle P) : Prop where
  once : (subscribes s.said).Nodup
  answered : ∀ key ∈ subscribes s.said,
    key ∈ s.retry ∨ ∃ hold, s.held.get key = some hold ∧ hold.subscribed = true

/-- All that saying one pair can do. -/
structure Speaks (key : Pair) (s t : Settle P) : Prop where
  touched : t.touched = s.touched
  others : ∀ other, other ≠ key → t.held.get other = s.held.get other
  result : t.retry = s.retry ∧ subscribes t.said = subscribes s.said ∨
    ∃ hold, t.held.get key = some hold ∧
      (t.retry = s.retry ∧ hold.subscribed = true ∨
        t.retry = s.retry ++ [key] ∧ hold.subscribed = false) ∧
      (subscribes t.said = subscribes s.said ∨ subscribes t.said = subscribes s.said ++ [key])

theorem Speaks.refl (key : Pair) (s : Settle P) : Speaks key s s :=
  ⟨rfl, fun _ _ => rfl, .inl ⟨rfl, rfl⟩⟩

namespace Speaks
variable {s t : Settle P}

theorem mem_retry (speaks : Speaks key s t) (member : other ∈ t.retry) :
    other ∈ s.retry ∨ other = key := by
  obtain ⟨same, -⟩ | ⟨-, -, ⟨same, -⟩ | ⟨grown, -⟩, -⟩ := speaks.result
  · exact .inl (same ▸ member)
  · exact .inl (same ▸ member)
  · exact mem_snoc.mp (grown ▸ member)

theorem mem_subscribes (speaks : Speaks key s t) (member : other ∈ subscribes t.said) :
    other ∈ subscribes s.said ∨ other = key := by
  obtain ⟨-, same⟩ | ⟨-, -, -, same | grown⟩ := speaks.result
  · exact .inl (same ▸ member)
  · exact .inl (same ▸ member)
  · exact mem_snoc.mp (grown ▸ member)

theorem sound (speaks : Speaks key s t) (sound : s.Sound) (fresh : key ∉ s.retry) : t.Sound := by
  have kept (other : Pair) (member : other ∈ s.retry) :
      ∃ hold, t.held.get other = some hold ∧ hold.subscribed = false := by
    rw [speaks.others other fun same => fresh (same ▸ member)]
    exact sound.waits other member
  have touched : t.touched.Nodup := speaks.touched ▸ sound.touched
  obtain ⟨same, -⟩ | ⟨hold, held, ⟨same, -⟩ | ⟨grown, refused⟩, -⟩ := speaks.result
  · exact ⟨same ▸ sound.once, same ▸ kept, touched⟩
  · exact ⟨same ▸ sound.once, same ▸ kept, touched⟩
  · refine ⟨?_, fun other member => ?_, touched⟩
    · rw [grown, ← concat_eq_append]
      exact sound.once.concat fresh
    · obtain old | rfl := speaks.mem_retry member
      · exact kept other old
      · exact ⟨hold, held, refused⟩

theorem asked (speaks : Speaks key s t) (asked : s.Asked) (fresh : key ∉ subscribes s.said) :
    t.Asked := by
  have grows (other : Pair) (member : other ∈ s.retry) : other ∈ t.retry := by
    obtain ⟨same, -⟩ | ⟨-, -, ⟨same, -⟩ | ⟨grown, -⟩, -⟩ := speaks.result
    · exact same ▸ member
    · exact same ▸ member
    · exact grown ▸ mem_snoc.mpr (.inl member)
  have kept (other : Pair) (member : other ∈ subscribes s.said) :
      other ∈ t.retry ∨ ∃ hold, t.held.get other = some hold ∧ hold.subscribed = true := by
    rw [speaks.others other fun same => fresh (same ▸ member)]
    exact (asked.answered other member).imp_left (grows other)
  obtain ⟨-, same⟩ | ⟨hold, held, answer, same | grown⟩ := speaks.result
  · exact ⟨same ▸ asked.once, same ▸ kept⟩
  · exact ⟨same ▸ asked.once, same ▸ kept⟩
  · refine ⟨?_, fun other member => ?_⟩
    · rw [grown, ← concat_eq_append]
      exact asked.once.concat fresh
    · obtain old | rfl := speaks.mem_subscribes member
      · exact kept other old
      · rcases answer with ⟨-, taken⟩ | ⟨refused, -⟩
        · exact .inr ⟨hold, held, taken⟩
        · exact .inl (refused ▸ mem_snoc.mpr (.inr rfl))

end Speaks

theorem subscribe_speaks (policy : Layering P) (m : Manager P) (s : Settle P) (key : Pair)
    (current : Hold P) (retry : Bool) :
    Speaks key s (s.subscribe policy m key current retry) := by
  have others (hold : Hold P) (other : Pair) (apart : other ≠ key) :
      (s.held.set key hold).get other = s.held.get other := Table.get_set_ne _ _ apart
  rw [subscribe]
  cases policy.validateProfile (policy.selectedProfile current.layers) with
  | some err =>
    exact ⟨rfl, others _, .inr ⟨_, Table.get_set_self .., .inr ⟨rfl, rfl⟩, .inl rfl⟩⟩
  | none =>
    have said : subscribes (s.said ++ [.subscribe key (policy.selectedProfile current.layers)]) =
        subscribes s.said ++ [key] := filterMap_append
    dsimp only [Settle.tell]
    cases m s.said (.subscribe key (policy.selectedProfile current.layers)) with
    | none => exact ⟨rfl, others _, .inr ⟨_, Table.get_set_self .., .inl ⟨rfl, rfl⟩, .inr said⟩⟩
    | some err =>
      exact ⟨rfl, others _, .inr ⟨_, Table.get_set_self .., .inr ⟨rfl, rfl⟩, .inr said⟩⟩

theorem subscribes_unsubscribe {P : Type} (said : List (Call P)) (key : Pair) :
    subscribes (said ++ [.unsubscribe key]) = subscribes said :=
  filterMap_append.trans (append_nil _)

theorem again_speaks (policy : Layering P) (m : Manager P) (s : Settle P) (key : Pair) :
    Speaks key s (s.again policy m key) := by
  rw [again]
  split
  · exact ⟨rfl, fun _ _ => rfl, .inl ⟨rfl, rfl⟩⟩
  split
  · exact .refl key s
  · exact subscribe_speaks ..

/-- A pair of the old list that is still not subscribed has not been asked for: it would be on
the new list. -/
theorem agains_sound {keys : List Pair} (distinct : keys.Nodup) {s : Settle P} (sound : s.Sound)
    (asked : s.Asked) (fresh : ∀ key ∈ keys, key ∉ s.retry) :
    (keys.foldl (again policy m) s).Sound ∧
      (keys.foldl (again policy m) s).Asked := by
  induction keys generalizing s with
  | nil => exact ⟨sound, asked⟩
  | cons key rest ih =>
    have speaks := again_speaks policy m s key
    have unrefused := fresh key mem_cons_self
    obtain ⟨first, distinct⟩ := nodup_cons.mp distinct
    refine ih distinct (speaks.sound sound unrefused) ?_ fun other member found => ?_
    · by_cases taken : key ∈ subscribes s.said
      · obtain refused | ⟨hold, held, subscribed⟩ := asked.answered key taken
        · exact absurd refused unrefused
        · simp only [again, held, if_pos subscribed]
          exact asked
      · exact speaks.asked asked taken
    · obtain old | same := speaks.mem_retry found
      · exact fresh other (mem_cons_of_mem key member) old
      · exact first (same ▸ member)

variable [DecidableEq P]

theorem settlePair_speaks (policy : Layering P) (m : Manager P) (s : Settle P) (key : Pair) :
    Speaks key s (s.settlePair policy m key) := by
  rw [settlePair]
  split
  · exact .refl key s
  split
  · have gone (other : Pair) (apart : other ≠ key) :
        (s.held.remove key).get other = s.held.get other := Table.get_remove_ne _ apart
    dsimp only [Settle.tell]
    split <;> exact ⟨rfl, gone, .inl ⟨rfl, subscribes_unsubscribe s.said key⟩⟩
  split
  · exact subscribe_speaks ..
  split
  · have speaks := subscribe_speaks policy m (s.tell m (.unsubscribe key)).2 key ‹Hold P› false
    refine ⟨speaks.touched, speaks.others, ?_⟩
    rw [← subscribes_unsubscribe s.said key]
    exact speaks.result
  split
  · exact .refl key s
  · exact subscribe_speaks ..

/-- The pairs that changed are said one by one; none of them has been said before. -/
theorem settlePairs_sound (policy : Layering P) (m : Manager P) {keys : List Pair} (distinct : keys.Nodup) {s : Settle P}
    (sound : s.Sound) (asked : s.Asked)
    (fresh : ∀ key ∈ keys, key ∉ s.retry ∧ key ∉ subscribes s.said) :
    (keys.foldl (settlePair policy m) s).Sound ∧
      (keys.foldl (settlePair policy m) s).Asked := by
  induction keys generalizing s with
  | nil => exact ⟨sound, asked⟩
  | cons key rest ih =>
    have speaks := settlePair_speaks policy m s key
    obtain ⟨unrefused, unasked⟩ := fresh key mem_cons_self
    obtain ⟨first, distinct⟩ := nodup_cons.mp distinct
    refine ih distinct (speaks.sound sound unrefused) (speaks.asked asked unasked) ?_
    intro other member
    have before := fresh other (mem_cons_of_mem key member)
    have apart : other ≠ key := fun same => first (same ▸ member)
    exact ⟨fun found => (speaks.mem_retry found).elim before.1 apart,
      fun found => (speaks.mem_subscribes found).elim before.2 apart⟩

/-- The Manager accepts the pair, whatever it was told before, if it is still held. -/
def Layering.Accepts (policy : Layering P) (m : Manager P) (key : Pair) (hold : Option (Hold P)) :
    Prop :=
  ∀ current ∈ hold, current.layers.keys ≠ [] →
    policy.validateProfile (policy.selectedProfile current.layers) = none ∧
      ∀ said, m said (.subscribe key (policy.selectedProfile current.layers)) = none

theorem settlePair_accepted {s : Settle P} (accepts : policy.Accepts m key (s.held.get key)) :
    (s.settlePair policy m key).retry = s.retry := by
  have taken (t : Settle P) (current : Hold P) (held : s.held.get key = some current)
      (some_ : current.layers.keys ≠ []) :
      (t.subscribe policy m key current false).retry = t.retry := by
    obtain ⟨valid, accepted⟩ := accepts current held some_
    rw [subscribe, valid]
    dsimp only [Settle.tell]
    rw [accepted]
  rw [settlePair]
  split
  · rfl
  rename_i current held
  split
  · dsimp only [Settle.tell]
    split <;> rfl
  rename_i some_
  split_ifs
  · exact taken s current held some_
  · exact taken _ current held some_
  · rfl
  · exact taken s current held some_

/-- A pair that is accepted when its turn comes is not refused when the others are said. -/
theorem settlePairs_accepted {keys : List Pair} (distinct : keys.Nodup) {s : Settle P}
    (accepts : key ∈ keys → policy.Accepts m key (s.held.get key)) (fresh : key ∉ s.retry) :
    key ∉ (keys.foldl (settlePair policy m) s).retry := by
  induction keys generalizing s with
  | nil => exact fresh
  | cons first rest ih =>
    have speaks := settlePair_speaks policy m s first
    obtain ⟨absent, apart⟩ := nodup_cons.mp distinct
    by_cases same : key = first
    · subst same
      refine ih apart (fun later => absurd later absent) ?_
      rwa [settlePair_accepted (accepts mem_cons_self)]
    · refine ih apart (fun later => ?_) fun found => (speaks.mem_retry found).elim fresh same
      rw [speaks.others key same]
      exact accepts (mem_cons_of_mem _ later)

namespace Interest
variable {i : Interest P}

omit [DecidableEq P] in
theorem Sound.place (sound : i.Sound) (key : Pair) (layers : Table Contribution P) :
    (i.place key ((i.held.get key).getD {}) layers).Sound := by
  refine ⟨sound.once, fun other member => ?_, sound.touched.insert⟩
  obtain ⟨hold, held, waits⟩ := sound.waits other member
  rw [Interest.place, Table.get_set]
  split
  · rename_i same
    exact ⟨_, rfl, by rw [← same, held]; exact waits⟩
  · exact ⟨hold, held, waits⟩

theorem Sound.contribute (sound : i.Sound) (move : Move P) : (i.contribute move).Sound := by
  rw [Interest.contribute]
  split
  · split
    · exact sound
    · exact sound.place ..
  · split
    · exact sound.place ..
    · exact sound

theorem contribute_retry (i : Interest P) (retry : List Pair) (move : Move P) :
    ({ i with retry } : Interest P).contribute move = { i.contribute move with retry } := by
  simp only [Interest.contribute]
  split_ifs <;> rfl

theorem Sound.drain (sound : i.Sound) (moves : List (Move P)) :
    moves.foldl Interest.contribute { i with retry := [] } =
        { moves.foldl Interest.contribute i with retry := [] } ∧
      (moves.foldl Interest.contribute i).Sound := by
  induction moves generalizing i with
  | nil => exact ⟨rfl, sound⟩
  | cons move rest ih =>
    obtain ⟨same, drained⟩ := ih (sound.contribute move)
    exact ⟨(congrArg (rest.foldl Interest.contribute) (contribute_retry i [] move)).trans same, drained⟩

/-- The pairs of the retry list whose contributions have changed are accepted. -/
def Unrefused (policy : Layering P) (i : Interest P) : InterestOp P → Prop
  | .settle moves m =>
      let drained := moves.foldl Interest.contribute i
      ∀ key ∈ i.retry, key ∈ drained.touched → policy.Accepts m key (drained.held.get key)
  | _ => True

theorem Sound.settle (sound : i.Sound) (unrefused : Unrefused policy i (.settle moves m)) :
    (i.applyLocked policy moves m).Sound ∧ (i.applyLocked policy moves m).Asked := by
  obtain ⟨same, drained⟩ := sound.drain moves
  rw [applyLocked, sayTouched, same]
  rw [Unrefused] at unrefused
  generalize moves.foldl Interest.contribute i = d at *
  have sorted := perm_insertionSort Pair.le d.touched
  have keys := sorted.nodup_iff.mpr drained.touched
  have start : Settle.Asked { d with retry := [], touched := [], said := [], refusals := [] } :=
    ⟨nodup_nil, nofun⟩
  obtain ⟨spoken, asked⟩ := settlePairs_sound policy m keys
    (s := { d with retry := [], touched := [], said := [], refusals := [] })
    ⟨nodup_nil, nofun, nodup_nil⟩ start fun key _ => ⟨not_mem_nil, not_mem_nil⟩
  refine agains_sound sound.once ⟨spoken.once, spoken.waits, spoken.touched⟩
    ⟨asked.once, asked.answered⟩ fun key member => ?_
  exact settlePairs_accepted keys
    (fun touched => unrefused key member (sorted.mem_iff.mp touched)) not_mem_nil

omit [DecidableEq P] in
theorem Sound.fresh (sound : i.Sound) (held : i.held.get key = some hold)
    (taken : ¬ hold.subscribed = false) : key ∉ i.retry := by
  intro member
  obtain ⟨other, same, waits⟩ := sound.waits key member
  cases held.symm.trans same
  exact taken waits

omit [DecidableEq P] in
theorem Sound.resubscribe (sound : i.Sound) (observer : Int) (rank : Pair → Nat) :
    (i.resubscribeLocked observer rank).Sound := by
  refine invariant (P := Sound) (fun i key sound => ?_) sound (i.heldBy rank)
  split
  · rename_i current held
    split
    · exact sound
    · rename_i open_
      have speaks : Speaks key { i with said := [], refusals := [] }
          { i with held := i.held.set key { current with subscribed := false }
                   retry := i.retry ++ [key], said := [], refusals := [] } :=
        ⟨rfl, fun other apart => Table.get_set_ne _ _ apart,
          .inr ⟨_, Table.get_set_self .., .inr ⟨rfl, rfl⟩, .inl rfl⟩⟩
      exact speaks.sound sound (sound.fresh held (not_or.mp open_).2)
  · exact sound

omit [DecidableEq P] in
theorem Sound.resubmit (sound : i.Sound) (retracted : List Pair) (rank : Pair → Nat)
    (m : Manager P) : (i.resubmit policy retracted rank m).Sound := by
  refine invariant (P := fun s : Settle P => s.Sound) (fun s key sound => ?_) sound (i.heldBy rank)
  split
  · rename_i current held
    split
    · exact sound
    · rename_i open_
      exact (subscribe_speaks ..).sound sound (sound.fresh held (not_or.mp open_).2)
  · exact sound

theorem Sound.step (sound : i.Sound) (op : InterestOp P) (unrefused : Unrefused policy i op) :
    (i.step policy op).Sound := by
  unfold Interest.step
  split
  · exact sound
  cases op with
  | contribute move => exact sound.contribute move
  | leave player | hide subject => exact ⟨sound.once, sound.waits, sound.touched⟩
  | resubscribe observer rank => exact sound.resubscribe observer rank
  | resubmit retracted rank m => exact sound.resubmit retracted rank m
  | settle moves m => exact (sound.settle unrefused).1
  | close => exact ⟨nodup_nil, nofun, nodup_nil⟩

end Interest

/-- The retry list holds each pair once and never more than are held, and a settle asks at most
once for a pair, as long as the pairs of the list that have changed are accepted. -/
theorem asked_once (policy : Layering P) (ops : List (InterestOp P))
    (unrefused : Along (Interest.step policy) (Interest.Unrefused policy) {} ops) :
    let i := run (Interest.step policy) {} ops
    i.retry.Nodup ∧ i.retry.length ≤ i.held.keys.length ∧
      ∀ moves m, Interest.Unrefused policy i (.settle moves m) →
        (subscribes (i.applyLocked policy moves m).said).Nodup := by
  intro i
  have sound : i.Sound := invariant_along (P := Interest.Sound)
    (fun _ op unrefused sound => sound.step op unrefused)
    ⟨nodup_nil, nofun, nodup_nil⟩ unrefused
  refine ⟨sound.once, ?_, fun moves m unrefused => (sound.settle unrefused).2.once⟩
  refine (subperm_of_subset sound.once fun key member => ?_).length_le
  obtain ⟨hold, held, -⟩ := sound.waits key member
  rw [Table.mem_keys_iff, held]
  rfl

namespace Sample

def layering : Layering Nat where
  selectedProfile layers := (layers.pairs.map Prod.snd).sum
  validateProfile _ := none

def seen (layer : Nat) : InterestOp Nat :=
  .contribute { key := ⟨1, 2⟩, source := { view := 1 }, layer, enter := true }

/-- The Manager refuses every subscription, or none. -/
def manager (open_ : Bool) : Manager Nat
  | _, .subscribe _ _ => if open_ then none else some .other
  | _, .unsubscribe _ => none

def refusedThenSeen : Interest Nat :=
  run (Interest.step layering) {} [seen 1, .settle [] (manager false), seen 2]

end Sample

open Sample

/-- A pair that was refused changes and is accepted: it is asked for once. -/
theorem asked_once_reopened : refusedThenSeen.retry.Nodup ∧
      (subscribes (refusedThenSeen.applyLocked layering []
        (manager true)).said).Nodup :=
  have along := asked_once layering
    [seen 1, .settle [] (manager false), seen 2] ⟨trivial, nofun, trivial, trivial⟩
  ⟨along.1, along.2.2 [] (manager true) fun _ _ _ _ _ _ => ⟨rfl, fun _ => rfl⟩⟩

/-- It is refused again: the settle asks twice and the list has it twice. -/
theorem asked_twice :
    let s := refusedThenSeen.applyLocked layering [] (manager false)
    subscribes s.said = [⟨1, 2⟩, ⟨1, 2⟩] ∧ s.retry = [⟨1, 2⟩, ⟨1, 2⟩] ∧ s.held.keys.length = 1 := by
  decide +kernel

end Roost.Policy
