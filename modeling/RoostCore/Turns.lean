import Mathlib.Data.Finset.Card
import RoostCore.Run

/-! Taking turns on shared keys. A ticket names the keys it needs; tickets that share a key
hold it one after the other, in the order in which they registered. Only the last holder of
each key is kept, with one edge from every ticket to those that wait right behind it. The
queues that this stands for are the lists `queue`, which no step builds. -/
namespace Roost
open Function
open List hiding after head tail tails

structure Turns (τ κ : Type) where
  tails : κ → Option τ
  keys : τ → List κ
  successors : τ → List τ
  predecessors : τ → Int

namespace Turns
variable {τ κ : Type} [DecidableEq τ] [DecidableEq κ]

def empty : Turns τ κ := ⟨fun _ => none, fun _ => [], fun _ => [], fun _ => 0⟩

/-- A new ticket, which waits for nothing and which nothing waits for. -/
def allocate (g : Turns τ κ) (t : τ) (keys : List κ) : Turns τ κ :=
  { g with
    keys := update g.keys t keys
    successors := update g.successors t []
    predecessors := update g.predecessors t 0 }

def rekey (g : Turns τ κ) (t : τ) (keys : List κ) : Turns τ κ :=
  { g with keys := update g.keys t keys }

def clear (g : Turns τ κ) (t : τ) : Turns τ κ :=
  { g with successors := update g.successors t [] }

def setTail (g : Turns τ κ) (k : κ) (t : τ) : Turns τ κ :=
  { g with tails := update g.tails k (some t) }

def addEdge (g : Turns τ κ) (prev t : τ) : Turns τ κ :=
  { g with
    successors := update g.successors prev (g.successors prev ++ [t])
    predecessors := update g.predecessors t (g.predecessors t + 1) }

/-- Put the ticket behind the last holder of a key. A holder of several of its keys has
the ticket as its last successor already and gets no second edge. -/
def link (t : τ) (g : Turns τ κ) (k : κ) : Turns τ κ :=
  match g.tails k with
  | none => g.setTail k t
  | some prev =>
      (if (g.successors prev).getLast? = some t then g else g.addEdge prev t).setTail k t

def register (g : Turns τ κ) (t : τ) : Turns τ κ := (g.keys t).foldl (link t) g

def dropTail (t : τ) (g : Turns τ κ) (k : κ) : Turns τ κ :=
  if g.tails k = some t then { g with tails := update g.tails k none } else g

def countDown (g : Turns τ κ) (t : τ) : Turns τ κ :=
  { g with predecessors := update g.predecessors t (g.predecessors t - 1) }

/-- Count down every successor; those that wait for nothing any more, in their order. -/
def countDownAll : Turns τ κ → List τ → Turns τ κ × List τ
  | g, [] => (g, [])
  | g, t :: rest =>
      let (after, freed) := countDownAll (g.countDown t) rest
      (after, if (g.countDown t).predecessors t = 0 then t :: freed else freed)

/-- The ticket ends: it leaves its keys and lets its successors go. -/
def release (g : Turns τ κ) (t : τ) : Turns τ κ × List τ :=
  ((g.keys t).foldl (dropTail t) g).countDownAll (g.successors t)

/-- The holders of a key in a line of tickets. -/
def queue (g : Turns τ κ) (line : List τ) (k : κ) : List τ :=
  line.filter fun t => k ∈ g.keys t

/-- The graph stands for the line of all tickets that have registered and not ended. -/
structure Linked (g : Turns τ κ) (line : List τ) : Prop where
  distinct : line.Nodup
  tails : ∀ k, g.tails k = (g.queue line k).getLast?
  single : ∀ p ∈ line, (g.successors p).Nodup
  edges : ∀ p ∈ line, ∀ t, t ∈ g.successors p ↔ ∃ k, [p, t] <:+: g.queue line k
  counted : ∀ t ∈ line, g.predecessors t = line.countP fun p => t ∈ g.successors p

section pairs
variable {α : Type} {l : List α} {a b x : α}

theorem pair_infix_concat : [a, b] <:+: l ++ [x] ↔ [a, b] <:+: l ∨ l.getLast? = some a ∧ b = x := by
  constructor
  · rintro ⟨before, after, same⟩
    rcases eq_nil_or_concat after with rfl | ⟨start, last, rfl⟩
    · have split : (before ++ [a]) ++ [b] = l ++ [x] := by simpa using same
      obtain ⟨rfl, ended⟩ := append_inj' split rfl
      exact .inr ⟨by simp, by simpa using ended⟩
    · have split : (before ++ [a, b] ++ start) ++ [last] = l ++ [x] := by simpa using same
      obtain ⟨rfl, -⟩ := append_inj' split rfl
      exact .inl ⟨before, start, rfl⟩
  · rintro (⟨before, after, rfl⟩ | ⟨last, rfl⟩)
    · exact ⟨before, after ++ [x], by simp⟩
    · obtain ⟨start, rfl⟩ := getLast?_eq_some_iff.mp last
      exact ⟨start, [], by simp⟩

theorem pair_infix_cons : [a, b] <:+: x :: l ↔ a = x ∧ l.head? = some b ∨ [a, b] <:+: l := by
  rw [infix_cons_iff]
  refine or_congr ?_ Iff.rfl
  cases l with
  | nil => simp
  | cons y rest => simp [cons_prefix_cons, eq_comm]

end pairs

/-- Those of the line that still wait for another. -/
def waiting (g : Turns τ κ) (line : List τ) : List τ := line.filter fun t => 0 < g.predecessors t

variable {g : Turns τ κ} {line : List τ} {t p : τ} {k : κ}

omit [DecidableEq τ] in
@[simp] theorem mem_queue : t ∈ g.queue line k ↔ t ∈ line ∧ k ∈ g.keys t := by
  simp [queue]

section
variable (linked : g.Linked line)
include linked

theorem Linked.tail_mem (tail : g.tails k = some t) : t ∈ line ∧ k ∈ g.keys t := by
  rw [linked.tails k] at tail
  exact mem_queue.mp (mem_of_getLast? tail)

theorem Linked.free (none : g.tails k = none) (member : t ∈ line) : k ∉ g.keys t := by
  rw [linked.tails k, getLast?_eq_none_iff] at none
  intro holds
  have inside : t ∈ g.queue line k := mem_queue.mpr ⟨member, holds⟩
  simp [none] at inside

theorem Linked.successor_mem (member : p ∈ line) (edge : t ∈ g.successors p) : t ∈ line := by
  obtain ⟨k, pair⟩ := (linked.edges p member t).mp edge
  exact (mem_queue.mp (pair.subset (by simp : t ∈ [p, t]))).1

theorem Linked.awaited (member : p ∈ line) (edge : t ∈ g.successors p) : 0 < g.predecessors t := by
  rw [linked.counted t (linked.successor_mem member edge)]
  exact_mod_cast countP_pos_iff.mpr ⟨p, member, by simpa using edge⟩

/-- A ticket that waits for nothing is the first holder of each of its keys. -/
theorem Linked.front (member : t ∈ line)
    (none : g.predecessors t = 0) (holds : k ∈ g.keys t) : (g.queue line k).head? = some t := by
  obtain ⟨before, after, split⟩ := append_of_mem (mem_queue.mpr ⟨member, holds⟩)
  rcases eq_nil_or_concat before with rfl | ⟨start, p, rfl⟩
  · simp [split]
  have pair : [p, t] <:+: g.queue line k := ⟨start, after, by simp [split]⟩
  have earlier : p ∈ line := (mem_queue.mp (pair.subset (by simp : p ∈ [p, t]))).1
  have := linked.awaited earlier ((linked.edges p earlier t).mpr ⟨k, pair⟩)
  omega

theorem Linked.front_unique (first : t ∈ line) (second : p ∈ line)
    (none : g.predecessors t = 0) (none' : g.predecessors p = 0) (holds : k ∈ g.keys t)
    (holds' : k ∈ g.keys p) : t = p := by
  have head := linked.front first none holds
  rw [linked.front second none' holds'] at head
  exact (Option.some.inj head).symm

end

/-- Whoever stands before a ticket that waits for nothing shares no key with it. -/
theorem Linked.front_before (linked : g.Linked (before ++ t :: after))
    (none : g.predecessors t = 0) (holds : k ∈ g.keys t) (earlier : p ∈ before) :
    k ∉ g.keys p := by
  intro shared
  have head := linked.front (by simp) none holds
  have inside : p ∈ before.filter fun u => k ∈ g.keys u := by simpa using ⟨earlier, shared⟩
  obtain ⟨first, found⟩ : ∃ first, (before.filter fun u => k ∈ g.keys u).head? = some first := by
    cases same : before.filter fun u => k ∈ g.keys u with
    | nil => simp [same] at inside
    | cons first rest => exact ⟨first, rfl⟩
  have same : first = t := by
    rw [queue, filter_append, head?_append, found] at head
    exact Option.some.inj head
  subst same
  have duplicate : first ∈ before := (mem_filter.mp (mem_of_head? found)).1
  exact (nodup_append.mp linked.distinct).2.2 first duplicate first (by simp) rfl

theorem Linked.first (linked : g.Linked (t :: rest)) : g.predecessors t = 0 := by
  rw [linked.counted t (by simp)]
  rw [Int.natCast_eq_zero, countP_eq_zero]
  intro p member edge
  obtain ⟨k, pair⟩ := (linked.edges p member t).mp (by simpa using edge)
  have holds : k ∈ g.keys t := (mem_queue.mp (pair.subset (by simp : t ∈ [p, t]))).2
  have queued : g.queue (t :: rest) k = t :: g.queue rest k := by simp [queue, holds]
  have again : t ∈ g.queue rest k := by
    rw [queued, pair_infix_cons] at pair
    rcases pair with ⟨-, head⟩ | later
    · exact mem_of_head? head
    · exact later.subset (by simp)
  exact (nodup_cons.mp linked.distinct).1 (mem_queue.mp again).1

attribute [simps keys successors predecessors] setTail

attribute [simps keys] rekey

theorem empty_linked : (empty : Turns τ κ).Linked [] where
  distinct := .nil
  tails := fun _ => rfl
  single := nofun
  edges := nofun
  counted := nofun

theorem Linked.congr (linked : g.Linked line) (after : Turns τ κ) (tails : after.tails = g.tails)
    (keys : ∀ t ∈ line, after.keys t = g.keys t)
    (successors : ∀ t ∈ line, after.successors t = g.successors t)
    (predecessors : ∀ t ∈ line, after.predecessors t = g.predecessors t) :
    after.Linked line := by
  have queues : ∀ k, after.queue line k = g.queue line k := fun k =>
    filter_congr fun t member => by rw [keys t member]
  constructor
  case distinct => exact linked.distinct
  case tails => simpa only [tails, queues] using linked.tails
  case single => exact fun p member => successors p member ▸ linked.single p member
  case edges =>
    intro p member t
    simpa only [queues, successors p member] using linked.edges p member t
  case counted =>
    intro t member
    rw [predecessors t member, linked.counted t member]
    congr 1
    exact countP_congr fun p inside => by rw [successors p inside]

theorem Linked.rekey (linked : g.Linked line) (new : t ∉ line) (ks : List κ) :
    (g.rekey t ks).Linked line := by
  refine linked.congr _ rfl (fun s member => ?_) (fun _ _ => rfl) fun _ _ => rfl
  have other : s ≠ t := fun same => new (same ▸ member)
  simp [Turns.rekey, other]

theorem Linked.clear (linked : g.Linked line) (gone : t ∉ line) : (g.clear t).Linked line := by
  refine linked.congr _ rfl (fun _ _ => rfl) (fun s member => ?_) fun _ _ => rfl
  have other : s ≠ t := fun same => gone (same ▸ member)
  simp [Turns.clear, other]

theorem Linked.allocate (linked : g.Linked line) (new : t ∉ line) (ks : List κ) :
    (g.allocate t ks).Linked line := by
  have other : ∀ s ∈ line, s ≠ t := fun s member same => new (same ▸ member)
  refine linked.congr _ rfl ?_ ?_ ?_
  all_goals
    intro s member
    simp [Turns.allocate, other s member]

/-- What registering has done once the keys `ks` have been linked. -/
structure Joined (t : τ) (g : Turns τ κ) (ks : List κ) (after : Turns τ κ) : Prop where
  tails : ∀ k, after.tails k = if k ∈ ks then some t else g.tails k
  keys : after.keys = g.keys
  successors : ∀ p, after.successors p =
    if ∃ k ∈ ks, g.tails k = some p then g.successors p ++ [t] else g.successors p
  others : ∀ p, p ≠ t → after.predecessors p = g.predecessors p
  own : after.predecessors t = g.predecessors t + (ks.filterMap g.tails).toFinset.card

theorem Joined.setTail (joined : Joined t g ks after) :
    ∀ k', (after.setTail k t).tails k' = if k' ∈ ks ++ [k] then some t else g.tails k' := by
  intro k'
  by_cases same : k' = k
  · subst same
    simp [Turns.setTail]
  · simp [Turns.setTail, same, joined.tails k']

theorem Joined.link (joined : Joined t g ks after) (new : k ∉ ks)
    (fresh : ∀ p, g.tails k = some p → t ∉ g.successors p) :
    Joined t g (ks ++ [k]) (link t after k) := by
  have tail : after.tails k = g.tails k := by rw [joined.tails, if_neg new]
  cases before : g.tails k with
  | none =>
    have members : ∀ p, (∃ k' ∈ ks ++ [k], g.tails k' = some p) ↔
        ∃ k' ∈ ks, g.tails k' = some p := by
      simp [or_and_right, exists_or, before]
    rw [Turns.link, tail, before]
    refine ⟨joined.setTail, joined.keys, fun p => ?_, joined.others, ?_⟩
    · simpa only [members, setTail_successors] using joined.successors p
    · simpa [before] using joined.own
  | some prev =>
    have members : ∀ p, (∃ k' ∈ ks ++ [k], g.tails k' = some p) ↔
        (∃ k' ∈ ks, g.tails k' = some p) ∨ prev = p := by
      simp [or_and_right, exists_or, before]
    rw [Turns.link, tail, before]
    by_cases earlier : ∃ k' ∈ ks, g.tails k' = some prev
    · -- an earlier key has the same last holder, so the edge is there
      have last : (after.successors prev).getLast? = some t := by
        rw [joined.successors prev, if_pos earlier]
        simp
      simp only [last, if_true]
      refine ⟨joined.setTail, joined.keys, fun p => ?_, joined.others, ?_⟩
      · have same : ((∃ k' ∈ ks, g.tails k' = some p) ∨ prev = p) ↔
            ∃ k' ∈ ks, g.tails k' = some p :=
          ⟨fun either => either.elim id fun same => same ▸ earlier, .inl⟩
        simpa only [members, same, setTail_successors] using joined.successors p
      · have counted : prev ∈ (ks.filterMap g.tails).toFinset := by simpa using earlier
        simpa [before, Finset.insert_eq_of_mem counted] using joined.own
    · have last : (after.successors prev).getLast? ≠ some t := by
        rw [joined.successors prev, if_neg earlier]
        exact fun found => fresh prev before (mem_of_getLast? found)
      simp only [last, if_false]
      refine ⟨joined.setTail, joined.keys, fun p => ?_, fun p other => ?_, ?_⟩
      · by_cases same : prev = p
        · subst same
          have old := joined.successors prev
          rw [if_neg earlier] at old
          rw [if_pos ((members prev).mpr (.inr rfl))]
          simp [addEdge, old]
        · have held : (∃ k' ∈ ks ++ [k], g.tails k' = some p) ↔ ∃ k' ∈ ks, g.tails k' = some p := by
            simp only [members, same, or_false]
          simp only [setTail_successors, addEdge, update_of_ne (Ne.symm same), held]
          exact joined.successors p
      · simpa [addEdge, other] using joined.others p other
      · have uncounted : prev ∉ (ks.filterMap g.tails).toFinset := by simpa using earlier
        have size : ((ks ++ [k]).filterMap g.tails).toFinset.card =
            (ks.filterMap g.tails).toFinset.card + 1 := by
          rw [← Finset.card_insert_of_notMem uncounted]
          congr 1
          ext x
          simp [before, eq_comm]
        rw [size]
        simp [addEdge, joined.own]
        omega

theorem joined_fold (distinct : ks.Nodup) (fresh : ∀ k p, g.tails k = some p → t ∉ g.successors p) :
    Joined t g ks (ks.foldl (link t) g) := by
  induction ks using reverseRecOn with
  | nil => constructor <;> simp
  | append_singleton ks k ih =>
    rw [foldl_append]
    have apart := nodup_append.mp distinct
    exact (ih apart.1).link (fun member => apart.2.2 k member k (by simp) rfl) (fresh k)

omit [DecidableEq τ] in
theorem queue_concat (after : Turns τ κ) (same : after.keys = g.keys) :
    after.queue (line ++ [t]) k = if k ∈ g.keys t then g.queue line k ++ [t] else g.queue line k := by
  split <;> simp_all [queue]

theorem Linked.joined (linked : g.Linked line) (new : t ∉ line) (distinct : (g.keys t).Nodup) :
    Joined t g (g.keys t) (g.register t) := by
  refine joined_fold distinct fun k p tail edge => ?_
  exact new (linked.successor_mem (linked.tail_mem tail).1 edge)

theorem Linked.register (linked : g.Linked line) (new : t ∉ line) (distinct : (g.keys t).Nodup)
    (none : g.predecessors t = 0) (alone : g.successors t = []) :
    (g.register t).Linked (line ++ [t]) := by
  have fresh : ∀ k p, g.tails k = some p → t ∉ g.successors p := by
    intro k p tail edge
    exact new (linked.successor_mem (linked.tail_mem tail).1 edge)
  have joined := linked.joined new distinct
  have behind : ∀ p, (∃ k ∈ g.keys t, g.tails k = some p) → p ∈ line := by
    rintro p ⟨k, -, tail⟩
    exact (linked.tail_mem tail).1
  have own : ∀ p ∈ line, t ∈ (g.register t).successors p ↔ ∃ k ∈ g.keys t, g.tails k = some p := by
    intro p member
    rw [joined.successors p]
    split
    case isTrue held => simpa using held
    case isFalse free =>
      exact ⟨fun edge => absurd (linked.successor_mem member edge) new, fun held => absurd held free⟩
  have lone : (g.register t).successors t = [] := by
    rw [joined.successors t, if_neg (fun held => new (behind t held)), alone]
  constructor
  case distinct => simpa using List.Nodup.concat new linked.distinct
  case tails =>
    intro k
    rw [joined.tails k, queue_concat _ joined.keys]
    split
    · simp
    · exact linked.tails k
  case single =>
    intro p member
    rcases mem_snoc.mp member with old | rfl
    · rw [joined.successors p]
      split
      case isTrue held =>
        obtain ⟨k, -, tail⟩ := held
        simpa using List.Nodup.concat (fresh k p tail) (linked.single p old)
      case isFalse => exact linked.single p old
    · simp [lone]
  case edges =>
    intro p member s
    have pairs : (∃ k, [p, s] <:+: (g.register t).queue (line ++ [t]) k) ↔
        (∃ k, [p, s] <:+: g.queue line k) ∨ (∃ k ∈ g.keys t, g.tails k = some p) ∧ s = t := by
      constructor
      · rintro ⟨k, pair⟩
        rw [queue_concat _ joined.keys] at pair
        split at pair
        case isTrue holds =>
          rcases pair_infix_concat.mp pair with old | ⟨last, same⟩
          · exact .inl ⟨k, old⟩
          · exact .inr ⟨⟨k, holds, (linked.tails k).trans last⟩, same⟩
        case isFalse => exact .inl ⟨k, pair⟩
      · rintro (⟨k, old⟩ | ⟨⟨k, holds, tail⟩, same⟩)
        · refine ⟨k, ?_⟩
          rw [queue_concat _ joined.keys]
          split
          · exact pair_infix_concat.mpr (.inl old)
          · exact old
        · refine ⟨k, ?_⟩
          rw [queue_concat _ joined.keys, if_pos holds]
          exact pair_infix_concat.mpr (.inr ⟨(linked.tails k).symm.trans tail, same⟩)
    rw [pairs]
    rcases mem_snoc.mp member with old | rfl
    · rw [joined.successors p, ← linked.edges p old s]
      split
      case isTrue held => simp [held]
      case isFalse free => simp [free]
    · rw [lone]
      refine ⟨nofun, ?_⟩
      rintro (⟨k, pair⟩ | ⟨held, -⟩)
      · exact absurd (mem_queue.mp (pair.subset (by simp : p ∈ [p, s]))).1 new
      · exact absurd (behind p held) new
  case counted =>
    intro s member
    have last : (line ++ [t]).countP (fun p => s ∈ (g.register t).successors p) =
        line.countP fun p => s ∈ (g.register t).successors p := by
      simp [countP_append, lone]
    rw [last]
    rcases mem_snoc.mp member with old | rfl
    · have other : s ≠ t := fun same => new (same ▸ old)
      rw [joined.others s other, linked.counted s old]
      congr 1
      apply countP_congr
      intro p _
      rw [joined.successors p]
      split <;> simp [other]
    · rw [joined.own, none, Int.zero_add, countP_eq_length_filter,
        ← toFinset_card_of_nodup (linked.distinct.filter _)]
      congr 2
      ext p
      simp only [mem_toFinset, mem_filterMap, mem_filter, decide_eq_true_eq]
      exact ⟨fun held => ⟨behind p held, (own p (behind p held)).mpr held⟩,
        fun ⟨inside, edge⟩ => (own p inside).mp edge⟩

theorem Linked.register_waiting (linked : g.Linked line) (new : t ∉ line)
    (distinct : (g.keys t).Nodup) :
    (g.register t).waiting (line ++ [t]) =
      g.waiting line ++ if 0 < (g.register t).predecessors t then [t] else [] := by
  rw [waiting, filter_append]
  congr 1
  · refine filter_congr fun s member => ?_
    rw [(linked.joined new distinct).others s fun same => new (same ▸ member)]
  · simp [filter_singleton]

/-- A ticket whose only key nobody holds is its holder at once. -/
theorem rekey_register (free : g.tails k = none) :
    (g.rekey t [k]).register t = (g.rekey t [k]).setTail k t := by
  have free : (g.rekey t [k]).tails k = none := free
  simp [register, link, free]

omit [DecidableEq κ] in
@[simp] theorem countDownAll_frame (ts : List τ) : (g.countDownAll ts).1.keys = g.keys ∧
    (g.countDownAll ts).1.tails = g.tails ∧ (g.countDownAll ts).1.successors = g.successors := by
  induction ts generalizing g with
  | nil => exact ⟨rfl, rfl, rfl⟩
  | cons t rest ih => exact ih

omit [DecidableEq κ] in
theorem countDownAll_spec (distinct : ts.Nodup) :
    (∀ s, (g.countDownAll ts).1.predecessors s = g.predecessors s - if s ∈ ts then 1 else 0) ∧
      (g.countDownAll ts).2 = ts.filter fun s => g.predecessors s = 1 := by
  induction ts generalizing g with
  | nil => simp [countDownAll]
  | cons t rest ih =>
    obtain ⟨new, distinct⟩ := nodup_cons.mp distinct
    obtain ⟨counts, freed⟩ := ih (g := g.countDown t) distinct
    constructor
    · intro s
      rw [countDownAll, counts s]
      by_cases same : s = t
      · subst same
        simp [countDown, new]
      · simp [countDown, same]
    · have others : rest.filter (fun s => (g.countDown t).predecessors s = 1) =
          rest.filter fun s => g.predecessors s = 1 := by
        apply filter_congr
        intro s member
        have other : s ≠ t := fun same => new (same ▸ member)
        simp [countDown, other]
      have reached : (g.countDown t).predecessors t = 0 ↔ g.predecessors t = 1 := by
        simp [countDown]
        omega
      simp only [countDownAll, freed, others, reached, filter_cons, decide_eq_true_eq]

theorem dropTail_fold (ks : List κ) : (ks.foldl (dropTail t) g).keys = g.keys ∧
      (ks.foldl (dropTail t) g).successors = g.successors ∧
      (ks.foldl (dropTail t) g).predecessors = g.predecessors ∧
      ∀ k, (ks.foldl (dropTail t) g).tails k =
        if k ∈ ks ∧ g.tails k = some t then none else g.tails k := by
  induction ks generalizing g with
  | nil => simp
  | cons first rest ih =>
    obtain ⟨keys, successors, predecessors, tails⟩ := ih (g := dropTail t g first)
    rw [foldl_cons]
    by_cases held : g.tails first = some t
    all_goals
      simp only [dropTail, held, if_true, if_false] at keys successors predecessors tails ⊢
      refine ⟨keys, successors, predecessors, fun k => ?_⟩
      rw [tails k]
      by_cases same : k = first
      · subst same
        simp [held]
      · simp [same]

theorem release_keys : (g.release t).1.keys = g.keys := by
  simp [release, (dropTail_fold (g.keys t)).1]

theorem release_successors : (g.release t).1.successors = g.successors := by
  simp [release, (dropTail_fold (g.keys t)).2.1]

theorem release_tails :
    (g.release t).1.tails k = if k ∈ g.keys t ∧ g.tails k = some t then none else g.tails k := by
  simp [release, (dropTail_fold (g.keys t)).2.2.2]

theorem Linked.release_predecessors (linked : g.Linked line) (member : t ∈ line) (s : τ) :
    (g.release t).1.predecessors s = g.predecessors s - if s ∈ g.successors t then 1 else 0 := by
  rw [release, (countDownAll_spec (linked.single t member)).1 s, (dropTail_fold (g.keys t)).2.2.1]

/-- Those let go are the tickets that waited for nothing else. -/
theorem Linked.release_freed (linked : g.Linked line) (member : t ∈ line) :
    (g.release t).2 = (g.successors t).filter fun s => g.predecessors s = 1 := by
  rw [release, (countDownAll_spec (linked.single t member)).2, (dropTail_fold (g.keys t)).2.2.1]

omit [DecidableEq κ] in
theorem filter_erase {p : τ → Bool} (distinct : line.Nodup) :
    (line.erase t).filter p = (line.filter p).erase t := by
  rw [distinct.erase_eq_filter, (distinct.filter p).erase_eq_filter, filter_filter,
    filter_filter]
  simp only [Bool.and_comm]

theorem Linked.release (linked : g.Linked line) (member : t ∈ line)
    (none : g.predecessors t = 0) : (g.release t).1.Linked (line.erase t) := by
  have shorter : ∀ k, (g.release t).1.queue (line.erase t) k = (g.queue line k).erase t := by
    intro k
    rw [queue, release_keys, filter_erase linked.distinct]
    rfl
  have split : ∀ k ∈ g.keys t, g.queue line k = t :: (g.queue line k).erase t := by
    intro k holds
    have head := linked.front member none holds
    cases queued : g.queue line k with
    | nil => simp [queued] at head
    | cons first rest =>
      obtain rfl : first = t := by simpa [queued] using head
      simp
  have apart : ∀ k ∉ g.keys t, (g.queue line k).erase t = g.queue line k := by
    intro k free
    exact erase_of_not_mem fun inside => free (mem_queue.mp inside).2
  constructor
  case distinct => exact linked.distinct.erase t
  case tails =>
    intro k
    rw [release_tails, shorter k]
    by_cases holds : k ∈ g.keys t
    · have distinct : (t :: (g.queue line k).erase t).Nodup :=
        split k holds ▸ linked.distinct.filter _
      have last : g.tails k = (t :: (g.queue line k).erase t).getLast? :=
        (linked.tails k).trans (congrArg getLast? (split k holds))
      cases rest : ((g.queue line k).erase t).getLast? with
      | none =>
        obtain empty := getLast?_eq_none_iff.mp rest
        rw [empty] at last
        simp [holds, last]
      | some s =>
        have tail : g.tails k = some s := by
          rw [last, getLast?_cons, rest]
          rfl
        have other : s ≠ t := by
          rintro rfl
          exact (nodup_cons.mp distinct).1 (mem_of_getLast? rest)
        simp [tail, other]
    · rw [if_neg (fun both => holds both.1), apart k holds, linked.tails k]
  case single =>
    intro p inside
    rw [release_successors]
    exact linked.single p (mem_of_mem_erase inside)
  case edges =>
    intro p inside s
    have other : p ≠ t := (linked.distinct.mem_erase_iff.mp inside).1
    rw [release_successors, linked.edges p (mem_of_mem_erase inside) s]
    refine exists_congr fun k => ?_
    rw [shorter k]
    by_cases holds : k ∈ g.keys t
    · rw [split k holds, pair_infix_cons]
      simp [other]
    · rw [apart k holds]
  case counted =>
    intro s inside
    rw [linked.release_predecessors member s, linked.counted s (mem_of_mem_erase inside),
      release_successors, countP_erase]
    by_cases edge : s ∈ g.successors t
    · have positive : 0 < line.countP fun p => s ∈ g.successors p :=
        countP_pos_iff.mpr ⟨t, member, by simpa using edge⟩
      simp [member, edge]
      omega
    · simp [edge]

/-- Those let go and those that wait on are the ones that waited before. -/
theorem Linked.release_waiting (linked : g.Linked line) (member : t ∈ line)
    (none : g.predecessors t = 0) :
    ((g.release t).2 ++ (g.release t).1.waiting (line.erase t)).Perm (g.waiting line) := by
  have freed : ∀ s, s ∈ (g.release t).2 ↔ s ∈ g.successors t ∧ g.predecessors s = 1 := by
    intro s
    rw [linked.release_freed member]
    simp
  have still : ∀ s, s ∈ (g.release t).1.waiting (line.erase t) ↔
      s ≠ t ∧ s ∈ line ∧ (if s ∈ g.successors t then 1 else 0) < g.predecessors s := by
    intro s
    simp only [waiting, mem_filter, linked.distinct.mem_erase_iff, decide_eq_true_eq, and_assoc,
      linked.release_predecessors member s, Int.sub_pos]
  refine (perm_ext_iff_of_nodup ?_ (linked.distinct.filter _)).mpr fun s => ?_
  · refine nodup_append.mpr ⟨?_, (linked.distinct.erase t).filter _, ?_⟩
    · rw [linked.release_freed member]
      exact (linked.single t member).filter _
    · rintro s inFreed s' inStill rfl
      obtain ⟨edge, one⟩ := (freed s).mp inFreed
      obtain ⟨-, -, more⟩ := (still s).mp inStill
      rw [if_pos edge, one] at more
      omega
  · rw [mem_append, freed, still, mem_filter, decide_eq_true_eq]
    constructor
    · rintro (⟨edge, one⟩ | ⟨-, inside, more⟩)
      · exact ⟨linked.successor_mem member edge, by omega⟩
      · split at more <;> exact ⟨inside, by omega⟩
    · rintro ⟨inside, positive⟩
      have other : s ≠ t := fun same => by
        rw [same, none] at positive
        omega
      by_cases edge : s ∈ g.successors t
      · by_cases one : g.predecessors s = 1
        · exact .inl ⟨edge, one⟩
        · exact .inr ⟨other, inside, by rw [if_pos edge]; omega⟩
      · exact .inr ⟨other, inside, by rw [if_neg edge]; exact positive⟩

omit [DecidableEq κ] in
/-- A ticket without keys and without successors leaves no trace. -/
theorem release_unkeyed [DecidableEq κ] (unkeyed : g.keys t = []) (alone : g.successors t = []) :
    g.release t = (g, []) := by
  simp [Turns.release, unkeyed, alone, countDownAll]

end Turns
end Roost
