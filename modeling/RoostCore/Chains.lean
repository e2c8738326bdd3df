import Mathlib.Data.List.Nodup

/-! Chains of nodes behind one another. Whoever links under a key becomes the tail of the
key's chain and waits for the tail it found; a node that is closed lets its successor pass,
and the entry of the key goes when its tail has been closed. The `line` of a key is the list
of all nodes ever linked under it, newest first, which the chains themselves do not keep. -/
namespace Roost
open List Function

structure Chains (τ κ : Type) where
  tail : κ → Option τ
  prev : τ → κ → Option τ
  closed : τ → κ → Bool

namespace Chains

variable {τ κ : Type}

def empty : Chains τ κ := ⟨fun _ => none, fun _ _ => none, fun _ _ => false⟩

/-- The node that `t` found in front of it has been closed. -/
def Awaited (c : Chains τ κ) (t : τ) (k : κ) : Prop := ∀ u, c.prev t k = some u → c.closed u k = true

instance (c : Chains τ κ) (t : τ) (k : κ) : Decidable (c.Awaited t k) :=
  decidable_of_iff ((c.prev t k).all (c.closed · k) = true) (by
    unfold Awaited
    cases c.prev t k <;> simp)

variable {c : Chains τ κ} {t u v : τ} {k l : κ} {line : List τ}

/-- The chain under `k` when `line` are the nodes linked there. A node waits for the one
linked just before it, or for none when everything before it was closed already, and only
the nodes at the old end of the line are closed. -/
structure Linked (c : Chains τ κ) (k : κ) (line : List τ) : Prop where
  nodup : line.Nodup
  emptied : c.tail k = none → ∀ u ∈ line, c.closed u k = true
  newest : ∀ t, c.tail k = some t → line.head? = some t
  first : ∀ t u, c.prev t k = none → [t, u].Sublist line → c.closed u k = true
  behind : ∀ t v, c.prev t k = some v → t ∈ line →
    [t, v].Sublist line ∧ ∀ u, [t, u].Sublist line → u = v ∨ [v, u].Sublist line
  down : ∀ t u, c.closed t k = true → [t, u].Sublist line → c.closed u k = true

theorem pair_sublist_cons : [t, u].Sublist (v :: line) ↔ (t = v ∧ u ∈ line) ∨ [t, u].Sublist line := by
  constructor
  · intro sub
    cases sub with
    | cons _ sub => exact .inr sub
    | cons_cons _ sub => exact .inl ⟨rfl, singleton_sublist.mp sub⟩
  · rintro (⟨rfl, member⟩ | sub)
    · exact (singleton_sublist.mpr member).cons_cons t
    · exact sub.cons v

theorem mem_of_pair (sub : [t, u].Sublist line) : t ∈ line ∧ u ∈ line :=
  ⟨sub.subset mem_cons_self, sub.subset (mem_cons_of_mem t mem_cons_self)⟩

theorem empty_linked : (empty : Chains τ κ).Linked k [] :=
  ⟨nodup_nil, fun _ _ member => absurd member not_mem_nil, nofun, fun _ _ _ sub => by simp at sub,
    nofun, nofun⟩

/-- Whoever has waited for its predecessor comes after every earlier node was closed. -/
theorem Linked.earlier_closed (linked : c.Linked k line) (awaited : c.Awaited t k)
    (earlier : [t, u].Sublist line) : c.closed u k = true := by
  cases found : c.prev t k with
  | none => exact linked.first t u found earlier
  | some v =>
    have passed := awaited v found
    rcases (linked.behind t v found (mem_of_pair earlier).1).2 u earlier with rfl | older
    · exact passed
    · exact linked.down v u passed older

theorem Linked.congr {d : Chains τ κ} (linked : c.Linked k line) (tail : d.tail k = c.tail k)
    (prev : ∀ t, d.prev t k = c.prev t k) (closed : ∀ t, d.closed t k = c.closed t k) :
    d.Linked k line where
  nodup := linked.nodup
  emptied := by simpa only [tail, closed] using linked.emptied
  newest := by simpa only [tail] using linked.newest
  first := by simpa only [prev, closed] using linked.first
  behind := by simpa only [prev] using linked.behind
  down := by simpa only [closed] using linked.down

variable [DecidableEq τ] [DecidableEq κ]

def link (c : Chains τ κ) (t : τ) (k : κ) : Chains τ κ :=
  { c with
    tail := update c.tail k (some t)
    prev := update c.prev t (update (c.prev t) k (c.tail k)) }

def close (c : Chains τ κ) (t : τ) (k : κ) : Chains τ κ :=
  { c with closed := update c.closed t (update (c.closed t) k true) }

def drop (c : Chains τ κ) (t : τ) (k : κ) : Chains τ κ :=
  if c.tail k = some t then { c with tail := update c.tail k none } else c

@[simp] theorem link_closed : (c.link t k).closed = c.closed := rfl

@[simp] theorem close_tail : (c.close t k).tail = c.tail := rfl

@[simp] theorem close_prev : (c.close t k).prev = c.prev := rfl

@[simp] theorem drop_closed : (c.drop t k).closed = c.closed := by
  unfold drop
  split <;> rfl

@[simp] theorem drop_prev : (c.drop t k).prev = c.prev := by
  unfold drop
  split <;> rfl

theorem link_prev_self : (c.link t k).prev t k = c.tail k := by simp [link]

theorem link_prev_of_ne (other : u ≠ t ∨ l ≠ k) : (c.link t k).prev u l = c.prev u l := by
  by_cases same : u = t
  · subst same
    simp [link, other.resolve_left (not_not.mpr rfl)]
  · simp [link, same]

theorem link_tail_of_ne (other : l ≠ k) : (c.link t k).tail l = c.tail l := by simp [link, other]

theorem close_closed : (c.close t k).closed u l = true ↔ (u = t ∧ l = k) ∨ c.closed u l = true := by
  by_cases same : u = t
  · subst same
    by_cases here : l = k <;> simp [close, here]
  · simp [close, same]

theorem drop_tail_of_ne (other : l ≠ k) : (c.drop t k).tail l = c.tail l := by
  unfold drop
  split <;> simp [other]

theorem Linked.link (linked : c.Linked k line) (fresh : t ∉ line) (opened : c.closed t k = false) :
    (c.link t k).Linked k (t :: line) where
  nodup := nodup_cons.mpr ⟨fresh, linked.nodup⟩
  emptied := by simp [Chains.link]
  newest := by simp [Chains.link]
  first := by
    intro a u alone sub
    rcases pair_sublist_cons.mp sub with ⟨rfl, member⟩ | sub
    · rw [link_prev_self] at alone
      exact linked.emptied alone u member
    · have other : a ≠ t := fun same => fresh (same ▸ (mem_of_pair sub).1)
      rw [link_prev_of_ne (.inl other)] at alone
      exact linked.first a u alone sub
  behind := by
    intro a v found member
    by_cases same : a = t
    · subst same
      rw [link_prev_self] at found
      obtain ⟨older, rfl⟩ : ∃ older, line = v :: older := by
        have head := linked.newest v found
        cases line with
        | nil => simp at head
        | cons w older => exact ⟨older, by rw [Option.some.inj head]⟩
      refine ⟨pair_sublist_cons.mpr (.inl ⟨rfl, mem_cons_self⟩), fun u sub => ?_⟩
      rcases pair_sublist_cons.mp sub with ⟨-, member⟩ | sub
      · rcases mem_cons.mp member with rfl | member
        · exact .inl rfl
        · exact .inr ((pair_sublist_cons.mpr (.inl ⟨rfl, member⟩)).cons _)
      · exact absurd (mem_of_pair sub).1 fresh
    · rw [link_prev_of_ne (.inl same)] at found
      have inside := (mem_cons.mp member).resolve_left same
      obtain ⟨before, rest⟩ := linked.behind a v found inside
      refine ⟨before.cons t, fun u sub => ?_⟩
      rcases pair_sublist_cons.mp sub with ⟨here, -⟩ | sub
      · exact absurd here same
      · exact (rest u sub).imp_right (·.cons t)
  down := by
    intro a u closed sub
    rcases pair_sublist_cons.mp sub with ⟨rfl, -⟩ | sub
    · simp [opened] at closed
    · exact linked.down a u closed sub

theorem Linked.close (linked : c.Linked k line) (awaited : c.Awaited t k) :
    (c.close t k).Linked k line where
  nodup := linked.nodup
  emptied alone u member := close_closed.mpr (.inr (linked.emptied alone u member))
  newest := linked.newest
  first a u alone sub := close_closed.mpr (.inr (linked.first a u alone sub))
  behind := linked.behind
  down := by
    intro a u closed sub
    rcases close_closed.mp closed with ⟨rfl, -⟩ | closed
    · exact close_closed.mpr (.inr (linked.earlier_closed awaited sub))
    · exact close_closed.mpr (.inr (linked.down a u closed sub))

theorem Linked.drop (linked : c.Linked k line) (passed : c.closed t k = true) :
    (c.drop t k).Linked k line := by
  unfold Chains.drop
  split
  · rename_i tail
    refine { linked with emptied := fun _ u member => ?_, newest := fun u found => by simp at found }
    have head := linked.newest t tail
    cases line with
    | nil => simp at member
    | cons w older =>
      obtain rfl : w = t := Option.some.inj head
      rcases mem_cons.mp member with rfl | member
      · exact passed
      · exact linked.down w u passed (pair_sublist_cons.mpr (.inl ⟨rfl, member⟩))
  · exact linked

end Chains

end Roost
