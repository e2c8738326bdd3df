import RoostCore.Entitysync.Session
import RoostCore.Run

/-! The references of a session: identifiers are live, free or unused, and what a session
believes its receiver to hold is what the receiver holds when it takes the objects one
after the other. -/
namespace Roost.Entitysync
open Go List Option Table

section View

/-- What a receiver holds, and the last generation of each identifier since it was cleared. -/
structure View where
  live : List ObjectRef := []
  last : Table UInt16 UInt16 := ∅

/-- An object as the application takes it. -/
def View.take (v : View) (object : ObjectDelta) : View :=
  if object.operation = objectCreate then
    { live := object.ref :: v.live, last := v.last.set object.ref.id object.ref.generation }
  else if object.operation = objectRemove then
    { v with live := v.live.filter (· ≠ object.ref) }
  else v

/-- The object means something to a receiver that holds the view: a create takes an
identifier that is not live, with another generation than its last use, and everything
else names a reference that is live. -/
def Fits (v : View) (object : ObjectDelta) : Prop :=
  if object.operation = objectCreate then
    (∀ ref ∈ v.live, ref.id ≠ object.ref.id) ∧
      v.last.get object.ref.id ≠ some object.ref.generation
  else object.ref ∈ v.live

/-- Every object fits when its turn comes. -/
def Proper : View → List ObjectDelta → Prop
  | _, [] => True
  | v, object :: rest => Fits v object ∧ Proper (v.take object) rest

theorem Proper.append (first : Proper v objects) (rest : Proper (objects.foldl View.take v) more) :
    Proper v (objects ++ more) := by
  induction objects generalizing v with
  | nil => exact rest
  | cons object objects ih => exact ⟨first.1, ih first.2 rest⟩

end View

namespace Session

def Live (s : Session) (id : UInt16) : Prop :=
  ∃ subject ref, s.objects.get subject = some ref ∧ ref.id = id

/-- The identifier was never given out. -/
def Unused (s : Session) (id : UInt16) : Prop := s.next ≠ 0 ∧ s.next ≤ id

/-- Every identifier but zero is free, live or unused, and only one of them; it is free
once and live for one subject. -/
structure Partitioned (s : Session) : Prop where
  cover : ∀ id, id ≠ 0 → id ∈ s.free ∨ s.Live id ∨ s.Unused id
  zero : 0 ∉ s.free ∧ ¬ s.Live 0
  free_live : ∀ id ∈ s.free, ¬ s.Live id
  free_unused : ∀ id ∈ s.free, ¬ s.Unused id
  live_unused : ∀ id, s.Live id → ¬ s.Unused id
  nodup : s.free.Nodup
  distinct : ∀ a b ref other, s.objects.get a = some ref → s.objects.get b = some other →
    ref.id = other.id → a = b

/-- The generation of a reference is the last one of its identifier. -/
structure Tidy (s : Session) : Prop extends Partitioned s where
  generation : ∀ subject ref, s.objects.get subject = some ref →
    s.generations.get ref.id = some ref.generation

end Session

/-- The receiver holds the references of the session, under the generations of the session. -/
structure Mirrors (s : Session) (v : View) : Prop where
  live : ∀ ref, ref ∈ v.live ↔ ∃ subject, s.objects.get subject = some ref
  last : ∀ id, v.last.get id = s.generations.get id

namespace Session
variable {s : Session}

theorem nextGeneration_ne (last : UInt16) : nextGeneration last ≠ last := by
  rw [nextGeneration]
  split
  · rename_i wraps
    rintro rfl
    exact absurd wraps (by decide)
  · simp

theorem unused_succ {next id : UInt16} (above : next ≤ id) (other : id ≠ next) :
    next + 1 ≠ 0 ∧ next + 1 ≤ id := by
  have bound := id.toNat_lt
  have below : next.toNat < id.toNat := by
    have le := UInt16.le_iff_toNat_le.mp above
    have ne : id.toNat ≠ next.toNat := fun same => other (UInt16.toNat_inj.mp same)
    omega
  have succ : (next + 1).toNat = next.toNat + 1 := by
    simp
    omega
  constructor
  · intro zero
    rw [zero] at succ
    simp at succ
  · rw [UInt16.le_iff_toNat_le, succ]
    omega

theorem of_unused_succ {next id : UInt16} (some : next + 1 ≠ 0) (above : next + 1 ≤ id) :
    next ≤ id ∧ id ≠ next := by
  have succ : (next + 1).toNat = next.toNat + 1 := by
    have bound := next.toNat_lt
    have other : next.toNat + 1 ≠ 2 ^ 16 := by
      intro full
      apply some
      apply UInt16.toNat_inj.mp
      simp [full]
    simp
    omega
  have le := UInt16.le_iff_toNat_le.mp above
  constructor
  · rw [UInt16.le_iff_toNat_le]
    omega
  · rintro rfl
    omega

variable {subject : Int64} {ref : ObjectRef}

theorem live_set (fresh : s.objects.get subject = none)
    (id : UInt16) {generations : Table UInt16 UInt16} {free : List UInt16} {next : UInt16} :
    Live { s with objects := s.objects.set subject ref, generations, free, next } id ↔
      id = ref.id ∨ s.Live id := by
  constructor
  · rintro ⟨other, held, found, rfl⟩
    rw [get_set] at found
    split at found
    · left
      rw [some.inj found]
    · exact .inr ⟨other, held, found, rfl⟩
  · rintro (rfl | ⟨other, held, found, rfl⟩)
    · exact ⟨subject, ref, get_set_self .., rfl⟩
    · refine ⟨other, held, ?_, rfl⟩
      rw [get_set_ne, found]
      rintro rfl
      rw [fresh] at found
      cases found

theorem live_remove (tidy : s.Tidy)
    (held : s.objects.get subject = some ref) (id : UInt16) {free : List UInt16} :
    Live { s with objects := s.objects.remove subject, free } id ↔ s.Live id ∧ id ≠ ref.id := by
  constructor
  · rintro ⟨other, found, get, rfl⟩
    have different : other ≠ subject := by
      rintro rfl
      rw [get_remove_self] at get
      cases get
    rw [get_remove_ne _ different] at get
    exact ⟨⟨other, found, get, rfl⟩, fun same => different (tidy.distinct _ _ _ _ get held same)⟩
  · rintro ⟨⟨other, found, get, rfl⟩, different⟩
    refine ⟨other, found, ?_, rfl⟩
    rw [get_remove_ne, get]
    rintro rfl
    rw [get] at held
    cases held
    exact different rfl

theorem release_tidy (tidy : s.Tidy)
    (held : s.objects.get subject = some ref) : (s.release subject).Tidy := by
  have live : s.Live ref.id := ⟨subject, ref, held, rfl⟩
  have gone := live_remove tidy held
  rw [release, held]
  refine ⟨⟨?_, ⟨?_, ?_⟩, ?_, ?_, ?_, ?_, ?_⟩, ?_⟩
  · intro id some
    simp only [gone, mem_append, mem_singleton]
    by_cases same : id = ref.id
    · exact .inl (.inr same)
    rcases tidy.cover id some with free | old | unused
    · exact .inl (.inl free)
    · exact .inr (.inl ⟨old, same⟩)
    · exact .inr (.inr unused)
  · rw [mem_append, mem_singleton]
    rintro (free | zero)
    · exact tidy.zero.1 free
    · exact tidy.zero.2 (zero ▸ live)
  · rw [gone]
    exact fun zero => tidy.zero.2 zero.1
  · intro id free
    rw [gone]
    rintro ⟨old, different⟩
    rcases mem_snoc.mp free with free | rfl
    · exact tidy.free_live id free old
    · exact different rfl
  · intro id free
    rcases mem_snoc.mp free with free | rfl
    · exact tidy.free_unused id free
    · exact tidy.live_unused ref.id live
  · intro id old
    exact tidy.live_unused id ((gone id).mp old).1
  · rw [nodup_append]
    refine ⟨tidy.nodup, nodup_singleton _, ?_⟩
    rintro id free other last rfl
    rw [mem_singleton.mp last] at free
    exact tidy.free_live ref.id free live
  · intro a b first second getA getB
    have kept {other : Int64} {found : ObjectRef}
        (get : (s.objects.remove subject).get other = some found) :
        s.objects.get other = some found := by
      rwa [get_remove_ne] at get
      rintro rfl
      rw [get_remove_self] at get
      cases get
    exact tidy.distinct a b first second (kept getA) (kept getB)
  · intro other found get
    apply tidy.generation other found
    rwa [get_remove_ne] at get
    rintro rfl
    rw [get_remove_self] at get
    cases get

/-- What an identifier is when it is taken, and what is left. -/
inductive Taken (s : Session) (id : UInt16) : Session → Prop
  | freed (free : List UInt16) (same : s.free = free ++ [id]) : Taken s id { s with free }
  | unused (none : s.free = []) (some : s.next ≠ 0) (same : id = s.next) :
      Taken s id { s with next := s.next + 1 }

theorem takeID_ok {id : UInt16} (taken : s.takeID = .ok (id, t)) : Taken s id t := by
  rw [takeID] at taken
  split at taken
  · rename_i last found
    cases taken
    exact .freed _ (dropLast_append_getLast? id found).symm
  · rename_i none
    split at taken
    · cases taken
    rename_i some
    cases taken
    exact .unused (getLast?_eq_none_iff.mp none) some rfl

theorem Taken.fresh {id : UInt16} (taken : Taken s id t) (tidy : s.Tidy) : ¬ s.Live id := by
  cases taken with
  | freed free same => exact tidy.free_live id (by rw [same]; simp)
  | unused none some same =>
    intro live
    exact tidy.live_unused id live ⟨some, by rw [same]; exact UInt16.le_refl _⟩

/-- What is left when an identifier is taken: the free and the unused ones without it. -/
structure Left (s : Session) (id : UInt16) (t : Session) : Prop where
  nonzero : id ≠ 0
  free : ∀ other ∈ t.free, other ∈ s.free ∧ other ≠ id
  unused : ∀ other, t.Unused other → s.Unused other ∧ other ≠ id
  rest : ∀ other, other ≠ id → other ∈ s.free ∨ s.Unused other → other ∈ t.free ∨ t.Unused other
  nodup : t.free.Nodup

theorem Taken.left {id : UInt16} (taken : Taken s id t) (tidy : s.Tidy) : Left s id t := by
  cases taken with
  | freed free same =>
    have member : id ∈ s.free := by simp [same]
    have parted := tidy.nodup
    rw [same, nodup_append] at parted
    refine ⟨?_, fun other kept => ⟨?_, ?_⟩, fun other unused => ⟨unused, ?_⟩, fun other different => ?_, parted.1⟩
    · rintro rfl
      exact tidy.zero.1 member
    · rw [same]
      exact mem_append_left _ kept
    · exact parted.2.2 other kept id (mem_singleton_self id)
    · rintro rfl
      exact tidy.free_unused other member unused
    · rw [same, mem_append, mem_singleton]
      rintro ((kept | here) | unused)
      · exact .inl kept
      · exact absurd here different
      · exact .inr unused
  | unused none some same =>
    refine ⟨fun zero => some (same ▸ zero), fun other kept => ?_, fun other unused => ?_,
      fun other different => ?_, tidy.nodup⟩
    · rw [none] at kept
      cases kept
    · obtain ⟨above, different⟩ := of_unused_succ unused.1 unused.2
      exact ⟨⟨some, above⟩, same ▸ different⟩
    · exact Or.imp_right fun unused => unused_succ unused.2 (same ▸ different)

/-- The session after a reference was given to a subject. -/
def give (s : Session) (subject : Int64) (ref : ObjectRef) : Session :=
  { s with
    generations := s.generations.set ref.id ref.generation, objects := s.objects.set subject ref }

theorem Taken.tidy {id : UInt16} (taken : Taken s id t) (tidy : s.Tidy)
    (fresh : s.objects.get subject = none) (generation : UInt16) :
    (t.give subject ⟨id, generation⟩).Tidy := by
  have absent := taken.fresh tidy
  have left := taken.left tidy
  have live (other : UInt16) : (t.give subject ⟨id, generation⟩).Live other ↔ other = id ∨ s.Live other := by
    cases taken <;> exact live_set fresh other
  have objects : (t.give subject ⟨id, generation⟩).objects = s.objects.set subject ⟨id, generation⟩ := by
    cases taken <;> rfl
  have generations : (t.give subject ⟨id, generation⟩).generations = s.generations.set id generation := by
    cases taken <;> rfl
  refine ⟨⟨?_, ⟨?_, ?_⟩, ?_, ?_, ?_, left.nodup, ?_⟩, ?_⟩
  · intro other present
    rw [live]
    by_cases is : other = id
    · exact .inr (.inl (.inl is))
    rcases tidy.cover other present with member | old | unused
    · exact (left.rest other is (.inl member)).imp_right .inr
    · exact .inr (.inl (.inr old))
    · exact (left.rest other is (.inr unused)).imp_right .inr
  · exact fun zero => tidy.zero.1 (left.free 0 zero).1
  · rw [live]
    rintro (zero | old)
    · exact left.nonzero zero.symm
    · exact tidy.zero.2 old
  · intro other member
    rw [live]
    rintro (is | old)
    · exact (left.free other member).2 is
    · exact tidy.free_live other (left.free other member).1 old
  · exact fun other member unused => tidy.free_unused other (left.free other member).1 (left.unused other unused).1
  · intro other
    rw [live]
    rintro (is | old) unused
    · exact (left.unused other unused).2 is
    · exact tidy.live_unused other old (left.unused other unused).1
  · intro a b ref other getA getB same
    rw [objects, get_set] at getA getB
    split at getA <;> split at getB
    · rename_i isA isB
      rw [isA, isB]
    · cases getA
      exact absurd ⟨b, other, getB, same.symm⟩ absent
    · cases getB
      exact absurd ⟨a, ref, getA, same⟩ absent
    · exact tidy.distinct a b ref other getA getB same
  · intro other ref get
    rw [objects, get_set] at get
    rw [generations]
    split at get
    · cases get
      exact get_set_self ..
    · rw [get_set_ne]
      · exact tidy.generation other ref get
      · rintro same
        exact absent ⟨other, ref, get, same⟩

/-- The clock and the state of the session are those of another one. -/
structure SameClock (s t : Session) : Prop where
  epoch : t.epoch = s.epoch
  tick : t.tick = s.tick
  held : t.held = s.held
  framesSent : t.framesSent = s.framesSent

theorem SameClock.refl (s : Session) : SameClock s s := ⟨rfl, rfl, rfl, rfl⟩

theorem SameClock.trans (first : SameClock s t) (second : SameClock t u) : SameClock s u :=
  ⟨second.epoch.trans first.epoch, second.tick.trans first.tick, second.held.trans first.held,
    second.framesSent.trans first.framesSent⟩

theorem allocate_ok (allocated : s.allocate subject maxObjects = .ok (ref, u)) :
    ∃ t, Taken s ref.id t ∧ u = t.give subject ref ∧
      ref.generation = nextGeneration ((s.generations.get ref.id).getD 0) := by
  obtain ⟨-, rest⟩ := refuse_bind_ok allocated
  obtain ⟨⟨id, t⟩, found, last⟩ := bind_ok rest
  have taken := takeID_ok found
  have kept : t.generations = s.generations := by cases taken <;> rfl
  cases last
  exact ⟨t, taken, rfl, by rw [← kept]⟩

end Session

section Objects
variable {s t : Session} {v : View} {cfg : WireConfig} {entry : FrameEntry}

/-- The object of one entry fits, and the receiver that takes it mirrors the new table. -/
structure Follows (s : Session) (object : ObjectDelta) (t : Session) : Prop where
  clock : Session.SameClock s t
  tidy : s.Tidy → t.Tidy
  fits : ∀ v, s.Tidy → Mirrors s v → Fits v object
  mirrors : ∀ v, s.Tidy → Mirrors s v → Mirrors t (v.take object)

variable {object : ObjectDelta}

theorem follows_create (fresh : s.objects.get subject = none)
    (allocated : s.allocate subject maxObjects = .ok (object.ref, t))
    (create : object.operation = objectCreate) : Follows s object t := by
  obtain ⟨u, taken, rfl, generation⟩ := Session.allocate_ok allocated
  have objects : (u.give subject object.ref).objects = s.objects.set subject object.ref := by
    cases taken <;> rfl
  have generations : (u.give subject object.ref).generations =
      s.generations.set object.ref.id object.ref.generation := by
    cases taken <;> rfl
  refine ⟨by cases taken <;> exact ⟨rfl, rfl, rfl, rfl⟩, ?_, ?_, ?_⟩
  · intro tidy
    exact taken.tidy tidy fresh object.ref.generation
  · intro v tidy mirrors
    rw [Fits, if_pos create]
    constructor
    · intro ref member same
      obtain ⟨other, held⟩ := (mirrors.live ref).mp member
      exact taken.fresh tidy ⟨other, ref, held, same⟩
    · rw [mirrors.last, generation]
      cases before : s.generations.get object.ref.id with
      | none => simp
      | some last =>
        intro same
        exact Session.nextGeneration_ne last (some.inj same).symm
  · intro v tidy mirrors
    rw [View.take, if_pos create]
    constructor
    · intro ref
      rw [mem_cons, objects, mirrors.live]
      constructor
      · rintro (rfl | ⟨other, held⟩)
        · exact ⟨subject, get_set_self ..⟩
        · refine ⟨other, ?_⟩
          rw [get_set_ne, held]
          rintro rfl
          rw [fresh] at held
          cases held
      · rintro ⟨other, held⟩
        rw [get_set] at held
        split at held
        · exact .inl (some.inj held).symm
        · exact .inr ⟨other, held⟩
    · intro id
      rw [generations, get_set, get_set, mirrors.last]

theorem follows_update (held : s.objects.get subject = some object.ref)
    (update : object.operation = objectUpdate) : Follows s object s := by
  have notCreate : object.operation ≠ objectCreate := by
    rw [update]
    decide
  have notRemove : object.operation ≠ objectRemove := by
    rw [update]
    decide
  refine ⟨.refl s, id, ?_, ?_⟩
  · intro v _ mirrors
    rw [Fits, if_neg notCreate, mirrors.live]
    exact ⟨subject, held⟩
  · intro v _ mirrors
    rwa [View.take, if_neg notCreate, if_neg notRemove]

theorem follows_remove (held : s.objects.get subject = some object.ref)
    (remove : object.operation = objectRemove) : Follows s object (s.release subject) := by
  have notCreate : object.operation ≠ objectCreate := by
    rw [remove]
    decide
  refine ⟨?_, fun tidy => Session.release_tidy tidy held, ?_, ?_⟩
  · rw [Session.release, held]
    exact ⟨rfl, rfl, rfl, rfl⟩
  · intro v _ mirrors
    rw [Fits, if_neg notCreate, mirrors.live]
    exact ⟨subject, held⟩
  · intro v tidy mirrors
    rw [View.take, if_neg notCreate, if_pos remove, Session.release, held]
    refine ⟨fun ref => ?_, mirrors.last⟩
    rw [mem_filter, mirrors.live, decide_eq_true_iff]
    constructor
    · rintro ⟨⟨other, found⟩, different⟩
      refine ⟨other, ?_⟩
      rw [get_remove_ne, found]
      rintro rfl
      rw [found] at held
      exact different (some.inj held)
    · rintro ⟨other, found⟩
      have different : other ≠ subject := by
        rintro rfl
        rw [get_remove_self] at found
        cases found
      rw [get_remove_ne _ different] at found
      refine ⟨⟨other, found⟩, ?_⟩
      rintro rfl
      exact different (tidy.distinct _ _ _ _ found held rfl)

theorem objectFor_follows
    (made : s.objectFor entry cfg = .ok (some object, t)) : Follows s object t := by
  rw [Session.objectFor] at made
  split at made
  · rename_i fresh
    obtain ⟨⟨ref, u⟩, allocated, rest⟩ := bind_ok made
    obtain ⟨data, -, last⟩ := bind_ok rest
    cases last
    exact follows_create fresh allocated rfl
  · rename_i held
    obtain ⟨data, -, last⟩ := bind_ok made
    cases last
    exact follows_update held rfl
  · cases made
  · rename_i held
    obtain ⟨data, -, last⟩ := bind_ok made
    cases last
    exact follows_update held rfl
  · cases made
  · rename_i held
    cases made
    exact follows_remove held rfl

end Objects

end Roost.Entitysync
