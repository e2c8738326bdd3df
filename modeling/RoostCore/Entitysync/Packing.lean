import RoostCore.Entitysync.References

/-! The frames of one tick. Each of them is made of the table that the one before it left
behind, so that any prefix of them may be adopted. -/
namespace Roost.Entitysync
open Go

section Renders

/-- Objects that follow one another from a session's table. -/
inductive Renders (s : Session) : List ObjectDelta → Session → Prop
  | nil : Renders s [] s
  | snoc {objects : List ObjectDelta} {object : ObjectDelta} {t u : Session} :
      Renders s objects t → Follows t object u → Renders s (objects ++ [object]) u

variable {s t : Session} {objects : List ObjectDelta}

section
variable (renders : Renders s objects t)
include renders

theorem Renders.clock : Session.SameClock s t := by
  induction renders with
  | nil => exact .refl s
  | snoc _ follows ih => exact ih.trans follows.clock

theorem Renders.tidy (tidy : s.Tidy) : t.Tidy := by
  induction renders with
  | nil => exact tidy
  | snoc _ follows ih => exact follows.tidy ih

theorem Renders.mirrors (tidy : s.Tidy) (mirrors : Mirrors s v) :
    Mirrors t (objects.foldl View.take v) := by
  induction renders with
  | nil => exact mirrors
  | snoc before follows ih =>
    rw [List.foldl_append]
    exact follows.mirrors _ (before.tidy tidy) ih

theorem Renders.proper (tidy : s.Tidy) (mirrors : Mirrors s v) :
    Proper v objects := by
  induction renders with
  | nil => trivial
  | snoc before follows ih =>
    exact ih.append ⟨follows.fits _ (before.tidy tidy) (before.mirrors tidy mirrors), trivial⟩

end

end Renders

section Chain
variable {cfg : WireConfig}

def Session.ticked (s : Session) : Session :=
  { s with tick := s.tick + 1, framesSent := s.framesSent + 1 }

/-- The frame is made of objects that follow from the table of the session. -/
def Packed (cfg : WireConfig) (s : Session) (f : EncodedFrame) : Prop :=
  ∃ objects t, Renders s objects t ∧
    (objects.length : Int) ≤ (normalizeLimits cfg.limits).maxObjects.toInt ∧
    encodeFrame (Packing.frame cfg { session := t, objects }) cfg.limits = .ok f.payload ∧
    f.next = t.ticked

inductive Chain (cfg : WireConfig) : Session → List EncodedFrame → Session → Prop
  | nil (s : Session) : Chain cfg s [] s
  | cons {s t : Session} {f : EncodedFrame} {rest : List EncodedFrame} :
      Packed cfg s f → Chain cfg f.next rest t → Chain cfg s (f :: rest) t

theorem Chain.snoc (chain : Chain cfg s frames t) (packed : Packed cfg t f) :
    Chain cfg s (frames ++ [f]) f.next := by
  induction chain with
  | nil s => exact .cons packed (.nil f.next)
  | cons first _ ih => exact .cons first (ih packed)

/-- The loop of `encode` from a session: the finished frames are a chain, and the objects
of the open one follow from its end. -/
structure Progress (cfg : WireConfig) (s : Session) (p : Packing) : Prop where
  made : ∃ base, Chain cfg s p.frames base ∧ Renders base p.objects p.session
  count : (p.objects.length : Int) ≤ (normalizeLimits cfg.limits).maxObjects.toInt

theorem orDefault_pos (positive : 0 < other.toInt) : 0 < (orDefault value other).toInt := by
  rw [orDefault]
  split
  · exact positive
  rename_i above
  rw [Int64.le_iff_toInt_le] at above
  exact Int.not_le.mp above

theorem maxObjects_pos (limits : Limits) : 0 < (normalizeLimits limits).maxObjects.toInt :=
  orDefault_pos (by decide)

variable {s : Session} {p q : Packing}

section
variable (progress : Progress cfg s p)
include progress

theorem finish_ok (finished : p.finish cfg = .ok q) :
    (q = p ∧ p.objects = []) ∨ Chain cfg s q.frames q.session := by
  rw [Packing.finish] at finished
  split at finished
  · rename_i nothing
    cases finished
    exact .inl ⟨rfl, nothing.1⟩
  obtain ⟨payload, encoded, rest⟩ := bind_ok finished
  cases rest
  obtain ⟨base, chain, renders⟩ := progress.made
  right
  refine chain.snoc ⟨p.objects, p.session, renders, progress.count, ?_, rfl⟩
  cases frame : encodeFrame (p.frame cfg) cfg.limits with
  | error fault =>
    rw [frame] at encoded
    cases encoded
  | ok bytes =>
    rw [frame] at encoded
    cases encoded
    exact frame

theorem turn_ok (turned : p.turn cfg bytes = .ok q) : Progress cfg s q ∧
      (q.objects.length : Int) < (normalizeLimits cfg.limits).maxObjects.toInt := by
  have positive := maxObjects_pos cfg.limits
  have count := progress.count
  rw [Packing.turn] at turned
  split at turned
  · rename_i leaves
    obtain ⟨done, finished, rest⟩ := bind_ok turned
    cases rest
    rcases finish_ok progress finished with ⟨-, none⟩ | chain
    · exact absurd none leaves.1
    · exact ⟨⟨⟨done.session, chain, .nil⟩, by simpa using positive.le⟩, by simpa using positive⟩
  · rename_i stays
    cases turned
    refine ⟨progress, ?_⟩
    by_cases none : p.objects = []
    · rw [none]
      exact positive
    · have other : (p.objects.length : Int) ≠ (normalizeLimits cfg.limits).maxObjects.toInt :=
        fun full => stays ⟨none, .inl full⟩
      omega

theorem append_ok (room : (p.objects.length : Int) < (normalizeLimits cfg.limits).maxObjects.toInt)
    (appended : p.append cfg entry bytes = .ok q) : Progress cfg s q := by
  obtain ⟨⟨object, t⟩, made, rest⟩ := bind_ok appended
  cases object with
  | none =>
    cases rest
    exact progress
  | some object =>
    obtain ⟨-, rest⟩ := refuse_bind_ok rest
    cases rest
    obtain ⟨base, chain, renders⟩ := progress.made
    refine ⟨⟨base, chain, renders.snoc (objectFor_follows made)⟩, ?_⟩
    rw [List.length_append, List.length_singleton]
    omega

theorem place_ok (placed : p.place cfg entry = .ok q) : Progress cfg s q := by
  rw [Packing.place] at placed
  split at placed
  · cases placed
    exact progress
  · obtain ⟨bytes, -, rest⟩ := bind_ok placed
    obtain ⟨-, rest⟩ := refuse_bind_ok rest
    obtain ⟨turned, turn, rest⟩ := bind_ok rest
    obtain ⟨progress, room⟩ := turn_ok progress turn
    exact append_ok progress room rest

theorem places_ok {entries : List FrameEntry}
    (placed : entries.foldlM (Packing.place cfg) p = .ok q) :
    Progress cfg s q := by
  induction entries generalizing p with
  | nil =>
    cases placed
    exact progress
  | cons entry rest ih =>
    obtain ⟨next, first, others⟩ := bind_ok placed
    exact ih (place_ok progress first) others

end

theorem encode_chain (encoded : s.encode entries cfg = .ok frames) : ∃ t, Chain cfg s frames t := by
  obtain ⟨p, placed, rest⟩ := bind_ok encoded
  obtain ⟨q, finished, rest⟩ := bind_ok rest
  cases rest
  have start : Progress cfg s { session := s } :=
    ⟨⟨s, .nil s, .nil⟩, by simpa using (maxObjects_pos cfg.limits).le⟩
  have progress := places_ok start placed
  rcases finish_ok progress finished with ⟨rfl, -⟩ | chain
  · obtain ⟨base, chain, -⟩ := progress.made
    exact ⟨base, chain⟩
  · exact ⟨q.session, chain⟩

end Chain

end Roost.Entitysync
