import RoostCore.Versionstore.Steps

/-! The preparation of a write: what the commands of an attempt compare with, what they
write, and which tokens they carry. -/
namespace Roost.Versionstore
open List Option
open Go (Bytes)

variable {κ T : Type} {cfg : Config T}

/-- The shape of a prepared write over the bytes that were read. -/
structure Made (cfg : Config T) (kind : WriteKind) (key : κ) (base : Option Bytes) (value : T) (version : Nat)
    (token : Bytes) (write : PendingWrite κ) : Prop where
  same_key : write.key = key
  same_base : write.base = base
  same_kind : write.kind = kind
  same_token : write.token = token
  same_version : write.version = version
  parsed : ∀ raw, base = some raw → ∃ header, parseEnvelope raw = .ok header
  next : ∃ payload, cfg.encode value = some payload ∧
    write.next = some (buildEnvelope payload version token write.prior cfg.history)

theorem prepareWrite_made (made : prepareWrite cfg kind key base value version token = some write) :
    Made cfg kind key base value version token write := by
  simp only [prepareWrite] at made
  split at made
  · contradiction
  · contradiction
  · rename_i payload encoded absent
    cases made
    obtain rfl : base = none := by simpa using absent
    exact ⟨rfl, rfl, rfl, rfl, rfl, nofun, payload, encoded, rfl⟩
  · rename_i payload header encoded known
    cases made
    obtain ⟨raw, rfl, parsed⟩ := map_eq_some_iff.mp known
    refine ⟨rfl, rfl, rfl, rfl, rfl, ?_, payload, encoded, ?_⟩
    · intro value same
      exact ⟨header, some.inj same ▸ parsed⟩
    · rw [(parseEnvelope_ok parsed).1]
      rfl

namespace Made
variable {kind : WriteKind} {key : κ} {base : Option Bytes} {value : T} {version random : Nat} {write : PendingWrite κ}

theorem carries (made : Made cfg kind key base value version (newWriteToken random) write)
    (priors : ∀ token ∈ write.prior, Plain token) : Carries cfg write value := by
  obtain ⟨payload, encoded, next⟩ := made.next
  exact ⟨_, payload, next, encoded, payloadOf_build (newWriteToken_plain random) priors⟩

theorem prepared (made : Made cfg kind key base value version (newWriteToken random) write)
    (priors : ∀ token ∈ write.prior, Plain token) (kinds : kind = .update ∨ kind = .create ∧ base = none)
    (absent : base = none → version = 1)
    (present : ∀ raw header, base = some raw → parseEnvelope raw = .ok header →
      version = (header.version + 1) % 2 ^ 64) : Prepared cfg write := by
  obtain ⟨payload, -, next⟩ := made.next
  refine ⟨?_, ?_, priors, ?_⟩
  · rw [made.same_base, made.same_version]
    cases base with
    | none => exact ⟨by simp [next], absent rfl⟩
    | some raw =>
      obtain ⟨header, parsed⟩ := made.parsed raw rfl
      refine ⟨header, parsed, ?_⟩
      rw [next, if_neg (by simp)]
      exact present raw header rfl parsed
  · rw [made.same_kind]
    rcases kinds with rfl | ⟨rfl, rfl⟩
    · simp [next]
    · exact ⟨made.same_base, by simp [next]⟩
  · rw [next]
    rw [made.same_token, made.same_version]
    exact ⟨newWriteToken_plain random, payload, rfl⟩

end Made

/-- What the preparation of an attempt returns: a write for each key, over what was read,
with the tokens in order. -/
inductive AllMade (cfg : Config T) (random : Nat → Nat) :
    Nat → List κ → List (Option Bytes) → List (Versioned T) → List T → List (PendingWrite κ) → Prop
  | nil (i : Nat) : AllMade cfg random i [] [] [] [] []
  | cons {i : Nat} {key : κ} {keys : List κ} {raw : Option Bytes} {raws : List (Option Bytes)} {current : Versioned T}
      {currents : List (Versioned T)} {value : T} {values : List T} {write : PendingWrite κ}
      {writes : List (PendingWrite κ)}
      (made : Made cfg .update key raw value ((current.version + 1) % 2 ^ 64) (newWriteToken (random i)) write)
      (rest : AllMade cfg random (i + 1) keys raws currents values writes) :
      AllMade cfg random i (key :: keys) (raw :: raws) (current :: currents) (value :: values) (write :: writes)

theorem prepareAll_made {keys : List κ} (made : prepareAll cfg random i keys raws currents values = some writes) :
    AllMade cfg random i keys raws currents values writes := by
  induction keys generalizing i raws currents values writes with
  | nil =>
    match raws, currents, values, made with
    | [], [], [], made =>
      cases made
      exact .nil i
  | cons key keys ih =>
    match raws, currents, values, made with
    | raw :: raws, current :: currents, value :: values, made =>
      simp only [prepareAll] at made
      split at made
      · rename_i write rest first others
        cases made
        exact .cons (prepareWrite_made first) (ih others)
      · contradiction

namespace AllMade
variable {random : Nat → Nat} {i : Nat} {keys : List κ} {raws : List (Option Bytes)} {currents : List (Versioned T)}
  {values : List T} {writes : List (PendingWrite κ)}

section
variable (all : AllMade cfg random i keys raws currents values writes)
include all

theorem keys_eq : writes.map (fun write => write.key) = keys := by
  induction all with
  | nil => rfl
  | cons made _ ih => rw [map_cons, made.same_key, ih]

theorem bases_eq : writes.map (fun write => write.base) = raws := by
  induction all with
  | nil => rfl
  | cons made _ ih => rw [map_cons, made.same_base, ih]

theorem token_at (found : writes[p]? = some write) :
    p < keys.length ∧ write.token = newWriteToken (random (i + p)) := by
  induction all generalizing p with
  | nil => simp at found
  | cons made _ ih =>
    cases p with
    | zero =>
      obtain rfl : _ = write := by simpa using found
      exact ⟨by simp, made.same_token⟩
    | succ p =>
      obtain ⟨bound, token⟩ := ih (by simpa using found)
      refine ⟨by simpa using bound, ?_⟩
      rw [token]
      congr 2
      omega

theorem carries
    (priors : ∀ write ∈ writes, ∀ token ∈ write.prior, Plain token) : List.Forall₂ (Carries cfg) writes values := by
  induction all with
  | nil => exact .nil
  | cons made _ ih =>
    obtain ⟨here, later⟩ := forall_mem_cons.mp priors
    exact .cons (made.carries here) (ih later)

theorem prepared (priors : ∀ write ∈ writes, ∀ token ∈ write.prior, Plain token)
    (decoded : raws.map (decodeRaw cfg) = currents.map some) : ∀ write ∈ writes, Prepared cfg write := by
  induction all with
  | nil => simp
  | cons made _ ih =>
    obtain ⟨here, later⟩ := forall_mem_cons.mp priors
    obtain ⟨first, rest⟩ := cons.inj decoded
    refine forall_mem_cons.mpr ⟨made.prepared here (.inl rfl) ?_ ?_, ih later rest⟩
    · rintro rfl
      cases first
      rfl
    · rintro raw header rfl parsed
      simp only [decodeRaw, decodeEnvelope, parsed, map_eq_some_iff] at first
      obtain ⟨value, -, rfl⟩ := first
      rfl

end

end AllMade

theorem mapM_some {f : α → Option β} {list : List α} (mapped : list.mapM f = some results) :
    list.map f = results.map some := by
  induction list generalizing results with
  | nil =>
    obtain rfl : [] = results := by simpa using mapped
    rfl
  | cons head rest ih =>
    simp only [mapM_cons, bind_eq_bind, bind_eq_some_iff] at mapped
    obtain ⟨first, here, later, others, same⟩ := mapped
    cases same
    rw [map_cons, map_cons, here, ih others]

theorem forall₂_of_map {writes : List (PendingWrite κ)}
    (all : List.Forall₂ R (writes.map fun write => write.key) (writes.map fun write => write.base)) :
    ∀ write ∈ writes, R write.key write.base := by
  induction writes with
  | nil => simp
  | cons write rest ih =>
    obtain ⟨here, later⟩ := forall₂_cons.mp all
    exact forall_mem_cons.mpr ⟨here, ih later⟩

/-- A call that ends here has sent nothing it could still regret. -/
theorem decide_report (decided : decide cfg call raws random = .inr report) :
    report.Fits call.op ∧ (report = .deleted ∧ (∃ key accepts, call.op = .delete key 0 accepts) ∨
      report = .conflict ∨ report = .failed ∨ report = .mismatch ∨ ∃ current, report = .declined current) := by
  obtain ⟨op, remaining, tried, stage⟩ := call
  cases op <;> simp only [decide] at decided <;> repeat' split at decided
  -- a branch that ends names its report, and the others have none
  all_goals first
    | contradiction
    | (obtain rfl := Sum.inr.inj decided
       simp_all [Report.Fits])

section seen
variable [DecidableEq κ] {w : World κ T}

theorem Seen.priors (reg : Registered cfg w) {write : PendingWrite κ} (seen : Seen w write.key write.base) :
    ∀ token ∈ write.prior, Plain token := by
  cases base : write.base with
  | none => simp [PendingWrite.prior, base]
  | some raw =>
    obtain ⟨script, origin, wrote, -, next⟩ := seen raw base
    obtain ⟨batch, member, -, pending, inside, rfl⟩ := reg.of_wrote wrote
    have plain := (reg.prepared batch member pending inside).tokens_plain next
    simpa [PendingWrite.prior, base] using plain

/-- What an attempt of a call has made ready. -/
structure Ready (cfg : Config T) (w : World κ T) (op : Operation κ T) (random : Nat → Nat)
    (writes : List (PendingWrite κ)) (values : List T) : Prop where
  distinct : (writes.map fun write => write.key).Nodup
  seen : ∀ write ∈ writes, Seen w write.key write.base
  prepared : ∀ write ∈ writes, Prepared cfg write
  tokens : ∀ p write, writes[p]? = some write → write.next = none ∨
    p < op.tokenCount ∧ write.token = newWriteToken (random p)
  computed : ∀ id, Computed cfg op ⟨id, writes⟩ values

theorem decide_ready (reg : Registered cfg w) {raws : List (Option Bytes)} {values : List T}
    (distinct : call.op.keys.Nodup) (seen : List.Forall₂ (Seen w) call.op.keys raws)
    (decided : decide cfg call raws random = .inl (writes, values)) :
    Ready cfg w call.op random writes values := by
  obtain ⟨op, remaining, tried, stage⟩ := call
  cases op with
  | loop keys mutate resumable =>
    simp only [decide] at decided
    split at decided
    · contradiction
    split at decided
    · contradiction
    rename_i currents decoded
    split at decided
    · contradiction
    · contradiction
    rename_i next saves
    split at decided
    · contradiction
    rename_i made prepared
    obtain ⟨rfl, rfl⟩ := Prod.mk.inj (Sum.inl.inj decided)
    have all := prepareAll_made prepared
    have each : ∀ write ∈ made, Seen w write.key write.base := by
      apply forall₂_of_map
      rw [all.keys_eq, all.bases_eq]
      exact seen
    have priors : ∀ write ∈ made, ∀ token ∈ write.prior, Plain token :=
      fun write member => (each write member).priors reg
    have decodes := mapM_some decoded
    refine ⟨?_, each, all.prepared priors decodes, ?_, ?_⟩
    · rw [all.keys_eq]
      exact distinct
    · intro p write found
      obtain ⟨bound, token⟩ := all.token_at found
      exact .inr ⟨bound, by simpa using token⟩
    · intro id
      refine ⟨all.keys_eq, ⟨currents, ?_, ?_⟩, all.carries priors⟩
      · rw [← decodes, ← all.bases_eq, List.map_map]
        rfl
      · rw [← saves, ← all.bases_eq, List.map_map]
        rfl
  | create key value =>
    simp only [decide] at decided
    split at decided
    · contradiction
    rename_i write made
    obtain ⟨rfl, rfl⟩ := Prod.mk.inj (Sum.inl.inj decided)
    have shape := prepareWrite_made made
    have base : write.base = none := shape.same_base
    have priors : ∀ token ∈ write.prior, Plain token := by simp [PendingWrite.prior, base]
    refine ⟨by simp, ?_, ?_, ?_, ?_⟩
    · refine forall_mem_singleton.mpr fun raw same => ?_
      rw [base] at same
      contradiction
    · exact forall_mem_singleton.mpr (shape.prepared priors (.inr ⟨rfl, rfl⟩) (fun _ => rfl) nofun)
    · intro p other found
      cases p with
      | zero =>
        obtain rfl : write = other := by simpa using found
        exact .inr ⟨Nat.one_pos, shape.same_token⟩
      | succ p => simp at found
    · intro id
      exact ⟨write, rfl, shape.same_key, base, shape.carries priors⟩
  | delete key expect accepts =>
    simp only [decide] at decided
    split at decided
    · split at decided
      · contradiction
      rename_i current decoded
      split at decided
      · contradiction
      rename_i same
      split at decided
      · contradiction
      obtain ⟨rfl, rfl⟩ := Prod.mk.inj (Sum.inl.inj decided)
      obtain ⟨here, -⟩ := forall₂_cons.mp seen
      simp only [decodeEnvelope] at decoded
      split at decoded
      · contradiction
      rename_i header parsed
      obtain ⟨value, -, rfl⟩ := map_eq_some_iff.mp decoded
      refine ⟨by simp, forall_mem_singleton.mpr here,
        forall_mem_singleton.mpr ⟨⟨header, parsed, rfl⟩, rfl, Seen.priors reg here, rfl⟩, ?_, ?_⟩
      · intro p write found
        cases p with
        | zero =>
          cases found
          exact .inl rfl
        | succ p => simp at found
      · intro id
        exact ⟨_, rfl, rfl, rfl, by simpa using same⟩
    · split at decided <;> contradiction

end seen

end Roost.Versionstore
