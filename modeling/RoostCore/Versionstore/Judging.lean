import RoostCore.Versionstore.Store

/-! What the bytes of a key prove about a write whose reply was lost. The tokens of an
envelope are the trail of the writes below it, so a verdict holds for good. -/
namespace Roost.Versionstore
open List Option
open Go (Bytes)

variable {κ T : Type} [DecidableEq κ] (cfg : Config T)

/-- The store with its commands, as scripts. -/
def World.ledger (w : World κ T) : Scripts.Ledger κ Bytes where
  store := w.store
  registry := w.batches.map Batch.script
  copies := fun script => w.pool.countP fun command => command.batch.script = script
  log := w.log.map fun effect => effect.batch.script

def Executed (w : World κ T) (batch : Batch κ) : Prop := batch.script ∈ w.ledger.log

/-- The tokens that a write took over from its base. -/
def PendingWrite.prior (write : PendingWrite κ) : List Bytes := (write.base.map tokensOf).getD []

/-- A write as `prepareWrite` and `DeleteIf` make it. -/
structure Prepared (write : PendingWrite κ) : Prop where
  version : match write.base with
    | none => write.next ≠ none ∧ write.version = 1
    | some raw => ∃ header, parseEnvelope raw = .ok header ∧
        write.version = if write.next = none then header.version else (header.version + 1) % 2 ^ 64
  kind : match write.kind with
    | .create => write.base = none ∧ write.next ≠ none
    | .update => write.next ≠ none
    | .delete => write.next = none
  priors : ∀ token ∈ write.prior, Plain token
  next : match write.next with
    | none => write.token = []
    | some raw => Plain write.token ∧
        ∃ payload, raw = buildEnvelope payload write.version write.token write.prior cfg.history

/-- Every prepared command is of this shape, and no two carry the same token. -/
structure Registered (w : World κ T) : Prop where
  lasting : Scripts.Lasting w.ledger
  ids : ∀ batch ∈ w.batches, w.batches[batch.id]? = some batch
  prepared : ∀ batch ∈ w.batches, ∀ write ∈ batch.writes, Prepared cfg write
  tokens : ∀ batch ∈ w.batches, ∀ other ∈ w.batches, ∀ write ∈ batch.writes, ∀ second ∈ other.writes,
    write.next ≠ none → second.next ≠ none → write.token = second.token → batch = other ∧ write = second
  pool : ∀ command ∈ w.pool, command.batch ∈ w.batches
  log : ∀ effect ∈ w.log, effect.batch ∈ w.batches ∧
    effect.before = effect.batch.writes.map (fun write => write.base) ∧
    effect.after = effect.batch.writes.map (fun write => write.next)

variable {cfg}

variable {write : PendingWrite κ}

section
variable (prepared : Prepared cfg write)
include prepared

omit [DecidableEq κ] in
theorem Prepared.tokensOf_next (next : write.next = some raw) :
    tokensOf raw = write.token :: write.prior.take (cfg.history - 1) := by
  have shape := prepared.next
  rw [next] at shape
  obtain ⟨plain, payload, rfl⟩ := shape
  exact tokensOf_build plain prepared.priors

omit [DecidableEq κ] in
theorem Prepared.token_plain (next : write.next = some raw) :
    Plain write.token := by
  have shape := prepared.next
  rw [next] at shape
  exact shape.1

omit [DecidableEq κ] in
theorem Prepared.tokens_plain (next : write.next = some raw) :
    ∀ token ∈ tokensOf raw, Plain token := by
  rw [prepared.tokensOf_next next]
  intro token member
  rcases mem_cons.mp member with rfl | old
  · exact prepared.token_plain next
  · exact prepared.priors token (mem_of_mem_take old)

omit [DecidableEq κ] in
theorem Prepared.next_of_token (token : write.token ≠ []) :
    write.next ≠ none := by
  intro none
  have shape := prepared.next
  rw [none] at shape
  exact token shape

end

section records
variable {w : World κ T}

theorem batch_of_script (known : script ∈ w.ledger.registry) :
    ∃ batch ∈ w.batches, batch.script = script := by
  obtain ⟨batch, member, same⟩ := mem_map.mp known
  exact ⟨batch, member, same⟩

theorem script_known (member : batch ∈ w.batches) : batch.script ∈ w.ledger.registry :=
  mem_map.mpr ⟨batch, member, rfl⟩

theorem Executed.wrote (executed : Executed w batch) (member : write ∈ batch.writes) :
    w.ledger.Wrote batch.script write.toWrite :=
  ⟨executed, mem_map.mpr ⟨write, member, rfl⟩⟩

end records

namespace Registered
variable {w : World κ T}

theorem script_inj (reg : Registered cfg w) (member : batch ∈ w.batches)
    (second : other ∈ w.batches) (same : batch.script = other.script) : batch = other := by
  have ids : batch.id = other.id := congrArg Scripts.Script.id same
  have found := reg.ids batch member
  rw [ids, reg.ids other second] at found
  exact (some.inj found).symm

variable {script : Scripts.Script κ Bytes}

section
variable (reg : Registered cfg w)
include reg

theorem of_wrote {write : Scripts.Write κ Bytes} (wrote : w.ledger.Wrote script write) :
    ∃ batch ∈ w.batches, batch.script = script ∧ ∃ pending ∈ batch.writes, pending.toWrite = write := by
  obtain ⟨batch, member, rfl⟩ := batch_of_script (reg.lasting.known script (.inr wrote.1))
  obtain ⟨pending, present, same⟩ := mem_map.mp wrote.2
  exact ⟨batch, member, rfl, pending, present, same⟩

theorem trailed : Scripts.Trailed tokensOf w.ledger := by
  constructor
  · intro script known write member value next
    obtain ⟨batch, present, rfl⟩ := batch_of_script known
    obtain ⟨pending, inside, rfl⟩ := mem_map.mp member
    exact ⟨pending.token, cfg.history - 1, (reg.prepared batch present pending inside).tokensOf_next next⟩
  · intro script known other second write member mine theirs value same next next' heads
    obtain ⟨batch, present, rfl⟩ := batch_of_script known
    obtain ⟨pending, inside, rfl⟩ := mem_map.mp member
    obtain ⟨another, present', rfl⟩ := batch_of_script second
    obtain ⟨waiting, inside', rfl⟩ := mem_map.mp theirs
    rw [(reg.prepared batch present pending inside).tokensOf_next next,
      (reg.prepared another present' waiting inside').tokensOf_next next'] at heads
    have equal := reg.tokens batch present another present' pending inside waiting inside' (by simp [next])
      (by simp [next']) (by simpa using heads)
    rw [equal.2, next'] at next
    exact (some.inj next).symm

theorem of_mark (member : batch ∈ w.batches)
    (inside : write ∈ batch.writes) (token : write.token ≠ [])
    (wrote : w.ledger.Wrote script origin) (next : origin.next = some raw)
    (head : (tokensOf raw).head? = some write.token) :
    script = batch.script ∧ origin = write.toWrite := by
  obtain ⟨other, present, rfl, pending, found, rfl⟩ := reg.of_wrote wrote
  rw [(reg.prepared other present pending found).tokensOf_next next, head?_cons, some.injEq] at head
  have filled := (reg.prepared batch member write inside).next_of_token token
  obtain ⟨rfl, rfl⟩ := reg.tokens other present batch member pending found write inside (by simp [next]) filled head
  exact ⟨rfl, rfl⟩

theorem base_written (known : script ∈ w.ledger.registry)
    {write : Scripts.Write κ Bytes} (member : write ∈ script.writes) (base : write.base = some raw) :
    ∃ earlier ∈ w.ledger.registry, ∃ origin ∈ earlier.writes, origin.next = some raw := by
  obtain ⟨earlier, origin, wrote, -, -, next⟩ := reg.lasting.grounded script known write member raw base
  exact ⟨earlier, reg.lasting.known earlier (.inr wrote.1), origin, wrote.2, next⟩

theorem write_of_key (member : batch ∈ w.batches)
    (inside : write ∈ batch.writes) (second : other ∈ batch.script.writes)
    (same : other.key = write.key) : other = write.toWrite := by
  have distinct := reg.lasting.distinct batch.script (script_known member)
  exact inj_on_of_nodup_map distinct second (mem_map.mpr ⟨write, inside, rfl⟩) same

end

end Registered

theorem tokenFor_some {header : EnvelopeHeader} (found : header.tokenFor version = some token) :
    version ≠ 0 ∧ version ≤ header.version ∧ header.tokens[header.version - version]? = some token := by
  simp only [EnvelopeHeader.tokenFor] at found
  split at found
  · contradiction
  rename_i inside
  rw [not_or, Nat.not_lt] at inside
  exact ⟨inside.1, inside.2, found⟩

section verdicts
variable {w : World κ T} {batch : Batch κ} {write : PendingWrite κ}

omit [DecidableEq κ] in
theorem judge_cases (write : PendingWrite κ) (current : Option Bytes) :
    judge write current = .unproven ∨
    (judge write current = .notRun ∧ current.isSome ∧ write.base = current) ∨
    ∃ raw now, current = some raw ∧ parseEnvelope raw = .ok now ∧
      ((judge write current = .applied ∧ write.token ≠ [] ∧ now.tokenFor write.version = some write.token) ∨
        judge write current = .lost ∧ ¬ (write.token ≠ [] ∧ now.tokenFor write.version = some write.token) ∧
        ∃ below base first, write.base = some below ∧ parseEnvelope below = .ok base ∧
          base.tokens.head? = some first ∧ now.tokenFor base.version = some first ∧ base.version < now.version) := by
  cases current with
  | none => exact .inl rfl
  | some raw =>
    simp only [judge]
    split
    · rename_i same
      exact .inr (.inl ⟨rfl, rfl, same⟩)
    split
    · exact .inl rfl
    rename_i now parsed
    split
    · rename_i own
      exact .inr (.inr ⟨raw, now, rfl, parsed, .inl ⟨rfl, own⟩⟩)
    rename_i foreign
    split
    · rename_i base known
      split
      · rename_i token first rest found tokens
        split
        · rename_i moved
          obtain ⟨below, some, parsedBelow⟩ := map_eq_some_iff.mp known
          refine .inr (.inr ⟨raw, now, rfl, parsed, .inr ⟨rfl, foreign, below, base, first, some, parsedBelow, ?_, ?_,
            moved.2⟩⟩)
          · rw [tokens, head?_cons]
          · rw [found, moved.1]
        · exact .inl rfl
      · exact .inl rfl
    · exact .inl rfl

omit [DecidableEq κ] in
theorem judge_notRun (inside : write ∈ batch.writes) (verdict : judge write (w.store write.key) = .notRun) :
    batch.script.Based := by
  rcases judge_cases write (w.store write.key) with none | ⟨-, some, same⟩ | ⟨raw, now, -, -, found⟩
  · rw [none] at verdict
    contradiction
  · refine ⟨write.toWrite, mem_map.mpr ⟨write, inside, rfl⟩, ?_⟩
    rw [same]
    exact isSome_iff_ne_none.mp some
  · rcases found with ⟨other, -⟩ | ⟨other, -⟩ <;> rw [other] at verdict <;> contradiction

theorem judge_applied (reg : Registered cfg w) (member : batch ∈ w.batches) (inside : write ∈ batch.writes)
    (verdict : judge write (w.store write.key) = .applied) : Executed w batch := by
  rcases judge_cases write (w.store write.key) with none | ⟨other, -⟩ | ⟨raw, now, stored, parsed, found⟩
  · rw [none] at verdict
    contradiction
  · rw [other] at verdict
    contradiction
  rcases found with ⟨-, filled, own⟩ | ⟨other, -⟩
  · obtain ⟨script, origin, wrote, -, next⟩ := reg.lasting.stored write.key raw stored
    have at_i := (tokenFor_some own).2.2
    rw [(parseEnvelope_ok parsed).1] at at_i
    obtain ⟨other, second, same, executed, -, writes, rest⟩ := reg.trailed.origin reg.lasting wrote next at_i
    have equal := reg.of_mark member inside filled executed writes (head?_eq_getElem? ▸ rest 0 _ at_i)
    rw [Executed, ← equal.1]
    exact executed.1
  · rw [other] at verdict
    contradiction

theorem judge_lost (reg : Registered cfg w) (member : batch ∈ w.batches) (inside : write ∈ batch.writes)
    (verdict : judge write (w.store write.key) = .lost) :
    ¬ Executed w batch ∧ Scripts.Superseded w.ledger batch.script := by
  rcases judge_cases write (w.store write.key) with none | ⟨other, -⟩ | ⟨raw, now, stored, parsed, found⟩
  · rw [none] at verdict
    contradiction
  · rw [other] at verdict
    contradiction
  rcases found with ⟨other, -⟩ | ⟨-, foreign, below, base, first, some, parsedBelow, head, found, moved⟩
  · rw [other] at verdict
    contradiction
  obtain ⟨script, origin, wrote, key, next⟩ := reg.lasting.stored write.key raw stored
  obtain ⟨tokens, -⟩ := parseEnvelope_ok parsed
  obtain ⟨belowTokens, -⟩ := parseEnvelope_ok parsedBelow
  obtain ⟨-, -, at_base⟩ := tokenFor_some found
  -- the token in front of the one of the base wrote over the base
  have shift : now.version - base.version = now.version - (base.version + 1) + 1 := by omega
  rw [shift, tokens] at at_base
  obtain ⟨mark, at_next⟩ : ∃ mark, (tokensOf raw)[now.version - (base.version + 1)]? = Option.some mark := by
    have bound := (List.getElem?_eq_some_iff.mp at_base).1
    exact ⟨_, getElem?_eq_getElem (Nat.lt_of_succ_lt bound)⟩
  obtain ⟨other, second, executed, sameKey, ⟨same, writes, front⟩, under, overBase, underHead⟩ :=
    reg.trailed.mark_over reg.lasting wrote next at_next at_base
  have mine : write.toWrite ∈ batch.script.writes := mem_map.mpr ⟨write, inside, rfl⟩
  have sameBase : under = below := by
    obtain ⟨s₁, known₁, o₁, in₁, next₁⟩ := reg.base_written (reg.lasting.known other (.inr executed.1)) executed.2 overBase
    obtain ⟨s₂, known₂, o₂, in₂, next₂⟩ := reg.base_written (script_known member) mine some
    refine reg.trailed.head_unique s₁ known₁ s₂ known₂ o₁ in₁ o₂ in₂ under below next₁ next₂ ?_
    rw [underHead, ← head, belowTokens]
  subst sameBase
  have onKey : second.key = write.key := sameKey.trans key
  refine ⟨?_, write.toWrite, mine, under, some, other, second, executed, onKey, overBase⟩
  intro ran
  -- two executed scripts over one base are one script, whose token would be the next one
  have equal := reg.lasting.replaced other second batch.script write.toWrite executed (ran.wrote inside) onKey under
    overBase some
  subst equal
  obtain rfl := reg.write_of_key member inside executed.2 onKey
  have prepared := reg.prepared batch member write inside
  rw [prepared.tokensOf_next writes, List.head?_cons, Option.some.injEq] at front
  have version := prepared.version
  rw [some] at version
  obtain ⟨header, parsedAgain, number⟩ := version
  obtain rfl := Except.ok.inj (parsedBelow.symm.trans parsedAgain)
  have bound := (parseEnvelope_ok parsed).2.2.2.2.1
  rw [if_neg (by simp [writes]), Nat.mod_eq_of_lt (by omega)] at number
  apply foreign
  refine ⟨(prepared.token_plain writes).1, ?_⟩
  rw [EnvelopeHeader.tokenFor, if_neg (by omega), number, tokens, at_next, front]

end verdicts

end Roost.Versionstore
