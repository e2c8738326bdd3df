import RoostCore.Go.ByteText
import RoostCore.Go.Writer

/-! The envelope of a stored value: a line with the version and the tokens of the latest
writes, newest first, and then the payload. -/
namespace Roost.Versionstore
open List
open Go (Bytes)

def bar : UInt8 := 124

def newline : UInt8 := 10

structure EnvelopeHeader where
  version : Nat
  tokens : List Bytes
  payload : Bytes
  deriving DecidableEq

/-- The reasons for `ErrMalformedRecord`. -/
inductive Malformed where
  | separator
  | number
  | zero
  | noToken
  | tokens (count version : Nat)
  | emptyToken
  deriving DecidableEq

/-- The fields of the version line. -/
def fields (raw : Bytes) : List Bytes := (raw.takeWhile (· != newline)).splitOn bar

def parseEnvelope (raw : Bytes) : Except Malformed EnvelopeHeader :=
  let line := raw.takeWhile (· != newline)
  -- the newline is missing, or nothing stands before it
  if newline ∉ raw ∨ line = [] then .error .separator
  else
    match Go.parseUintBytes ((fields raw).headD []) 64 with
    | none => .error .number
    | some version =>
      let tokens := (fields raw).tail
      if version = 0 then .error .zero
      else if tokens = [] then .error .noToken
      else if version < tokens.length then .error (.tokens tokens.length version)
      else if [] ∈ tokens then .error .emptyToken
      else .ok ⟨version, tokens, raw.drop (line.length + 1)⟩

/-- The token that wrote `version`, while the key still keeps it. -/
def EnvelopeHeader.tokenFor (header : EnvelopeHeader) (version : Nat) : Option Bytes :=
  if version = 0 ∨ header.version < version then none else header.tokens[header.version - version]?

/-- The payload as the `version`-th write, with its token in front of the tokens that the
base kept, cut to `history`. -/
def buildEnvelope (payload : Bytes) (version : Nat) (token : Bytes) (prior : List Bytes) (history : Nat) : Bytes :=
  Go.formatUint version ++ bar :: token ++ (prior.take (history - 1)).flatMap (bar :: ·) ++ newline :: payload

/-- The tokens that an envelope carries, whether or not the rest of it can be read. -/
def tokensOf (raw : Bytes) : List Bytes := (fields raw).tail

def payloadOf (raw : Bytes) : Bytes := raw.drop ((raw.takeWhile (· != newline)).length + 1)

theorem parseEnvelope_ok (parsed : parseEnvelope raw = .ok header) :
    header.tokens = tokensOf raw ∧ header.payload = payloadOf raw ∧ header.tokens ≠ [] ∧ 0 < header.version ∧
      header.version < 2 ^ 64 ∧ header.tokens.length ≤ header.version ∧ [] ∉ header.tokens ∧
      Go.parseUintBytes ((fields raw).headD []) 64 = some header.version := by
  simp only [parseEnvelope] at parsed
  split at parsed
  · contradiction
  split at parsed
  · contradiction
  rename_i version number
  obtain ⟨positive, parsed⟩ := Go.guard_ok parsed
  obtain ⟨some, parsed⟩ := Go.guard_ok parsed
  obtain ⟨enough, parsed⟩ := Go.guard_ok parsed
  obtain ⟨filled, parsed⟩ := Go.guard_ok parsed
  have bound : version < 2 ^ 64 := by
    obtain ⟨n, -, ranged⟩ := Option.bind_eq_some_iff.mp number
    split at ranged
    · rename_i below
      exact Option.some.inj ranged ▸ below
    · contradiction
  cases parsed
  exact ⟨rfl, rfl, some, Nat.pos_of_ne_zero positive, bound, Nat.le_of_not_lt enough, filled, number⟩

/-- A token as the store makes them: not empty and free of the separators. -/
def Plain (token : Bytes) : Prop := token ≠ [] ∧ bar ∉ token ∧ newline ∉ token
  deriving Decidable

theorem not_mem_formatUint (other : b.toNat < 48 ∨ 57 < b.toNat) : b ∉ Go.formatUint n := by
  intro member
  have range := Go.mem_formatUint member
  omega

theorem intercalate_bar (first : Bytes) (rest : List Bytes) :
    [bar].intercalate (first :: rest) = first ++ rest.flatMap (bar :: ·) := by
  induction rest generalizing first with
  | nil => simp [intercalate]
  | cons second rest ih =>
    have shift : [bar].intercalate (first :: second :: rest) = first ++ bar :: [bar].intercalate (second :: rest) := by
      simp [intercalate, intersperse]
    rw [shift, ih, flatMap_cons]
    rfl

section build
variable {payload token : Bytes} {version history : Nat} {prior : List Bytes}

theorem build_line : buildEnvelope payload version token prior history =
    [bar].intercalate (Go.formatUint version :: token :: prior.take (history - 1)) ++ newline :: payload := by
  simp [buildEnvelope, intercalate_bar]

variable (plain : Plain token) (priors : ∀ other ∈ prior, Plain other)
include plain priors

theorem build_fields_plain : ∀ field ∈ Go.formatUint version :: token :: prior.take (history - 1),
    bar ∉ field ∧ newline ∉ field := by
  intro field member
  rcases mem_cons.mp member with rfl | later
  · exact ⟨not_mem_formatUint (by decide), not_mem_formatUint (by decide)⟩
  rcases mem_cons.mp later with rfl | old
  · exact plain.2
  · exact (priors field (mem_of_mem_take old)).2

theorem takeWhile_build : (buildEnvelope payload version token prior history).takeWhile (· != newline) =
    [bar].intercalate (Go.formatUint version :: token :: prior.take (history - 1)) := by
  have inside : ∀ b ∈ [bar].intercalate (Go.formatUint version :: token :: prior.take (history - 1)),
      (b != newline) = true := by
    intro b member
    rw [intercalate_bar] at member
    have each : ∀ field ∈ Go.formatUint version :: token :: prior.take (history - 1), bar ∉ field ∧ newline ∉ field :=
      build_fields_plain plain priors
    simp only [bne_iff_ne, ne_eq]
    rintro rfl
    rcases mem_append.mp member with front | behind
    · exact (each _ mem_cons_self).2 front
    obtain ⟨field, present, inField⟩ := mem_flatMap.mp behind
    rcases mem_cons.mp inField with same | deep
    · contradiction
    · exact (each field (mem_cons_of_mem _ present)).2 deep
  rw [build_line, takeWhile_append_of_pos inside, takeWhile_cons]
  simp

theorem fields_build : fields (buildEnvelope payload version token prior history) =
    Go.formatUint version :: token :: prior.take (history - 1) := by
  rw [fields, takeWhile_build plain priors]
  apply splitOn_intercalate
  · intro field member
    exact (build_fields_plain plain priors field member).1
  · simp

theorem tokensOf_build : tokensOf (buildEnvelope payload version token prior history) =
    token :: prior.take (history - 1) := by
  rw [tokensOf, fields_build plain priors, tail_cons]

theorem payloadOf_build : payloadOf (buildEnvelope payload version token prior history) = payload := by
  rw [payloadOf, takeWhile_build plain priors, build_line, ← drop_drop, drop_left]
  rfl

theorem parseEnvelope_build (positive : 0 < version) (fits : version < 2 ^ 64)
    (enough : (prior.take (history - 1)).length < version) :
    parseEnvelope (buildEnvelope payload version token prior history) =
      .ok ⟨version, token :: prior.take (history - 1), payload⟩ := by
  have line : (buildEnvelope payload version token prior history).takeWhile (· != newline) = _ :=
    takeWhile_build plain priors
  have separated : newline ∈ buildEnvelope payload version token prior history := by
    rw [build_line]
    simp
  have tokens : [] ∉ token :: prior.take (history - 1) := by
    intro member
    rcases mem_cons.mp member with same | old
    · exact plain.1 same.symm
    · exact (priors [] (mem_of_mem_take old)).1 rfl
  have payloads : payloadOf (buildEnvelope payload version token prior history) = payload :=
    payloadOf_build plain priors
  rw [payloadOf, line] at payloads
  simp only [parseEnvelope, line, fields_build plain priors, headD_cons, tail_cons,
    Go.parseUintBytes_formatUint fits, payloads]
  rw [if_neg (by simp [separated]), if_neg (by omega), if_neg (by simp),
    if_neg (by simp only [length_cons]; omega), if_neg tokens]

end build

/-- `newWriteToken` of 64 random bits. -/
def newWriteToken (random : Nat) : Bytes := Go.rawURLEncoding (Go.littleEndian 8 random)

theorem newWriteToken_plain (random : Nat) : Plain (newWriteToken random) := by
  refine ⟨?_, ?_, ?_⟩
  · simp [newWriteToken, Go.littleEndian, Go.rawURLEncoding]
  · intro member
    have range := Go.mem_rawURLEncoding member
    simp [bar] at range
  · intro member
    have range := Go.mem_rawURLEncoding member
    simp [newline] at range

end Roost.Versionstore
