import Mathlib.Data.Finset.Card
import Mathlib.Data.Finset.Image
import Rkb.Sequencer.RuntimeConfig

namespace Rkb.Sequencer.LeaderUniqueness

open Rkb.Library.Bytes
open Rkb.Consensus.Leader
open Rkb.Consensus.Runtime
open Rkb.Sequencer.RuntimeConfig

variable {PublicKey : Type} [DecidableEq PublicKey] {keys : KeyScheme PublicKey}
  {consensus : ConsensusConfig} {config : SimplexRuntimeConfig PublicKey} {height : UInt64}

/-- A node that `build_validator_set` and `start_simplex_runtime` accept. -/
def Runs (keys : KeyScheme PublicKey) (consensus : ConsensusConfig)
    (config : SimplexRuntimeConfig PublicKey) : Prop :=
  buildValidatorSet keys consensus config.publicKey = .ok (config.validators, config.ourAddress) ∧
    startSimplexRuntime config = .ok ()

/-- The validator of this key runs a node that submits the block of this height. -/
def LeaderAt (keys : KeyScheme PublicKey) (consensus : ConsensusConfig) (height : UInt64)
    (key : PublicKey) : Prop :=
  ∃ config, Runs keys consensus config ∧ config.publicKey = key ∧
    finalizedBlockIsLeader config height = some true

theorem findIdx?_eq_some_iff {key : PublicKey} {l : List PublicKey} {i : Nat} :
    l.findIdx? (fun k => k == key) = some i ↔ l[i]? = some key ∧ key ∉ l.take i := by
  induction l generalizing i with
  | nil => simp
  | cons k l ih =>
      rw [List.findIdx?_cons]
      by_cases hk : k = key
      · subst hk
        cases i with
        | zero => simp
        | succ i => simp
      · cases i with
        | zero => simp [hk]
        | succ i =>
            rw [List.take_succ_cons, List.getElem?_cons_succ, List.mem_cons, not_or, ← and_assoc,
              and_right_comm, ← ih]
            simp [hk, Ne.symm hk]

theorem validators_of_runs (h : Runs keys consensus config) :
    config.validators = consensus.validatorSeeds.map keys.fromSeed ∧
      config.publicKey ∈ config.validators := by
  have hset := h.1
  simp only [buildValidatorSet] at hset
  split at hset
  · rename_i hmem
    simp only [Except.ok.injEq, Prod.mk.injEq] at hset
    exact ⟨hset.1.symm, hset.1 ▸ hmem⟩
  · cases hset

theorem exists_runs {key : PublicKey}
    (hkey : key ∈ consensus.validatorSeeds.map keys.fromSeed) :
    ∃ config, Runs keys consensus config ∧ config.publicKey = key := by
  refine ⟨⟨key, consensus.validatorSeeds.map keys.fromSeed, keys.deriveAddress key,
    FixedBytes.zero, consensus.blockTiming⟩, ⟨?_, ?_⟩, rfl⟩
  · exact if_pos hkey
  · have hvalid : SimplexRuntimeConfig.isValidator
        ⟨key, consensus.validatorSeeds.map keys.fromSeed, keys.deriveAddress key,
          FixedBytes.zero, consensus.blockTiming⟩ = true := decide_eq_true hkey
    have hnonempty : (consensus.validatorSeeds.map keys.fromSeed).isEmpty = false := by
      rw [List.isEmpty_eq_false_iff]
      exact List.ne_nil_of_mem hkey
    rw [startSimplexRuntime, hvalid]
    simp [hnonempty]

theorem card_participants (hinjective : Function.Injective keys.fromSeed)
    (h : Runs keys consensus config) :
    config.participants.card = consensus.validatorSeeds.toFinset.card := by
  have himage : config.participants = consensus.validatorSeeds.toFinset.image keys.fromSeed := by
    ext k
    simp [SimplexRuntimeConfig.participants, (validators_of_runs h).1]
  rw [himage, Finset.card_image_of_injective _ hinjective]

theorem finalizedBlockIsLeader_isSome (h : Runs keys consensus config) :
    (finalizedBlockIsLeader config height).isSome :=
  Option.isSome_iff_exists.mpr (finalizedBlockIsLeader_of_start h.2 height)

theorem finalizedBlockIsLeader_iff (hinjective : Function.Injective keys.fromSeed)
    (h : Runs keys consensus config) :
    finalizedBlockIsLeader config height = some true ↔
      config.validatorIndex =
        some (height.toNat % consensus.validatorSeeds.toFinset.card) := by
  have hcard : config.participants.card ≠ 0 :=
    Finset.card_ne_zero_of_mem (List.mem_toFinset.mpr (validators_of_runs h).2)
  rw [← card_participants hinjective h]
  cases hindex : config.validatorIndex with
  | none => simp [finalizedBlockIsLeader, hindex]
  | some i =>
      simp only [finalizedBlockIsLeader, hindex, isLeader, leaderIndex, if_neg hcard,
        Option.bind_eq_bind, Option.bind_some, Option.map_some, Option.some.injEq, beq_iff_eq]
      exact eq_comm

theorem leaderAt_iff (hinjective : Function.Injective keys.fromSeed) {key : PublicKey} :
    LeaderAt keys consensus height key ↔
      ∃ s, consensus.validatorSeeds[height.toNat % consensus.validatorSeeds.toFinset.card]? =
          some s ∧ keys.fromSeed s = key ∧
        s ∉ consensus.validatorSeeds.take
          (height.toNat % consensus.validatorSeeds.toFinset.card) := by
  have hindex : ∀ {config : SimplexRuntimeConfig PublicKey}, Runs keys consensus config →
      config.publicKey = key →
      (finalizedBlockIsLeader config height = some true ↔
        ∃ s, consensus.validatorSeeds[height.toNat % consensus.validatorSeeds.toFinset.card]? =
            some s ∧ keys.fromSeed s = key ∧
          s ∉ consensus.validatorSeeds.take
            (height.toNat % consensus.validatorSeeds.toFinset.card)) := by
    rintro config hruns rfl
    rw [finalizedBlockIsLeader_iff hinjective hruns, SimplexRuntimeConfig.validatorIndex,
      findIdx?_eq_some_iff, (validators_of_runs hruns).1, List.getElem?_map, ← List.map_take,
      Option.map_eq_some_iff]
    constructor
    · rintro ⟨⟨s, hs, hkey⟩, hnot⟩
      refine ⟨s, hs, hkey, ?_⟩
      intro hmem
      exact hnot (hkey ▸ List.mem_map_of_mem hmem)
    · rintro ⟨s, hs, hkey, hnot⟩
      refine ⟨⟨s, hs, hkey⟩, ?_⟩
      rw [← hkey, List.mem_map_of_injective hinjective]
      exact hnot
  constructor
  · rintro ⟨config, hruns, hkey, hleader⟩
    exact (hindex hruns hkey).mp hleader
  · intro hs
    obtain ⟨s, hget, hkey, -⟩ := id hs
    obtain ⟨config, hruns, hpublic⟩ := exists_runs
      (List.mem_map.mpr ⟨s, List.mem_of_getElem? hget, hkey⟩)
    exact ⟨config, hruns, hpublic, (hindex hruns hpublic).mpr hs⟩

/-- Exactly one validator submits the block of a height exactly when the seed at
the leader's index does not stand in the list before it. -/
theorem unique_leader_iff (hinjective : Function.Injective keys.fromSeed)
    (hseeds : consensus.validatorSeeds ≠ []) (height : UInt64) :
    ((∃! key, LeaderAt keys consensus height key) ∧
        ∀ config, Runs keys consensus config → (finalizedBlockIsLeader config height).isSome) ↔
      ∀ s, consensus.validatorSeeds[height.toNat % consensus.validatorSeeds.toFinset.card]? =
          some s →
        s ∉ consensus.validatorSeeds.take
          (height.toNat % consensus.validatorSeeds.toFinset.card) := by
  have hpos : 0 < consensus.validatorSeeds.toFinset.card := by
    rw [Finset.card_pos, List.toFinset_nonempty_iff]
    exact hseeds
  have hlt : height.toNat % consensus.validatorSeeds.toFinset.card <
      consensus.validatorSeeds.length :=
    lt_of_lt_of_le (Nat.mod_lt _ hpos) (List.toFinset_card_le _)
  constructor
  · rintro ⟨⟨key, hleader, -⟩, -⟩ s hs
    obtain ⟨s', hs', -, hnot⟩ := (leaderAt_iff hinjective).mp hleader
    rw [hs, Option.some.injEq] at hs'
    exact hs' ▸ hnot
  · intro hfirst
    refine ⟨?_, fun config hruns => finalizedBlockIsLeader_isSome hruns⟩
    have hget := List.getElem?_eq_getElem hlt
    refine ⟨keys.fromSeed _, (leaderAt_iff hinjective).mpr ⟨_, hget, rfl, hfirst _ hget⟩, ?_⟩
    intro key hleader
    obtain ⟨s, hs, hkey, -⟩ := (leaderAt_iff hinjective).mp hleader
    rw [hget, Option.some.injEq] at hs
    rw [← hkey, hs]

section Examples

def threeSeeds : ConsensusConfig := consensusOf [1, 2, 3]

theorem unique_leader_iff_threeSeeds :
    ((∃! key, LeaderAt seedKeys threeSeeds 5 key) ∧
        ∀ config, Runs seedKeys threeSeeds config → (finalizedBlockIsLeader config 5).isSome) ↔
      ∀ s, threeSeeds.validatorSeeds[
          (5 : UInt64).toNat % threeSeeds.validatorSeeds.toFinset.card]? = some s →
        s ∉ threeSeeds.validatorSeeds.take
          ((5 : UInt64).toNat % threeSeeds.validatorSeeds.toFinset.card) :=
  unique_leader_iff Function.injective_id (List.cons_ne_nil _ _) 5

/-- Three configured seeds, two of them equal: nobody submits odd heights. -/
theorem repeatedSeed_no_leader :
    (∀ key ∈ [(1 : UInt64), 1, 2],
      ∃ config, Runs seedKeys (consensusOf [1, 1, 2]) config ∧ config.publicKey = key) ∧
      ¬ ∃! key, LeaderAt seedKeys (consensusOf [1, 1, 2]) 1 key := by
  refine ⟨fun key hkey => exists_runs (by simpa [consensusOf, seedKeys] using hkey), ?_⟩
  rintro ⟨key, hleader, -⟩
  obtain ⟨s, hs, -, hnot⟩ := (leaderAt_iff Function.injective_id).mp hleader
  have hindex : (1 : UInt64).toNat % (consensusOf [1, 1, 2]).validatorSeeds.toFinset.card = 1 := by
    decide
  rw [hindex] at hs hnot
  have hs' : (1 : UInt64) = s := Option.some.inj hs
  exact hnot (hs' ▸ List.mem_singleton_self _)

end Examples

end Rkb.Sequencer.LeaderUniqueness
