import Mathlib.Algebra.Order.BigOperators.Group.List
import Mathlib.Algebra.Order.Group.Nat
import Rkb.Sequencer.BatchInvariant

namespace Rkb.Sequencer.BatchSize

open Rkb.Library.Bytes
open Rkb.Library.Program
open Rkb.Library.Runs
open Rkb.Types.Blocks
open Rkb.Types.Wire
open Rkb.Celestia.Blobs
open Rkb.Celestia.Client
open Rkb.Consensus.ActorRuns
open Rkb.Sequencer.Batch
open Rkb.Sequencer.BatchInvariant
open Rkb.Node.Effects

def estimatedSize (blocks : List Block) : Nat := (blocks.map estimateBlockSize).sum

theorem estimatedSize_append (blocks blocks' : List Block) :
    estimatedSize (blocks ++ blocks') = estimatedSize blocks + estimatedSize blocks' := by
  rw [estimatedSize, List.map_append, List.sum_append]
  rfl

/-- Submitting the front of a batch never enlarges the rest. -/
theorem estimatedSize_dropLast_le (blocks rest : List Block) :
    estimatedSize rest.dropLast ≤ estimatedSize (blocks ++ rest).dropLast := by
  by_cases hrest : rest = []
  · rw [hrest]
    exact Nat.zero_le _
  · rw [List.dropLast_append_of_ne_nil hrest, estimatedSize_append]
    exact Nat.le_add_left _ _

section Limit

variable {celestia : CelestiaClient} {maxBatchSizeBytes : Nat} {self self' : BatchLoop}
  {event : BatchEvent} {ts : List BatchTransition}

def batchOf (state : BatchState) : Option (List Block) :=
  if state.pendingBlocks.isEmpty then none else some state.pendingBlocks

/-- The blocks that an iteration passes to `submit_blocks`, if it does. -/
def passedBatch (maxBatchSizeBytes : Nat) (state : BatchState) (event : BatchEvent) :
    Option (List Block) :=
  match waitForBatchEvent event state maxBatchSizeBytes with
  | (.continue, _) => none
  | (_, state) => batchOf state

variable {state : BatchState} {blocks : List Block}

theorem batchOf_eq_some : batchOf state = some blocks ↔
    state.pendingBlocks ≠ [] ∧ blocks = state.pendingBlocks := by
  unfold batchOf
  split
  · rename_i hempty
    rw [List.isEmpty_iff] at hempty
    exact ⟨nofun, fun h => absurd hempty h.1⟩
  · rename_i hempty
    rw [List.isEmpty_iff] at hempty
    rw [Option.some_inj]
    exact ⟨fun h => ⟨hempty, h.symm⟩, fun h => h.2.symm⟩

theorem submitBatch_bind {f : Bool × BatchState → NodeProg BatchLoop}
    (hend : ∀ r, ∃ self', f r = Prog.pure self') :
    (batchOf state = none → ∃ self', submitBatch celestia state >>= f = Prog.pure self') ∧
      ∀ blocks, batchOf state = some blocks →
        ∃ g, submitBatch celestia state >>= f = submitBlocks celestia blocks >>= g ∧
          ∀ r, (g r).Performs fun o => ∃ submission, o = .spawnTrack submission := by
  have hquiet : ∀ r, (f r).Performs fun o => ∃ submission, o = .spawnTrack submission := by
    intro r
    obtain ⟨self', hr⟩ := hend r
    rw [hr]
    exact Prog.performs_pure _
  rw [batchOf]
  cases hempty : state.pendingBlocks.isEmpty with
  | true =>
      rw [submitBatch, if_pos hempty]
      constructor
      · exact fun _ => hend _
      · intro blocks hblocks
        cases hblocks
  | false =>
      rw [submitBatch, if_neg (Bool.eq_false_iff.mp hempty)]
      constructor
      · intro hnone
        cases hnone
      · intro blocks hblocks
        obtain rfl := Option.some.inj hblocks
        refine ⟨_, Prog.bind_assoc _ _ _, ?_⟩
        rintro (e | submissions)
        · exact hquiet _
        · refine Prog.Performs.bind (Prog.Performs.bind ?_ fun _ => Prog.performs_pure _) hquiet
          induction submissions with
          | nil => exact Prog.performs_pure _
          | cons submission submissions ih =>
              exact (Prog.performs_perform ⟨submission, rfl⟩).bind fun _ => ih

theorem batchIteration_passes :
    (passedBatch maxBatchSizeBytes self.state event = none →
      ∃ self', batchIteration celestia maxBatchSizeBytes self event = Prog.pure self') ∧
    ∀ blocks, passedBatch maxBatchSizeBytes self.state event = some blocks →
      ∃ g, batchIteration celestia maxBatchSizeBytes self event =
          submitBlocks celestia blocks >>= g ∧
        ∀ r, (g r).Performs fun o => ∃ submission, o = .spawnTrack submission := by
  rw [batchIteration, passedBatch]
  obtain ⟨action, state⟩ := waitForBatchEvent event self.state maxBatchSizeBytes
  cases action with
  | «continue» =>
      constructor
      · exact fun _ => ⟨_, rfl⟩
      · intro blocks hblocks
        cases hblocks
  | submit =>
      apply submitBatch_bind
      rintro ⟨succeeded, state'⟩
      cases succeeded with
      | true => exact ⟨_, rfl⟩
      | false => exact ⟨_, rfl⟩
  | shutdown => exact submitBatch_bind fun r => ⟨_, rfl⟩

theorem passedBatch_eq (h : passedBatch maxBatchSizeBytes state event = some blocks) :
    blocks = state.pendingBlocks ++ (receivedOf event).toList := by
  have hwait := congrArg BatchState.pendingBlocks
    (waitForBatchEvent_state event state maxBatchSizeBytes)
  dsimp only at hwait
  rw [← hwait]
  rw [passedBatch] at h
  revert h
  obtain ⟨action, state'⟩ := waitForBatchEvent event state maxBatchSizeBytes
  intro h
  cases action with
  | «continue» => cases h
  | submit | shutdown => exact (batchOf_eq_some.mp h).2

theorem passedBatch_of_full {block : Block} (hfull : maxBatchSizeBytes ≤ state.pendingSize) :
    passedBatch maxBatchSizeBytes state (.received (some block)) =
      some (state.pendingBlocks ++ [block]) := by
  have hreached : maxBatchSizeBytes ≤ state.pendingSize + estimateBlockSize block := by
    omega
  rw [passedBatch, waitForBatchEvent, handleReceivedBlock]
  dsimp only
  rw [if_pos hreached]
  apply batchOf_eq_some.mpr
  exact ⟨List.append_ne_nil_of_right_ne_nil _ (List.cons_ne_nil _ _), rfl⟩

/-- Nothing arrives while the pending blocks have reached the limit. -/
def InTime (maxBatchSizeBytes : Nat) (t : BatchTransition) : Prop :=
  ∀ block, t.label.1 = .received (some block) → t.pre.state.pendingSize < maxBatchSizeBytes

/-- The invariant: without the last of them the pending blocks are below the limit. -/
def Bounded (maxBatchSizeBytes : Nat) (self : BatchLoop) : Prop :=
  Sized self.state ∧ estimatedSize self.state.pendingBlocks.dropLast < maxBatchSizeBytes

theorem bounded_received {t : BatchTransition} (hbounded : Bounded maxBatchSizeBytes t.pre)
    (htime : InTime maxBatchSizeBytes t) :
    estimatedSize (t.pre.state.pendingBlocks ++ (receivedOf t.label.1).toList).dropLast <
      maxBatchSizeBytes := by
  cases hreceived : receivedOf t.label.1 with
  | none =>
      rw [Option.toList_none, List.append_nil]
      exact hbounded.2
  | some block =>
      have hevent : t.label.1 = .received (some block) := by
        cases hlabel : t.label.1 with
        | tick =>
            rw [hlabel] at hreceived
            cases hreceived
        | received arrived =>
            rw [hlabel] at hreceived
            exact congrArg BatchEvent.received hreceived
      rw [Option.toList_some, List.dropLast_concat]
      exact (hbounded.1.symm.trans_lt (htime block hevent))

theorem bounded_step {t : BatchTransition}
    (hstep : BatchStep celestia maxBatchSizeBytes t.pre t.label t.post)
    (htime : InTime maxBatchSizeBytes t) (hbounded : Bounded maxBatchSizeBytes t.pre) :
    Bounded maxBatchSizeBytes t.post := by
  obtain ⟨batches, -, hblocks, hsized⟩ := ensures_batchIteration maxBatchSizeBytes t.pre t.label.1
    hbounded.1 t.label.2 t.post () hstep.2
  have hreceived := bounded_received hbounded htime
  rw [hblocks] at hreceived
  exact ⟨hsized, (estimatedSize_dropLast_le _ _).trans_lt hreceived⟩

/-- Every batch passed to `submit_blocks` is below the limit without its last block, exactly
where no block arrives while the pending ones, put back by a failure, have reached it. -/
theorem passedBatch_within_iff (hlimit : 0 < maxBatchSizeBytes)
    (hrun : Run (BatchStep celestia maxBatchSizeBytes) BatchLoop.new ts self) :
    (∀ t ∈ ts, ∀ blocks, passedBatch maxBatchSizeBytes t.pre.state t.label.1 = some blocks →
        estimatedSize blocks.dropLast < maxBatchSizeBytes) ↔
      ∀ t ∈ ts, ∀ block, t.label.1 = .received (some block) →
        t.pre.state.pendingSize < maxBatchSizeBytes := by
  constructor
  · intro hwithin t ht block hevent
    by_contra hfull
    have hsized : Sized t.pre.state := by
      obtain ⟨us, vs, rfl⟩ := List.append_of_mem ht
      obtain ⟨-, -, -, hsized⟩ := conserved_of_run hrun.at_step.1 rfl
      exact hsized
    have hpassed :=
      @passedBatch_of_full maxBatchSizeBytes t.pre.state block (Nat.le_of_not_lt hfull)
    rw [← hevent] at hpassed
    have hbelow := hwithin t ht _ hpassed
    rw [List.dropLast_concat] at hbelow
    exact hfull (hsized.trans_lt hbelow)
  · intro htime t ht blocks hpassed
    have hnew : Bounded maxBatchSizeBytes BatchLoop.new := ⟨rfl, hlimit⟩
    obtain ⟨-, hall⟩ := hrun.invariant (Bounded maxBatchSizeBytes) (InTime maxBatchSizeBytes)
      (fun t hstep htime hbounded => bounded_step hstep htime hbounded) htime hnew
    rw [passedBatch_eq hpassed]
    exact bounded_received (hall t ht).1 (htime t ht)

end Limit

section Example

theorem exists_failed_step : ∃ tr,
    BatchStep digestClient 100 BatchLoop.new (.received (some (chainBlock 1)), tr) retrying := by
  obtain ⟨tr, self, hexec, hcheck⟩ := Prog.exists_exec_of_run (submissionEnv (.error "timeout"))
    (batchIteration digestClient 100 BatchLoop.new (.received (some (chainBlock 1))))
    (fun _ self => decide (self = retrying)) (by decide +kernel)
  obtain rfl := of_decide_eq_true hcheck
  exact ⟨tr, rfl, hexec⟩

theorem passedBatch_within_iff_retried : ∃ ts,
    Run (BatchStep digestClient 100) BatchLoop.new ts BatchLoop.new ∧ ts.length = 2 ∧
      ∀ t ∈ ts, ∀ blocks, passedBatch 100 t.pre.state t.label.1 = some blocks →
        estimatedSize blocks.dropLast < 100 := by
  obtain ⟨tr₁, hfailed⟩ := exists_failed_step
  obtain ⟨tr₂, self, hexec, hcheck⟩ := Prog.exists_exec_of_run (submissionEnv (.ok 10))
    (batchIteration digestClient 100 retrying .tick)
    (fun _ self => decide (self = BatchLoop.new)) (by decide +kernel)
  obtain rfl := of_decide_eq_true hcheck
  have hretried : BatchStep digestClient 100 retrying (.tick, tr₂) BatchLoop.new := ⟨rfl, hexec⟩
  have hrun := Run.cons hfailed (Run.cons hretried (.nil _))
  refine ⟨_, hrun, rfl, (passedBatch_within_iff (by decide) hrun).mpr ?_⟩
  intro t ht block hevent
  rcases List.mem_cons.mp ht with rfl | ht
  · exact (by decide : 0 < 100)
  · obtain rfl := List.mem_singleton.mp ht
    cases hevent

theorem full_batch_grows : ∃ ts self,
    Run (BatchStep digestClient 100) BatchLoop.new ts self ∧
      ∃ t ∈ ts, passedBatch 100 t.pre.state t.label.1 = some [chainBlock 1, chainBlock 2] ∧
        100 ≤ estimatedSize [chainBlock 1, chainBlock 2].dropLast := by
  obtain ⟨tr₁, hfailed⟩ := exists_failed_step
  obtain ⟨tr₂, self, hexec, -⟩ := Prog.exists_exec_of_run (submissionEnv (.ok 10))
    (batchIteration digestClient 100 retrying (.received (some (chainBlock 2))))
    (fun _ _ => true) (by decide +kernel)
  have hgrown : BatchStep digestClient 100 retrying (.received (some (chainBlock 2)), tr₂) self :=
    ⟨rfl, hexec⟩
  refine ⟨_, self, Run.cons hfailed (Run.cons hgrown (.nil _)), _,
    List.mem_cons_of_mem _ List.mem_cons_self, rfl, by decide +kernel⟩

end Example

section Encoded

variable {celestia : CelestiaClient} {block : Block}

/-- Enough transactions, each overestimated by 24 bytes, for what the estimate leaves out: the
fields that reth computes, the signatures and the extra data. -/
def Covered (block : Block) : Prop :=
  424 + 236 * block.signatures.toList.length + block.extraData.toList.length ≤
    24 * block.transactions.toList.length

theorem sum_overheads (txs : List Transaction) :
    (txs.map fun tx => tx.data.toList.length + 32).sum =
      (txs.map fun tx => 8 + tx.data.toList.length).sum + 24 * txs.length := by
  induction txs with
  | nil => rfl
  | cons tx txs ih =>
      rw [List.map_cons, List.map_cons, List.sum_cons, List.sum_cons, List.length_cons, ih]
      omega

theorem length_le_estimate_iff (halloy : celestia.alloy.Prefixed)
    (hbloom : block.logsBloom.toList.length = 256) :
    ((blockCodec celestia.alloy).encode block).length ≤ estimateBlockSize block ↔
      Covered block := by
  rw [length_block halloy, hbloom]
  show _ ≤ 68 + (block.transactions.toList.map fun tx => tx.data.toList.length + 32).sum + 64 ↔ _
  rw [sum_overheads, Covered]
  omega

/-- The estimate covers an encoded block exactly where its transactions make up for the fields
left out, and then a batch below the limit by estimate is below it in bytes. -/
theorem estimateBlockSize_covers_iff (halloy : celestia.alloy.Prefixed)
    (hbloom : block.logsBloom.toList.length = 256) :
    ((∃ data, celestia.encodeBlock block = .ok data ∧ data.length ≤ estimateBlockSize block) ↔
        424 + 236 * block.signatures.toList.length + block.extraData.toList.length ≤
          24 * block.transactions.toList.length) ∧
      ∀ (blocks : List Block) (data : Block → List UInt8) (maxBatchSizeBytes : Nat),
        (∀ b ∈ blocks, b.logsBloom.toList.length = 256 ∧ Covered b ∧
          celestia.encodeBlock b = .ok (data b)) →
        estimatedSize blocks < maxBatchSizeBytes →
        (blocks.map fun b => (data b).length).sum < maxBatchSizeBytes := by
  constructor
  · rw [← Covered, ← length_le_estimate_iff halloy hbloom]
    constructor
    · rintro ⟨data, hdata, hle⟩
      rw [← Except.ok.inj hdata] at hle
      exact hle
    · intro hle
      exact ⟨_, rfl, hle⟩
  · intro blocks data maxBatchSizeBytes hall hbelow
    have hle : (blocks.map fun b => (data b).length).sum ≤ estimatedSize blocks := by
      apply List.sum_le_sum
      intro b hb
      obtain ⟨hbloom, hcovered, hdata⟩ := hall b hb
      rw [← Except.ok.inj hdata]
      exact (length_le_estimate_iff halloy hbloom).mpr hcovered
    exact hle.trans_lt hbelow

def busyBlock : Block :=
  { chainBlock 1 with transactions := ⟨List.replicate 18 ⟨Vec.empty⟩, by decide⟩ }

theorem estimateBlockSize_covers_iff_busy :
    ∃ data, digestClient.encodeBlock busyBlock = .ok data ∧
      data.length ≤ estimateBlockSize busyBlock :=
  (estimateBlockSize_covers_iff AlloySerde.prefixed_binary (by decide +kernel)).1.mpr
    (by decide +kernel)

theorem estimateBlockSize_too_small : (chainBlock 1).logsBloom.toList.length = 256 ∧
    estimateBlockSize (chainBlock 1) = 132 ∧
      ∃ data, digestClient.encodeBlock (chainBlock 1) = .ok data ∧ data.length = 556 := by
  have halloy : digestClient.alloy.Prefixed := AlloySerde.prefixed_binary
  refine ⟨by decide +kernel, by decide +kernel, _, rfl, ?_⟩
  rw [length_block halloy]
  decide +kernel

end Encoded

end Rkb.Sequencer.BatchSize
