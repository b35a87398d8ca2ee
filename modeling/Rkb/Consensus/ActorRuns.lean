import Rkb.Library.Runs
import Rkb.Consensus.ActorSteps

namespace Rkb.Consensus.ActorRuns

open Rkb.Library.Bytes
open Rkb.Library.Program
open Rkb.Library.Runs
open Rkb.Types.Blocks
open Rkb.Execution.Forkchoice
open Rkb.Execution.Payload
open Rkb.Consensus.Messages
open Rkb.Consensus.Actor
open Rkb.Consensus.ActorSteps
open Rkb.Node.Effects

abbrev ActorLabel : Type := Message × List NodeEvent

abbrev ActorTransition : Type := Transition Application ActorLabel

variable (sha256 : List UInt8 → AppDigest)

def ActorStep (self : Application) (l : ActorLabel) (self' : Application) : Prop :=
  (self.processMessage sha256 l.1).Exec anyAnswer () l.2 self' ()

abbrev ActorRun : Application → List ActorTransition → Application → Prop :=
  Run (ActorStep sha256)

/-- The blocks that `finalize` returned along a run, in order. -/
def finalizedBlocks (ts : List ActorTransition) : List Block :=
  ts.flatMap fun t => broadcasts t.label.2

def finalizeOf : Message → Option AppDigest
  | .finalize digest => some digest
  | _ => none

/-- The digests of the `Finalize` messages of a run, in order. -/
def finalizeDigests (ts : List ActorTransition) : List AppDigest :=
  ts.filterMap fun t => finalizeOf t.label.1

variable {sha256} {self self' : Application} {l : ActorLabel} {ts : List ActorTransition}

theorem ActorStep.outcome (h : ActorStep sha256 self l self') :
    Outcome sha256 self l.1 l.2 self' :=
  ensures_processMessage sha256 l.1 l.2 self' () h

/-- A message either broadcasts nothing and leaves the tip of the chain, or
finalizes the one block it broadcasts. -/
theorem finalize_of_outcome (h : Outcome sha256 self l.1 l.2 self') :
    (broadcasts l.2 = [] ∧ self'.height = self.height ∧ self'.lastHash = self.lastHash) ∨
      ∃ digest block, l.1 = .finalize digest ∧ self.pendingBlocks.lookup digest = some block ∧
        block.height = self.height ∧ broadcasts l.2 = [block] ∧
        self' = advanced self digest block := by
  obtain ⟨message, tr⟩ := l
  simp only at h ⊢
  cases h with
  | genesis _ hsilent => exact .inl ⟨hsilent.1, rfl, rfl⟩
  | proposedNull hsilent => exact .inl ⟨hsilent.1, rfl, rfl⟩
  | proposed _ hbroadcast _ => exact .inl ⟨hbroadcast, rfl, rfl⟩
  | verified _ hsilent => exact .inl ⟨hsilent.1, rfl, rfl⟩
  | broadcast => exact .inl ⟨rfl, rfl, rfl⟩
  | unknown _ => exact .inl ⟨rfl, rfl, rfl⟩
  | wrongHeight _ _ => exact .inl ⟨rfl, rfl, rfl⟩
  | @finalized digest block _ hlookup hheight hbroadcast _ _ =>
      exact .inr ⟨digest, block, rfl, hlookup, hheight, hbroadcast, rfl⟩
  | alreadyPending _ => exact .inl ⟨rfl, rfl, rfl⟩
  | received _ _ hsilent => exact .inl ⟨hsilent.1, rfl, rfl⟩

theorem proposed_of_outcome {proposed : ProposedBlock}
    (h : Outcome sha256 self l.1 l.2 self') (hmem : proposed ∈ relayed l.2) :
    l.1 = .propose ∧ ∃ payload, proposed = proposedBlock sha256 payload := by
  have hsilent : Silent l.2 → False := by
    rintro ⟨-, hnone⟩
    rw [hnone] at hmem
    cases hmem
  obtain ⟨message, tr⟩ := l
  simp only at h hmem hsilent
  cases h with
  | genesis _ h => exact (hsilent h).elim
  | proposedNull h => exact (hsilent h).elim
  | proposed payload _ hrelay =>
      rw [hrelay, List.mem_singleton] at hmem
      exact ⟨rfl, payload, hmem⟩
  | verified _ h => exact (hsilent h).elim
  | broadcast => cases hmem
  | unknown _ => cases hmem
  | wrongHeight _ _ => cases hmem
  | finalized _ _ _ hrelay _ =>
      rw [hrelay] at hmem
      cases hmem
  | alreadyPending _ => cases hmem
  | received _ _ h => exact (hsilent h).elim

theorem height_of_outcome (h : Outcome sha256 self l.1 l.2 self') :
    (broadcasts l.2 = [] ∧ self'.height = self.height) ∨
      ∃ digest block, l.1 = .finalize digest ∧ broadcasts l.2 = [block] ∧
        block.height = self.height ∧ self'.height = self.height + 1 := by
  rcases finalize_of_outcome h with
    ⟨hnone, hheight, -⟩ | ⟨digest, block, hl, -, hheight, hone, rfl⟩
  · exact .inl ⟨hnone, hheight⟩
  · refine .inr ⟨digest, block, hl, hone, hheight, ?_⟩
    rw [advanced_height, hheight]

theorem length_finalizedBlocks_le (hrun : ActorRun sha256 self ts self') :
    (finalizedBlocks ts).length ≤ (finalizeDigests ts).length := by
  induction hrun with
  | nil => exact le_rfl
  | @cons self self₁ self' l ts hstep _ ih =>
      have hblocks : finalizedBlocks (⟨self, l, self₁⟩ :: ts) =
          broadcasts l.2 ++ finalizedBlocks ts := rfl
      have hdigests : finalizeDigests (⟨self, l, self₁⟩ :: ts) =
          (finalizeOf l.1).toList ++ finalizeDigests ts := by
        rw [finalizeDigests, List.filterMap_cons]
        cases finalizeOf l.1 <;> rfl
      rw [hblocks, hdigests, List.length_append, List.length_append]
      refine Nat.add_le_add ?_ ih
      rcases height_of_outcome hstep.outcome with ⟨hnone, -⟩ | ⟨digest, block, hl, hone, -⟩
      · rw [hnone]
        exact Nat.zero_le _
      · rw [hone, hl]
        exact le_rfl

theorem toNat_succ {x : UInt64} (h : x.toNat + 1 < 2 ^ 64) : (x + 1).toNat = x.toNat + 1 := by
  rw [UInt64.toNat_add]
  exact Nat.mod_eq_of_lt h

theorem heights_of_run (hrun : ActorRun sha256 self ts self')
    (hheight : self.height.toNat + (finalizedBlocks ts).length < 2 ^ 64) :
    self'.height.toNat = self.height.toNat + (finalizedBlocks ts).length ∧
      ∀ k block, (finalizedBlocks ts)[k]? = some block →
        block.height.toNat = self.height.toNat + k := by
  induction hrun with
  | nil => exact ⟨rfl, by simp [finalizedBlocks]⟩
  | @cons self self₁ self' l ts hstep _ ih =>
      have hsplit : finalizedBlocks (⟨self, l, self₁⟩ :: ts) =
          broadcasts l.2 ++ finalizedBlocks ts := rfl
      rw [hsplit] at hheight ⊢
      rcases height_of_outcome hstep.outcome with ⟨hnone, hsame⟩ | ⟨digest, block, -, hone, hb, hs⟩
      · rw [hnone, List.nil_append] at hheight ⊢
        rw [hsame] at ih
        exact ih hheight
      · rw [hone, List.length_append, List.length_singleton] at hheight ⊢
        have hnext : self₁.height.toNat = self.height.toNat + 1 := by
          rw [hs]
          exact toNat_succ (by omega)
        rw [hnext] at ih
        obtain ⟨hlast, hall⟩ := ih (by omega)
        refine ⟨by omega, ?_⟩
        intro k b hk
        cases k with
        | zero =>
            have hb' : block = b := by simpa using hk
            rw [← hb', hb, Nat.add_zero]
        | succ k =>
            have hk' := hall k b (by simpa using hk)
            omega

theorem processMessages_append (messages₁ messages₂ : List Message) :
    self.processMessages sha256 (messages₁ ++ messages₂) =
      self.processMessages sha256 messages₁ >>= fun self₁ =>
        self₁.processMessages sha256 messages₂ := by
  induction messages₁ generalizing self with
  | nil => rfl
  | cons message messages₁ ih =>
      rw [List.cons_append, Application.processMessages, Application.processMessages,
        Prog.bind_assoc]
      exact congrArg (self.processMessage sha256 message >>= ·) (funext fun _ => ih)

/-- An execution of `run` on a list of messages is a run of the actor. -/
theorem run_of_processMessages {messages : List Message} {tr : List NodeEvent}
    (h : (self.processMessages sha256 messages).Exec anyAnswer () tr self' ()) :
    ∃ ts, ActorRun sha256 self ts self' ∧ ts.map (fun t => t.label.1) = messages ∧
      finalizedBlocks ts = broadcasts tr := by
  induction messages generalizing self tr with
  | nil =>
      obtain ⟨rfl, rfl, -⟩ := h
      exact ⟨[], .nil _, rfl, rfl⟩
  | cons message messages ih =>
      obtain ⟨tr₁, self₁, ⟨⟩, tr₂, rfl, hfirst, hrest⟩ := Prog.exec_bind.mp h
      obtain ⟨ts, hrun, hmessages, hblocks⟩ := ih hrest
      refine ⟨⟨self, (message, tr₁), self₁⟩ :: ts, .cons hfirst hrun,
        congrArg (message :: ·) hmessages, ?_⟩
      have hsplit : finalizedBlocks (⟨self, (message, tr₁), self₁⟩ :: ts) =
          broadcasts tr₁ ++ finalizedBlocks ts := rfl
      rw [hsplit, hblocks]
      exact List.filterMap_append.symm

section Replay

variable (sha256)

def replayMessage (env : Prog.Env NodeOp Ans Unit) (self : Application) (message : Message) :
    Option (ActorLabel × Application) :=
  ((self.processMessage sha256 message).run env ()).map fun r => ((message, r.1), r.2.1)

variable {sha256}

def acceptingEnv : Prog.Env NodeOp Ans Unit
  | .now, s => some (((0 : UInt64) : Ans .now), s)
  | .newPayload p v r, s =>
      some ((RpcAnswer.answer ⟨.valid, none⟩ : Ans (.newPayload p v r)), s)
  | .forkchoiceUpdated f a, s =>
      some ((RpcAnswer.answer ⟨⟨.valid, none⟩, none⟩ : Ans (.forkchoiceUpdated f a)), s)
  | .readCached, s => some ((ForkchoiceState.genesis FixedBytes.zero : Ans .readCached), s)
  | .writeCached f, s => some ((() : Ans (.writeCached f)), s)
  | .respondDigest d, s => some ((() : Ans (.respondDigest d)), s)
  | .respondValid v, s => some ((() : Ans (.respondValid v)), s)
  | .broadcastBlock b, s => some ((() : Ans (.broadcastBlock b)), s)
  | _, _ => none

def emptyPayload (blockNumber : UInt64) (parentHash blockHash : B256) : BuiltPayload where
  blockHash := blockHash
  blockNumber := blockNumber
  parentHash := parentHash
  feeRecipient := FixedBytes.zero
  stateRoot := FixedBytes.zero
  receiptsRoot := FixedBytes.zero
  logsBloom := ⟨List.replicate 256 0, by rw [List.length_replicate]; decide⟩
  prevRandao := FixedBytes.zero
  extraData := Vec.empty
  gasLimit := 30000000
  gasUsed := 0
  timestamp := blockNumber
  transactions := Vec.empty
  baseFeePerGas := 7

/-- The empty block of height `n`; its hash is the byte `n` repeated. -/
def chainBlock (n : Nat) : Block :=
  buildBlockFromPayload (emptyPayload (UInt64.ofNat n)
    (FixedBytes.repeatByte (UInt8.ofNat (n - 1))) (FixedBytes.repeatByte (UInt8.ofNat n)))

def genesisConfig : ApplicationConfig where
  initialHeight := 1
  initialHash := FixedBytes.zero
  proposer := FixedBytes.zero
  blockTiming := .vanilla

theorem step_of_replayMessage (env : Prog.Env NodeOp Ans Unit) (self : Application)
    (message : Message) (l : ActorLabel) (self' : Application)
    (h : replayMessage sha256 env self message = some (l, self')) :
    ActorStep sha256 self l self' := by
  obtain ⟨⟨tr, self₁, ⟨⟩⟩, hrun, heq⟩ := Option.map_eq_some_iff.mp h
  cases heq
  exact Prog.exec_of_run (fun _ _ _ _ _ => trivial) hrun

theorem exists_run_of_replay (sha256 : List UInt8 → AppDigest) (env : Prog.Env NodeOp Ans Unit)
    (self : Application) (messages : List Message)
    (check : List ActorTransition → Application → Bool)
    (h : (play (replayMessage sha256 env) self messages).any (fun r =>
      decide (r.1.map (fun t => t.label.1) = messages) && check r.1 r.2) = true) :
    ∃ ts self', ActorRun sha256 self ts self' ∧ ts.map (fun t => t.label.1) = messages ∧
      check ts self' = true := by
  obtain ⟨ts, self', hrun, hcheck⟩ := exists_run_of_play
    (step_of_replayMessage env) self messages
    (fun ts self => decide (ts.map (fun t => t.label.1) = messages) && check ts self) h
  rw [Bool.and_eq_true, decide_eq_true_eq] at hcheck
  exact ⟨ts, self', hrun, hcheck.1, hcheck.2⟩

end Replay

end Rkb.Consensus.ActorRuns
