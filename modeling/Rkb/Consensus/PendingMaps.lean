import Rkb.Consensus.ActorRuns

namespace Rkb.Consensus.PendingMaps

open Rkb.Library.Bytes
open Rkb.Library.Maps
open Rkb.Types.Blocks
open Rkb.Consensus.Messages
open Rkb.Consensus.Actor
open Rkb.Consensus.ActorSteps
open Rkb.Consensus.ActorRuns
open Rkb.Node.Effects

def InStep (self : Application) : Prop := SameKeys self.pendingBlocks self.pendingPayloads

/-- What `finalize` takes out has its payload, and what a finalization leaves behind is not
below the new height. -/
structure Finalizes (t : ActorTransition) : Prop where
  paired : ∀ digest block, t.label.1 = .finalize digest →
    t.pre.pendingBlocks.lookup digest = some block →
      ∃ payload, t.pre.pendingPayloads.lookup digest = some payload
  above : ∀ digest, t.label.1 = .finalize digest → t.post.height ≠ t.pre.height →
    ∀ d b, t.post.pendingBlocks.lookup d = some b → t.post.height ≤ b.height

/-- The message neither finalizes the digest nor completes a proposal that has it. -/
structure Spares (t : ActorTransition) (d : AppDigest) : Prop where
  finalize : t.label.1 ≠ .finalize d
  propose : ∀ proposed ∈ relayed t.label.2, proposed.digest ≠ d

/-- A pending block that is spared and not below the height stays, with its payload. -/
def Retains (t : ActorTransition) : Prop :=
  ∀ d block, Spares t d → t.pre.pendingBlocks.lookup d = some block →
    t.post.height ≤ block.height →
      t.post.pendingBlocks.lookup d = some block ∧
        t.post.pendingPayloads.lookup d = t.pre.pendingPayloads.lookup d

variable {sha256 : List UInt8 → AppDigest} {self self' : Application} {message : Message}
  {tr : List NodeEvent} {ts : List ActorTransition}

theorem InStep.outcome (hself : InStep self) (h : Outcome sha256 self message tr self') :
    InStep self' := by
  cases h with
  | genesis _ _ => exact hself
  | proposedNull _ => exact hself
  | proposed payload _ _ => exact hself.insert _ _ _
  | verified _ _ => exact hself
  | broadcast => exact hself
  | unknown hlookup => exact hself.erase_right (Finmap.lookup_eq_none.mp hlookup)
  | wrongHeight _ _ => exact hself.erase _
  | finalized _ _ _ _ _ => exact (hself.erase _).retain _
  | alreadyPending _ => exact hself
  | received _ _ _ => exact hself.insert _ _ _

/-- Only a finalization moves the height, and then what is below it has been dropped. -/
theorem above_of_outcome (h : Outcome sha256 self message tr self')
    (hheight : self'.height ≠ self.height) {d : AppDigest} {b : Block}
    (hlookup : self'.pendingBlocks.lookup d = some b) : self'.height ≤ b.height := by
  cases h with
  | finalized _ _ _ _ _ => exact UInt64.not_lt.mp (lookup_advanced.mp hlookup).2.2
  | _ => exact absurd rfl hheight

theorem retains_of_outcome (h : Outcome sha256 self message tr self') :
    Retains ⟨self, (message, tr), self'⟩ := by
  rintro d block ⟨hfinalize, hpropose⟩ hlookup hheight
  simp only at hfinalize hpropose hlookup hheight ⊢
  cases h with
  | genesis _ _ => exact ⟨hlookup, rfl⟩
  | proposedNull _ => exact ⟨hlookup, rfl⟩
  | proposed payload _ hrelay =>
      have hne : d ≠ (proposedBlock sha256 payload).digest :=
        (hpropose _ (by rw [hrelay]; exact List.mem_cons_self)).symm
      exact ⟨(Finmap.lookup_insert_of_ne _ hne).trans hlookup, Finmap.lookup_insert_of_ne _ hne⟩
  | verified _ _ => exact ⟨hlookup, rfl⟩
  | broadcast => exact ⟨hlookup, rfl⟩
  | @unknown digest hnone =>
      have hne : d ≠ digest := fun heq => hfinalize (congrArg Message.finalize heq.symm)
      exact ⟨hlookup, Finmap.lookup_erase_ne hne⟩
  | @wrongHeight digest _ _ _ =>
      have hne : d ≠ digest := fun heq => hfinalize (congrArg Message.finalize heq.symm)
      exact ⟨(Finmap.lookup_erase_ne hne).trans hlookup, Finmap.lookup_erase_ne hne⟩
  | @finalized digest finalized _ _ _ _ _ _ =>
      have hne : d ≠ digest := fun heq => hfinalize (congrArg Message.finalize heq.symm)
      have hkept := lookup_advanced.mpr ⟨hne, hlookup, UInt64.not_lt.mpr hheight⟩
      exact ⟨hkept, payload_advanced hkept⟩
  | alreadyPending _ => exact ⟨hlookup, rfl⟩
  | @received digest _ _ _ _ hpending _ =>
      have hne : d ≠ digest := by
        rintro rfl
        exact hpending (Finmap.mem_of_lookup_eq_some hlookup)
      exact ⟨(Finmap.lookup_insert_of_ne _ hne).trans hlookup, Finmap.lookup_insert_of_ne _ hne⟩

theorem inStep_of_run {config : ApplicationConfig}
    (hrun : ActorRun sha256 (Application.new config) ts self) :
    InStep self ∧ ∀ t ∈ ts, InStep t.pre := by
  obtain ⟨hlast, hall⟩ := hrun.invariant InStep (fun _ => True)
    (fun _ hstep _ hpre => hpre.outcome hstep.outcome) (fun _ _ => trivial) sameKeys_empty
  exact ⟨hlast, fun t ht => (hall t ht).1⟩

/-- The maps stay in step, and each message keeps what it must. -/
theorem pending_in_step {config : ApplicationConfig}
    (hrun : ActorRun sha256 (Application.new config) ts self) :
    self.pendingBlocks.keys = self.pendingPayloads.keys ∧
      ∀ t ∈ ts, Finalizes t ∧ Retains t := by
  obtain ⟨hself, hall⟩ := inStep_of_run hrun
  refine ⟨hself.keys_eq, ?_⟩
  intro t ht
  have houtcome := (hrun.step_of_mem ht).outcome
  refine ⟨⟨?_, ?_⟩, retains_of_outcome houtcome⟩
  · intro digest block _ hlookup
    exact Finmap.mem_iff.mp ((hall t ht digest).mp (Finmap.mem_of_lookup_eq_some hlookup))
  · intro digest _ hheight d b
    exact above_of_outcome houtcome hheight

def receiveChainBlock (n : Nat) : Message :=
  .receiveBlock (FixedBytes.repeatByte (UInt8.ofNat n)) (chainBlock n)
    (emptyPayload (UInt64.ofNat n) (FixedBytes.repeatByte (UInt8.ofNat (n - 1)))
      (FixedBytes.repeatByte (UInt8.ofNat n)))

theorem pending_in_step_second :
    ∃ ts self, ActorRun Library.Sha256.sha256 (Application.new genesisConfig) ts self ∧
      self.pendingBlocks.keys = self.pendingPayloads.keys ∧
      self.pendingBlocks.lookup (FixedBytes.repeatByte 2) = some (chainBlock 2) ∧
      ∀ t ∈ ts, Finalizes t ∧ Retains t := by
  obtain ⟨ts, self, hrun, -, hlookup⟩ :=
    exists_run_of_replay Library.Sha256.sha256 acceptingEnv (Application.new genesisConfig)
      [receiveChainBlock 2, receiveChainBlock 1, .finalize (FixedBytes.repeatByte 1)]
      (fun _ self => decide
        (self.pendingBlocks.lookup (FixedBytes.repeatByte 2) = some (chainBlock 2)))
      (by decide +kernel)
  obtain ⟨hkeys, hsteps⟩ := pending_in_step hrun
  exact ⟨ts, self, hrun, hkeys, of_decide_eq_true hlookup, hsteps⟩

end Rkb.Consensus.PendingMaps
