import Rkb.Consensus.DigestBinding

namespace Rkb.Consensus.Agreement

open Rkb.Library.Bytes
open Rkb.Library.Program
open Rkb.Types.Blocks
open Rkb.Execution.Payload
open Rkb.Consensus.Messages
open Rkb.Consensus.Actor
open Rkb.Consensus.ActorSteps
open Rkb.Consensus.ActorRuns
open Rkb.Consensus.DigestBinding
open Rkb.Node.Effects

variable (sha256 : List UInt8 → AppDigest)

/-- Some validator's `complete_proposal` sent this block to its relay. -/
def ProducedByProposal (proposed : ProposedBlock) : Prop :=
  ∃ (self : Application) (payload : BuiltPayload) (tr : List NodeEvent)
    (r : AppDigest × Application),
    (self.completeProposal sha256 payload).Exec anyAnswer () tr r () ∧ proposed ∈ relayed tr

def RelaysProposals (ts : List ActorTransition) : Prop :=
  ∀ t ∈ ts, ∀ d b p, t.label.1 = .receiveBlock d b p → ProducedByProposal sha256 ⟨d, b, p⟩

/-- The actor holds the block of the digest, and it is the next one to finalize. -/
def accepts (self : Application) (digest : AppDigest) : Bool :=
  match self.pendingBlocks.lookup digest with
  | some block => block.height == self.height
  | none => false

/-- The finalizations of a run, and which of them found their block. -/
def acceptances (ts : List ActorTransition) : List (AppDigest × Bool) :=
  ts.filterMap fun t => (finalizeOf t.label.1).map fun d => (d, accepts t.pre d)

def acceptedDigests (ts : List ActorTransition) : List AppDigest :=
  (acceptances ts).filterMap fun r => if r.2 then some r.1 else none

variable {sha256} {ts : List ActorTransition} {self self' : Application} {l : ActorLabel}

theorem eq_proposedBlock_of_produced {proposed : ProposedBlock}
    (h : ProducedByProposal sha256 proposed) :
    ∃ payload, proposed = proposedBlock sha256 payload := by
  obtain ⟨self, payload, tr, r, hexec, hmem⟩ := h
  rcases ensures_completeProposal sha256 payload tr r () hexec with
    ⟨hsilent, -⟩ | ⟨payload', -, hrelay, -⟩
  · rw [hsilent.2] at hmem
    cases hmem
  · rw [hrelay, List.mem_singleton] at hmem
    exact ⟨payload', hmem⟩

theorem produced_proposedBlock (payload : BuiltPayload) :
    ProducedByProposal sha256 (proposedBlock sha256 payload) := by
  refine ⟨Application.new genesisConfig, payload,
    [⟨.relayBlock (proposedBlock sha256 payload), ()⟩],
    ((proposedBlock sha256 payload).digest,
      withProposal sha256 (Application.new genesisConfig) payload), ?_,
    List.mem_singleton_self _⟩
  exact ⟨(), (), [], rfl, trivial, rfl, rfl, rfl⟩

theorem honestReceive_of_relaysProposals (h : RelaysProposals sha256 ts) :
    ∀ t ∈ ts, HonestReceive sha256 t := by
  intro t ht d b p hmessage _
  obtain ⟨payload, heq⟩ := eq_proposedBlock_of_produced (h t ht d b p hmessage)
  cases heq
  exact ⟨rfl, rfl⟩

theorem acceptances_cons (t : ActorTransition) (ts : List ActorTransition) :
    acceptances (t :: ts) =
      ((finalizeOf t.label.1).map fun d => (d, accepts t.pre d)).toList ++ acceptances ts := by
  rw [acceptances, List.filterMap_cons]
  cases finalizeOf t.label.1 <;> rfl

theorem accepts_eq_true_of {d : AppDigest} {b : Block}
    (hlookup : self.pendingBlocks.lookup d = some b) (hheight : b.height = self.height) :
    accepts self d = true := by
  rw [accepts, hlookup]
  exact beq_iff_eq.mpr hheight

/-- What one message broadcasts, by digest, is the finalization it accepted. -/
theorem digests_of_outcome (h : Outcome sha256 self l.1 l.2 self') (hself : Bound sha256 self) :
    (broadcasts l.2).map (fun b => computeDigest sha256 b.blockHash) =
      ((finalizeOf l.1).map fun d => (d, accepts self d)).toList.filterMap
        fun r => if r.2 then some r.1 else none := by
  obtain ⟨message, tr⟩ := l
  simp only at h ⊢
  cases h with
  | genesis _ hsilent => rw [hsilent.1]; rfl
  | proposedNull hsilent => rw [hsilent.1]; rfl
  | proposed _ hbroadcast _ => rw [hbroadcast]; rfl
  | verified _ hsilent => rw [hsilent.1]; rfl
  | broadcast => rfl
  | @unknown d hlookup =>
      have hfalse : accepts self d = false := by rw [accepts, hlookup]
      simp [broadcasts, finalizeOf, hfalse]
  | @wrongHeight d b hlookup hheight =>
      have hfalse : accepts self d = false := by
        rw [accepts, hlookup]
        exact beq_eq_false_iff_ne.mpr hheight
      simp [broadcasts, finalizeOf, hfalse]
  | @finalized d b _ hlookup hheight hbroadcast _ _ =>
      have htrue := accepts_eq_true_of hlookup hheight
      simp only [hbroadcast, List.map_cons, List.map_nil, finalizeOf, Option.map_some,
        Option.toList_some, List.filterMap_cons, htrue, if_true, List.filterMap_nil]
      rw [← hself.digest d b hlookup]
  | alreadyPending _ => rfl
  | received _ _ hsilent => rw [hsilent.1]; rfl

theorem digests_of_run (hrun : ActorRun sha256 self ts self')
    (hbound : ∀ t ∈ ts, Bound sha256 t.pre) :
    (finalizedBlocks ts).map (fun b => computeDigest sha256 b.blockHash) =
      acceptedDigests ts := by
  induction hrun with
  | nil => rfl
  | @cons self self₁ self' l ts hstep _ ih =>
      have hsplit : finalizedBlocks (⟨self, l, self₁⟩ :: ts) =
          broadcasts l.2 ++ finalizedBlocks ts := rfl
      have hfirst := digests_of_outcome hstep.outcome (hbound _ List.mem_cons_self)
      have hrest := ih fun t ht => hbound t (List.mem_cons_of_mem _ ht)
      rw [hsplit, List.map_append, hfirst, hrest, acceptedDigests, acceptedDigests,
        acceptances_cons, List.filterMap_append]

theorem length_acceptances (ts : List ActorTransition) :
    (acceptances ts).length = (finalizeDigests ts).length := by
  induction ts with
  | nil => rfl
  | cons t ts ih =>
      rw [acceptances_cons, finalizeDigests, List.filterMap_cons, List.length_append, ih]
      cases finalizeOf t.label.1 with
      | none => exact Nat.zero_add _
      | some d => exact Nat.add_comm 1 _

variable {configA configB : ApplicationConfig} {tsA tsB : List ActorTransition}
  {appA appB : Application}

/-- Two actors that drop the same finalizations finalize the same block at every
height. -/
theorem agreement_of_same_acceptances
    (hheight : configA.initialHeight = configB.initialHeight)
    (hrunA : ActorRun sha256 (Application.new configA) tsA appA)
    (hrunB : ActorRun sha256 (Application.new configB) tsB appB)
    (hrelayA : RelaysProposals sha256 tsA) (hrelayB : RelaysProposals sha256 tsB)
    (hinjective : ∀ x ∈ finalizedBlocks tsA, ∀ y ∈ finalizedBlocks tsB,
      computeDigest sha256 x.blockHash = computeDigest sha256 y.blockHash →
        x.blockHash = y.blockHash)
    (hoverflow : configA.initialHeight.toNat + (finalizeDigests tsA).length < 2 ^ 64)
    (haccept : acceptances tsA = acceptances tsB) :
    ∀ x ∈ finalizedBlocks tsA, ∀ y ∈ finalizedBlocks tsB,
      x.height = y.height → x.blockHash = y.blockHash := by
  have hboundA := bound_of_run hrunA (honestReceive_of_relaysProposals hrelayA) (bound_new configA)
  have hboundB := bound_of_run hrunB (honestReceive_of_relaysProposals hrelayB) (bound_new configB)
  have hdigestsA := digests_of_run hrunA fun t ht => (hboundA.2 t ht).1
  have hdigestsB := digests_of_run hrunB fun t ht => (hboundB.2 t ht).1
  have hsame : (finalizedBlocks tsA).map (fun b => computeDigest sha256 b.blockHash) =
      (finalizedBlocks tsB).map fun b => computeDigest sha256 b.blockHash := by
    rw [hdigestsA, hdigestsB, acceptedDigests, acceptedDigests, haccept]
  have hlengthB : (finalizeDigests tsB).length = (finalizeDigests tsA).length := by
    rw [← length_acceptances, ← length_acceptances, haccept]
  have hlenA := length_finalizedBlocks_le hrunA
  have hlenB := length_finalizedBlocks_le hrunB
  have hstartA : (Application.new configA).height = configA.initialHeight := rfl
  have hstartB : (Application.new configB).height = configA.initialHeight := hheight.symm
  obtain ⟨-, hheightsA⟩ := heights_of_run hrunA (by rw [hstartA]; omega)
  obtain ⟨-, hheightsB⟩ := heights_of_run hrunB (by rw [hstartB]; omega)
  intro x hx y hy hxy
  obtain ⟨i, hi⟩ := List.getElem?_of_mem hx
  obtain ⟨j, hj⟩ := List.getElem?_of_mem hy
  have hxi := hheightsA i x hi
  have hyj := hheightsB j y hj
  -- equal heights stand at equal positions, where the digests agree
  have hij : i = j := by
    rw [hxy, hstartA] at hxi
    rw [hstartB] at hyj
    omega
  subst hij
  have hdigest := congrArg (fun ds => ds[i]?) hsame
  simp only [List.getElem?_map, hi, hj, Option.map_some, Option.some.injEq] at hdigest
  exact hinjective x hx y hy hdigest

section Examples

def secondPayload : BuiltPayload :=
  emptyPayload 1 FixedBytes.zero (FixedBytes.repeatByte 2)

def digest₁ : AppDigest := computeDigest Library.Sha256.sha256 firstPayload.blockHash

def digest₂ : AppDigest := computeDigest Library.Sha256.sha256 secondPayload.blockHash

def receive₁ : Message := .receiveBlock digest₁ (buildBlockFromPayload firstPayload) firstPayload

def receive₂ : Message := .receiveBlock digest₂ (buildBlockFromPayload secondPayload) secondPayload

theorem relaysProposals_of_messages {messages : List Message}
    (hmessages : ts.map (fun t => t.label.1) = messages)
    (hall : ∀ d b p, .receiveBlock d b p ∈ messages →
      ∃ payload, (⟨d, b, p⟩ : ProposedBlock) = proposedBlock sha256 payload) :
    RelaysProposals sha256 ts := by
  intro t ht d b p hmessage
  have hmem : .receiveBlock d b p ∈ messages := by
    rw [← hmessages, ← hmessage]
    exact List.mem_map_of_mem ht
  obtain ⟨payload, heq⟩ := hall d b p hmem
  rw [heq]
  exact produced_proposedBlock payload

theorem produced_of_mem {messages : List Message}
    (hsub : ∀ m ∈ messages, m = receive₁ ∨ m = receive₂ ∨
      m = .finalize digest₁ ∨ m = .finalize digest₂) (d : AppDigest) (b : Block)
    (p : BuiltPayload) (hmem : .receiveBlock d b p ∈ messages) :
    ∃ payload, (⟨d, b, p⟩ : ProposedBlock) = proposedBlock Library.Sha256.sha256 payload := by
  rcases hsub _ hmem with h | h | h | h
  · cases h
    exact ⟨firstPayload, rfl⟩
  · cases h
    exact ⟨secondPayload, rfl⟩
  · cases h
  · cases h

theorem agreement_of_same_acceptances_example :
    ∃ (tsA tsB : List ActorTransition),
      (finalizedBlocks tsA = [buildBlockFromPayload firstPayload] ∧
        finalizedBlocks tsB = [buildBlockFromPayload firstPayload]) ∧
      ∀ x ∈ finalizedBlocks tsA, ∀ y ∈ finalizedBlocks tsB,
        x.height = y.height → x.blockHash = y.blockHash := by
  have hreplay : ∀ messages : List Message,
      messages = [receive₁, receive₂, .finalize digest₁] ∨
        messages = [receive₁, .finalize digest₁] →
      ∃ ts self', ActorRun Library.Sha256.sha256 (Application.new genesisConfig) ts self' ∧
        ts.map (fun t => t.label.1) = messages ∧
        decide (finalizedBlocks ts = [buildBlockFromPayload firstPayload] ∧
          acceptances ts = [(digest₁, true)] ∧ finalizeDigests ts = [digest₁]) = true := by
    rintro messages (rfl | rfl)
    · exact exists_run_of_replay _ acceptingEnv _ _ _ (by decide +kernel)
    · exact exists_run_of_replay _ acceptingEnv _ _ _ (by decide +kernel)
  obtain ⟨tsA, appA, hrunA, hmessagesA, hA⟩ := hreplay _ (.inl rfl)
  obtain ⟨tsB, appB, hrunB, hmessagesB, hB⟩ := hreplay _ (.inr rfl)
  obtain ⟨hblocksA, hacceptA, hdigestsA⟩ := of_decide_eq_true hA
  obtain ⟨hblocksB, hacceptB, -⟩ := of_decide_eq_true hB
  refine ⟨tsA, tsB, ⟨hblocksA, hblocksB⟩, ?_⟩
  refine agreement_of_same_acceptances rfl hrunA hrunB
    (relaysProposals_of_messages hmessagesA (produced_of_mem (by simp)))
    (relaysProposals_of_messages hmessagesB (produced_of_mem (by simp))) ?_ ?_ ?_
  · rw [hblocksA, hblocksB]
    simp
  · rw [hdigestsA]
    decide
  · rw [hacceptA, hacceptB]

/-- Consensus finalizes two blocks of height 1. One actor holds both and keeps
the first; the other received the first too late and keeps the second. -/
theorem agreement_fails :
    ∃ (tsA tsB : List ActorTransition) (appA appB : Application),
      ActorRun Library.Sha256.sha256 (Application.new genesisConfig) tsA appA ∧
      ActorRun Library.Sha256.sha256 (Application.new genesisConfig) tsB appB ∧
      finalizeDigests tsA = finalizeDigests tsB ∧
      RelaysProposals Library.Sha256.sha256 tsA ∧ RelaysProposals Library.Sha256.sha256 tsB ∧
      digest₁ ≠ digest₂ ∧
      ∃ x ∈ finalizedBlocks tsA, ∃ y ∈ finalizedBlocks tsB,
        x.height = y.height ∧ x.blockHash ≠ y.blockHash := by
  obtain ⟨tsA, appA, hrunA, hmessagesA, hA⟩ :=
    exists_run_of_replay Library.Sha256.sha256 acceptingEnv (Application.new genesisConfig)
      [receive₁, receive₂, .finalize digest₁, .finalize digest₂]
      (fun ts _ => decide (finalizedBlocks ts = [buildBlockFromPayload firstPayload] ∧
        finalizeDigests ts = [digest₁, digest₂])) (by decide +kernel)
  obtain ⟨tsB, appB, hrunB, hmessagesB, hB⟩ :=
    exists_run_of_replay Library.Sha256.sha256 acceptingEnv (Application.new genesisConfig)
      [receive₂, .finalize digest₁, receive₁, .finalize digest₂]
      (fun ts _ => decide (finalizedBlocks ts = [buildBlockFromPayload secondPayload] ∧
        finalizeDigests ts = [digest₁, digest₂])) (by decide +kernel)
  obtain ⟨hblocksA, hdigestsA⟩ := of_decide_eq_true hA
  obtain ⟨hblocksB, hdigestsB⟩ := of_decide_eq_true hB
  refine ⟨tsA, tsB, appA, appB, hrunA, hrunB, hdigestsA.trans hdigestsB.symm,
    relaysProposals_of_messages hmessagesA (produced_of_mem (by simp)),
    relaysProposals_of_messages hmessagesB (produced_of_mem (by simp)), by decide +kernel,
    buildBlockFromPayload firstPayload, ?_, buildBlockFromPayload secondPayload, ?_, rfl,
    by decide⟩
  · rw [hblocksA]
    exact List.mem_singleton_self _
  · rw [hblocksB]
    exact List.mem_singleton_self _

end Examples

end Rkb.Consensus.Agreement
