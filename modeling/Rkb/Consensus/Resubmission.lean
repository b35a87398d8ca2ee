import Rkb.Consensus.FinalizedChain

namespace Rkb.Consensus.Resubmission

open Rkb.Library.Bytes
open Rkb.Library.Program
open Rkb.Execution.Errors
open Rkb.Execution.Payload
open Rkb.Execution.Client
open Rkb.Node.Effects
open Rkb.Consensus.ActorSteps
open Rkb.Consensus.FinalizedChain

/-- What reth returns for the attributes of `start_building`: no withdrawals, and a base fee
that fits 64 bits. -/
structure Buildable (payload : ExecutionPayloadV3) : Prop where
  withdrawals : payload.payloadInner.withdrawals = Vec.empty
  baseFee : payload.payloadInner.payloadInner.baseFeePerGas.toNat < 2 ^ 64

/-- `get_payload` takes the payload, and `newPayloadV3` then receives the same one, whether
the node applies it or imports it. -/
def ResubmittedUnchanged (payload : ExecutionPayloadV3) : Prop :=
  ∀ (payloadId : PayloadId) (result : Except ExecutionError BuiltPayload),
    (getPayload payloadId).Exec anyAnswer ()
      [⟨.getPayload payloadId, (.answer payload : RpcAnswer ExecutionPayloadV3)⟩] result () →
    ∃ built, result = .ok built ∧
      (applyBuiltPayload built).Total anyAnswer () (fun tr _ _ => sent tr = [payload]) ∧
      (importPayload built).Total anyAnswer () fun tr _ _ => sent tr = [payload]

section Conversion

variable {payload : ExecutionPayloadV3}

def withoutBlobGas (payload : ExecutionPayloadV3) : ExecutionPayloadV3 :=
  { payload with blobGasUsed := 0, excessBlobGas := 0 }

theorem withoutBlobGas_eq_iff :
    withoutBlobGas payload = payload ↔ payload.blobGasUsed = 0 ∧ payload.excessBlobGas = 0 := by
  constructor
  · intro h
    exact ⟨congrArg ExecutionPayloadV3.blobGasUsed h.symm,
      congrArg ExecutionPayloadV3.excessBlobGas h.symm⟩
  · rcases payload with ⟨inner, blobGasUsed, excessBlobGas⟩
    rintro ⟨rfl, rfl⟩
    rfl

theorem exists_built (h : Buildable payload) :
    ∃ built, toBuiltPayload payload = some built ∧
      built.toExecutionPayload = some (withoutBlobGas payload) := by
  rcases payload with ⟨⟨v1, withdrawals⟩, blobGasUsed, excessBlobGas⟩
  obtain ⟨rfl, hfee⟩ := h
  refine ⟨_, if_pos hfee, ?_⟩
  have hbaseFee : BitVec.ofNat 256 (UInt64.ofNat v1.baseFeePerGas.toNat).toNat =
      v1.baseFeePerGas := by
    rw [UInt64.toNat_ofNat_of_lt' hfee, BitVec.ofNat_toNat, BitVec.setWidth_eq]
  simp only [BuiltPayload.toExecutionPayload, FixedBytes.ofList_bytes, hbaseFee]
  rfl

end Conversion

section Requests

variable {payload : ExecutionPayloadV3} {built : BuiltPayload} {payloadId : PayloadId}
  {result : Except ExecutionError BuiltPayload}

theorem exec_getPayload (h : toBuiltPayload payload = some built) :
    (getPayload payloadId).Exec anyAnswer ()
      [⟨.getPayload payloadId, (.answer payload : RpcAnswer ExecutionPayloadV3)⟩] result () ↔
        result = .ok built := by
  constructor
  · rintro ⟨ans, s₁, rest, htrace, -, hexec⟩
    obtain ⟨hevent, rfl⟩ := List.cons.inj htrace
    obtain rfl := eq_of_heq (Sigma.mk.inj hevent).2
    simp only [Prog.bind, RpcAnswer.result, h] at hexec
    exact hexec.2.1
  · rintro rfl
    refine ⟨_, (), [], rfl, trivial, ?_⟩
    simp only [Prog.bind, RpcAnswer.result, h]
    exact ⟨rfl, rfl, rfl⟩

theorem ensures_importPayload {S : Type} {sem : Sem NodeOp Ans S} {s : S}
    (payload : BuiltPayload) :
    (importPayload payload).Ensures sem s
      fun tr _ _ => sent tr = payload.toExecutionPayload.toList := by
  apply ensures_sent_bind (ensures_requestNewPayload payload.toExecutionPayload)
  intro response
  split
  · exact Prog.performs_pure _
  · split <;> exact Prog.performs_pure _

variable {p : ExecutionPayloadV3}

theorem total_applyBuiltPayload (h : built.toExecutionPayload = some p) :
    (applyBuiltPayload built).Total anyAnswer () fun tr _ _ => sent tr = [p] := by
  have hanswered : (applyBuiltPayload built).Performs Answered :=
    answered_applyBuiltPayload (by rw [h]; exact Option.some_ne_none p)
  refine ((ensures_applyBuiltPayload built).mono fun tr _ _ hsent => ?_).total hanswered
  rw [hsent, h]
  rfl

theorem total_importPayload (h : built.toExecutionPayload = some p) :
    (importPayload built).Total anyAnswer () fun tr _ _ => sent tr = [p] := by
  have hanswered : (importPayload built).Performs Answered :=
    answered_importPayload (by rw [h]; exact Option.some_ne_none p)
  refine ((ensures_importPayload built).mono fun tr _ _ hsent => ?_).total hanswered
  rw [hsent, h]
  rfl

theorem withoutBlobGas_eq_of_resubmitted (hbuildable : Buildable payload)
    (h : ResubmittedUnchanged payload) : withoutBlobGas payload = payload := by
  obtain ⟨built, hbuilt, hsent⟩ := exists_built hbuildable
  obtain ⟨built', hresult, happly, -⟩ := h FixedBytes.zero _ ((exec_getPayload hbuilt).mpr rfl)
  obtain rfl := Except.ok.inj hresult
  obtain ⟨tr, r, s, hexec⟩ := happly.exists_exec
  have hfirst := (total_applyBuiltPayload hsent).ensures tr r s hexec
  have hsecond := happly.ensures tr r s hexec
  exact List.singleton_inj.mp (hfirst.symm.trans hsecond)

/-- A payload comes back as it was exactly when it has no blob gas. -/
theorem resubmittedUnchanged_iff (hbuildable : Buildable payload) :
    ResubmittedUnchanged payload ↔ payload.blobGasUsed = 0 ∧ payload.excessBlobGas = 0 := by
  rw [← withoutBlobGas_eq_iff]
  constructor
  · exact withoutBlobGas_eq_of_resubmitted hbuildable
  · intro hsame payloadId result hexec
    obtain ⟨built, hbuilt, hsent⟩ := exists_built hbuildable
    rw [hsame] at hsent
    exact ⟨built, (exec_getPayload hbuilt).mp hexec, total_applyBuiltPayload hsent,
      total_importPayload hsent⟩

/-- A block of one transaction, with as many blobs as the blob gas says. -/
def transferBlock (blobGasUsed : UInt64) : ExecutionPayloadV3 where
  payloadInner :=
    { payloadInner :=
        { parentHash := FixedBytes.zero
          feeRecipient := FixedBytes.zero
          stateRoot := FixedBytes.zero
          receiptsRoot := FixedBytes.zero
          logsBloom := FixedBytes.zero
          prevRandao := FixedBytes.zero
          blockNumber := 1
          gasLimit := 30000000
          gasUsed := 21000
          timestamp := 1
          extraData := Vec.empty
          baseFeePerGas := 7
          blockHash := FixedBytes.repeatByte 1
          transactions := ⟨[⟨[3], by decide⟩], by decide⟩ }
      withdrawals := Vec.empty }
  blobGasUsed := blobGasUsed
  excessBlobGas := 0

theorem buildable_transferBlock (blobGasUsed : UInt64) : Buildable (transferBlock blobGasUsed) :=
  ⟨rfl, (by decide : 7 < 2 ^ 64)⟩

theorem resubmittedUnchanged_iff_noBlobs : ResubmittedUnchanged (transferBlock 0) :=
  (resubmittedUnchanged_iff (buildable_transferBlock 0)).mpr ⟨rfl, rfl⟩

theorem blob_gas_not_resubmitted :
    Buildable (transferBlock 131072) ∧ ¬ ResubmittedUnchanged (transferBlock 131072) := by
  refine ⟨buildable_transferBlock _, fun h => ?_⟩
  have hsame := withoutBlobGas_eq_of_resubmitted (buildable_transferBlock _) h
  have hgas : (0 : UInt64) = 131072 := congrArg ExecutionPayloadV3.blobGasUsed hsame
  exact absurd hgas (by decide)

end Requests

end Rkb.Consensus.Resubmission
