import Rkb.Execution.Client

namespace Rkb.Execution.InitForkchoice

open Rkb.Library.Bytes
open Rkb.Library.Program
open Rkb.Types.Blocks
open Rkb.Execution.Errors
open Rkb.Execution.Forkchoice
open Rkb.Execution.Payload
open Rkb.Execution.Client
open Rkb.Node.Effects

def Valid (response : RpcAnswer ForkchoiceUpdated) : Prop :=
  ∃ updated, response = .answer updated ∧ updated.payloadStatus.status = .valid

def Syncing (response : RpcAnswer ForkchoiceUpdated) : Prop :=
  ∃ updated, response = .answer updated ∧ updated.payloadStatus.status = .syncing

def Accepted (response : RpcAnswer ForkchoiceUpdated) : Prop :=
  ∃ updated, response = .answer updated ∧ updated.payloadStatus.status = .accepted

def outcome : RpcAnswer ForkchoiceUpdated → Except ExecutionError Unit
  | .clientError reason => .error (.connectionFailed reason)
  | .requestError e => .error (.forkchoiceFailed ("forkchoiceUpdated RPC failed: " ++ e))
  | .answer updated =>
      match updated.payloadStatus.status with
      | .valid | .syncing | .accepted => .ok ()
      | .invalid validationError => .error (.forkchoiceFailed validationError)

def Failed (response : RpcAnswer ForkchoiceUpdated) : Prop := ∃ e, outcome response = .error e

section Outcomes

variable {response : RpcAnswer ForkchoiceUpdated}

theorem outcome_eq_ok :
    outcome response = .ok () ↔ Valid response ∨ Syncing response ∨ Accepted response := by
  constructor
  · intro h
    rcases response with reason | e | updated
    · cases h
    · cases h
    · cases hstatus : updated.payloadStatus.status with
      | valid => exact .inl ⟨updated, rfl, hstatus⟩
      | syncing => exact .inr (.inl ⟨updated, rfl, hstatus⟩)
      | accepted => exact .inr (.inr ⟨updated, rfl, hstatus⟩)
      | invalid validationError =>
          rw [outcome, hstatus] at h
          cases h
  · rintro (⟨updated, rfl, hstatus⟩ | ⟨updated, rfl, hstatus⟩ | ⟨updated, rfl, hstatus⟩)
    all_goals rw [outcome, hstatus]

theorem Failed.not_ok (h : Failed response) : outcome response ≠ .ok () := by
  obtain ⟨e, he⟩ := h
  rw [he]
  exact nofun

theorem Valid.not_syncing (h : Valid response) : ¬ Syncing response := by
  obtain ⟨updated, rfl, hstatus⟩ := h
  rintro ⟨updated', hsame, hstatus'⟩
  cases hsame
  rw [hstatus] at hstatus'
  cases hstatus'

theorem Valid.not_accepted (h : Valid response) : ¬ Accepted response := by
  obtain ⟨updated, rfl, hstatus⟩ := h
  rintro ⟨updated', hsame, hstatus'⟩
  cases hsame
  rw [hstatus] at hstatus'
  cases hstatus'

end Outcomes

section Loop

variable (answers : Nat → RpcAnswer ForkchoiceUpdated)

/-- The answers to the forkchoice requests, one after the other; the state counts the requests. -/
def answering : Sem NodeOp Ans Nat
  | .forkchoiceUpdated _ _, n, response, n' => response = answers n ∧ n' = n + 1
  | _, n, _, n' => n' = n

variable {answers} {state : ForkchoiceState}

theorem total_updateForkchoice {n : Nat} : (updateForkchoice state).Total (answering answers) n
    fun _ r n' => r = outcome (answers n) ∧ n' = n + 1 := by
  refine ⟨⟨_, _, rfl, rfl⟩, ?_⟩
  rintro _ _ ⟨rfl, rfl⟩
  rcases answers n with reason | e | ⟨⟨status, latestValidHash⟩, payloadId⟩
  · exact ⟨rfl, rfl⟩
  · exact ⟨rfl, rfl⟩
  · cases status with
    | valid | syncing | accepted =>
        refine ⟨⟨(), _, rfl⟩, ?_⟩
        rintro _ _ rfl
        exact ⟨rfl, rfl⟩
    | invalid validationError => exact ⟨rfl, rfl⟩

theorem total_tryInitForkchoice {n : Nat} {isLastAttempt : Bool} :
    (tryInitForkchoice state isLastAttempt).Total (answering answers) n fun _ r n' =>
      n' = n + 1 ∧ (outcome (answers n) = .ok () ∧ r = .ok true ∨
        ∃ e, outcome (answers n) = .error e ∧
          r = if isLastAttempt then .error e else .ok false) := by
  refine Prog.total_bind.mpr (total_updateForkchoice.mono ?_)
  rintro tr _ _ ⟨rfl, rfl⟩
  cases outcome (answers n) with
  | ok u => exact ⟨rfl, .inl ⟨rfl, rfl⟩⟩
  | error e =>
      cases isLastAttempt with
      | true => exact ⟨rfl, .inr ⟨e, rfl, rfl⟩⟩
      | false => exact ⟨rfl, .inr ⟨e, rfl, rfl⟩⟩

variable (answers) in
/-- How the loop ends: the last request has succeeded, or it was the last one allowed. -/
structure Ended (r : Except ExecutionError Unit) (requests : Nat) : Prop where
  made : 0 < requests
  bounded : requests ≤ maxRetries
  failed : ∀ m, m + 1 < requests → Failed (answers m)
  result : r = outcome (answers (requests - 1))
  early : requests < maxRetries → outcome (answers (requests - 1)) = .ok ()

theorem ended_next {n : Nat} {r : Except ExecutionError Unit} (hbound : n < maxRetries)
    (hfailed : ∀ m < n, Failed (answers m)) (hresult : outcome (answers n) = r)
    (hearly : n + 1 < maxRetries → r = .ok ()) : Ended answers r (n + 1) where
  made := Nat.succ_pos n
  bounded := hbound
  failed m hm := hfailed m (Nat.lt_of_succ_lt_succ hm)
  result := hresult.symm
  early hless := hresult.trans (hearly hless)

theorem total_initForkchoiceLoop {n remaining : Nat} (hleft : n + (remaining + 1) = maxRetries)
    (hfailed : ∀ m < n, Failed (answers m)) :
    (initForkchoiceLoop state (remaining + 1)).Total (answering answers) n
      fun _ r requests => Ended answers r requests := by
  have hbound : n < maxRetries := by
    omega
  induction remaining generalizing n with
  | zero =>
      refine Prog.total_bind.mpr (total_tryInitForkchoice.mono ?_)
      rintro tr r _ ⟨rfl, ⟨hok, rfl⟩ | ⟨e, herror, rfl⟩⟩
      · exact ended_next hbound hfailed hok fun _ => rfl
      · exact ended_next hbound hfailed herror fun hless => absurd hleft hless.ne
  | succ remaining ih =>
      refine Prog.total_bind.mpr (total_tryInitForkchoice.mono ?_)
      rintro tr r _ ⟨rfl, ⟨hok, rfl⟩ | ⟨e, herror, rfl⟩⟩
      · exact ended_next hbound hfailed hok fun _ => rfl
      · have hfailed' : ∀ m < n + 1, Failed (answers m) :=
          Nat.forall_lt_succ_right.mpr ⟨hfailed, e, herror⟩
        refine ⟨⟨(), _, rfl⟩, ?_⟩
        rintro _ _ rfl
        exact ih (by omega) hfailed' (by omega)

end Loop

/-- The initialisation waits out syncing: how it ends after `requests` requests. -/
structure WaitsOut (answers : Nat → RpcAnswer ForkchoiceUpdated) (r : Except ExecutionError Unit)
    (requests : Nat) : Prop where
  validated : r = .ok () → ∃ m < requests, Valid (answers m)
  retried : ∀ m, m + 1 < 30 → (∀ i ≤ m, Syncing (answers i) ∨ Failed (answers i)) →
    m + 1 < requests
  bounded : requests ≤ 30
  lastError : ∀ e, requests = 30 → outcome (answers 29) = .error e → r = .error e

section Initialisation

variable {answers : Nat → RpcAnswer ForkchoiceUpdated} {genesisHash : B256}

theorem total_initForkchoice : (initForkchoice genesisHash).Total (answering answers) 0
    fun _ r requests => Ended answers r requests :=
  total_initForkchoiceLoop rfl fun m hm => absurd hm (Nat.not_lt_zero m)

/-- It does so exactly where the engine has called the forkchoice valid before it says
`SYNCING` or `ACCEPTED` in one of the thirty answers. -/
theorem initForkchoice_waitsOut_iff : ((initForkchoice genesisHash).Total (answering answers) 0
      fun _ r requests => WaitsOut answers r requests) ↔
    ∀ n < 30, Syncing (answers n) ∨ Accepted (answers n) → ∃ m < n, Valid (answers m) := by
  constructor
  · intro h n hn hunsettled
    by_contra hnone
    obtain ⟨tr, r, requests, hexec⟩ := h.exists_exec
    obtain ⟨hvalidated, -, -, -⟩ := h.ensures tr r requests hexec
    obtain ⟨hmade, hbound, hfailed, rfl, hok⟩ := total_initForkchoice.ensures tr r requests hexec
    have hsucceeds : outcome (answers n) = .ok () := outcome_eq_ok.mpr (.inr hunsettled)
    have hlast : requests - 1 ≤ n := by
      by_contra hlater
      exact (hfailed n (by omega)).not_ok hsucceeds
    have hreturned : outcome (answers (requests - 1)) = .ok () := by
      rcases Nat.lt_or_ge requests 30 with hfew | hall
      · exact hok hfew
      · have hsame : requests - 1 = n := by omega
        rw [hsame]
        exact hsucceeds
    obtain ⟨m, hm, hvalid⟩ := hvalidated hreturned
    rcases Nat.lt_or_ge m n with hbefore | hafter
    · exact hnone ⟨m, hbefore, hvalid⟩
    · have hsame : m = n := by omega
      rw [hsame] at hvalid
      exact hunsettled.elim hvalid.not_syncing hvalid.not_accepted
  · intro hcond
    refine total_initForkchoice.mono ?_
    rintro _ r requests ⟨hmade, hbound, hfailed, rfl, hok⟩
    have hsettled : outcome (answers (requests - 1)) = .ok () → Valid (answers (requests - 1)) := by
      intro hreturned
      rcases outcome_eq_ok.mp hreturned with hvalid | hunsettled
      · exact hvalid
      · obtain ⟨m, hm, hvalid⟩ := hcond (requests - 1)
          (Nat.lt_of_lt_of_le (Nat.sub_lt hmade Nat.one_pos) hbound) hunsettled
        exact absurd (outcome_eq_ok.mpr (.inl hvalid)) (hfailed m (by omega)).not_ok
    constructor
    · intro hreturned
      exact ⟨requests - 1, Nat.sub_lt hmade Nat.one_pos, hsettled hreturned⟩
    · intro m hm hwaiting
      by_contra hended
      have hreturned : outcome (answers (requests - 1)) = .ok () :=
        hok (show requests < 30 by omega)
      rcases hwaiting (requests - 1) (by omega) with hsyncing | hfailed'
      · exact (hsettled hreturned).not_syncing hsyncing
      · exact hfailed'.not_ok hreturned
    · exact hbound
    · rintro e rfl herror
      exact herror

def stillSyncing : RpcAnswer ForkchoiceUpdated :=
  .answer { payloadStatus := { status := .syncing, latestValidHash := none }, payloadId := none }

theorem initForkchoice_returns_on_syncing : ∃ tr,
    (initForkchoice FixedBytes.zero).Exec (answering fun _ => stillSyncing) 0 tr (.ok ()) 1 ∧
      ¬ WaitsOut (fun _ => stillSyncing) (.ok ()) 1 := by
  refine ⟨_, ⟨_, _, _, rfl, ⟨rfl, rfl⟩, (), _, _, rfl, rfl, rfl, rfl, rfl⟩, ?_⟩
  rintro ⟨hvalidated, -, -, -⟩
  obtain ⟨m, -, hvalid⟩ := hvalidated rfl
  exact hvalid.not_syncing ⟨_, rfl, rfl⟩

end Initialisation

end Rkb.Execution.InitForkchoice
