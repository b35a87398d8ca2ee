import Mathlib.Data.List.DropRight
import Rkb.Library.Runs
import Rkb.Celestia.Client

namespace Rkb.Celestia.Subscription

open Rkb.Library.Bytes
open Rkb.Library.Program
open Rkb.Library.Runs
open Rkb.Types.Blocks
open Rkb.Execution.Errors
open Rkb.Celestia.Client
open Rkb.Celestia.Finality
open Rkb.Node.Effects

/-- What the tracker reads of a header; its hash has 32 bytes. -/
structure ExtendedHeader where
  height : UInt64
  hash : B256
deriving DecidableEq

abbrev Session : Type := List (Except String ExtendedHeader)

/-- One subscription. No branch of it returns `Ok`. -/
def runHeaderSubscription : Session → NodeProg (Except CelestiaError Unit)
  | [] => return .error (.subscriptionFailed "subscription stream ended")
  | .error e :: _ => return .error (.subscriptionFailed e)
  | .ok header :: results => do
      processHeader header.height header.hash
      runHeaderSubscription results

def saturatingSub (a b : UInt32) : UInt32 := UInt32.ofNat (a.toNat - b.toNat)

def saturatingMul (a b : UInt64) : UInt64 := UInt64.ofNat (min (a.toNat * b.toNat) (2 ^ 64 - 1))

def saturatingPow (base : UInt64) (exp : UInt32) : UInt64 :=
  UInt64.ofNat (min (base.toNat ^ exp.toNat) (2 ^ 64 - 1))

def calculateBackoff (failures : UInt32) (baseDelayMs maxDelayMs : UInt64) : UInt64 :=
  let backoff := saturatingMul baseDelayMs (saturatingPow 2 (saturatingSub failures 1))
  min backoff maxDelayMs

def defaultReconnectDelayMs : UInt64 := 5000

def maxConsecutiveFailures : UInt32 := 10

def maxBackoffMs : UInt64 := 60000

inductive FinalityLoop
  | running (consecutiveFailures : UInt32)
  | returned (result : Except CelestiaError Unit)

def maxFailuresReached : CelestiaError :=
  .subscriptionFailed
    ("max consecutive failures (" ++ toString maxConsecutiveFailures ++ ") reached")

def reconnect (consecutiveFailures : UInt32) : NodeProg FinalityLoop := do
  let _ ← op (.sleep (calculateBackoff consecutiveFailures defaultReconnectDelayMs maxBackoffMs))
  return .running consecutiveFailures

def runFinalityTrackerTurn (consecutiveFailures : UInt32) (session : Session) :
    NodeProg FinalityLoop := do
  match ← runHeaderSubscription session with
  | .ok () => reconnect 0
  | .error _ =>
      if maxConsecutiveFailures ≤ consecutiveFailures + 1 then
        return .returned (.error maxFailuresReached)
      else reconnect (consecutiveFailures + 1)

def delivered : Session → List ExtendedHeader
  | .ok header :: results => header :: delivered results
  | _ => []

def processedOf : NodeOp → Option ExtendedHeader
  | .onCelestiaFinality celestiaHeight celestiaHeaderHash =>
      some ⟨celestiaHeight, celestiaHeaderHash⟩
  | _ => none

def processed (tr : List NodeEvent) : List ExtendedHeader := tr.filterMap fun e => processedOf e.1

structure Turn where
  session : Session
  trace : List NodeEvent

inductive LoopStep {S : Type} (sem : Sem NodeOp Ans S) :
    FinalityLoop × S → Turn → FinalityLoop × S → Prop
  | turn {consecutiveFailures : UInt32} {session : Session} {tr : List NodeEvent} {s s' : S}
      {loop : FinalityLoop} :
      (runFinalityTrackerTurn consecutiveFailures session).Exec sem s tr loop s' →
      LoopStep sem (.running consecutiveFailures, s) ⟨session, tr⟩ (loop, s')

abbrev LoopTransition (S : Type) : Type := Transition (FinalityLoop × S) Turn

/-- When the tracker has returned an error, its last sessions processed no header. -/
def GivesUpFruitless {S : Type} (ts : List (LoopTransition S)) (loop : FinalityLoop) : Prop :=
  (∃ e, loop = .returned (.error e)) →
    ∀ t ∈ ts.rtake maxConsecutiveFailures.toNat, processed t.label.trace = []

section Session

variable {S : Type} {sem : Sem NodeOp Ans S} {s : S}

theorem processed_append (tr₁ tr₂ : List NodeEvent) :
    processed (tr₁ ++ tr₂) = processed tr₁ ++ processed tr₂ := List.filterMap_append

theorem ensures_broadcastConfirmations (confirmations : List FinalityConfirmation) :
    (broadcastConfirmations confirmations).Ensures sem s fun tr _ _ => processed tr = [] := by
  have hsilent : (broadcastConfirmations confirmations).Performs fun o => processedOf o = none := by
    induction confirmations with
    | nil => exact Prog.performs_pure _
    | cons confirmation confirmations ih =>
        refine Prog.Performs.bind (Prog.performs_perform ?_) fun _ => ih
        rfl
  exact (hsilent.ensures s).mono fun tr _ _ h => List.filterMap_eq_nil_iff.mpr h

theorem ensures_processHeader (celestiaHeight : UInt64) (headerHash : B256) :
    (processHeader celestiaHeight headerHash).Ensures sem s
      fun tr _ _ => processed tr = [⟨celestiaHeight, headerHash⟩] := by
  refine Prog.ensures_perform_bind.mpr fun confirmations s₁ _ => ?_
  refine (ensures_broadcastConfirmations confirmations).mono fun tr _ _ h => ?_
  exact congrArg _ h

theorem ensures_runHeaderSubscription (session : Session) :
    (runHeaderSubscription session).Ensures sem s
      fun tr r _ => processed tr = delivered session ∧ ∃ e, r = .error e := by
  induction session generalizing s with
  | nil => exact Prog.ensures_pure.mpr ⟨rfl, _, rfl⟩
  | cons result results ih =>
      cases result with
      | error e => exact Prog.ensures_pure.mpr ⟨rfl, _, rfl⟩
      | ok header =>
          refine Prog.ensures_bind.mpr ((ensures_processHeader _ _).mono fun tr₁ _ s₁ htr₁ => ?_)
          refine ih.mono fun tr₂ r _ h => ⟨?_, h.2⟩
          rw [processed_append, htr₁, h.1]
          rfl

theorem ensures_reconnect (consecutiveFailures : UInt32) :
    (reconnect consecutiveFailures).Ensures sem s
      fun tr loop _ => processed tr = [] ∧ loop = .running consecutiveFailures := by
  refine Prog.ensures_perform_bind.mpr fun _ s₁ _ => ?_
  exact Prog.ensures_pure.mpr ⟨rfl, rfl⟩

theorem ensures_runFinalityTrackerTurn (consecutiveFailures : UInt32) (session : Session) :
    (runFinalityTrackerTurn consecutiveFailures session).Ensures sem s
      fun tr loop _ => processed tr = delivered session ∧
        loop = if maxConsecutiveFailures ≤ consecutiveFailures + 1 then
          .returned (.error maxFailuresReached) else .running (consecutiveFailures + 1) := by
  refine Prog.ensures_bind.mpr ((ensures_runHeaderSubscription session).mono ?_)
  rintro tr₁ _ s₁ ⟨htr₁, e, rfl⟩
  simp only
  split
  · refine Prog.ensures_pure.mpr ⟨?_, rfl⟩
    rw [List.append_nil, htr₁]
  · refine (ensures_reconnect _).mono ?_
    rintro tr₂ _ _ ⟨htr₂, rfl⟩
    refine ⟨?_, rfl⟩
    rw [processed_append, htr₁, htr₂, List.append_nil]

end Session

section Loop

variable {S : Type} {sem : Sem NodeOp Ans S} {s s' : S} {ts : List (LoopTransition S)}
  {loop : FinalityLoop}

def AfterTurns (n : Nat) (loop : FinalityLoop) : Prop :=
  (n < maxConsecutiveFailures.toNat ∧ loop = .running (UInt32.ofNat n)) ∨
    (n = maxConsecutiveFailures.toNat ∧ loop = .returned (.error maxFailuresReached))

theorem afterTurns_succ {n : Nat} (h : n < maxConsecutiveFailures.toNat) :
    AfterTurns (n + 1) (if maxConsecutiveFailures ≤ UInt32.ofNat n + 1 then
      .returned (.error maxFailuresReached) else .running (UInt32.ofNat n + 1)) := by
  have hmax : maxConsecutiveFailures.toNat = 10 := rfl
  have hcount : (UInt32.ofNat n + 1).toNat = n + 1 := by
    rw [UInt32.toNat_add, UInt32.toNat_ofNat_of_lt' (by rw [UInt32.size]; omega)]
    show (n + 1) % 2 ^ 32 = n + 1
    omega
  split
  · rename_i hreached
    rw [UInt32.le_iff_toNat_le, hcount] at hreached
    exact .inr ⟨by omega, rfl⟩
  · rename_i hbelow
    rw [UInt32.le_iff_toNat_le, hcount] at hbelow
    refine .inl ⟨by omega, ?_⟩
    rw [UInt32.ofNat_add]
    rfl

/-- No session resets the counter, so the loop counts the sessions of its whole life. -/
theorem afterTurns_of_run (hrun : Run (LoopStep sem) (.running 0, s) ts (loop, s')) :
    AfterTurns ts.length loop := by
  refine hrun.history (fun us p => AfterTurns us.length p.1)
    (.inl ⟨Nat.zero_lt_succ 9, rfl⟩) ?_
  rintro us ⟨⟨pre, s₁⟩, label, ⟨post, s₂⟩⟩ _ hstep hloop
  rw [List.length_append]
  cases hstep with
  | turn hexec =>
      obtain ⟨-, rfl⟩ := ensures_runFinalityTrackerTurn _ _ _ _ _ hexec
      rcases hloop with ⟨hlt, hrunning⟩ | ⟨-, hreturned⟩
      · obtain rfl := FinalityLoop.running.inj hrunning
        exact afterTurns_succ hlt
      · cases hreturned

theorem processed_of_run (hrun : Run (LoopStep sem) (.running 0, s) ts (loop, s')) :
    ∀ t ∈ ts, processed t.label.trace = delivered t.label.session := by
  intro t ht
  obtain ⟨⟨pre, s₁⟩, label, ⟨post, s₂⟩⟩ := t
  cases hrun.step_of_mem ht with
  | turn hexec => exact (ensures_runFinalityTrackerTurn _ _ _ _ _ hexec).1

/-- The tracker gives up after its tenth session, whatever the sessions delivered. So it
gives up after fruitless ones only when it has had fewer or none of the ten delivered a
header. -/
theorem givesUpFruitless_iff (hrun : Run (LoopStep sem) (.running 0, s) ts (loop, s')) :
    GivesUpFruitless ts loop ↔
      ts.length < maxConsecutiveFailures.toNat ∨
        ∀ t ∈ ts.take maxConsecutiveFailures.toNat, delivered t.label.session = [] := by
  have hprocessed := processed_of_run hrun
  rcases afterTurns_of_run hrun with ⟨hlt, rfl⟩ | ⟨hlength, rfl⟩
  · constructor
    · exact fun _ => .inl hlt
    · rintro _ ⟨e, he⟩
      cases he
  · have htake : ts.take maxConsecutiveFailures.toNat = ts := List.take_of_length_le hlength.le
    have hrtake : ts.rtake maxConsecutiveFailures.toNat = ts := by
      rw [List.rtake, hlength, Nat.sub_self, List.drop_zero]
    rw [GivesUpFruitless, htake, hrtake]
    constructor
    · intro hfruitless
      refine .inr fun t ht => ?_
      rw [← hprocessed t ht]
      exact hfruitless ⟨_, rfl⟩ t ht
    · rintro (hlt | hnone) _ t ht
      · exact absurd hlength hlt.ne
      · rw [hprocessed t ht]
        exact hnone t ht

theorem answered_runFinalityTrackerTurn (consecutiveFailures : UInt32) (session : Session) :
    (runFinalityTrackerTurn consecutiveFailures session).Performs fun o => Nonempty (Ans o) := by
  have hconfirmations (confirmations : List FinalityConfirmation) :
      (broadcastConfirmations confirmations).Performs fun o => Nonempty (Ans o) := by
    induction confirmations with
    | nil => exact Prog.performs_pure _
    | cons confirmation confirmations ih => exact (Prog.performs_perform ⟨true⟩).bind fun _ => ih
  have hreconnect (n : UInt32) : (reconnect n).Performs fun o => Nonempty (Ans o) :=
    (Prog.performs_perform ⟨()⟩).bind fun _ => Prog.performs_pure _
  refine Prog.Performs.bind ?_ fun result => ?_
  · induction session with
    | nil => exact Prog.performs_pure _
    | cons result results ih =>
        cases result with
        | error e => exact Prog.performs_pure _
        | ok header =>
            refine Prog.Performs.bind ?_ fun _ => ih
            exact (Prog.performs_perform ⟨[]⟩).bind fun _ => hconfirmations _
  · cases result with
    | ok a => exact hreconnect 0
    | error e =>
        simp only
        split
        · exact Prog.performs_pure _
        · exact hreconnect _

theorem exists_run (sessions : List Session)
    (h : sessions.length ≤ maxConsecutiveFailures.toNat) :
    ∃ ts loop, Run (LoopStep anyAnswer) (.running 0, ()) ts (loop, ()) ∧
      ts.map (fun t => t.label.session) = sessions := by
  induction sessions using List.reverseRecOn with
  | nil => exact ⟨[], _, .nil _, rfl⟩
  | append_singleton sessions session ih =>
      rw [List.length_append, List.length_singleton] at h
      obtain ⟨ts, loop, hrun, hsessions⟩ := ih (by omega)
      have hlength : ts.length = sessions.length := by rw [← hsessions, List.length_map]
      rcases afterTurns_of_run hrun with ⟨-, rfl⟩ | ⟨hall, -⟩
      · obtain ⟨tr, loop, hexec⟩ := (answered_runFinalityTrackerTurn _ session).exists_exec
        refine ⟨_, loop, hrun.append (.cons (.turn hexec) (.nil _)), ?_⟩
        rw [List.map_append, hsessions]
        rfl
      · omega

theorem session_of_replicate {n : Nat} {session : Session}
    (h : ts.map (fun t => t.label.session) = List.replicate n session)
    {t : LoopTransition S} (ht : t ∈ ts) : t.label.session = session := by
  have hmem : t.label.session ∈ ts.map fun t => t.label.session := List.mem_map_of_mem ht
  rw [h] at hmem
  exact List.eq_of_mem_replicate hmem

theorem givesUpFruitless_iff_refused :
    ∃ ts loop, Run (LoopStep anyAnswer) (.running 0, ()) ts (loop, ()) ∧
      loop = .returned (.error maxFailuresReached) ∧ GivesUpFruitless ts loop := by
  obtain ⟨ts, loop, hrun, hsessions⟩ := exists_run
    (List.replicate 10 [.error "connection refused"]) (by decide)
  have hlength : ts.length = 10 := by rw [← ts.length_map, hsessions, List.length_replicate]
  refine ⟨ts, loop, hrun, ?_, (givesUpFruitless_iff hrun).mpr (.inr ?_)⟩
  · rcases afterTurns_of_run hrun with ⟨hlt, -⟩ | ⟨-, hreturned⟩
    · exact absurd hlength hlt.ne
    · exact hreturned
  · intro t ht
    rw [session_of_replicate hsessions (List.mem_of_mem_take ht)]
    rfl

theorem gives_up_between_headers :
    ∃ ts loop, Run (LoopStep anyAnswer) (.running 0, ()) ts (loop, ()) ∧
      ts.map (fun t => t.label.session) = List.replicate 10 [.ok ⟨1, FixedBytes.zero⟩] ∧
      ¬ GivesUpFruitless ts loop := by
  obtain ⟨ts, loop, hrun, hsessions⟩ := exists_run
    (List.replicate 10 [.ok ⟨1, FixedBytes.zero⟩]) (by decide)
  refine ⟨ts, loop, hrun, hsessions, ?_⟩
  have hlength : ts.length = 10 := by rw [← ts.length_map, hsessions, List.length_replicate]
  intro hfruitless
  rcases afterTurns_of_run hrun with ⟨hlt, -⟩ | ⟨-, rfl⟩
  · exact absurd hlength hlt.ne
  · have hnonempty : 0 < ts.length := by omega
    obtain ⟨t, ht⟩ := List.exists_mem_of_length_pos hnonempty
    have hlast : t ∈ ts.rtake maxConsecutiveFailures.toNat := by
      rw [List.rtake, hlength]
      exact ht
    have hnone := hfruitless ⟨_, rfl⟩ t hlast
    rw [processed_of_run hrun t ht, session_of_replicate hsessions ht] at hnone
    cases hnone

end Loop

end Rkb.Celestia.Subscription
