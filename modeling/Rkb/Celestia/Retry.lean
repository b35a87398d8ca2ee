import Mathlib.Data.ENat.Lattice
import Rkb.Celestia.Subscription

namespace Rkb.Celestia.Retry

open Rkb.Library.Program
open Rkb.Execution.Errors
open Rkb.Celestia.Client
open Rkb.Celestia.Subscription
open Rkb.Node.Effects

inductive RetryOp
  | call
  | sleep (millis : UInt64)

variable {ε α : Type}

def RetryAns (ε α : Type) : RetryOp → Type
  | .call => Except ε α
  | .sleep _ => Unit

abbrev RetryProg (ε α β : Type) : Type := Prog RetryOp (RetryAns ε α) β

def perform (o : RetryOp) : RetryProg ε α (RetryAns ε α o) := Prog.perform o

section Loop

variable (display : ε → String) (operationName : String) (maxRetries : UInt32)
  (baseDelayMs : UInt64)

def failedAfter (attempts : UInt32) (e : ε) : CelestiaError :=
  .submissionFailed
    (operationName ++ " failed after " ++ toString attempts ++ " attempts: " ++ display e)

/-- The loop of `with_retry`, at most `turns` of its turns; `none` where they are not enough. -/
def retryLoop : (turns : Nat) → (attempts : UInt32) →
    RetryProg ε α (Option (Except CelestiaError α))
  | 0, _ => return none
  | turns + 1, attempts => do
      let attempts := attempts + 1
      let outcome : Except ε α ← perform .call
      match outcome with
      | .ok result => return some (.ok result)
      | .error e =>
          if maxRetries ≤ attempts then
            return some (.error (failedAfter display operationName attempts e))
          else
            let _ ← perform (.sleep (baseDelayMs * attempts.toUInt64))
            retryLoop turns attempts

end Loop

section Stream

variable (outcomes : Nat → Except ε α)

/-- The outcomes of the calls, one after the other; the state counts the calls. -/
def stream : Sem RetryOp (RetryAns ε α) Nat
  | .call, n, outcome, n' => outcome = outcomes n ∧ n' = n + 1
  | .sleep _, n, _, n' => n' = n

noncomputable def firstSuccess : ℕ∞ :=
  sInf ((fun n : Nat => ((n + 1 : Nat) : ℕ∞)) '' {n | (outcomes n).isOk = true})

/-- The attempts that `max_retries` allows; there is always one. -/
def limit (maxRetries : UInt32) : Nat := max 1 maxRetries.toNat

noncomputable def callsDue (maxRetries : UInt32) : ℕ∞ :=
  min (firstSuccess outcomes) (limit maxRetries)

variable {outcomes}

theorem lt_firstSuccess_iff {n : Nat} :
    (n : ℕ∞) < firstSuccess outcomes ↔ ∀ m < n, (outcomes m).isOk = false := by
  constructor
  · intro h m hm
    by_contra hok
    have hfirst : firstSuccess outcomes ≤ ((m + 1 : Nat) : ℕ∞) :=
      sInf_le ⟨m, Bool.eq_true_of_not_eq_false hok, rfl⟩
    have hlt := ENat.natCast_lt_natCast.mp (h.trans_le hfirst)
    omega
  · intro h
    have hle : ((n + 1 : Nat) : ℕ∞) ≤ firstSuccess outcomes := by
      apply le_sInf
      rintro _ ⟨m, hok, rfl⟩
      have hn : n ≤ m := by
        by_contra hlt
        have hfailed := h m (by omega)
        rw [hok] at hfailed
        cases hfailed
      exact ENat.natCast_le_natCast.mpr (by omega)
    exact (ENat.natCast_lt_natCast.mpr (Nat.lt_succ_self n)).trans_le hle

theorem firstSuccess_eq {n : Nat} (hbefore : ∀ m < n, (outcomes m).isOk = false)
    (hok : (outcomes n).isOk = true) : firstSuccess outcomes = ((n + 1 : Nat) : ℕ∞) := by
  apply le_antisymm
  · exact sInf_le ⟨n, hok, rfl⟩
  · rw [Nat.cast_succ]
    exact Order.add_one_le_of_lt (lt_firstSuccess_iff.mpr hbefore)

end Stream

section Retries

variable {display : ε → String} {operationName : String} {maxRetries : UInt32}
  {baseDelayMs : UInt64} {outcomes : Nat → Except ε α} {attempts : UInt32} {turns : Nat}

def millisOf : RetryOp → Option Nat
  | .call => none
  | .sleep millis => some millis.toNat

/-- The calls of a trace, and the milliseconds slept between them. -/
def shown (tr : List (Event (RetryAns ε α))) : List (Option Nat) := tr.map fun e => millisOf e.1

/-- The attempt numbered `attempt` and `more` of them after it. -/
def schedule (baseDelayMs : UInt64) (attempt : Nat) : (more : Nat) → List (Option Nat)
  | 0 => [none]
  | more + 1 =>
      none :: some (baseDelayMs.toNat * attempt) :: schedule baseDelayMs (attempt + 1) more

def Returned (display : ε → String) (operationName : String) (maxRetries : UInt32)
    (outcomes : Nat → Except ε α) (calls : Nat) (r : Option (Except CelestiaError α)) : Prop :=
  (∃ value, outcomes (calls - 1) = .ok value ∧ r = some (.ok value)) ∨
    calls = limit maxRetries ∧ ∃ e, outcomes (calls - 1) = .error e ∧
      r = some (.error (failedAfter display operationName (UInt32.ofNat calls) e))

theorem limit_le_iff {n : Nat} (hn : 0 < n) : limit maxRetries ≤ n ↔ maxRetries.toNat ≤ n := by
  unfold limit
  omega

theorem toNat_zero_lt_limit (maxRetries : UInt32) : (0 : UInt32).toNat < limit maxRetries :=
  Nat.lt_of_lt_of_le Nat.one_pos (Nat.le_max_left 1 maxRetries.toNat)

theorem toNat_next (h : attempts.toNat < limit maxRetries) :
    (attempts + 1).toNat = attempts.toNat + 1 := by
  have hmax := maxRetries.toNat_lt
  unfold limit at h
  rw [UInt32.toNat_add]
  apply Nat.mod_eq_of_lt
  show attempts.toNat + 1 < 2 ^ 32
  omega

theorem toNat_delay (h : baseDelayMs.toNat * attempts.toNat < 2 ^ 64) :
    (baseDelayMs * attempts.toUInt64).toNat = baseDelayMs.toNat * attempts.toNat := by
  rw [UInt64.toNat_mul, UInt32.toNat_toUInt64]
  exact Nat.mod_eq_of_lt h

theorem reached_iff (h : attempts.toNat < limit maxRetries) :
    maxRetries ≤ attempts + 1 ↔ limit maxRetries ≤ attempts.toNat + 1 := by
  rw [UInt32.le_iff_toNat_le, toNat_next h, limit_le_iff (Nat.succ_pos _)]

theorem total_call {β : Type} {f : Except ε α → RetryProg ε α β} {n : Nat}
    {Q : List (Event (RetryAns ε α)) → β → Nat → Prop}
    (h : (f (outcomes n)).Total (stream outcomes) (n + 1) fun tr r calls =>
      Q (⟨.call, outcomes n⟩ :: tr) r calls) :
    ((perform .call : RetryProg ε α (Except ε α)) >>= f).Total (stream outcomes) n Q := by
  refine ⟨⟨_, _, rfl, rfl⟩, ?_⟩
  rintro _ _ ⟨rfl, rfl⟩
  exact h

theorem total_sleep {β : Type} {f : Unit → RetryProg ε α β} {millis : UInt64} {n : Nat}
    {Q : List (Event (RetryAns ε α)) → β → Nat → Prop}
    (h : (f ()).Total (stream outcomes) n fun tr r calls => Q (⟨.sleep millis, ()⟩ :: tr) r calls) :
    ((perform (.sleep millis) : RetryProg ε α Unit) >>= f).Total (stream outcomes) n Q := by
  refine ⟨⟨(), _, rfl⟩, ?_⟩
  rintro ⟨⟩ _ rfl
  exact h

/-- The loop lemma: from a turn before which every call has failed. -/
theorem total_retryLoop (hstart : attempts.toNat < limit maxRetries)
    (hturns : limit maxRetries ≤ attempts.toNat + turns)
    (hfailed : ∀ m < attempts.toNat, (outcomes m).isOk = false)
    (hdelay : ∀ i : Nat, (i : ℕ∞) < callsDue outcomes maxRetries →
      baseDelayMs.toNat * i < 2 ^ 64) :
    (retryLoop display operationName maxRetries baseDelayMs turns attempts).Total
      (stream outcomes) attempts.toNat fun tr r calls =>
        attempts.toNat < calls ∧ calls ≤ limit maxRetries ∧
          (∀ m, m + 1 < calls → (outcomes m).isOk = false) ∧
          shown tr = schedule baseDelayMs (attempts.toNat + 1) (calls - (attempts.toNat + 1)) ∧
          Returned display operationName maxRetries outcomes calls r := by
  induction turns generalizing attempts with
  | zero => omega
  | succ turns ih =>
      have hnext := toNat_next hstart
      have hearlier : ∀ m, m + 1 < attempts.toNat + 1 → (outcomes m).isOk = false :=
        fun m hm => hfailed m (Nat.lt_of_succ_lt_succ hm)
      have hlast : schedule baseDelayMs (attempts.toNat + 1)
          (attempts.toNat + 1 - (attempts.toNat + 1)) = [none] := by
        rw [Nat.sub_self]
        rfl
      apply total_call
      cases houtcome : outcomes attempts.toNat with
      | ok value =>
          exact ⟨Nat.lt_succ_self _, hstart, hearlier, hlast.symm, .inl ⟨value, houtcome, rfl⟩⟩
      | error e =>
          have hreached := reached_iff hstart
          dsimp only
          split
          · rename_i hmax
            refine ⟨Nat.lt_succ_self _, hstart, hearlier, hlast.symm, .inr ⟨?_, e, houtcome, ?_⟩⟩
            · exact Nat.le_antisymm hstart (hreached.mp hmax)
            · rw [← hnext, UInt32.ofNat_toNat]
          · rename_i hmax
            have hleft : attempts.toNat + 1 < limit maxRetries :=
              Nat.lt_of_not_le (mt hreached.mpr hmax)
            rw [← hnext] at hleft
            have hfailed' : ∀ m < (attempts + 1).toNat, (outcomes m).isOk = false := by
              rw [hnext, Nat.forall_lt_succ_right, houtcome]
              exact ⟨hfailed, rfl⟩
            have hslept : (baseDelayMs * (attempts + 1).toUInt64).toNat =
                baseDelayMs.toNat * (attempts.toNat + 1) := by
              rw [← hnext]
              apply toNat_delay
              apply hdelay
              rw [callsDue, lt_min_iff, lt_firstSuccess_iff, ENat.natCast_lt_natCast]
              exact ⟨hfailed', hleft⟩
            apply total_sleep
            have hrest := @ih (attempts + 1) hleft (by omega) hfailed'
            rw [hnext] at hrest
            refine hrest.mono ?_
            rintro tr r calls ⟨hmore, hbound, hall, hshown, hreturned⟩
            refine ⟨by omega, hbound, hall, ?_, hreturned⟩
            have hcalls : calls - (attempts.toNat + 1) =
                calls - (attempts.toNat + 1 + 1) + 1 := by
              omega
            show none :: some (baseDelayMs * (attempts + 1).toUInt64).toNat :: shown tr = _
            rw [hcalls, schedule, hshown, hslept]

/-- `with_retry` calls the operation up to its first success and within the limit, returns
that success or the last error, and sleeps between the calls only. -/
theorem retryLoop_calls (hturns : limit maxRetries ≤ turns)
    (hdelay : ∀ i : Nat, (i : ℕ∞) < callsDue outcomes maxRetries →
      baseDelayMs.toNat * i < 2 ^ 64) :
    (retryLoop display operationName maxRetries baseDelayMs turns 0).Total (stream outcomes) 0
      fun tr r calls =>
        (calls : ℕ∞) = callsDue outcomes maxRetries ∧
          shown tr = schedule baseDelayMs 1 (calls - 1) ∧
          (firstSuccess outcomes ≤ limit maxRetries →
            ∃ value, outcomes (calls - 1) = .ok value ∧ r = some (.ok value)) ∧
          (limit maxRetries < firstSuccess outcomes → ∃ e, outcomes (calls - 1) = .error e ∧
            r = some (.error (failedAfter display operationName (UInt32.ofNat calls) e))) := by
  have hstart : ∀ m < (0 : UInt32).toNat, (outcomes m).isOk = false := fun m hm =>
    absurd hm (Nat.not_lt_zero m)
  refine (total_retryLoop (toNat_zero_lt_limit maxRetries)
    (hturns.trans (Nat.le_add_left _ _)) hstart hdelay).mono ?_
  rintro tr r calls ⟨hmade, hbound, hall, hshown, hreturned⟩
  have hlast : calls - 1 + 1 = calls := Nat.sub_add_cancel hmade
  have hearlier : ∀ m < calls - 1, (outcomes m).isOk = false := fun m hm => hall m (by omega)
  rcases hreturned with ⟨value, houtcome, rfl⟩ | ⟨rfl, e, houtcome, rfl⟩
  · have hok : (outcomes (calls - 1)).isOk = true := by
      rw [houtcome]
      rfl
    have hfirst := firstSuccess_eq hearlier hok
    rw [hlast] at hfirst
    refine ⟨?_, hshown, fun _ => ⟨value, houtcome, rfl⟩, ?_⟩
    · rw [callsDue, hfirst, min_eq_left (ENat.natCast_le_natCast.mpr hbound)]
    · intro hlimited
      rw [hfirst, ENat.natCast_lt_natCast] at hlimited
      omega
  · have hlater : (limit maxRetries : ℕ∞) < firstSuccess outcomes := by
      apply lt_firstSuccess_iff.mpr
      intro m hm
      by_cases hend : m = limit maxRetries - 1
      · rw [hend, houtcome]
        rfl
      · exact hearlier m (by omega)
    refine ⟨?_, hshown, ?_, fun _ => ⟨e, houtcome, rfl⟩⟩
    · rw [callsDue, min_eq_right hlater.le]
    · intro hsoon
      exact absurd hlater (not_lt.mpr hsoon)

def secondRetry (n : Nat) : Except String Nat :=
  if n < 2 then .error "temporary failure" else .ok 42

theorem retryLoop_calls_thrice :
    ∃ tr, (retryLoop id "test op" 3 10 3 0).Exec (stream secondRetry) 0 tr (some (.ok 42)) 3 ∧
      shown tr = [none, some 10, none, some 20, none] := by
  have hdelay : ∀ i : Nat, (i : ℕ∞) < callsDue secondRetry 3 →
      (10 : UInt64).toNat * i < 2 ^ 64 := by
    intro i hi
    have hlimit : limit 3 = 3 := rfl
    have hbound := hi.trans_le (min_le_right _ _)
    rw [hlimit, ENat.natCast_lt_natCast] at hbound
    show 10 * i < 2 ^ 64
    omega
  have hfirst : firstSuccess secondRetry = ((2 + 1 : Nat) : ℕ∞) := by
    apply firstSuccess_eq
    · intro m hm
      rw [secondRetry, if_pos hm]
      rfl
    · rfl
  have htotal := @retryLoop_calls String Nat id "test op" 3 10 secondRetry 3 (by decide) hdelay
  obtain ⟨tr, r, calls, hexec⟩ := htotal.exists_exec
  obtain ⟨hcalls, hshown, hreturned, -⟩ := htotal.ensures tr r calls hexec
  have hthree : calls = 3 := by
    rw [callsDue, hfirst] at hcalls
    exact ENat.natCast_inj.mp hcalls
  subst hthree
  obtain ⟨value, hvalue, rfl⟩ := hreturned hfirst.le
  cases hvalue
  exact ⟨tr, hexec, hshown⟩

end Retries

section Client

variable {operationName : String} {maxRetries : UInt32} {baseDelayMs : UInt64}
  {operation : NodeProg (Except String α)} {attempts : UInt32} {turns : Nat}

def onNode (operation : NodeProg (Except String α)) :
    (o : RetryOp) → NodeProg (RetryAns String α o)
  | .call => operation
  | .sleep millis => op (.sleep millis)

theorem handle_call {β : Type} {f : Except String α → RetryProg String α β} :
    ((perform .call : RetryProg String α (Except String α)) >>= f).handle (onNode operation) =
      operation >>= fun outcome => (f outcome).handle (onNode operation) := rfl

theorem handle_retryLoop (hstart : attempts.toNat < limit maxRetries)
    (hturns : limit maxRetries ≤ attempts.toNat + turns) :
    (retryLoop id operationName maxRetries baseDelayMs turns attempts).handle (onNode operation) =
      withRetryLoop operationName baseDelayMs operation (attempts + 1)
        (limit maxRetries - (attempts.toNat + 1)) >>= fun r => Prog.pure (some r) := by
  induction turns generalizing attempts with
  | zero => omega
  | succ turns ih =>
      have hnext := toNat_next hstart
      have hreached := reached_iff hstart
      cases hremaining : limit maxRetries - (attempts.toNat + 1) with
      | zero =>
          refine handle_call.trans (Eq.trans ?_ (Prog.bind_assoc operation _ _).symm)
          refine congrArg (operation >>= ·) (funext fun outcome => ?_)
          cases outcome with
          | ok result => rfl
          | error e =>
              have hmax : maxRetries ≤ attempts + 1 := hreached.mpr (by omega)
              dsimp only
              rw [if_pos hmax]
              rfl
      | succ remaining =>
          refine handle_call.trans (Eq.trans ?_ (Prog.bind_assoc operation _ _).symm)
          refine congrArg (operation >>= ·) (funext fun outcome => ?_)
          cases outcome with
          | ok result => rfl
          | error e =>
              have hmax : ¬ maxRetries ≤ attempts + 1 := mt hreached.mp (by omega)
              have hrest := @ih (attempts + 1) (by omega) (by omega)
              have hless : limit maxRetries - ((attempts + 1).toNat + 1) = remaining := by
                omega
              rw [hless] at hrest
              dsimp only
              rw [if_neg hmax]
              exact congrArg (op (.sleep (baseDelayMs * (attempts + 1).toUInt64)) >>= ·)
                (funext fun _ => hrest)

/-- The client's `with_retry` is this loop, which calls the given operation. -/
theorem withRetry_eq_retryLoop (hturns : limit maxRetries ≤ turns) :
    (retryLoop id operationName maxRetries baseDelayMs turns 0).handle (onNode operation) =
      withRetry operationName maxRetries baseDelayMs operation >>= fun r => Prog.pure (some r) := by
  have hlimit : limit maxRetries - 1 = maxRetries.toNat - 1 := by
    unfold limit
    omega
  have hloop := @handle_retryLoop α operationName maxRetries baseDelayMs operation 0 turns
    (toNat_zero_lt_limit maxRetries) (hturns.trans (Nat.le_add_left _ _))
  rw [withRetry, ← hlimit]
  exact hloop

end Client

section Backoff

variable {failures failures' : UInt32} {base base' cap : UInt64}

theorem toNat_saturatingSub (a b : UInt32) : (saturatingSub a b).toNat = a.toNat - b.toNat := by
  have ha := a.toNat_lt
  exact UInt32.toNat_ofNat_of_lt' (show a.toNat - b.toNat < 2 ^ 32 by omega)

theorem toNat_saturatingMul (a b : UInt64) :
    (saturatingMul a b).toNat = min (a.toNat * b.toNat) (2 ^ 64 - 1) :=
  UInt64.toNat_ofNat_of_lt' (show min (a.toNat * b.toNat) (2 ^ 64 - 1) < 2 ^ 64 by omega)

theorem toNat_saturatingPow (a : UInt64) (n : UInt32) :
    (saturatingPow a n).toNat = min (a.toNat ^ n.toNat) (2 ^ 64 - 1) :=
  UInt64.toNat_ofNat_of_lt' (show min (a.toNat ^ n.toNat) (2 ^ 64 - 1) < 2 ^ 64 by omega)

theorem toNat_min (a b : UInt64) : (min a b).toNat = min a.toNat b.toNat := by
  show (if a ≤ b then a else b).toNat = _
  split
  · rename_i h
    rw [UInt64.le_iff_toNat_le] at h
    exact (min_eq_left h).symm
  · rename_i h
    rw [UInt64.le_iff_toNat_le] at h
    exact (min_eq_right (Nat.le_of_not_le h)).symm

/-- A product that saturates is cut off by any cap all the same. -/
theorem min_saturating (base power : Nat) {cap top : Nat} (hcap : cap ≤ top) :
    min cap (min (base * min power top) top) = min cap (base * power) := by
  rw [← min_assoc, min_right_comm, min_eq_left hcap]
  rcases le_total power top with hsmall | hlarge
  · rw [min_eq_left hsmall]
  · rw [min_eq_right hlarge]
    rcases Nat.eq_zero_or_pos base with rfl | hbase
    · rw [Nat.zero_mul, Nat.zero_mul]
    · have htop : cap ≤ base * top := hcap.trans (Nat.le_mul_of_pos_left top hbase)
      have hpower : cap ≤ base * power := htop.trans (Nat.mul_le_mul_left base hlarge)
      rw [min_eq_left htop, min_eq_left hpower]

theorem toNat_calculateBackoff (failures : UInt32) (base cap : UInt64) :
    (calculateBackoff failures base cap).toNat =
      min cap.toNat (base.toNat * 2 ^ (max failures.toNat 1 - 1)) := by
  have hexponent : (saturatingSub failures 1).toNat = max failures.toNat 1 - 1 := by
    rw [toNat_saturatingSub]
    show failures.toNat - 1 = _
    omega
  have hcap : cap.toNat ≤ 2 ^ 64 - 1 := Nat.le_sub_one_of_lt cap.toNat_lt
  rw [calculateBackoff, toNat_min, toNat_saturatingMul, toNat_saturatingPow, hexponent, min_comm]
  exact min_saturating base.toNat _ hcap

/-- Saturation never changes the delay, which grows with the failures and the base up to
the cap. -/
theorem calculateBackoff_exact (failures : UInt32) (base cap : UInt64) :
    (calculateBackoff failures base cap).toNat =
        min cap.toNat (base.toNat * 2 ^ (max failures.toNat 1 - 1)) ∧
      calculateBackoff failures base cap ≤ cap ∧
      (∀ failures' ≥ failures,
        calculateBackoff failures base cap ≤ calculateBackoff failures' base cap) ∧
      ∀ base' ≥ base, calculateBackoff failures base cap ≤ calculateBackoff failures base' cap := by
  refine ⟨toNat_calculateBackoff failures base cap, ?_, ?_, ?_⟩
  · rw [UInt64.le_iff_toNat_le, toNat_calculateBackoff]
    exact min_le_left _ _
  · intro failures' hmore
    rw [ge_iff_le, UInt32.le_iff_toNat_le] at hmore
    rw [UInt64.le_iff_toNat_le, toNat_calculateBackoff, toNat_calculateBackoff]
    apply min_le_min_left
    apply Nat.mul_le_mul_left
    exact Nat.pow_le_pow_right Nat.two_pos (by omega)
  · intro base' hmore
    rw [ge_iff_le, UInt64.le_iff_toNat_le] at hmore
    rw [UInt64.le_iff_toNat_le, toNat_calculateBackoff, toNat_calculateBackoff]
    apply min_le_min_left
    exact Nat.mul_le_mul_right _ hmore

theorem calculateBackoff_exact_seventh :
    (calculateBackoff 1 defaultReconnectDelayMs maxBackoffMs).toNat = 5000 ∧
      calculateBackoff 1 defaultReconnectDelayMs maxBackoffMs ≤
        calculateBackoff 7 defaultReconnectDelayMs maxBackoffMs := by
  obtain ⟨hexact, -, hgrows, -⟩ := calculateBackoff_exact 1 defaultReconnectDelayMs maxBackoffMs
  exact ⟨hexact.trans (by decide), hgrows 7 (by decide)⟩

end Backoff

end Rkb.Celestia.Retry
