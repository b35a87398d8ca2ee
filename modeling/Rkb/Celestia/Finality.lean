import Mathlib.Data.List.Sort
import Rkb.Library.Maps
import Rkb.Celestia.Blobs

namespace Rkb.Celestia.Finality

open Rkb.Library.Maps
open Rkb.Types.Blocks
open Rkb.Celestia.Blobs

structure FinalityConfirmation where
  blockHash : B256
  blockHeight : UInt64
  celestiaHeight : UInt64
  celestiaHeaderHash : B256
deriving DecidableEq

structure PendingFinality where
  blockHeight : UInt64
  celestiaHeight : UInt64
deriving DecidableEq

structure FinalityTracker where
  pending : HashMap B256 PendingFinality
  celestiaFinalizedHeight : UInt64

abbrev PendingEntry : Type := (_ : B256) × PendingFinality

namespace FinalityTracker

def new : FinalityTracker := ⟨∅, 0⟩

def track (self : FinalityTracker) (submission : BlobSubmission) : FinalityTracker :=
  let pending : PendingFinality :=
    { blockHeight := submission.blockHeight, celestiaHeight := submission.celestiaHeight }
  { self with pending := self.pending.insert submission.blockHash pending }

def buildConfirmation (blockHash : B256) (pending : PendingFinality)
    (celestiaHeaderHash : B256) : FinalityConfirmation where
  blockHash := blockHash
  blockHeight := pending.blockHeight
  celestiaHeight := pending.celestiaHeight
  celestiaHeaderHash := celestiaHeaderHash

/-- The entries that a header of the given height does not reach. -/
def keeps (celestiaHeight : UInt64) (_ : B256) (pending : PendingFinality) : Bool :=
  celestiaHeight < pending.celestiaHeight

/-- `retain` visits the map in an order of its own, so the order of the visit is
a parameter; the confirmations are then sorted by a stable sort. -/
def onCelestiaFinality (self : FinalityTracker) (visit : List PendingEntry)
    (celestiaHeight : UInt64) (celestiaHeaderHash : B256) :
    FinalityTracker × List FinalityConfirmation :=
  let removed := visit.filter fun e => !keeps celestiaHeight e.1 e.2
  let confirmations := removed.map fun e => buildConfirmation e.1 e.2 celestiaHeaderHash
  ({ pending := retain (keeps celestiaHeight) self.pending
     celestiaFinalizedHeight := celestiaHeight },
    confirmations.insertionSort fun c d => c.blockHeight ≤ d.blockHeight)

def pendingCount (self : FinalityTracker) : Nat := Multiset.card self.pending.entries

def finalizedHeight (self : FinalityTracker) : UInt64 := self.celestiaFinalizedHeight

theorem lookup_track (self : FinalityTracker) (submission : BlobSubmission) (k : B256) :
    (self.track submission).pending.lookup k =
      if k = submission.blockHash then
        some ⟨submission.blockHeight, submission.celestiaHeight⟩
      else self.pending.lookup k :=
  lookup_insert _ _ _ _

theorem mem_confirmations {self : FinalityTracker} {visit : List PendingEntry}
    {celestiaHeight : UInt64} {celestiaHeaderHash : B256} {c : FinalityConfirmation} :
    c ∈ (self.onCelestiaFinality visit celestiaHeight celestiaHeaderHash).2 ↔
      ∃ e ∈ visit, e.2.celestiaHeight ≤ celestiaHeight ∧
        buildConfirmation e.1 e.2 celestiaHeaderHash = c := by
  rw [onCelestiaFinality, List.mem_insertionSort, List.mem_map]
  simp only [List.mem_filter, keeps, Bool.not_eq_true', decide_eq_false_iff_not,
    UInt64.not_lt, and_assoc]

theorem sorted_confirmations (self : FinalityTracker) (visit : List PendingEntry)
    (celestiaHeight : UInt64) (celestiaHeaderHash : B256) :
    (self.onCelestiaFinality visit celestiaHeight celestiaHeaderHash).2.Pairwise
      fun c d => c.blockHeight ≤ d.blockHeight := by
  have htotal : Std.Total fun c d : FinalityConfirmation => c.blockHeight ≤ d.blockHeight :=
    ⟨fun c d => UInt64.le_total _ _⟩
  have htrans : IsTrans FinalityConfirmation fun c d => c.blockHeight ≤ d.blockHeight :=
    ⟨fun _ _ _ => UInt64.le_trans⟩
  exact List.pairwise_insertionSort _ _

end FinalityTracker

end Rkb.Celestia.Finality
