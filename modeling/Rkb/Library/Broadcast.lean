import Mathlib.Data.List.Basic

namespace Rkb.Library.Broadcast

inductive RecvError
  | closed
  | lagged (missed : Nat)
deriving DecidableEq

/-- `sent` are all values ever sent; the channel retains the last `capacity` of
them. The receiver continues at the position `next`. -/
structure Channel (α : Type*) where
  capacity : Nat
  sent : List α
  next : Nat
  next_le : next ≤ sent.length

variable {α : Type*}

namespace Channel

def new (capacity : Nat) : Channel α where
  capacity := capacity
  sent := []
  next := 0
  next_le := Nat.le_refl _

def oldest (self : Channel α) : Nat := self.sent.length - self.capacity

/-- The number of values sent that the receiver has not passed yet. -/
def unread (self : Channel α) : Nat := self.sent.length - self.next

def send (self : Channel α) (a : α) : Channel α where
  capacity := self.capacity
  sent := self.sent ++ [a]
  next := self.next
  next_le := by
    have hle := self.next_le
    rw [List.length_append]
    omega

def sendAll (self : Channel α) (as : List α) : Channel α := as.foldl send self

/-- What the next `recv` returns, and the receiver's new position; `none` where it
waits. `closed` tells whether all senders are gone. -/
def recv (self : Channel α) (closed : Bool) : Option (Except RecvError α × Channel α) :=
  if self.next < self.oldest then
    some (.error (.lagged (self.oldest - self.next)),
      { self with next := self.oldest, next_le := Nat.sub_le _ _ })
  else if hnext : self.next < self.sent.length then
    some (.ok self.sent[self.next], { self with next := self.next + 1, next_le := hnext })
  else if closed then some (.error .closed, self)
  else none

variable {c c' : Channel α} {r : Except RecvError α}

@[simp] theorem sendAll_nil (c : Channel α) : c.sendAll [] = c := rfl

@[simp] theorem sendAll_cons (c : Channel α) (a : α) (as : List α) :
    c.sendAll (a :: as) = (c.send a).sendAll as := rfl

@[simp] theorem sent_sendAll (c : Channel α) (as : List α) :
    (c.sendAll as).sent = c.sent ++ as := by
  induction as generalizing c with
  | nil => simp
  | cons a as ih => simp [ih, send]

@[simp] theorem next_sendAll (c : Channel α) (as : List α) : (c.sendAll as).next = c.next := by
  induction as generalizing c with
  | nil => rfl
  | cons a as ih => simp [ih, send]

@[simp] theorem capacity_sendAll (c : Channel α) (as : List α) :
    (c.sendAll as).capacity = c.capacity := by
  induction as generalizing c with
  | nil => rfl
  | cons a as ih => simp [ih, send]

theorem sent_of_recv {closed : Bool} (h : c.recv closed = some (r, c')) :
    c'.sent = c.sent ∧ c'.capacity = c.capacity := by
  unfold recv at h
  split at h
  · cases h
    exact ⟨rfl, rfl⟩
  · split at h
    · cases h
      exact ⟨rfl, rfl⟩
    · split at h
      · cases h
        exact ⟨rfl, rfl⟩
      · cases h

theorem mem_sent_of_recv {closed : Bool} {a : α} (h : c.recv closed = some (.ok a, c')) :
    a ∈ c.sent := by
  unfold recv at h
  split at h
  · cases h
  · split at h
    · cases h
      exact List.getElem_mem _
    · split at h <;> cases h

theorem recv_open (h : c.recv false = some (r, c')) :
    (c.unread ≤ c.capacity ∧
        ∃ a, r = .ok a ∧ c'.sent.take c'.next = c.sent.take c.next ++ [a]) ∨
      (c.capacity < c.unread ∧ ∃ missed, r = .error (.lagged missed)) := by
  have hle := c.next_le
  unfold recv at h
  split at h
  · rename_i hlag
    cases h
    refine .inr ⟨?_, _, rfl⟩
    simp only [oldest] at hlag
    simp only [unread]
    omega
  · rename_i hlag
    split at h
    · rename_i hnext
      cases h
      refine .inl ⟨?_, _, rfl, List.take_succ_eq_append_getElem hnext⟩
      simp only [oldest] at hlag
      simp only [unread]
      omega
    · cases h

theorem recv_of_lagging (h : c.capacity < c.unread) (closed : Bool) :
    ∃ missed c', c.recv closed = some (.error (.lagged missed), c') := by
  have hlag : c.next < c.oldest := by
    simp only [unread] at h
    simp only [oldest]
    omega
  exact ⟨_, _, if_pos hlag⟩

theorem recv_of_retained (h : c.unread ≤ c.capacity) (hnext : c.next < c.sent.length)
    (closed : Bool) :
    ∃ a c', c.recv closed = some (.ok a, c') ∧ c'.next = c.next + 1 := by
  have hlag : ¬ c.next < c.oldest := by
    simp only [unread] at h
    simp only [oldest]
    omega
  refine ⟨c.sent[c.next], { c with next := c.next + 1, next_le := hnext }, ?_, rfl⟩
  rw [recv, if_neg hlag, dif_pos hnext]

end Channel

end Rkb.Library.Broadcast
