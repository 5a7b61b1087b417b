import Mathlib.Data.List.Basic

/-!
# Bounded channels

A bounded first-in first-out channel with several senders and one receiver.  Sending
never waits: it fails when the channel is full or nobody receives.  A receiver that
finds nothing learns whether a sender is left.
-/

/-- A bounded channel. -/
structure Channel (α : Type*) where
  capacity : Nat
  queue : List α
  senders : Nat
  receiving : Bool
  deriving DecidableEq, Repr

namespace Channel

variable {α : Type*}

/-- A channel with one sender. -/
def new (capacity : Nat) : Channel α := ⟨capacity, [], 1, true⟩

/-- The outcome of an attempt to send. -/
inductive Sent where
  | ok
  | full
  | disconnected
  deriving DecidableEq, Repr

/-- Appends a message if there is room and somebody receives. -/
def trySend (c : Channel α) (a : α) : Sent × Channel α :=
  if c.receiving then
    if c.queue.length < c.capacity then (.ok, { c with queue := c.queue ++ [a] })
    else (.full, c)
  else (.disconnected, c)

/-- The outcome of an attempt to receive. -/
inductive Received (α : Type*) where
  | message (a : α)
  | empty
  | disconnected
  deriving DecidableEq, Repr

/-- Takes the oldest message; messages are received even when all senders are gone. -/
def tryRecv (c : Channel α) : Received α × Channel α :=
  match c.queue with
  | a :: queue => (.message a, { c with queue })
  | [] => if c.senders = 0 then (.disconnected, c) else (.empty, c)

def cloneSender (c : Channel α) : Channel α := { c with senders := c.senders + 1 }

def dropSender (c : Channel α) : Channel α := { c with senders := c.senders - 1 }

def dropReceiver (c : Channel α) : Channel α := { c with receiving := false }

/-- A message that was sent is the last one. -/
theorem eq_of_trySend_ok {c c' : Channel α} {a : α} (h : c.trySend a = (.ok, c')) :
    c' = { c with queue := c.queue ++ [a] } := by
  unfold trySend at h
  split at h
  · split at h
    · cases h
      rfl
    · cases h
  · cases h

/-- With room and a receiver, a message is sent. -/
theorem trySend_eq_ok {c : Channel α} (hreceiving : c.receiving = true)
    (hroom : c.queue.length < c.capacity) (a : α) :
    c.trySend a = (.ok, { c with queue := c.queue ++ [a] }) := by
  unfold trySend
  rw [if_pos hreceiving, if_pos hroom]

/-- A failed attempt to send changes nothing. -/
theorem eq_of_trySend_ne_ok {c c' : Channel α} {a : α} {r : Sent} (h : c.trySend a = (r, c'))
    (hr : r ≠ .ok) : c' = c := by
  unfold trySend at h
  split at h
  · split at h
    · cases h
      exact absurd rfl hr
    · cases h
      rfl
  · cases h
    rfl

/-- An attempt to send leaves the ends of the channel alone. -/
@[simp] theorem trySend_senders (c : Channel α) (a : α) : (c.trySend a).2.senders = c.senders := by
  unfold trySend
  repeat' split
  all_goals rfl

/-- A channel that is empty and has a sender makes the receiver wait. -/
theorem tryRecv_eq_empty {c : Channel α} (hqueue : c.queue = []) (hsenders : c.senders ≠ 0) :
    c.tryRecv = (.empty, c) := by
  unfold tryRecv
  rw [hqueue]
  exact if_neg hsenders

/-- The message that is received is the oldest one. -/
theorem eq_of_tryRecv_message {c c' : Channel α} {a : α} (h : c.tryRecv = (.message a, c')) :
    ∃ queue, c.queue = a :: queue ∧ c' = { c with queue } := by
  unfold tryRecv at h
  split at h
  · rename_i queue hqueue
    cases h
    exact ⟨queue, hqueue, rfl⟩
  · split at h <;> cases h

/-- A channel that gives no message is empty. -/
theorem queue_of_tryRecv {c c' : Channel α} {r : Received α} (h : c.tryRecv = (r, c'))
    (hr : ∀ a, r ≠ .message a) : c.queue = [] := by
  unfold tryRecv at h
  split at h
  · cases h
    exact absurd rfl (hr _)
  · assumption

/-- A receiver that finds the channel disconnected has all its messages. -/
theorem of_tryRecv_disconnected {c c' : Channel α} (h : c.tryRecv = (.disconnected, c')) :
    c.queue = [] ∧ c.senders = 0 ∧ c' = c := by
  unfold tryRecv at h
  split at h
  · cases h
  · rename_i hqueue
    split at h
    · rename_i hsenders
      cases h
      exact ⟨hqueue, hsenders, rfl⟩
    · cases h

end Channel
