import Mathlib.Data.List.Range
/-!
# Bounded broadcast channels

A channel keeps its newest messages, up to a capacity, and numbers all that were sent.  A
receiver takes them one after the other; one that has fallen behind what the channel keeps is
told once how many messages it has lost, and goes on at the oldest that is kept.
-/

namespace Lib.Broadcast

variable {M : Type}

inductive Recv (M : Type) where
  | empty
  | message (number : Nat) (message : M)
  | lagged (skipped : Nat)

/-- A receiver: where it was opened, the number of its next message, and what it has been told
so far. -/
structure Receiver where
  opened : Nat
  cursor : Nat
  taken : List Nat
  skipped : Nat
deriving DecidableEq

def subscribe (number : Nat) : Receiver := ⟨number, number, [], 0⟩

def oldest (capacity : Nat) (sent : List M) : Nat := sent.length - capacity

def recv (capacity : Nat) (sent : List M) (r : Receiver) : Recv M × Receiver :=
  if r.cursor < oldest capacity sent then
    (.lagged (oldest capacity sent - r.cursor),
      { r with
        cursor := oldest capacity sent
        skipped := r.skipped + (oldest capacity sent - r.cursor) })
  else
    match sent[r.cursor]? with
    | some m =>
        (.message r.cursor m, { r with cursor := r.cursor + 1, taken := r.taken ++ [r.cursor] })
    | none => (.empty, r)

/-- What a receiver was told accounts for all messages up to its next one. -/
structure Receiver.Sound (sent : List M) (r : Receiver) : Prop where
  cursor : r.cursor ≤ sent.length
  increasing : r.taken.Pairwise (· < ·)
  range : ∀ n ∈ r.taken, r.opened ≤ n ∧ n < r.cursor
  counted : r.opened + r.taken.length + r.skipped = r.cursor
  whole : r.skipped = 0 → r.taken = List.range' r.opened r.taken.length

variable {capacity : Nat} {sent : List M} {r : Receiver}

theorem sound_subscribe {number : Nat} (h : number ≤ sent.length) :
    (subscribe number).Sound sent where
  cursor := h
  increasing := List.Pairwise.nil
  range := fun _ hn => absurd hn List.not_mem_nil
  counted := rfl
  whole := fun _ => rfl

theorem Receiver.Sound.send (h : r.Sound sent) (more : List M) : r.Sound (sent ++ more) :=
  { h with
    cursor := by
      have hcursor := h.cursor
      rw [List.length_append]
      omega }

/-- A message is received once, and in its turn. -/
theorem Receiver.Sound.recv (h : r.Sound sent) : (recv capacity sent r).2.Sound sent := by
  have hcursor := h.cursor
  have hcounted := h.counted
  unfold Broadcast.recv
  split_ifs with hlag
  · refine ⟨?_, h.increasing, ?_, ?_, ?_⟩
    · unfold oldest
      dsimp only
      omega
    · intro n hn
      have hrange := h.range n hn
      dsimp only
      omega
    · dsimp only
      omega
    · intro hskipped
      dsimp only at hskipped
      omega
  · cases hnext : sent[r.cursor]? with
    | none => exact h
    | some m =>
        obtain ⟨hlt, -⟩ := List.getElem?_eq_some_iff.mp hnext
        refine ⟨hlt, ?_, ?_, ?_, ?_⟩
        · refine List.pairwise_append.mpr ⟨h.increasing, List.pairwise_singleton _ _, ?_⟩
          intro n hn n' hn'
          rw [List.mem_singleton.mp hn']
          exact (h.range n hn).2
        · intro n hn
          dsimp only
          rcases List.mem_append.mp hn with hold | hnew
          · have hrange := h.range n hold
            omega
          · have hn' := List.mem_singleton.mp hnew
            omega
        · rw [List.length_append, List.length_singleton]
          dsimp only
          omega
        · intro hskipped
          have hwhole := h.whole hskipped
          have hnumber : r.cursor = r.opened + 1 * r.taken.length := by
            change r.skipped = 0 at hskipped
            omega
          rw [List.length_append, List.length_singleton, List.range'_concat, ← hnumber, ← hwhole]

/-- What a receiver is told is its next message, as the channel holds it. -/
theorem recv_message {n : Nat} {m : M} {r' : Receiver}
    (h : recv capacity sent r = (.message n m, r')) :
    sent[n]? = some m ∧ r' = { r with cursor := n + 1, taken := r.taken ++ [n] } ∧ n = r.cursor := by
  unfold recv at h
  split_ifs at h with hlag
  · cases h
  · cases hnext : sent[r.cursor]? with
    | none =>
        rw [hnext] at h
        cases h
    | some m' =>
        rw [hnext] at h
        cases h
        exact ⟨hnext, rfl, rfl⟩

/-- A receiver goes on from its next message, and takes no other. -/
theorem recv_forward (capacity : Nat) (sent : List M) (r : Receiver) :
    r.cursor ≤ (recv capacity sent r).2.cursor ∧
      ∀ n ∈ (recv capacity sent r).2.taken, n ∈ r.taken ∨ n = r.cursor := by
  unfold recv
  split_ifs with hlag
  · exact ⟨le_of_lt hlag, fun n hn => Or.inl hn⟩
  · cases sent[r.cursor]? with
    | none => exact ⟨le_rfl, fun n hn => Or.inl hn⟩
    | some m =>
        refine ⟨Nat.le_succ _, fun n hn => ?_⟩
        rcases List.mem_append.mp hn with hold | hnew
        · exact Or.inl hold
        · exact Or.inr (List.mem_singleton.mp hnew)

theorem recv_lagged {skipped : Nat} {r' : Receiver}
    (h : recv capacity sent r = (.lagged skipped, r')) : r'.taken = r.taken := by
  unfold recv at h
  split_ifs at h with hlag
  · cases h
    rfl
  · cases hnext : sent[r.cursor]? with
    | none =>
        rw [hnext] at h
        cases h
    | some m =>
        rw [hnext] at h
        cases h

end Lib.Broadcast
