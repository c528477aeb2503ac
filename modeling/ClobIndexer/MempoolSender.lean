import ClobIndexer.Lib.Dict
import ClobIndexer.Lib.Sessions
/-!
# The mempool client

`src/mempool_client.rs`: any number of callers hand transactions to one task over a bounded
channel, and the task writes each to the connection of the mempool and answers its caller.
Where a write fails the task connects anew and writes once more.  Callers may go away at any
time, and the network may refuse a connection, a write, or a flush.  A run is any sequence
of moves of the callers and of the task, which stops at each of its awaits.
-/

namespace ClobIndexer

open Lib Lib.Sessions

def mempoolSendQueueCapacity : Nat := 1024

/-- `AppResult<()>`: every error of the client is an internal one, with a message. -/
abbrev SendResult := Except String Unit

inductive CallPhase where
  | offering
  | waiting
  | returned (result : SendResult)
  | dropped
deriving DecidableEq

structure MempoolCall where
  txBytes : List UInt8
  inbox : Option SendResult
  phase : CallPhase
deriving DecidableEq

/-- A connection: the requests whose frames were put into its buffer, and those among them
that a flush has sent. -/
structure MempoolConnection where
  fed : List Nat := []
  flushed : List Nat := []
deriving DecidableEq

namespace MempoolConnection

def feed (id : Nat) (c : MempoolConnection) : MempoolConnection := { c with fed := c.fed ++ [id] }

def flush (c : MempoolConnection) : MempoolConnection := { c with flushed := c.fed }

def onLast (f : MempoolConnection → MempoolConnection) :
    List MempoolConnection → List MempoolConnection
  | [] => []
  | [c] => [f c]
  | c :: c' :: cs => c :: onLast f (c' :: cs)

end MempoolConnection

/-- Where the task of `run_mempool_sender` waits, with the request and the attempt. -/
inductive SenderPhase where
  | receiving
  | connecting (id attempt : Nat)
  | sending (id attempt : Nat)
deriving DecidableEq

/-- How a write ends.  A write that fails may have left its frame in the buffer. -/
inductive SendOutcome where
  | flushed
  | failed (buffered : Bool) (error : String)
deriving DecidableEq

structure Mempool where
  calls : Dict Nat MempoolCall := ∅
  queue : List Nat := []
  phase : SenderPhase := .receiving
  connections : List MempoolConnection := []
  /-- `transport.is_some()`; it is then the last of the connections -/
  connected : Bool := false
  /-- the requests that entered the channel, those that left it, and their answers -/
  accepted : List Nat := []
  taken : List Nat := []
  answers : List (Nat × SendResult) := []
deriving DecidableEq

inductive MempoolStep where
  | submit (id : Nat) (serialized : Except String (List UInt8))
  | offer (id : Nat)
  | poll (id : Nat)
  | drop (id : Nat)
  | receive
  | connect (outcome : Except String Unit)
  | send (outcome : SendOutcome)

namespace Mempool

/-! ## The callers -/

def setCall (id : Nat) (call : MempoolCall) (s : Mempool) : Mempool :=
  { s with calls := s.calls.insert id call }

/-- `submit_transaction`, up to the channel. -/
def submit (id : Nat) (serialized : Except String (List UInt8)) (s : Mempool) : Mempool :=
  if (s.calls.lookup id).isSome then s
  else
    match serialized with
    | .error error =>
        s.setCall id ⟨[], none, .returned (.error ("serialize transaction: " ++ error))⟩
    | .ok bytes => s.setCall id ⟨bytes, none, .offering⟩

def offer (id : Nat) (s : Mempool) : Mempool :=
  match s.calls.lookup id with
  | none => s
  | some call =>
      if call.phase = .offering ∧ s.queue.length < mempoolSendQueueCapacity then
        { s.setCall id { call with phase := .waiting } with
          queue := s.queue ++ [id]
          accepted := s.accepted ++ [id] }
      else s

def poll (id : Nat) (s : Mempool) : Mempool :=
  match s.calls.lookup id with
  | none => s
  | some call =>
      match call.phase, call.inbox with
      | .waiting, some result => s.setCall id { call with phase := .returned result }
      | _, _ => s

/-- The caller goes away, at either of its awaits. -/
def drop (id : Nat) (s : Mempool) : Mempool :=
  match s.calls.lookup id with
  | none => s
  | some call =>
      if call.phase = .offering ∨ call.phase = .waiting then
        s.setCall id { call with phase := .dropped }
      else s

/-! ## The task -/

/-- `respond_to.send(result)`: lost where the caller has gone. -/
def respond (id : Nat) (result : SendResult) (s : Mempool) : Mempool :=
  let told : Mempool :=
    match s.calls.lookup id with
    | none => s
    | some call =>
        if call.phase = .waiting then s.setCall id { call with inbox := some result } else s
  { told with phase := .receiving, answers := s.answers ++ [(id, result)] }

/-- `receiver.recv()`, and on to the first await of `send_on_connection`. -/
def receive (s : Mempool) : Mempool :=
  match s.phase, s.queue with
  | .receiving, id :: queue =>
      { s with
        queue := queue
        taken := s.taken ++ [id]
        phase := if s.connected then .sending id 0 else .connecting id 0 }
  | _, _ => s

def connect (outcome : Except String Unit) (s : Mempool) : Mempool :=
  match s.phase with
  | .connecting id attempt =>
      match outcome with
      | .ok () =>
          { s with
            connections := s.connections ++ [{}]
            connected := true
            phase := .sending id attempt }
      | .error error => s.respond id (.error ("mempool connect failed: " ++ error))
  | _ => s

/-- `transport.send`: after a first failure the connection is given up, after a second it
stays. -/
def send (outcome : SendOutcome) (s : Mempool) : Mempool :=
  match s.phase with
  | .sending id attempt =>
      match outcome with
      | .flushed =>
          ({ s with
            connections :=
              MempoolConnection.onLast (fun c => (c.feed id).flush) s.connections }).respond id
            (.ok ())
      | .failed buffered error =>
          let s :=
            if buffered then
              { s with
                connections := MempoolConnection.onLast (MempoolConnection.feed id) s.connections }
            else s
          if attempt = 0 then { s with connected := false, phase := .connecting id 1 }
          else s.respond id (.error ("mempool send failed: " ++ error))
  | _ => s

def step (s : Mempool) : MempoolStep → Mempool
  | .submit id serialized => s.submit id serialized
  | .offer id => s.offer id
  | .poll id => s.poll id
  | .drop id => s.drop id
  | .receive => s.receive
  | .connect outcome => s.connect outcome
  | .send outcome => s.send outcome

def run (steps : List MempoolStep) : Mempool := steps.foldl step {}

/-! ## What holds of every run -/

/-- The requests that were answered, in the order of their answers. -/
def done (s : Mempool) : List Nat := s.answers.map Prod.fst

def current (s : Mempool) : Option Nat :=
  match s.phase with
  | .receiving => none
  | .connecting id _ => some id
  | .sending id _ => some id

def sessions (s : Mempool) : List (List Nat) := s.connections.map MempoolConnection.fed

def InFlight (s : Mempool) : Prop :=
  match s.phase with
  | .receiving => InOrder s.done s.sessions
  | .connecting id attempt =>
      attempt ≤ 1 ∧ s.connected = false ∧ Trying s.done id attempt s.sessions
  | .sending id attempt =>
      attempt ≤ 1 ∧ s.connected = true ∧ Ready s.done id attempt s.sessions

/-- The side of the task: it answers every request that it takes before it takes the next,
and tells that a transaction was sent only after a flush of its frame. -/
structure TaskSound (s : Mempool) : Prop where
  order : s.accepted = s.taken ++ s.queue
  taken : s.taken = s.done ++ s.current.toList
  inFlight : s.InFlight
  connected : s.connected = true → s.connections ≠ []
  flushed : ∀ c ∈ s.connections, c.flushed <+: c.fed
  sent : ∀ id, (id, .ok ()) ∈ s.answers → ∃ c ∈ s.connections, id ∈ c.flushed

/-- A call has what its request was answered, if it has not gone. -/
structure CallSound (s : Mempool) (id : Nat) (call : MempoolCall) : Prop where
  offering : call.phase = .offering → id ∉ s.accepted
  waiting : call.phase = .waiting → id ∈ s.accepted
  inbox : call.phase = .offering ∨ call.phase = .waiting →
    ∀ result, call.inbox = some result ↔ (id, result) ∈ s.answers
  returned : ∀ result, call.phase = .returned result → (id, result) ∈ s.answers ∨
    ∃ error, result = .error ("serialize transaction: " ++ error) ∧ id ∉ s.accepted

structure CallsSound (s : Mempool) : Prop where
  room : s.queue.length ≤ mempoolSendQueueCapacity
  nodup : s.accepted.Nodup
  known : ∀ id ∈ s.accepted, ∃ call, s.calls.lookup id = some call ∧ call.phase ≠ .offering
  call : ∀ id call, s.calls.lookup id = some call → CallSound s id call

variable {s : Mempool}

theorem TaskSound.mem_accepted (h : TaskSound s) {id : Nat} {result : SendResult}
    (hanswer : (id, result) ∈ s.answers) : id ∈ s.accepted := by
  rw [h.order, h.taken]
  exact List.mem_append_left _ (List.mem_append_left _ (List.mem_map.mpr ⟨_, hanswer, rfl⟩))

/-! ## The moves of the callers -/

theorem CallsSound.setCall (h : CallsSound s) {id : Nat} {call : MempoolCall}
    (hcall : CallSound s id call) (hphase : id ∈ s.accepted → call.phase ≠ .offering) :
    CallsSound (s.setCall id call) where
  room := h.room
  nodup := h.nodup
  known := by
    intro id' hid'
    change ∃ c, AList.lookup id' (s.calls.insert id call) = some c ∧ _
    rw [Dict.lookup_insert_ite]
    split_ifs with heq
    · exact ⟨call, rfl, hphase (heq ▸ hid')⟩
    · exact h.known id' hid'
  call := by
    intro id' call' hlookup
    change AList.lookup id' (s.calls.insert id call) = some call' at hlookup
    rw [Dict.lookup_insert_ite] at hlookup
    split_ifs at hlookup with heq
    · rw [heq, ← Option.some.inj hlookup]
      exact ⟨hcall.offering, hcall.waiting, hcall.inbox, hcall.returned⟩
    · have hold := h.call id' call' hlookup
      exact ⟨hold.offering, hold.waiting, hold.inbox, hold.returned⟩

theorem TaskSound.setCall (h : TaskSound s) (id : Nat) (call : MempoolCall) :
    TaskSound (s.setCall id call) :=
  ⟨h.order, h.taken, h.inFlight, h.connected, h.flushed, h.sent⟩

theorem sound_submit (ht : TaskSound s) (hc : CallsSound s) (id : Nat)
    (serialized : Except String (List UInt8)) :
    TaskSound (s.submit id serialized) ∧ CallsSound (s.submit id serialized) := by
  unfold submit
  split_ifs with hold
  · exact ⟨ht, hc⟩
  · have hnone : s.calls.lookup id = none := by simpa using hold
    have hnew : id ∉ s.accepted := by
      intro hid
      obtain ⟨call, hcall, -⟩ := hc.known id hid
      rw [hnone] at hcall
      cases hcall
    cases serialized with
    | error error =>
        refine ⟨ht.setCall id _, hc.setCall ⟨?_, ?_, ?_, ?_⟩ fun hid => absurd hid hnew⟩
        · intro hphase
          cases hphase
        · intro hphase
          cases hphase
        · intro hphase
          rcases hphase with hphase | hphase <;> cases hphase
        · intro result hphase
          cases hphase
          exact Or.inr ⟨error, rfl, hnew⟩
    | ok bytes =>
        refine ⟨ht.setCall id _, hc.setCall ⟨?_, ?_, ?_, ?_⟩ fun hid => absurd hid hnew⟩
        · intro _
          exact hnew
        · intro hphase
          cases hphase
        · intro _ result
          refine iff_of_false (by simp) fun hanswer => hnew (ht.mem_accepted hanswer)
        · intro result hphase
          cases hphase

theorem sound_offer (ht : TaskSound s) (hc : CallsSound s) (id : Nat) :
    TaskSound (s.offer id) ∧ CallsSound (s.offer id) := by
  unfold offer
  cases hcall : s.calls.lookup id with
  | none => exact ⟨ht, hc⟩
  | some call =>
      dsimp only
      split_ifs with hoffer
      · obtain ⟨hphase, hroom⟩ := hoffer
        have hsound := hc.call id call hcall
        have hnew := hsound.offering hphase
        have hunanswered : ∀ result, (id, result) ∉ s.answers := fun result hanswer =>
          hnew (ht.mem_accepted hanswer)
        refine ⟨⟨?_, ht.taken, ht.inFlight, ht.connected, ht.flushed, ht.sent⟩, ?_, ?_, ?_, ?_⟩
        · change s.accepted ++ [id] = s.taken ++ (s.queue ++ [id])
          rw [ht.order, List.append_assoc]
        · change (s.queue ++ [id]).length ≤ mempoolSendQueueCapacity
          rw [List.length_append, List.length_singleton]
          omega
        · change (s.accepted ++ [id]).Nodup
          rw [List.nodup_append_comm, List.singleton_append, List.nodup_cons]
          exact ⟨hnew, hc.nodup⟩
        · intro id' hid'
          change ∃ c, AList.lookup id' (s.calls.insert id _) = some c ∧ _
          rw [Dict.lookup_insert_ite]
          split_ifs with heq
          · exact ⟨_, rfl, by simp⟩
          · rcases List.mem_append.mp hid' with hid' | hid'
            · exact hc.known id' hid'
            · exact absurd (List.mem_singleton.mp hid') heq
        · intro id' call' hlookup
          change AList.lookup id' (s.calls.insert id _) = some call' at hlookup
          rw [Dict.lookup_insert_ite] at hlookup
          split_ifs at hlookup with heq
          · rw [heq, ← Option.some.inj hlookup]
            refine ⟨?_, ?_, ?_, ?_⟩
            · intro hoffering
              cases hoffering
            · intro _
              exact List.mem_append_right _ (List.mem_singleton.mpr rfl)
            · intro _ result
              exact hsound.inbox (Or.inl hphase) result
            · intro result hreturned
              cases hreturned
          · have hold := hc.call id' call' hlookup
            have hmem : id' ∈ s.accepted ++ [id] ↔ id' ∈ s.accepted := by
              simp [heq]
            refine ⟨?_, ?_, hold.inbox, ?_⟩
            · intro hoffering hid'
              exact hold.offering hoffering (hmem.mp hid')
            · intro hwaiting
              exact hmem.mpr (hold.waiting hwaiting)
            · intro result hreturned
              refine (hold.returned result hreturned).imp_right ?_
              intro hfailed
              obtain ⟨error, hresult, hnot⟩ := hfailed
              exact ⟨error, hresult, fun hid' => hnot (hmem.mp hid')⟩
      · exact ⟨ht, hc⟩

theorem sound_poll (ht : TaskSound s) (hc : CallsSound s) (id : Nat) :
    TaskSound (s.poll id) ∧ CallsSound (s.poll id) := by
  unfold poll
  cases hcall : s.calls.lookup id with
  | none => exact ⟨ht, hc⟩
  | some call =>
      dsimp only
      split
      · rename_i result hphase hinbox
        have hsound := hc.call id call hcall
        have hanswer := (hsound.inbox (Or.inr hphase) result).mp hinbox
        refine ⟨ht.setCall id _, hc.setCall ⟨?_, ?_, ?_, ?_⟩ fun _ => by simp⟩
        · intro hoffering
          cases hoffering
        · intro hwaiting
          cases hwaiting
        · intro hneither
          rcases hneither with hneither | hneither <;> cases hneither
        · intro other hother
          cases hother
          exact Or.inl hanswer
      · exact ⟨ht, hc⟩

theorem sound_drop (ht : TaskSound s) (hc : CallsSound s) (id : Nat) :
    TaskSound (s.drop id) ∧ CallsSound (s.drop id) := by
  unfold drop
  cases hcall : s.calls.lookup id with
  | none => exact ⟨ht, hc⟩
  | some call =>
      dsimp only
      split_ifs
      · refine ⟨ht.setCall id _, hc.setCall ⟨?_, ?_, ?_, ?_⟩ fun _ => by simp⟩
        · intro hoffering
          cases hoffering
        · intro hwaiting
          cases hwaiting
        · intro hneither
          rcases hneither with hneither | hneither <;> cases hneither
        · intro result hreturned
          cases hreturned
      · exact ⟨ht, hc⟩

/-! ## The moves of the task -/

theorem respond_eq (id : Nat) (result : SendResult) (s : Mempool) :
    ∃ calls, s.respond id result =
        { s with calls, phase := .receiving, answers := s.answers ++ [(id, result)] } ∧
      ∀ id', calls.lookup id' = if id' = id then
        (s.calls.lookup id).map fun call =>
          if call.phase = .waiting then { call with inbox := some result } else call
        else s.calls.lookup id' := by
  unfold respond
  cases hcall : s.calls.lookup id with
  | none =>
      refine ⟨s.calls, rfl, fun id' => ?_⟩
      split_ifs with heq
      · rw [heq, hcall]
        rfl
      · rfl
  | some call =>
      dsimp only
      split_ifs with hphase
      · refine ⟨_, rfl, fun id' => ?_⟩
        change AList.lookup id' (s.calls.insert id _) = _
        rw [Dict.lookup_insert_ite, Option.map_some, if_pos hphase]
      · refine ⟨s.calls, rfl, fun id' => ?_⟩
        rw [Option.map_some, if_neg hphase]
        split_ifs with heq
        · rw [heq, hcall]
        · rfl

/-- The task handles a request, which it has written to at most `tries` connections. -/
structure Handling (s : Mempool) (id tries : Nat) : Prop where
  order : s.accepted = s.taken ++ s.queue
  taken : s.taken = s.done ++ [id]
  trying : Trying s.done id tries s.sessions
  connected : s.connected = true → s.connections ≠ []
  flushed : ∀ c ∈ s.connections, c.flushed <+: c.fed
  sent : ∀ id, (id, .ok ()) ∈ s.answers → ∃ c ∈ s.connections, id ∈ c.flushed

theorem TaskSound.handling (h : TaskSound s) {id tries : Nat} (hcurrent : s.current = some id)
    (htrying : Trying s.done id tries s.sessions) : Handling s id tries := by
  have htaken := h.taken
  rw [hcurrent] at htaken
  exact ⟨h.order, htaken, htrying, h.connected, h.flushed, h.sent⟩

theorem Handling.mem_accepted {id tries : Nat} (h : Handling s id tries) : id ∈ s.accepted := by
  rw [h.order, h.taken]
  simp

theorem Handling.not_mem_done {id tries : Nat} (h : Handling s id tries)
    (hnodup : s.accepted.Nodup) : id ∉ s.done := by
  rw [h.order, h.taken, List.append_assoc, List.nodup_append'] at hnodup
  intro hid
  exact hnodup.2.2 hid (by simp)

theorem Handling.respond {id tries : Nat} (h : Handling s id tries) (htries : tries ≤ 2)
    {result : SendResult} (hresult : result = .ok () → ∃ c ∈ s.connections, id ∈ c.flushed) :
    TaskSound (s.respond id result) := by
  obtain ⟨calls, hrespond, -⟩ := respond_eq id result s
  have hdone : (s.answers ++ [(id, result)]).map Prod.fst = s.done ++ [id] := by
    simp [done]
  rw [hrespond]
  refine ⟨h.order, ?_, ?_, h.connected, h.flushed, ?_⟩
  · change s.taken = (s.answers ++ [(id, result)]).map Prod.fst ++ []
    rw [hdone, h.taken, List.append_nil]
  · change InOrder ((s.answers ++ [(id, result)]).map Prod.fst) s.sessions
    rw [hdone]
    exact h.trying.finish htries
  · intro other hother
    rcases List.mem_append.mp hother with hother | hother
    · exact h.sent other hother
    · rw [List.mem_singleton, Prod.mk.injEq] at hother
      rw [hother.1]
      exact hresult hother.2.symm

theorem CallsSound.respond (h : CallsSound s) {id : Nat} (hid : id ∈ s.accepted)
    (hnew : id ∉ s.done) (result : SendResult) : CallsSound (s.respond id result) := by
  obtain ⟨calls, hrespond, hlookup⟩ := respond_eq id result s
  have hanswers : ∀ other r, other ≠ id →
      ((other, r) ∈ s.answers ++ [(id, result)] ↔ (other, r) ∈ s.answers) := by
    intro other r hne
    simp [hne]
  have hunanswered : ∀ r, (id, r) ∉ s.answers := fun r hr =>
    hnew (List.mem_map.mpr ⟨_, hr, rfl⟩)
  rw [hrespond]
  refine ⟨h.room, h.nodup, ?_, ?_⟩
  · intro other hother
    obtain ⟨call, hcall, hphase⟩ := h.known other hother
    change ∃ c, calls.lookup other = some c ∧ _
    rw [hlookup]
    split_ifs with heq
    · rw [heq] at hcall
      rw [hcall]
      refine ⟨_, rfl, ?_⟩
      dsimp only
      split_ifs
      · exact hphase
      · exact hphase
    · exact ⟨call, hcall, hphase⟩
  · intro other call hcall
    change calls.lookup other = some call at hcall
    rw [hlookup] at hcall
    split_ifs at hcall with heq
    · -- the call that is answered
      subst heq
      rw [Option.map_eq_some_iff] at hcall
      obtain ⟨old, hold, hcall⟩ := hcall
      have hsound := h.call other old hold
      split_ifs at hcall with hwaiting
      · subst hcall
        refine ⟨hsound.offering, hsound.waiting, ?_, ?_⟩
        · intro _ r
          change some result = some r ↔ (other, r) ∈ s.answers ++ [(other, result)]
          rw [List.mem_append, List.mem_singleton, Prod.mk.injEq, Option.some.injEq]
          simp [hunanswered r, eq_comm]
        · intro r hreturned
          change old.phase = .returned r at hreturned
          rw [hwaiting] at hreturned
          cases hreturned
      · subst hcall
        refine ⟨hsound.offering, hsound.waiting, ?_, ?_⟩
        · intro hneither
          rcases hneither with hoffering | hwaits
          · exact absurd hid (hsound.offering hoffering)
          · exact absurd hwaits hwaiting
        · intro r hreturned
          refine (hsound.returned r hreturned).imp_left ?_
          exact fun hr => List.mem_append_left _ hr
    · have hsound := h.call other call hcall
      refine ⟨hsound.offering, hsound.waiting, ?_, ?_⟩
      · intro hphase r
        change _ ↔ (other, r) ∈ s.answers ++ [(id, result)]
        rw [hanswers other r heq]
        exact hsound.inbox hphase r
      · intro r hreturned
        refine (hsound.returned r hreturned).imp_left ?_
        exact fun hr => List.mem_append_left _ hr

/-- Moves that leave the calls, the answers and what was accepted alone, and no longer queue. -/
theorem CallsSound.keep (h : CallsSound s) {s' : Mempool} (hcalls : s'.calls = s.calls)
    (haccepted : s'.accepted = s.accepted) (hanswers : s'.answers = s.answers)
    (hqueue : s'.queue.length ≤ s.queue.length) : CallsSound s' where
  room := hqueue.trans h.room
  nodup := haccepted ▸ h.nodup
  known := by
    rw [hcalls, haccepted]
    exact h.known
  call := by
    rw [hcalls]
    intro id call hcall
    have hsound := h.call id call hcall
    constructor
    · rw [haccepted]
      exact hsound.offering
    · rw [haccepted]
      exact hsound.waiting
    · rw [hanswers]
      exact hsound.inbox
    · rw [hanswers, haccepted]
      exact hsound.returned

theorem sound_receive (ht : TaskSound s) (hc : CallsSound s) :
    TaskSound s.receive ∧ CallsSound s.receive := by
  unfold receive
  cases hphase : s.phase with
  | connecting id attempt => exact ⟨ht, hc⟩
  | sending id attempt => exact ⟨ht, hc⟩
  | receiving =>
      cases hqueue : s.queue with
      | nil => exact ⟨ht, hc⟩
      | cons id queue =>
          dsimp only
          have hwritten : InOrder s.done s.sessions := by
            have hflight := ht.inFlight
            unfold InFlight at hflight
            rw [hphase] at hflight
            exact hflight
          have htaken : s.taken = s.done := by
            have htaken := ht.taken
            unfold current at htaken
            rw [hphase] at htaken
            simpa using htaken
          have hready : Ready s.done id 0 s.sessions := hwritten.ready id
          constructor
          · refine ⟨?_, ?_, ?_, ht.connected, ht.flushed, ht.sent⟩
            · change s.accepted = (s.taken ++ [id]) ++ queue
              rw [ht.order, hqueue, List.append_assoc, List.singleton_append]
            · unfold current
              dsimp only
              split_ifs
              · exact congrArg (· ++ [id]) htaken
              · exact congrArg (· ++ [id]) htaken
            · unfold InFlight
              dsimp only
              cases hconnected : s.connected with
              | true => exact ⟨by omega, rfl, hready⟩
              | false => exact ⟨by omega, rfl, hready.toTrying⟩
          · refine hc.keep rfl rfl rfl ?_
            change queue.length ≤ s.queue.length
            rw [hqueue, List.length_cons]
            omega

theorem connect_ok {id attempt : Nat} (hphase : s.phase = .connecting id attempt) :
    s.connect (.ok ()) =
      { s with
        connections := s.connections ++ [{}]
        connected := true
        phase := .sending id attempt } := by
  unfold connect
  rw [hphase]

theorem connect_error {id attempt : Nat} (hphase : s.phase = .connecting id attempt)
    (error : String) :
    s.connect (.error error) = s.respond id (.error ("mempool connect failed: " ++ error)) := by
  unfold connect
  rw [hphase]

theorem connect_of_ne (hphase : ¬∃ id attempt, s.phase = .connecting id attempt)
    (outcome : Except String Unit) : s.connect outcome = s := by
  unfold connect
  split
  · rename_i id attempt hconnecting
    exact absurd ⟨id, attempt, hconnecting⟩ hphase
  · rfl

theorem sound_connect (ht : TaskSound s) (hc : CallsSound s) (outcome : Except String Unit) :
    TaskSound (s.connect outcome) ∧ CallsSound (s.connect outcome) := by
  by_cases hconnecting : ∃ id attempt, s.phase = .connecting id attempt
  case neg =>
    rw [connect_of_ne hconnecting]
    exact ⟨ht, hc⟩
  obtain ⟨id, attempt, hphase⟩ := hconnecting
  have hflight := ht.inFlight
  unfold InFlight at hflight
  rw [hphase] at hflight
  obtain ⟨hattempt, -, htrying⟩ := hflight
  have hcurrent : s.current = some id := by
    unfold current
    rw [hphase]
  have hhandling := ht.handling hcurrent htrying
  cases outcome with
  | error error =>
      rw [connect_error hphase]
      refine ⟨hhandling.respond (by omega) (by simp), ?_⟩
      exact hc.respond hhandling.mem_accepted (hhandling.not_mem_done hc.nodup) _
  | ok u =>
      rw [connect_ok hphase]
      refine ⟨⟨ht.order, hhandling.taken, ?_, by simp, ?_, ?_⟩, hc.keep rfl rfl rfl le_rfl⟩
      · refine ⟨hattempt, rfl, ?_⟩
        change Ready s.done id attempt
          ((s.connections ++ [({} : MempoolConnection)]).map MempoolConnection.fed)
        rw [List.map_append]
        exact htrying.connect
      · intro c hmem
        rcases List.mem_append.mp hmem with hmem | hmem
        · exact ht.flushed c hmem
        · cases List.mem_singleton.mp hmem
          exact List.prefix_refl _
      · intro other hother
        obtain ⟨c, hmem, hflushed⟩ := ht.sent other hother
        exact ⟨c, List.mem_append_left _ hmem, hflushed⟩

theorem onLast_concat (f : MempoolConnection → MempoolConnection)
    (init : List MempoolConnection) (c : MempoolConnection) :
    MempoolConnection.onLast f (init ++ [c]) = init ++ [f c] := by
  induction init with
  | nil => rfl
  | cons first init ih =>
      cases init with
      | nil => rfl
      | cons second init => exact congrArg (first :: ·) ih

theorem Handling.write {id attempt : Nat} (h : Handling s id attempt)
    (hready : Ready s.done id attempt s.sessions) (hconnected : s.connected = true)
    {f : MempoolConnection → MempoolConnection} (hfed : ∀ c, (f c).fed = c.fed ++ [id])
    (hbegins : ∀ c, c.flushed <+: c.fed → (f c).flushed <+: (f c).fed)
    (hflushed : ∀ c, c.flushed <+: c.fed → c.flushed ⊆ (f c).flushed) :
    Handling { s with connections := MempoolConnection.onLast f s.connections } id (attempt + 1) ∧
      ∃ c, f c ∈ MempoolConnection.onLast f s.connections := by
  obtain ⟨init, c, hinit⟩ : ∃ init c, s.connections = init ++ [c] := by
    rcases List.eq_nil_or_concat' s.connections with hnil | hconcat
    · exact absurd hnil (h.connected hconnected)
    · exact hconcat
  have hmem : c ∈ s.connections := by
    rw [hinit]
    simp
  have hlast : MempoolConnection.onLast f s.connections = init ++ [f c] := by
    rw [hinit, onLast_concat]
  have hsessions : s.sessions = init.map MempoolConnection.fed ++ [c.fed] := by
    unfold sessions
    rw [hinit, List.map_append, List.map_singleton]
  rw [hsessions] at hready
  refine ⟨⟨h.order, h.taken, ?_, ?_, ?_, ?_⟩, c, by rw [hlast]; simp⟩
  · change Trying s.done id (attempt + 1)
      ((MempoolConnection.onLast f s.connections).map MempoolConnection.fed)
    rw [hlast, List.map_append, List.map_singleton, hfed]
    exact hready.write
  · intro _
    change MempoolConnection.onLast f s.connections ≠ []
    rw [hlast]
    simp
  · intro c' hc'
    change c' ∈ MempoolConnection.onLast f s.connections at hc'
    rw [hlast] at hc'
    rcases List.mem_append.mp hc' with hc' | hc'
    · refine h.flushed c' ?_
      rw [hinit]
      exact List.mem_append_left _ hc'
    · rw [List.mem_singleton.mp hc']
      exact hbegins c (h.flushed c hmem)
  · intro other hother
    obtain ⟨c', hc', hother⟩ := h.sent other hother
    change ∃ c'' ∈ MempoolConnection.onLast f s.connections, other ∈ c''.flushed
    rw [hlast]
    rw [hinit] at hc'
    rcases List.mem_append.mp hc' with hc' | hc'
    · exact ⟨c', List.mem_append_left _ hc', hother⟩
    · rw [List.mem_singleton.mp hc'] at hother
      exact ⟨f c, by simp, hflushed c (h.flushed c hmem) hother⟩

def fedIf (buffered : Bool) (id : Nat) (s : Mempool) : Mempool :=
  if buffered then
    { s with connections := MempoolConnection.onLast (MempoolConnection.feed id) s.connections }
  else s

theorem send_flushed {id attempt : Nat} (hphase : s.phase = .sending id attempt) :
    s.send .flushed =
      ({ s with
        connections :=
          MempoolConnection.onLast (fun c => (c.feed id).flush) s.connections }).respond id
        (.ok ()) := by
  unfold send
  rw [hphase]

theorem send_failed {id attempt : Nat} (hphase : s.phase = .sending id attempt)
    (buffered : Bool) (error : String) :
    s.send (.failed buffered error) =
      if attempt = 0 then
        { s.fedIf buffered id with connected := false, phase := .connecting id 1 }
      else (s.fedIf buffered id).respond id (.error ("mempool send failed: " ++ error)) := by
  unfold send fedIf
  rw [hphase]

theorem send_of_ne (hphase : ¬∃ id attempt, s.phase = .sending id attempt)
    (outcome : SendOutcome) : s.send outcome = s := by
  unfold send
  split
  · rename_i id attempt hsending
    exact absurd ⟨id, attempt, hsending⟩ hphase
  · rfl

/-- A failed write was a try, whether or not the frame is in the buffer. -/
theorem Handling.fedIf {id attempt : Nat} (h : Handling s id attempt)
    (hready : Ready s.done id attempt s.sessions) (hconnected : s.connected = true)
    (buffered : Bool) : Handling (s.fedIf buffered id) id (attempt + 1) := by
  unfold Mempool.fedIf
  split_ifs
  · exact (h.write hready hconnected (f := MempoolConnection.feed id) (fun _ => rfl)
      (fun c hbegins => hbegins.trans (List.prefix_append _ _)) (fun _ _ _ hid => hid)).1
  · exact ⟨h.order, h.taken, hready.toTrying.mono (by omega), h.connected, h.flushed, h.sent⟩

theorem fedIf_keeps (buffered : Bool) (id : Nat) (s : Mempool) :
    (s.fedIf buffered id).calls = s.calls ∧ (s.fedIf buffered id).accepted = s.accepted ∧
      (s.fedIf buffered id).answers = s.answers ∧ (s.fedIf buffered id).queue = s.queue := by
  unfold fedIf
  split_ifs
  · exact ⟨rfl, rfl, rfl, rfl⟩
  · exact ⟨rfl, rfl, rfl, rfl⟩

theorem sound_send (ht : TaskSound s) (hc : CallsSound s) (outcome : SendOutcome) :
    TaskSound (s.send outcome) ∧ CallsSound (s.send outcome) := by
  by_cases hsending : ∃ id attempt, s.phase = .sending id attempt
  case neg =>
    rw [send_of_ne hsending]
    exact ⟨ht, hc⟩
  obtain ⟨id, attempt, hphase⟩ := hsending
  have hflight := ht.inFlight
  unfold InFlight at hflight
  rw [hphase] at hflight
  obtain ⟨hattempt, hconnected, hready⟩ := hflight
  have hcurrent : s.current = some id := by
    unfold current
    rw [hphase]
  have hhandling := ht.handling hcurrent hready.toTrying
  cases outcome with
  | flushed =>
      rw [send_flushed hphase]
      obtain ⟨hwritten, c, hmem⟩ := hhandling.write hready hconnected
        (f := fun c => (c.feed id).flush) (fun _ => rfl) (fun _ _ => List.prefix_refl _)
        (fun c hbegins _ hid => List.mem_append_left _ (hbegins.subset hid))
      have hcalls : CallsSound { s with
          connections := MempoolConnection.onLast (fun c => (c.feed id).flush) s.connections } :=
        hc.keep rfl rfl rfl le_rfl
      refine ⟨hwritten.respond (by omega) fun _ => ⟨_, hmem, ?_⟩,
        hcalls.respond hwritten.mem_accepted (hhandling.not_mem_done hc.nodup) _⟩
      change id ∈ c.fed ++ [id]
      simp
  | failed buffered error =>
      rw [send_failed hphase]
      obtain ⟨hcallsEq, hacceptedEq, hanswersEq, hqueueEq⟩ := fedIf_keeps buffered id s
      have htried := hhandling.fedIf hready hconnected buffered
      have hcalls : CallsSound (s.fedIf buffered id) :=
        hc.keep hcallsEq hacceptedEq hanswersEq (hqueueEq ▸ le_rfl)
      split_ifs with hfirst
      · subst hfirst
        refine ⟨⟨htried.order, htried.taken, ⟨le_rfl, rfl, htried.trying⟩, ?_, htried.flushed,
          htried.sent⟩, hcalls.keep rfl rfl rfl le_rfl⟩
        intro hopen
        cases hopen
      · refine ⟨htried.respond (by omega) (by simp), ?_⟩
        exact hcalls.respond htried.mem_accepted (htried.not_mem_done hcalls.nodup) _

/-! ## Runs -/

theorem sound_step (ht : TaskSound s) (hc : CallsSound s) (step : MempoolStep) :
    TaskSound (s.step step) ∧ CallsSound (s.step step) := by
  cases step with
  | submit id serialized => exact sound_submit ht hc id serialized
  | offer id => exact sound_offer ht hc id
  | poll id => exact sound_poll ht hc id
  | drop id => exact sound_drop ht hc id
  | receive => exact sound_receive ht hc
  | connect outcome => exact sound_connect ht hc outcome
  | send outcome => exact sound_send ht hc outcome

theorem sound_run (steps : List MempoolStep) : TaskSound (run steps) ∧ CallsSound (run steps) := by
  refine List.foldlRecOn (motive := fun s : Mempool => TaskSound s ∧ CallsSound s) steps _ ?_ ?_
  · refine ⟨⟨rfl, rfl, inOrder_nil, ?_, ?_, ?_⟩, ⟨by decide, List.nodup_nil, ?_, ?_⟩⟩
    · intro hconnected
      cases hconnected
    · intro c hc
      cases hc
    · intro id hid
      cases hid
    · intro id hid
      cases hid
    · intro id call hcall
      cases hcall
  · intro s h step _
    exact sound_step h.1 h.2 step

theorem TaskSound.inOrder (h : TaskSound s) : InOrder s.taken s.sessions := by
  have htaken := h.taken
  have hflight := h.inFlight
  unfold current at htaken
  unfold InFlight at hflight
  cases hphase : s.phase with
  | receiving =>
      rw [hphase] at htaken hflight
      rw [htaken, Option.toList_none, List.append_nil]
      exact hflight
  | connecting id attempt =>
      rw [hphase] at htaken hflight
      rw [htaken]
      exact hflight.2.2.finish (by omega)
  | sending id attempt =>
      rw [hphase] at htaken hflight
      rw [htaken]
      exact hflight.2.2.toTrying.finish (by omega)

structure Delivers (s : Mempool) : Prop where
  room : s.queue.length ≤ mempoolSendQueueCapacity
  once : s.accepted.Nodup
  answered : s.done <+: s.accepted
  inOrder : InOrder s.accepted s.sessions
  sent : ∀ id, (id, .ok ()) ∈ s.answers → ∃ c ∈ s.connections, id ∈ c.flushed
  waiting : ∀ id call, s.calls.lookup id = some call → call.phase = .waiting →
    id ∈ s.accepted ∧ ∀ result, call.inbox = some result ↔ (id, result) ∈ s.answers
  returned : ∀ id call result, s.calls.lookup id = some call →
    call.phase = .returned result → (id, result) ∈ s.answers ∨
      (∃ error, result = .error ("serialize transaction: " ++ error)) ∧
        ∀ c ∈ s.connections, id ∉ c.fed

theorem delivers_of_sound (ht : TaskSound s) (hc : CallsSound s) : Delivers s where
  room := hc.room
  once := hc.nodup
  answered := by
    rw [ht.order, ht.taken, List.append_assoc]
    exact List.prefix_append _ _
  inOrder := by
    rw [ht.order]
    exact ht.inOrder.append s.queue
  sent := ht.sent
  waiting := by
    intro id call hcall hwaiting
    have hsound := hc.call id call hcall
    exact ⟨hsound.waiting hwaiting, hsound.inbox (Or.inr hwaiting)⟩
  returned := by
    intro id call result hcall hreturned
    refine ((hc.call id call hcall).returned result hreturned).imp_right ?_
    intro hfailed
    obtain ⟨error, hresult, hnot⟩ := hfailed
    refine ⟨⟨error, hresult⟩, ?_⟩
    intro c hmem hfed
    have hsub := ht.inOrder.each c.fed (List.mem_map.mpr ⟨c, hmem, rfl⟩)
    rw [ht.order] at hnot
    exact hnot (List.mem_append_left _ (hsub.subset hfed))

/-- In every run the requests are answered in the order in which the channel took them, once
each; a connection is fed every request at most once and in that order, and all connections
together at most twice in a row; what is answered with `Ok` was flushed to some connection;
and a caller returns what its request was answered, or was never sent. -/
theorem delivers_of_run (steps : List MempoolStep) : Delivers (run steps) :=
  delivers_of_sound (sound_run steps).1 (sound_run steps).2

/-! ## The task comes through -/

/-- One move of the task, with what the network answers if it is asked. -/
def advance (s : Mempool) (network : Except String Unit × SendOutcome) : Mempool :=
  match s.phase with
  | .receiving => s.receive
  | .connecting _ _ => s.connect network.1
  | .sending _ _ => s.send network.2

end Mempool

namespace Sample

end Sample

end ClobIndexer
