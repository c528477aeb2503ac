import ClobIndexer.Lib.Runs
import ClobIndexer.Ws.Requests
/-!
# The feeds of a session

The tasks of a session listen to bounded broadcast channels and hand what is for their client to
the queue of the socket.  Most pass every message on, the tasks of a user only those with the
address of the user; the task of a user state reads the state again when a message or a lag says
that it may have changed.  Here is what every step keeps: one task for each subscription, and
each task has passed on what its receivers have heard and its filter lets through.
-/

namespace ClobIndexer

open Lib

namespace Ws

/-! ## Tasks -/

namespace Task

def forwards (t : Task) (m : FeedMessage) : Bool :=
  match t.key with
  | .user _ => Text.eqIgnoreAsciiCase m.userAddress t.user
  | .paperUser _ => Text.eqIgnoreAsciiCase m.userAddress t.user
  | .paperUserState _ => false
  | _ => true

def refreshes (t : Task) (feed : Feed) (m : FeedMessage) : Bool :=
  match t.key, feed with
  | .paperUserState _, .paperUser =>
      Text.eqIgnoreAsciiCase m.userAddress t.user && Text.eqIgnoreAsciiCase m.market t.market
  | .paperUserState _, _ => true
  | _, _ => false

def refreshesOnLag (t : Task) : Bool :=
  match t.key with
  | .orderbook _ => true
  | .paperUserState _ => true
  | _ => false

/-- A worker takes the task up; one that was aborted ends here. -/
def poll (t : Task) : Task := if t.aborted then t else { t with running := true }

/-- The task waits, for a message or a state, and not with something in its hand. -/
def wait (t : Task) : Task := if t.hand = none then { t with running := false } else t

/-- A receiver of the task is asked, unless the task has something else to do first. -/
def recv (sent : Feed → List FeedMessage) (j : Nat) (t : Task) : Task :=
  if t.running = false ∨ t.refreshing = true ∨ t.hand ≠ none then t
  else
    match t.receivers[j]? with
    | none => t
    | some (feed, r) =>
        match Broadcast.recv feed.capacity (sent feed) r with
        | (.empty, _) => t
        | (.message n m, r) =>
            { t with
              receivers := t.receivers.set j (feed, r)
              refreshing := t.refreshes feed m
              hand := if t.forwards m then some (.message feed n) else none }
        | (.lagged _, r) =>
            { t with receivers := t.receivers.set j (feed, r), refreshing := t.refreshesOnLag }

def refresh (sent : Feed → List FeedMessage) (found : Bool) (t : Task) : Task :=
  if t.running = true ∧ t.refreshing = true ∧ t.hand = none then
    { t with
      refreshing := false
      readAt := fun feed => (sent feed).length
      hand := if found then some (.snapshot t.key) else none }
  else t

def pass (t : Task) : Task := { t with hand := none, passedOn := t.passedOn ++ t.hand.toList }

end Task

/-! ## Clients -/

/-- A client, with its session and what was written to its socket from the queue. -/
structure Client where
  session : Session := {}
  connected : Bool := true
  written : List (Nat × Outbound) := []

/-- A request with the answers to it, a message on a feed, a step of a task, a write to the
socket, and the end of the connection. -/
inductive ClientStep where
  | request (r : WsRequest) (a : Answer)
  | publish (feed : Feed) (m : FeedMessage)
  | poll (i : Nat)
  | wait (i : Nat)
  | recv (i j : Nat)
  | refresh (i : Nat) (found : Bool)
  | pass (i : Nat)
  | write
  | disconnect

namespace Client

variable (sdk : Sdk)

def onSession (f : Session → Session) (c : Client) : Client := { c with session := f c.session }

def modify (i : Nat) (f : Task → Task) (c : Client) : Client :=
  c.onSession fun s => { s with spawned := s.spawned.modify i f }

def request (r : WsRequest) (a : Answer) (c : Client) : Client :=
  if c.connected then
    let handled := handleRequest sdk a r c.session
    { c with session := handled.session, connected := handled.keepAlive }
  else c

def publish (feed : Feed) (m : FeedMessage) (c : Client) : Client :=
  c.onSession fun s =>
    { s with sent := Function.update s.sent feed (s.sent feed ++ [m]) }

def poll (i : Nat) (c : Client) : Client := c.modify i Task.poll

def wait (i : Nat) (c : Client) : Client := c.modify i Task.wait

def recv (i j : Nat) (c : Client) : Client := c.modify i (Task.recv c.session.sent j)

def refresh (i : Nat) (found : Bool) (c : Client) : Client :=
  c.modify i (Task.refresh c.session.sent found)

/-- Without the socket there is no queue, and the task ends with what it has in its hand. -/
def pass (i : Nat) (c : Client) : Client :=
  if c.connected then
    let queued := c.onSession fun s =>
      { s with
        outbound := s.outbound ++ ((s.spawned[i]?.bind Task.hand).map fun o => (i, o)).toList }
    queued.modify i Task.pass
  else c

def write (c : Client) : Client :=
  match c.connected, c.session.outbound with
  | true, o :: outbound =>
      { c with session := { c.session with outbound }, written := c.written ++ [o] }
  | _, _ => c

def step (c : Client) : ClientStep → Client
  | .request r a => c.request sdk r a
  | .publish feed m => c.publish feed m
  | .poll i => c.poll i
  | .wait i => c.wait i
  | .recv i j => c.recv i j
  | .refresh i found => c.refresh i found
  | .pass i => c.pass i
  | .write => c.write
  | .disconnect => { c with connected := false }

end Client

/-! ## The table of a session -/

/-- Every subscription has a task of its own that was not aborted, and there are no others. -/
structure Session.Held (s : Session) : Prop where
  held : ∀ key i, s.tasks.lookup key = some i →
    ∃ t, s.spawned[i]? = some t ∧ t.key = key ∧ t.aborted = false
  live : ∀ i t, s.spawned[i]? = some t → t.aborted = false → s.tasks.lookup t.key = some i

namespace Session

variable {s : Session}

theorem held_start : Held {} where
  held := fun key i h => by cases h
  live := fun i t h => by cases h

theorem held_cancel (h : s.Held) (key : SubscriptionKey) : (s.cancel key).Held := by
  unfold cancel
  cases hkey : s.tasks.lookup key with
  | none => exact h
  | some i =>
      constructor
      · intro key' i' hlookup
        change (s.tasks.erase key).lookup key' = some i' at hlookup
        rw [Dict.lookup_erase_ite] at hlookup
        split_ifs at hlookup with hne
        obtain ⟨t, ht, rfl, haborted⟩ := h.held key' i' hlookup
        have hi : i ≠ i' := by
          rintro rfl
          obtain ⟨t', ht', hkey', -⟩ := h.held key i hkey
          rw [ht] at ht'
          cases ht'
          exact hne hkey'
        refine ⟨t, ?_, rfl, haborted⟩
        change (s.spawned.modify i _)[i']? = some t
        rw [List.getElem?_modify_ne _ _ hi, ht]
      · intro i' t ht haborted
        change (s.spawned.modify i _)[i']? = some t at ht
        change (s.tasks.erase key).lookup t.key = some i'
        by_cases hi : i = i'
        · subst hi
          rw [List.getElem?_modify_eq] at ht
          obtain ⟨t', -, rfl⟩ := Option.map_eq_some_iff.mp ht
          cases haborted
        · rw [List.getElem?_modify_ne _ _ hi] at ht
          have hlookup := h.live i' t ht haborted
          rw [Dict.lookup_erase_ite, if_neg, hlookup]
          rintro rfl
          rw [hkey, Option.some.injEq] at hlookup
          exact hi hlookup

theorem held_spawn (h : s.Held) {task : Task} (haborted : task.aborted = false) :
    (s.spawn task).Held := by
  have hcancel := held_cancel h task.key
  have hnone : task.key ∉ (s.cancel task.key).tasks := fun hmem => (mem_cancel.mp hmem).2 rfl
  unfold spawn
  dsimp only
  constructor
  · intro key i hlookup
    change ((s.cancel task.key).tasks.insert task.key _).lookup key = some i at hlookup
    rw [Dict.lookup_insert_ite] at hlookup
    split_ifs at hlookup with hkey
    · cases hlookup
      exact ⟨task, List.getElem?_concat_length, hkey.symm, haborted⟩
    · obtain ⟨t, ht, hrest⟩ := hcancel.held key i hlookup
      obtain ⟨hi, -⟩ := List.getElem?_eq_some_iff.mp ht
      exact ⟨t, (List.getElem?_append_left hi).trans ht, hrest⟩
  · intro i t ht hlive
    change ((s.cancel task.key).spawned ++ [task])[i]? = some t at ht
    change ((s.cancel task.key).tasks.insert task.key _).lookup t.key = some i
    rw [Dict.lookup_insert_ite]
    rw [List.getElem?_append] at ht
    split_ifs at ht with hi
    · have hlookup := hcancel.live i t ht hlive
      have hmem := Dict.mem_iff_lookup.mpr ⟨i, hlookup⟩
      rw [if_neg, hlookup]
      intro hkey
      rw [hkey] at hmem
      exact hnone hmem
    · obtain ⟨hlt, hget⟩ := List.getElem?_eq_some_iff.mp ht
      have hzero : i - (s.cancel task.key).spawned.length = 0 := by
        rw [List.length_singleton] at hlt
        omega
      have htask : task = t := by simpa [hzero] using hget
      subst htask
      rw [if_pos rfl]
      congr 1
      omega

theorem held_foldl_cancel (h : s.Held) (keys : List SubscriptionKey) :
    (keys.foldl (fun s key => s.cancel key) s).Held := by
  induction keys generalizing s with
  | nil => exact h
  | cons key keys ih => exact ih (held_cancel h key)

theorem held_modify (h : s.Held) (i : Nat) {f : Task → Task} (hkey : ∀ t, (f t).key = t.key)
    (haborted : ∀ t, (f t).aborted = t.aborted) :
    Held { s with spawned := s.spawned.modify i f } := by
  have hget : ∀ i', (s.spawned.modify i f)[i']? =
      s.spawned[i']?.map fun t => if i = i' then f t else t := by
    intro i'
    rw [List.getElem?_modify]
    by_cases hi : i = i' <;> simp [hi]
  have hsame : ∀ i' t, (if i = i' then f t else t).key = t.key ∧
      (if i = i' then f t else t).aborted = t.aborted := by
    intro i' t
    split_ifs
    · exact ⟨hkey t, haborted t⟩
    · exact ⟨rfl, rfl⟩
  constructor
  · intro key i' hlookup
    obtain ⟨t, ht, rfl, hlive⟩ := h.held key i' hlookup
    refine ⟨if i = i' then f t else t, ?_, (hsame i' t).1, (hsame i' t).2.trans hlive⟩
    change (s.spawned.modify i f)[i']? = _
    rw [hget, ht, Option.map_some]
  · intro i' t ht hlive
    change (s.spawned.modify i f)[i']? = some t at ht
    rw [hget] at ht
    obtain ⟨t', ht', rfl⟩ := Option.map_eq_some_iff.mp ht
    rw [(hsame i' t').2] at hlive
    rw [(hsame i' t').1]
    exact h.live i' t' ht' hlive

end Session

/-! ## What a task passes on -/

def Outbound.numberOn (feed : Feed) : Outbound → Option Nat
  | .message f n => if f = feed then some n else none
  | .snapshot _ => none

namespace Task

def numbers (feed : Feed) (t : Task) : List Nat :=
  (t.passedOn ++ t.hand.toList).filterMap (Outbound.numberOn feed)

def passes (sent : List FeedMessage) (t : Task) (n : Nat) : Bool :=
  (sent[n]?.map t.forwards).getD false

/-- The task passes on what its receivers have heard and its filter lets through, and a message
of which its state is to be read again is followed by that. -/
structure Delivers (sent : Feed → List FeedMessage) (t : Task) : Prop where
  feeds : (t.receivers.map Prod.fst).Nodup
  hears : ∀ x ∈ t.receivers, t.key.hears x.1 = true
  address : ∀ u ∈ t.key.address, t.user = u
  sound : ∀ x ∈ t.receivers, x.2.Sound (sent x.1)
  delivered : ∀ x ∈ t.receivers, t.numbers x.1 = x.2.taken.filter (t.passes (sent x.1))
  only : ∀ feed n, .message feed n ∈ t.passedOn ++ t.hand.toList → ∃ r, (feed, r) ∈ t.receivers
  fresh : (∃ k, t.key = .paperUserState k) → ∀ x ∈ t.receivers, ∀ n m, t.readAt x.1 ≤ n →
    n < x.2.cursor → (sent x.1)[n]? = some m → t.refreshes x.1 m = true → t.refreshing = true

variable {sent : Feed → List FeedMessage} {t : Task}

theorem delivers_fresh (h : t.Fresh sent) : t.Delivers sent := by
  have hnothing : t.passedOn ++ t.hand.toList = [] := by rw [h.passedOn, h.hand]; rfl
  refine ⟨h.feeds, h.hears, h.address, ?_, ?_, ?_, ?_⟩
  · intro x hx
    obtain ⟨n, hn, hopened, -⟩ := h.opened x hx
    rw [hopened]
    exact Broadcast.sound_subscribe hn
  · intro x hx
    obtain ⟨n, -, hopened, -⟩ := h.opened x hx
    unfold numbers
    rw [hnothing, hopened]
    rfl
  · intro feed n hmem
    rw [hnothing] at hmem
    cases hmem
  · intro hstate x hx n m hread hcursor
    obtain ⟨n', -, hopened, hunread⟩ := h.opened x hx
    have hle := hunread hstate
    rw [hopened] at hcursor
    change n < n' at hcursor
    omega

theorem delivers_send (h : t.Delivers sent) (feed : Feed) (m : FeedMessage) :
    t.Delivers (Function.update sent feed (sent feed ++ [m])) := by
  have hmore : ∀ f, ∃ more, Function.update sent feed (sent feed ++ [m]) f = sent f ++ more := by
    intro f
    by_cases hf : f = feed
    · subst hf
      exact ⟨[m], Function.update_self _ _ _⟩
    · exact ⟨[], by rw [Function.update_of_ne hf, List.append_nil]⟩
  refine ⟨h.feeds, h.hears, h.address, ?_, ?_, h.only, ?_⟩
  · intro x hx
    obtain ⟨more, hsent⟩ := hmore x.1
    rw [hsent]
    exact (h.sound x hx).send more
  · intro x hx
    obtain ⟨more, hsent⟩ := hmore x.1
    have hsound := h.sound x hx
    rw [h.delivered x hx, hsent]
    apply List.filter_congr
    intro n hn
    have hlt : n < (sent x.1).length := lt_of_lt_of_le (hsound.range n hn).2 hsound.cursor
    unfold passes
    rw [List.getElem?_append_left hlt]
  · intro hstate x hx n m' hread hcursor hget
    obtain ⟨more, hsent⟩ := hmore x.1
    have hlt : n < (sent x.1).length := lt_of_lt_of_le hcursor (h.sound x hx).cursor
    rw [hsent, List.getElem?_append_left hlt] at hget
    exact h.fresh hstate x hx n m' hread hcursor hget

theorem delivers_pass (h : t.Delivers sent) : t.pass.Delivers sent := by
  have hsame : t.pass.passedOn ++ t.pass.hand.toList = t.passedOn ++ t.hand.toList :=
    List.append_nil _
  refine ⟨h.feeds, h.hears, h.address, h.sound, ?_, ?_, h.fresh⟩
  · intro x hx
    unfold numbers
    rw [hsame]
    exact h.delivered x hx
  · intro feed n hmem
    rw [hsame] at hmem
    exact h.only feed n hmem

theorem delivers_poll (h : t.Delivers sent) : t.poll.Delivers sent := by
  unfold poll
  split_ifs
  · exact h
  · exact ⟨h.feeds, h.hears, h.address, h.sound, h.delivered, h.only, h.fresh⟩

theorem delivers_wait (h : t.Delivers sent) : t.wait.Delivers sent := by
  unfold wait
  split_ifs
  · exact ⟨h.feeds, h.hears, h.address, h.sound, h.delivered, h.only, h.fresh⟩
  · exact h

theorem delivers_refresh (h : t.Delivers sent) (found : Bool) :
    (t.refresh sent found).Delivers sent := by
  unfold refresh
  by_cases hready : t.running = true ∧ t.refreshing = true ∧ t.hand = none
  · rw [if_pos hready]
    have hhad : t.passedOn ++ t.hand.toList = t.passedOn := by
      rw [hready.2.2, Option.toList_none, List.append_nil]
    refine ⟨h.feeds, h.hears, h.address, h.sound, ?_, ?_, ?_⟩
    · intro x hx
      refine Eq.trans ?_ (h.delivered x hx)
      unfold numbers
      rw [hhad]
      cases found <;> simp [Outbound.numberOn]
    · intro feed n hmem
      refine h.only feed n ?_
      rw [hhad]
      cases found <;> simpa using hmem
    · intro _ x hx n m hread hcursor
      have hsound := (h.sound x hx).cursor
      change (sent x.1).length ≤ n at hread
      omega
  · rw [if_neg hready]
    exact h

theorem mem_set_receiver {feed : Feed} {r : Broadcast.Receiver} {j : Nat} (h : t.Delivers sent)
    {r' : Broadcast.Receiver} (hj : t.receivers[j]? = some (feed, r))
    {x : Feed × Broadcast.Receiver} (hx : x ∈ t.receivers.set j (feed, r')) :
    x = (feed, r') ∨ x ∈ t.receivers ∧ x.1 ≠ feed := by
  obtain ⟨k, hk⟩ := List.mem_iff_getElem?.mp hx
  rw [List.getElem?_set] at hk
  split_ifs at hk with hjk hlt
  · cases hk
    exact Or.inl rfl
  · refine Or.inr ⟨List.mem_of_getElem? hk, fun hfeed => hjk ?_⟩
    have hj' : (t.receivers.map Prod.fst)[j]? = some feed := by
      rw [List.getElem?_map, hj]
      rfl
    have hk' : (t.receivers.map Prod.fst)[k]? = some feed := by
      rw [List.getElem?_map, hk]
      exact congrArg some hfeed
    obtain ⟨hltj, hgetj⟩ := List.getElem?_eq_some_iff.mp hj'
    obtain ⟨hltk, hgetk⟩ := List.getElem?_eq_some_iff.mp hk'
    exact (List.Nodup.getElem_inj_iff h.feeds).mp (hgetj.trans hgetk.symm)

theorem delivers_heard {feed : Feed} {r r' : Broadcast.Receiver} {j : Nat} (h : t.Delivers sent)
    (hj : t.receivers[j]? = some (feed, r)) (hidle : ¬t.refreshing = true) (hhand : t.hand = none)
    (hsound : r'.Sound (sent feed)) {refreshing : Bool} {hand : Option Outbound}
    (hnumbers : (t.passedOn ++ hand.toList).filterMap (Outbound.numberOn feed) =
      r'.taken.filter (t.passes (sent feed)))
    (hof : ∀ f n, hand = some (.message f n) → f = feed)
    (hfresh : (∃ k, t.key = .paperUserState k) → ∀ n m, r.cursor ≤ n → n < r'.cursor →
      (sent feed)[n]? = some m → t.refreshes feed m = true → refreshing = true) :
    Delivers sent { t with receivers := t.receivers.set j (feed, r'), refreshing, hand } := by
  have hfeeds : (t.receivers.set j (feed, r')).map Prod.fst = t.receivers.map Prod.fst := by
    have hfeed : (t.receivers.map Prod.fst)[j]? = some feed := by
      rw [List.getElem?_map, hj]
      rfl
    obtain ⟨hlt, hget⟩ := List.getElem?_eq_some_iff.mp hfeed
    rw [List.map_set, ← hget, List.set_getElem_self]
  have hr : (feed, r) ∈ t.receivers := List.mem_of_getElem? hj
  have hset : ∀ x ∈ t.receivers.set j (feed, r'),
      x = (feed, r') ∨ x ∈ t.receivers ∧ x.1 ≠ feed := fun x hx => mem_set_receiver h hj hx
  refine ⟨hfeeds ▸ h.feeds, ?_, h.address, ?_, ?_, ?_, ?_⟩
  · intro x hx
    have hhears := h.hears _ hr
    rcases hset x hx with rfl | ⟨hold, -⟩
    · exact hhears
    · exact h.hears x hold
  · intro x hx
    rcases hset x hx with rfl | ⟨hold, -⟩
    · exact hsound
    · exact h.sound x hold
  · intro x hx
    rcases hset x hx with rfl | ⟨hold, hne⟩
    · exact hnumbers
    · refine Eq.trans ?_ (h.delivered x hold)
      unfold numbers
      rw [hhand]
      cases hand with
      | none => rfl
      | some o =>
          cases o with
          | snapshot key => simp [Outbound.numberOn]
          | message f n =>
              have hfx : f ≠ x.1 := fun heq => hne (heq.symm.trans (hof f n rfl))
              simp [Outbound.numberOn, hfx]
  · intro f n hmem
    rcases List.mem_append.mp hmem with hpassed | hheld
    · obtain ⟨r₀, hr₀⟩ := h.only f n (List.mem_append.mpr (Or.inl hpassed))
      have hf : f ∈ (t.receivers.set j (feed, r')).map Prod.fst := by
        rw [hfeeds]
        exact List.mem_map.mpr ⟨_, hr₀, rfl⟩
      obtain ⟨x, hx, rfl⟩ := List.mem_map.mp hf
      exact ⟨x.2, hx⟩
    · have hf := hof f n (Option.mem_toList.mp hheld)
      subst hf
      obtain ⟨hlt, -⟩ := List.getElem?_eq_some_iff.mp hj
      exact ⟨r', List.mem_iff_getElem?.mpr ⟨j, List.getElem?_set_self hlt⟩⟩
  · intro hstate x hx n m hread hcursor hget hrefreshes
    rcases hset x hx with rfl | ⟨hold, -⟩
    · by_cases hn : n < r.cursor
      · exact absurd (h.fresh hstate _ hr n m hread hn hget hrefreshes) hidle
      · exact hfresh hstate n m (not_lt.mp hn) hcursor hget hrefreshes
    · exact absurd (h.fresh hstate x hold n m hread hcursor hget hrefreshes) hidle

theorem delivers_recv (h : t.Delivers sent) (j : Nat) : (t.recv sent j).Delivers sent := by
  unfold recv
  by_cases hbusy : t.running = false ∨ t.refreshing = true ∨ t.hand ≠ none
  · rw [if_pos hbusy]
    exact h
  · rw [if_neg hbusy]
    obtain ⟨-, hother⟩ := not_or.mp hbusy
    obtain ⟨hidle, hsome⟩ := not_or.mp hother
    have hhand : t.hand = none := not_not.mp hsome
    cases hj : t.receivers[j]? with
    | none => exact h
    | some x =>
        obtain ⟨feed, r⟩ := x
        have hr : (feed, r) ∈ t.receivers := List.mem_of_getElem? hj
        have hdelivered := h.delivered _ hr
        unfold numbers at hdelivered
        rw [hhand, Option.toList_none, List.append_nil] at hdelivered
        dsimp only
        have hsound : (Broadcast.recv feed.capacity (sent feed) r).2.Sound (sent feed) :=
          (h.sound _ hr).recv
        cases hrecv : Broadcast.recv feed.capacity (sent feed) r with
        | mk told r' =>
            rw [hrecv] at hsound
            cases told with
            | empty => exact h
            | message n m =>
                obtain ⟨hget, rfl, rfl⟩ := Broadcast.recv_message hrecv
                refine delivers_heard h hj hidle hhand hsound ?_ ?_ ?_
                · have hpass : t.passes (sent feed) r.cursor = t.forwards m := by
                    unfold passes
                    rw [hget]
                    rfl
                  rw [List.filter_append, List.filterMap_append, hdelivered]
                  congr 1
                  by_cases hforwards : t.forwards m = true <;>
                    simp [hforwards, hpass, Outbound.numberOn]
                · intro f n hf
                  split_ifs at hf
                  cases hf
                  rfl
                · intro _ n m' hle hlt hget' hrefreshes
                  have hn : n = r.cursor := by
                    change n < r.cursor + 1 at hlt
                    omega
                  subst hn
                  cases hget.symm.trans hget'
                  exact hrefreshes
            | lagged skipped =>
                have htaken := Broadcast.recv_lagged hrecv
                refine delivers_heard h hj hidle hhand hsound ?_ ?_ ?_
                · rw [hhand, Option.toList_none, List.append_nil, htaken]
                  exact hdelivered
                · intro f n hf
                  cases hhand.symm.trans hf
                · rintro ⟨k, hk⟩ _ _ _ _ _ _
                  unfold refreshesOnLag
                  rw [hk]

structure Keeps (t t' : Task) : Prop where
  key : t'.key = t.key
  aborted : t'.aborted = t.aborted
  passedOn : t'.passedOn = t.passedOn

theorem keeps_poll (t : Task) : t.Keeps t.poll := by
  unfold poll
  split_ifs <;> exact ⟨rfl, rfl, rfl⟩

theorem keeps_wait (t : Task) : t.Keeps t.wait := by
  unfold wait
  split_ifs <;> exact ⟨rfl, rfl, rfl⟩

theorem keeps_recv (sent : Feed → List FeedMessage) (j : Nat) (t : Task) :
    t.Keeps (t.recv sent j) := by
  unfold recv
  split_ifs
  · exact ⟨rfl, rfl, rfl⟩
  · cases t.receivers[j]? with
    | none => exact ⟨rfl, rfl, rfl⟩
    | some x =>
        dsimp only
        cases Broadcast.recv x.1.capacity (sent x.1) x.2 with
        | mk told r => cases told <;> exact ⟨rfl, rfl, rfl⟩

theorem keeps_refresh (sent : Feed → List FeedMessage) (found : Bool) (t : Task) :
    t.Keeps (t.refresh sent found) := by
  unfold refresh
  split_ifs <;> exact ⟨rfl, rfl, rfl⟩

end Task

/-! ## What a session keeps -/

def entriesOf (i : Nat) (queue : List (Nat × Outbound)) : List Outbound :=
  (queue.filter fun e => e.1 = i).map Prod.snd

/-- The tasks deliver, and the queue holds what they have passed on and was not written. -/
structure Session.Good (written : List (Nat × Outbound)) (s : Session) : Prop extends s.Held where
  delivers : ∀ t ∈ s.spawned, t.Delivers s.sent
  queue : ∀ i, entriesOf i (written ++ s.outbound) = ((s.spawned[i]?).map Task.passedOn).getD []

namespace Session

variable {s : Session} {written : List (Nat × Outbound)}

theorem good_start : Good [] {} where
  toHeld := held_start
  delivers := fun _ ht => absurd ht List.not_mem_nil
  queue := fun _ => rfl

theorem mem_modify {A : Type} {l : List A} {i : Nat} {f : A → A} {x : A} (h : x ∈ l.modify i f) :
    ∃ y ∈ l, x = y ∨ l[i]? = some y ∧ x = f y := by
  obtain ⟨k, hk⟩ := List.mem_iff_getElem?.mp h
  rw [List.getElem?_modify] at hk
  obtain ⟨y, hy, rfl⟩ := Option.map_eq_some_iff.mp hk
  refine ⟨y, List.mem_of_getElem? hy, ?_⟩
  by_cases hik : i = k
  · subst hik
    exact Or.inr ⟨hy, if_pos rfl⟩
  · exact Or.inl (if_neg hik)

theorem good_modify (h : s.Good written) (i : Nat) {f : Task → Task}
    (hkeeps : ∀ t : Task, t.Keeps (f t))
    (hdelivers : ∀ t, t.Delivers s.sent → (f t).Delivers s.sent) :
    Good written { s with spawned := s.spawned.modify i f } where
  toHeld := held_modify h.toHeld i (fun t => (hkeeps t).key) fun t => (hkeeps t).aborted
  delivers := by
    intro t ht
    obtain ⟨t', ht', rfl | ⟨-, rfl⟩⟩ := mem_modify ht
    · exact h.delivers t ht'
    · exact hdelivers t' (h.delivers t' ht')
  queue := by
    intro i'
    refine (h.queue i').trans ?_
    change _ = (((s.spawned.modify i f)[i']?).map Task.passedOn).getD []
    rw [List.getElem?_modify]
    cases s.spawned[i']? with
    | none => rfl
    | some t =>
        by_cases hi : i = i'
        · simp [hi, (hkeeps _).passedOn]
        · simp [hi]

theorem good_cancel (h : s.Good written) (key : SubscriptionKey) : (s.cancel key).Good written := by
  have hheld := held_cancel h.toHeld key
  unfold cancel at hheld ⊢
  cases hkey : s.tasks.lookup key with
  | none => exact h
  | some i =>
      rw [hkey] at hheld
      refine ⟨hheld, ?_, ?_⟩
      · intro t ht
        obtain ⟨t', ht', rfl | ⟨-, rfl⟩⟩ := mem_modify ht
        · exact h.delivers t ht'
        · have hold := h.delivers t' ht'
          exact ⟨hold.feeds, hold.hears, hold.address, hold.sound, hold.delivered, hold.only,
            hold.fresh⟩
      · intro i'
        refine (h.queue i').trans ?_
        change _ = (((s.spawned.modify i _)[i']?).map Task.passedOn).getD []
        rw [List.getElem?_modify]
        cases s.spawned[i']? with
        | none => rfl
        | some _ =>
            by_cases hi : i = i' <;> simp [hi]

theorem good_foldl_cancel (h : s.Good written) (keys : List SubscriptionKey) :
    (keys.foldl (fun s key => s.cancel key) s).Good written := by
  induction keys generalizing s with
  | nil => exact h
  | cons key keys ih => exact ih (good_cancel h key)

theorem kept_cancel (s : Session) (key : SubscriptionKey) :
    (s.cancel key).sent = s.sent ∧ (s.cancel key).outbound = s.outbound := by
  unfold cancel
  cases s.tasks.lookup key with
  | none => exact ⟨rfl, rfl⟩
  | some i => exact ⟨rfl, rfl⟩

theorem good_spawn (h : s.Good written) {task : Task} (hfresh : task.Fresh s.sent) :
    (s.spawn task).Good written := by
  have hheld := held_spawn h.toHeld hfresh.aborted
  have hcancel := good_cancel h task.key
  have hsent := (kept_cancel s task.key).1
  refine ⟨hheld, ?_, ?_⟩
  · intro t ht
    change t ∈ (s.cancel task.key).spawned ++ [task] at ht
    change t.Delivers (s.cancel task.key).sent
    rcases List.mem_append.mp ht with hold | hnew
    · exact hcancel.delivers t hold
    · rw [List.mem_singleton.mp hnew, hsent]
      exact Task.delivers_fresh hfresh
  · intro i
    refine (hcancel.queue i).trans ?_
    change _ = ((((s.cancel task.key).spawned ++ [task])[i]?).map Task.passedOn).getD []
    rw [List.getElem?_append]
    split_ifs with hi
    · rfl
    · rw [List.getElem?_eq_none (not_lt.mp hi)]
      cases hget : [task][i - (s.cancel task.key).spawned.length]? with
      | none => rfl
      | some t =>
          have ht : t = task := List.mem_singleton.mp (List.mem_of_getElem? hget)
          rw [ht, Option.map_some, Option.getD_some, hfresh.passedOn]
          rfl

end Session

namespace Client

variable (sdk : Sdk) {c : Client}

def Good (c : Client) : Prop := c.session.Good c.written

theorem entriesOf_append (i : Nat) (a b : List (Nat × Outbound)) :
    entriesOf i (a ++ b) = entriesOf i a ++ entriesOf i b := by
  unfold entriesOf
  rw [List.filter_append, List.map_append]

theorem good_pass (h : c.Good) (i : Nat) : (c.pass i).Good := by
  unfold pass
  split_ifs
  · have hheld := Session.held_modify h.toHeld i (f := Task.pass) (fun _ => rfl) fun _ => rfl
    refine ⟨⟨hheld.held, hheld.live⟩, ?_, ?_⟩
    · intro t ht
      obtain ⟨t', ht', rfl | ⟨-, rfl⟩⟩ := Session.mem_modify ht
      · exact h.delivers t ht'
      · exact Task.delivers_pass (h.delivers t' ht')
    · intro i'
      change entriesOf i' (c.written ++ (c.session.outbound ++ _)) =
        (((c.session.spawned.modify i Task.pass)[i']?).map Task.passedOn).getD []
      rw [← List.append_assoc, entriesOf_append, h.queue i', List.getElem?_modify]
      by_cases hi : i = i'
      · subst hi
        cases c.session.spawned[i]? with
        | none => rfl
        | some t =>
            rw [Option.bind_some]
            cases hhand : t.hand <;> simp [Task.pass, entriesOf, hhand]
      · have hnone : entriesOf i' ((c.session.spawned[i]?.bind Task.hand).map fun o =>
            (i, o)).toList = [] := by
          cases c.session.spawned[i]?.bind Task.hand <;> simp [entriesOf, hi]
        rw [hnone, List.append_nil]
        simp [hi]
  · exact h

theorem good_write (h : c.Good) : c.write.Good := by
  unfold write
  split
  · rename_i o outbound _ houtbound
    refine ⟨⟨h.held, h.live⟩, h.delivers, fun i => ?_⟩
    rw [← h.queue i, houtbound, List.append_assoc, List.singleton_append]
  · exact h

/-- Every step keeps it. -/
theorem good_step (h : c.Good) (next : ClientStep) : (c.step sdk next).Good := by
  cases next with
  | request r a =>
      change (c.request sdk r a).Good
      unfold request
      split_ifs
      · unfold Good
        dsimp only
        rcases handleRequest_cases sdk with ⟨keys, hkeys⟩ | ⟨task, hspawn, hfresh, -⟩
        · rw [hkeys]
          exact Session.good_foldl_cancel h keys
        · rw [hspawn]
          exact Session.good_spawn h hfresh
      · exact h
  | publish feed m =>
      exact ⟨⟨h.held, h.live⟩, fun t ht => Task.delivers_send (h.delivers t ht) feed m, h.queue⟩
  | poll i =>
      exact Session.good_modify h i Task.keeps_poll fun t ht => Task.delivers_poll ht
  | wait i =>
      exact Session.good_modify h i Task.keeps_wait fun t ht => Task.delivers_wait ht
  | recv i j =>
      exact Session.good_modify h i (Task.keeps_recv _ j) fun t ht => Task.delivers_recv ht j
  | refresh i found =>
      exact Session.good_modify h i (Task.keeps_refresh _ found) fun t ht =>
        Task.delivers_refresh ht found
  | pass i => exact good_pass h i
  | write => exact good_write h
  | disconnect => exact h

theorem good_run (steps : List ClientStep) : (steps.foldl (step sdk) {}).Good :=
  List.foldlRecOn steps (step sdk) Session.good_start fun _ h next _ => good_step sdk h next

end Client

end Ws

end ClobIndexer
