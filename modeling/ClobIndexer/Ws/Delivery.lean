import ClobIndexer.HexSdk
import ClobIndexer.Ws.Feeds
/-!
# What a session is sent

Whatever requests, messages, tasks and writes do in whatever order: the subscriptions of a
session are those that its requests have left, each passes on what its receiver has heard and
its filter lets through, once and in order, and a message of a user goes only to those who have
asked for the address.
-/

namespace ClobIndexer

open Lib

namespace Ws

/-! ## The subscriptions of a run -/

/-- Some request has opened the subscription, and none has ended it since. -/
def LiveBy (steps : List ClientStep) (key : SubscriptionKey) : Prop :=
  ∃ before r a after, steps = before ++ .request r a :: after ∧ Opens r a key ∧
    ∀ r' a', .request r' a' ∈ after → ¬Closes r' key

theorem liveBy_concat_iff {steps : List ClientStep} {r : WsRequest} {a : Answer}
    {key : SubscriptionKey} :
    LiveBy (steps ++ [.request r a]) key ↔ Opens r a key ∨ LiveBy steps key ∧ ¬Closes r key := by
  constructor
  · rintro ⟨before, r', a', after, hsteps, hopens, hafter⟩
    induction after using List.reverseRecOn with
    | nil =>
        obtain ⟨-, hlast⟩ := List.append_inj' hsteps rfl
        cases hlast
        exact Or.inl hopens
    | append_singleton after last _ =>
        rw [← List.cons_append, ← List.append_assoc] at hsteps
        obtain ⟨hinit, hlast⟩ := List.append_inj' hsteps rfl
        cases hlast
        refine Or.inr ⟨⟨before, r', a', after, hinit, hopens, fun r'' a'' hmem => ?_⟩, ?_⟩
        · exact hafter r'' a'' (List.mem_append.mpr (Or.inl hmem))
        · exact hafter r a (List.mem_append.mpr (Or.inr List.mem_cons_self))
  · rintro (hopens | ⟨⟨before, r', a', after, rfl, hopens, hafter⟩, hnot⟩)
    · exact ⟨steps, r, a, [], rfl, hopens, fun _ _ hmem => absurd hmem List.not_mem_nil⟩
    · refine ⟨before, r', a', after ++ [.request r a], by simp, hopens, fun r'' a'' hmem => ?_⟩
      rcases List.mem_append.mp hmem with hold | hnew
      · exact hafter r'' a'' hold
      · cases List.mem_singleton.mp hnew
        exact hnot

theorem liveBy_concat_of_other {steps : List ClientStep} {next : ClientStep}
    {key : SubscriptionKey} (hnext : ∀ r a, next ≠ .request r a) :
    LiveBy (steps ++ [next]) key ↔ LiveBy steps key := by
  constructor
  · rintro ⟨before, r', a', after, hsteps, hopens, hafter⟩
    induction after using List.reverseRecOn with
    | nil =>
        obtain ⟨-, hlast⟩ := List.append_inj' hsteps rfl
        cases hlast
        exact absurd rfl (hnext r' a')
    | append_singleton after last _ =>
        rw [← List.cons_append, ← List.append_assoc] at hsteps
        obtain ⟨hinit, -⟩ := List.append_inj' hsteps rfl
        exact ⟨before, r', a', after, hinit, hopens,
          fun r'' a'' hmem => hafter r'' a'' (List.mem_append.mpr (Or.inl hmem))⟩
  · rintro ⟨before, r', a', after, rfl, hopens, hafter⟩
    refine ⟨before, r', a', after ++ [next], by simp, hopens, fun r'' a'' hmem => ?_⟩
    rcases List.mem_append.mp hmem with hold | hnew
    · exact hafter r'' a'' hold
    · exact absurd (List.mem_singleton.mp hnew).symm (hnext r'' a'')

section

variable (sdk : Sdk)

theorem Client.connected_of_step {c : Client} {next : ClientStep}
    (h : (c.step sdk next).connected = true) : c.connected = true := by
  by_contra hgone
  cases next with
  | request r a =>
      change (c.request sdk r a).connected = true at h
      unfold Client.request at h
      rw [if_neg hgone] at h
      exact hgone h
  | publish feed m => exact hgone h
  | poll i => exact hgone h
  | wait i => exact hgone h
  | recv i j => exact hgone h
  | refresh i found => exact hgone h
  | pass i =>
      change (c.pass i).connected = true at h
      unfold Client.pass at h
      rw [if_neg hgone] at h
      exact hgone h
  | write =>
      change c.write.connected = true at h
      unfold Client.write at h
      split at h
      · exact hgone h
      · exact hgone h
  | disconnect => cases h

theorem Client.tasks_step {c : Client} {next : ClientStep} (hnext : ∀ r a, next ≠ .request r a) :
    (c.step sdk next).session.tasks = c.session.tasks := by
  cases next with
  | request r a => exact absurd rfl (hnext r a)
  | publish feed m => rfl
  | poll i => rfl
  | wait i => rfl
  | recv i j => rfl
  | refresh i found => rfl
  | pass i =>
      change (c.pass i).session.tasks = _
      unfold Client.pass
      split_ifs <;> rfl
  | write =>
      change c.write.session.tasks = _
      unfold Client.write
      split <;> rfl
  | disconnect => rfl

theorem Session.key_cancel {s : Session} {key : SubscriptionKey} {t : Task}
    (h : t ∈ (s.cancel key).spawned) : ∃ t' ∈ s.spawned, t'.key = t.key := by
  unfold cancel at h
  cases hkey : s.tasks.lookup key with
  | none =>
      rw [hkey] at h
      exact ⟨t, h, rfl⟩
  | some i =>
      rw [hkey] at h
      obtain ⟨t', ht', rfl | ⟨-, rfl⟩⟩ := mem_modify h
      · exact ⟨t, ht', rfl⟩
      · exact ⟨t', ht', rfl⟩

theorem Session.key_foldl_cancel {s : Session} {keys : List SubscriptionKey} {t : Task}
    (h : t ∈ (keys.foldl (fun s key => s.cancel key) s).spawned) :
    ∃ t' ∈ s.spawned, t'.key = t.key := by
  induction keys generalizing s with
  | nil => exact ⟨t, h, rfl⟩
  | cons key keys ih =>
      obtain ⟨t', ht', hkey'⟩ := ih h
      obtain ⟨t'', ht'', hkey''⟩ := key_cancel ht'
      exact ⟨t'', ht'', hkey''.trans hkey'⟩

theorem Client.key_modify {c : Client} {i : Nat} {f : Task → Task}
    (hkey : ∀ t : Task, (f t).key = t.key) {t : Task} (h : t ∈ c.session.spawned.modify i f) :
    ∃ t' ∈ c.session.spawned, t'.key = t.key := by
  obtain ⟨t', ht', rfl | ⟨-, rfl⟩⟩ := Session.mem_modify h
  · exact ⟨t, ht', rfl⟩
  · exact ⟨t', ht', (hkey t').symm⟩

theorem Client.spawned_step {c : Client} {next : ClientStep} {t : Task}
    (h : t ∈ (c.step sdk next).session.spawned) :
    (∃ t' ∈ c.session.spawned, t'.key = t.key) ∨
      ∃ r a, next = .request r a ∧ Opens r a t.key := by
  cases next with
  | request r a =>
      change t ∈ (c.request sdk r a).session.spawned at h
      unfold Client.request at h
      split_ifs at h
      · dsimp only at h
        rcases handleRequest_cases sdk with ⟨keys, hkeys⟩ | ⟨task, hspawn, -, hopens⟩
        · rw [hkeys] at h
          exact Or.inl (Session.key_foldl_cancel h)
        · rw [hspawn] at h
          rcases List.mem_append.mp h with hold | hnew
          · exact Or.inl (Session.key_cancel hold)
          · rw [List.mem_singleton.mp hnew]
            exact Or.inr ⟨r, a, rfl, hopens⟩
      · exact Or.inl ⟨t, h, rfl⟩
  | publish feed m => exact Or.inl ⟨t, h, rfl⟩
  | poll i => exact Or.inl (key_modify (fun t => (Task.keeps_poll t).key) h)
  | wait i => exact Or.inl (key_modify (fun t => (Task.keeps_wait t).key) h)
  | recv i j => exact Or.inl (key_modify (fun t => (Task.keeps_recv _ j t).key) h)
  | refresh i found => exact Or.inl (key_modify (fun t => (Task.keeps_refresh _ found t).key) h)
  | pass i =>
      change t ∈ (c.pass i).session.spawned at h
      unfold Client.pass at h
      split_ifs at h
      · exact Or.inl (key_modify (f := Task.pass) (fun _ => rfl) h)
      · exact Or.inl ⟨t, h, rfl⟩
  | write =>
      change t ∈ c.write.session.spawned at h
      unfold Client.write at h
      split at h
      · exact Or.inl ⟨t, h, rfl⟩
      · exact Or.inl ⟨t, h, rfl⟩
  | disconnect => exact Or.inl ⟨t, h, rfl⟩

/-- Every task is of a subscription that some request has opened. -/
theorem opened_of_run (steps : List ClientStep) :
    ∀ t ∈ (steps.foldl (Client.step sdk) {}).session.spawned,
      ∃ r a, .request r a ∈ steps ∧ Opens r a t.key := by
  induction steps using List.reverseRecOn with
  | nil => exact fun t ht => absurd ht List.not_mem_nil
  | append_singleton steps next ih =>
      intro t ht
      rw [List.foldl_append] at ht
      rcases Client.spawned_step sdk ht with ⟨t', ht', hkey⟩ | ⟨r, a, rfl, hopens⟩
      · obtain ⟨r, a, hmem, hopens⟩ := ih t' ht'
        exact ⟨r, a, List.mem_append.mpr (Or.inl hmem), hkey ▸ hopens⟩
      · exact ⟨r, a, List.mem_append.mpr (Or.inr List.mem_cons_self), hopens⟩

/-- While the client is connected, whatever else happens: its subscriptions are those that a
request has opened and none has ended since, each has one task that was not aborted, and all
other tasks were. -/
theorem subscriptions_of_run (steps : List ClientStep)
    (h : (steps.foldl (Client.step sdk) {}).connected = true) :
    (∀ key, key ∈ (steps.foldl (Client.step sdk) {}).session.tasks ↔ LiveBy steps key) ∧
      (∀ key i, (steps.foldl (Client.step sdk) {}).session.tasks.lookup key = some i →
        ∃ t, (steps.foldl (Client.step sdk) {}).session.spawned[i]? = some t ∧ t.key = key ∧
          t.aborted = false) ∧
      ∀ i t, (steps.foldl (Client.step sdk) {}).session.spawned[i]? = some t →
        (t.aborted = false ↔
          (steps.foldl (Client.step sdk) {}).session.tasks.lookup t.key = some i) := by
  have hgood := Client.good_run sdk steps
  refine ⟨?_, hgood.held, ?_⟩
  · clear hgood
    induction steps using List.reverseRecOn with
    | nil =>
        refine fun key => iff_of_false (fun hmem => AList.notMem_empty key hmem) ?_
        rintro ⟨before, r, a, after, hsteps, -⟩
        cases before <;> cases hsteps
    | append_singleton steps next ih =>
        rw [List.foldl_append, List.foldl_cons, List.foldl_nil] at h ⊢
        have hconnected := Client.connected_of_step sdk h
        have hold := ih hconnected
        intro key
        by_cases hnext : ∃ r a, next = .request r a
        · obtain ⟨r, a, rfl⟩ := hnext
          change (Client.request sdk r a _).connected = true at h
          change key ∈ (Client.request sdk r a _).session.tasks ↔ _
          unfold Client.request at h ⊢
          rw [if_pos hconnected] at h ⊢
          dsimp only at h ⊢
          rw [mem_handleRequest sdk h, hold, liveBy_concat_iff]
        · have hother : ∀ r a, next ≠ .request r a := fun r a heq => hnext ⟨r, a, heq⟩
          rw [Client.tasks_step sdk hother, hold, liveBy_concat_of_other hother]
  · intro i t ht
    constructor
    · exact hgood.live i t ht
    · intro hlookup
      obtain ⟨t', ht', -, hlive⟩ := hgood.held t.key i hlookup
      cases ht.symm.trans ht'
      exact hlive

def Client.given (c : Client) (i : Nat) (t : Task) (feed : Feed) : List Nat :=
  (entriesOf i (c.written ++ c.session.outbound) ++ t.hand.toList).filterMap
    (Outbound.numberOn feed)

/-- Whatever happens, a task gives its client the messages that its receiver has heard since it
was opened and its filter lets through, once and in order; all of them, where the receiver has
never lagged behind. -/
theorem delivered_of_run (steps : List ClientStep) (i : Nat) (t : Task) (feed : Feed)
    (r : Broadcast.Receiver)
    (ht : (steps.foldl (Client.step sdk) {}).session.spawned[i]? = some t)
    (hr : (feed, r) ∈ t.receivers) :
    let c := steps.foldl (Client.step sdk) {}
    c.given i t feed = r.taken.filter (t.passes (c.session.sent feed)) ∧
      r.Sound (c.session.sent feed) ∧
      (r.skipped = 0 → c.given i t feed =
        (List.range' r.opened (r.cursor - r.opened)).filter (t.passes (c.session.sent feed))) := by
  have hgood := Client.good_run sdk steps
  generalize steps.foldl (Client.step sdk) {} = c at ht hgood
  dsimp only
  have hdelivers := hgood.delivers t (List.mem_of_getElem? ht)
  have hsound : r.Sound (c.session.sent feed) := hdelivers.sound _ hr
  have hgiven : c.given i t feed = r.taken.filter (t.passes (c.session.sent feed)) := by
    unfold Client.given
    rw [hgood.queue i, ht]
    exact hdelivers.delivered _ hr
  refine ⟨hgiven, hsound, fun hskipped => ?_⟩
  have hcounted := hsound.counted
  have hlength : r.taken.length = r.cursor - r.opened := by omega
  rw [hgiven, hsound.whole hskipped, hlength]

/-- A message of the user feeds is given only by a task of an address that the client has asked
for, and only where the message is of that address. -/
theorem asked_of_run (steps : List ClientStep) (i n : Nat) (feed : Feed)
    (hfeed : feed = .user ∨ feed = .paperUser)
    (hgiven : (i, .message feed n) ∈ (steps.foldl (Client.step sdk) {}).written ++
      (steps.foldl (Client.step sdk) {}).session.outbound) :
    ∃ t u r a m, (steps.foldl (Client.step sdk) {}).session.spawned[i]? = some t ∧
      (t.key = .user u ∨ t.key = .paperUser u) ∧ .request r a ∈ steps ∧ Opens r a t.key ∧
      ((steps.foldl (Client.step sdk) {}).session.sent feed)[n]? = some m ∧
      Text.eqIgnoreAsciiCase m.userAddress u = true := by
  have hopened := opened_of_run sdk steps
  have hgood := Client.good_run sdk steps
  generalize steps.foldl (Client.step sdk) {} = c at hgiven hopened hgood ⊢
  have hentry : .message feed n ∈ entriesOf i (c.written ++ c.session.outbound) := by
    unfold entriesOf
    exact List.mem_map.mpr ⟨_, List.mem_filter.mpr ⟨hgiven, decide_eq_true rfl⟩, rfl⟩
  rw [hgood.queue i] at hentry
  cases ht : c.session.spawned[i]? with
  | none =>
      rw [ht] at hentry
      cases hentry
  | some t =>
      rw [ht] at hentry
      have hmem : t ∈ c.session.spawned := List.mem_of_getElem? ht
      have hdelivers := hgood.delivers t hmem
      have hpassed : .message feed n ∈ t.passedOn ++ t.hand.toList :=
        List.mem_append.mpr (Or.inl hentry)
      obtain ⟨r, hr⟩ := hdelivers.only feed n hpassed
      -- the filter of the task has let the message through
      have hnumber : n ∈ t.numbers feed :=
        List.mem_filterMap.mpr ⟨_, hpassed, if_pos rfl⟩
      rw [hdelivers.delivered _ hr] at hnumber
      have hpasses := (List.mem_filter.mp hnumber).2
      unfold Task.passes at hpasses
      cases hm : (c.session.sent feed)[n]? with
      | none =>
          rw [hm] at hpasses
          cases hpasses
      | some m =>
          rw [hm, Option.map_some, Option.getD_some] at hpasses
          obtain ⟨r', a, hrequest, hopens⟩ := hopened t hmem
          have hhears := hdelivers.hears _ hr
          have haddress := hdelivers.address
          unfold Task.forwards at hpasses
          cases hkey : t.key with
          | user u =>
              rw [hkey] at hpasses haddress
              rw [haddress u rfl] at hpasses
              exact ⟨t, u, r', a, m, rfl, Or.inl hkey, hrequest, hopens, rfl, hpasses⟩
          | paperUser u =>
              rw [hkey] at hpasses haddress
              rw [haddress u rfl] at hpasses
              exact ⟨t, u, r', a, m, rfl, Or.inr hkey, hrequest, hopens, rfl, hpasses⟩
          | paperUserState k =>
              rw [hkey] at hpasses
              cases hpasses
          | _ =>
              rw [hkey] at hhears
              rcases hfeed with rfl | rfl <;> cases hhears

/-- Where the task of a user state has nothing more to hear or to do, it has read the state after
the last message of the user on the market and the last one of the stakes, even if it has
lagged behind. -/
theorem userState_of_run (steps : List ClientStep) (t : Task) (key : String)
    (ht : t ∈ (steps.foldl (Client.step sdk) {}).session.spawned)
    (hkey : t.key = .paperUserState key) (hidle : t.refreshing = false) (feed : Feed)
    (r : Broadcast.Receiver) (hr : (feed, r) ∈ t.receivers)
    (hheard : r.cursor = ((steps.foldl (Client.step sdk) {}).session.sent feed).length) (n : Nat)
    (m : FeedMessage)
    (hm : ((steps.foldl (Client.step sdk) {}).session.sent feed)[n]? = some m)
    (hrefreshes : t.refreshes feed m = true) : n < t.readAt feed := by
  have hfresh := ((Client.good_run sdk steps).delivers t ht).fresh ⟨key, hkey⟩ _ hr n m
  obtain ⟨hlt, -⟩ := List.getElem?_eq_some_iff.mp hm
  rw [← hheard] at hlt
  by_contra hread
  have hbusy := hfresh (not_lt.mp hread) hlt hm hrefreshes
  rw [hidle] at hbusy
  cases hbusy

end

namespace Sample

open ClobIndexer.Sample (sdk)

/-- A client asks for the messages of a user, and messages of two users are sent. -/
def userSteps : List ClientStep :=
  [.request { op := "subscribe", channel := "user", userAddress := "0xAB" } {},
    .publish .user { userAddress := "0xab", text := "filled" },
    .publish .user { userAddress := "0xcd", text := "cancelled" },
    .poll 0, .recv 0 0, .pass 0, .recv 0 0, .wait 0, .write]

def afterUser : Client := userSteps.foldl (Client.step sdk) {}

def userTask : Task := afterUser.session.spawned.get ⟨0, by decide +kernel⟩

theorem subscriptions_userSteps : .user "0xAB" ∈ afterUser.session.tasks := by
  refine ((subscriptions_of_run sdk userSteps (by decide +kernel)).1 _).mpr ?_
  refine ⟨[], _, {}, _, rfl, ⟨rfl, by decide +kernel, ?_⟩, by simp⟩
  change given (some "0xAB") = some "0xAB"
  decide +kernel

/-- The second message is heard and not passed on. -/
theorem delivered_userSteps : afterUser.given 0 userTask .user = [0, 1].filter
    (userTask.passes (afterUser.session.sent .user)) :=
  (delivered_of_run sdk userSteps 0 userTask .user ⟨0, 2, [0, 1], 0⟩
    (List.getElem?_eq_getElem _) (by decide +kernel)).1

theorem asked_userSteps : ∃ t u r a m, afterUser.session.spawned[0]? = some t ∧
    (t.key = .user u ∨ t.key = .paperUser u) ∧ .request r a ∈ userSteps ∧ Opens r a t.key ∧
      (afterUser.session.sent .user)[0]? = some m ∧
      Text.eqIgnoreAsciiCase m.userAddress u = true :=
  asked_of_run sdk userSteps 0 0 .user (Or.inl rfl) (by decide +kernel)

def stateSteps : List ClientStep :=
  [.request
      { op := "subscribe", channel := "paper.user.state", userAddress := "0xAB", market := "0x01" }
      {},
    .publish .paperUser { userAddress := "0xab", market := "0x01", text := "opened" },
    .poll 0, .recv 0 0, .refresh 0 true, .pass 0, .wait 0, .write]

def afterState : Client := stateSteps.foldl (Client.step sdk) {}

def stateTask : Task := afterState.session.spawned.get ⟨0, by decide +kernel⟩

theorem userState_stateSteps : 0 < stateTask.readAt .paperUser :=
  userState_of_run sdk stateSteps stateTask "0xab|0x01" (List.get_mem _ _) (by decide +kernel)
    (by decide +kernel) .paperUser ⟨0, 1, [0], 0⟩ (by decide +kernel) (by decide +kernel) 0
    { userAddress := "0xab", market := "0x01", text := "opened" } (by decide +kernel)
    (by decide +kernel)

end Sample

end Ws

end ClobIndexer
