import ClobIndexer.HexSdk
import ClobIndexer.Ws.Delivery
/-!
# One subscription a market

A session has a task for each spelling under which the deltas of a book were subscribed.  A
subscription aborts the task of its own spelling, an unsubscription those of its spelling up to
the case of letters, and the deltas come by the normalized market.  A task that is aborted while a
worker runs it goes on until it next waits, and the receiver of the next one is there before that.
What a task passes on waits in the queue of the session before it is written to the socket; an
acknowledgement does not wait.
-/

namespace ClobIndexer

open Lib

namespace Ws

namespace Task

def live (t : Task) : Bool := !t.aborted || t.running

def Serves (key : String) (t : Task) : Prop := ∃ x ∈ t.receivers, x.1 = .orderbook key

instance (key : String) : DecidablePred (Serves key) := fun t =>
  inferInstanceAs (Decidable (∃ x ∈ t.receivers, x.1 = .orderbook key))

end Task

def Outbound.delta : Outbound → Option (String × Nat)
  | .message (.orderbook key) n => some (key, n)
  | _ => none

/-- A client, with the markets of which it was last told that they are unsubscribed. -/
structure Follower where
  client : Client := {}
  unsubscribed : List String := []

namespace WsRequest

def book (r : WsRequest) : Option String :=
  if r.channel = some Channel.orderbookDelta.name then given r.spotMarket else none

/-- The market that the request subscribes, if its book is loaded and shown. -/
def subscribesBook (r : WsRequest) (a : Answer) : Option String :=
  if r.op = "subscribe" ∧ a.rehydrated.isOk = true ∧ (a.snapshot.isNone ∨ a.sinkOpen) then r.book
  else none

def unsubscribesBook (r : WsRequest) : Option String :=
  if r.op = "unsubscribe" then r.book else none

end WsRequest

section

variable (sdk : Sdk)

namespace Follower

def acknowledge (unsubscribed : List String) : Reply → List String
  | .subscribed .orderbookDelta m => unsubscribed.filter (· ≠ normalizeSpotMarketKey sdk m)
  | .unsubscribed .orderbookDelta m => normalizeSpotMarketKey sdk m :: unsubscribed
  | _ => unsubscribed

def step (f : Follower) (next : ClientStep) : Follower where
  client := f.client.step sdk next
  unsubscribed :=
    match next with
    | .request r a =>
        if f.client.connected then
          (handleRequest sdk a r f.client.session).replies.foldl (acknowledge sdk) f.unsubscribed
        else f.unsubscribed
    | _ => f.unsubscribed

/-- Every market has one live task at most, and none after it was unsubscribed; no delta is sent
twice, and none of the market after the acknowledgement. -/
structure OneSubscription (f : Follower) : Prop where
  one : ∀ (i j : Nat) t t' key, f.client.session.spawned[i]? = some t →
    f.client.session.spawned[j]? = some t' → t.live = true → t'.live = true →
      t.Serves key → t'.Serves key → i = j
  none_after : ∀ t ∈ f.client.session.spawned, t.live = true →
    ∀ key ∈ f.unsubscribed, ¬t.Serves key
  sent_once : ((f.client.written ++ f.client.session.outbound).filterMap fun e => e.2.delta).Nodup
  none_sent : ∀ e ∈ f.client.session.outbound, ∀ x ∈ e.2.delta, x.1 ∉ f.unsubscribed

/-- When the market is subscribed, no worker runs a task of the market, none goes on under another
spelling, and the receiver holds no delta that one of them has taken. -/
def TakesOver (m : String) (held : Feed → Nat) (s : Session) : Prop :=
  ∀ t ∈ s.spawned, ∀ x ∈ t.receivers, x.1 = .orderbook (normalizeSpotMarketKey sdk m) →
    t.running = false ∧ (t.aborted = false → t.key = .orderbook m) ∧
      ∀ n ∈ x.2.taken, n < (s.sent x.1).length - held x.1

/-- When the market is unsubscribed, no worker runs a task of the market, none goes on under a
spelling that differs by more than case, and nothing of the market waits to be written. -/
def Leaves (m : String) (s : Session) : Prop :=
  (∀ t ∈ s.spawned, t.Serves (normalizeSpotMarketKey sdk m) →
    t.running = false ∧
      (t.aborted = false → Session.names .orderbookDelta (some m) t.key = true)) ∧
    ∀ e ∈ s.outbound, ∀ x ∈ e.2.delta, x.1 ≠ normalizeSpotMarketKey sdk m

def SpelledAlike (f : Follower) : ClientStep → Prop
  | .request r a =>
      f.client.connected = true →
        (∀ m ∈ r.subscribesBook a, TakesOver sdk m a.held f.client.session) ∧
          ∀ m ∈ r.unsubscribesBook, Leaves sdk m f.client.session
  | _ => True

instance (m : String) (held : Feed → Nat) (s : Session) : Decidable (TakesOver sdk m held s) := by
  unfold TakesOver
  infer_instance

instance (m : String) (s : Session) : Decidable (Leaves sdk m s) := by
  unfold Leaves
  infer_instance

instance (f : Follower) (next : ClientStep) : Decidable (f.SpelledAlike sdk next) := by
  unfold SpelledAlike
  cases next <;> infer_instance

end Follower

/-! ## What tasks may do -/

namespace Task

/-- A step of a task: it takes the next message of a receiver at most, and only while it is live. -/
structure Moves (t t' : Task) : Prop where
  key : t'.key = t.key
  live : t'.live = true → t.live = true
  busy : (t.hand ≠ none → t.running = true) → t'.hand ≠ none → t'.running = true
  heard : ∀ feed r', (feed, r') ∈ t'.receivers → ∃ r, (feed, r) ∈ t.receivers ∧
    r.cursor ≤ r'.cursor ∧ ∀ n ∈ r'.taken, n ∈ r.taken ∨ t.live = true ∧ n = r.cursor

structure Aborts (t t' : Task) : Prop where
  key : t'.key = t.key
  receivers : t'.receivers = t.receivers
  running : t'.running = t.running
  hand : t'.hand = t.hand
  aborted : t'.aborted = false → t.aborted = false

variable {t t' : Task}

theorem live_iff : t.live = true ↔ t.aborted = false ∨ t.running = true := by
  simp [live]

theorem moves_of_same_receivers (hkey : t'.key = t.key) (hlive : t'.live = true → t.live = true)
    (hbusy : (t.hand ≠ none → t.running = true) → t'.hand ≠ none → t'.running = true)
    (hreceivers : t'.receivers = t.receivers) : t.Moves t' where
  key := hkey
  live := hlive
  busy := hbusy
  heard := fun _ r hr => ⟨r, hreceivers ▸ hr, le_rfl, fun _ hn => Or.inl hn⟩

theorem moves_refl (t : Task) : t.Moves t := moves_of_same_receivers rfl id id rfl

theorem moves_of_aborts (h : t.Aborts t') : t.Moves t' := by
  refine moves_of_same_receivers h.key ?_ ?_ h.receivers
  · rw [live_iff, live_iff, h.running]
    exact Or.imp_left h.aborted
  · rw [h.hand, h.running]
    exact id

theorem moves_poll (t : Task) : t.Moves t.poll := by
  unfold poll
  split_ifs with haborted
  · exact moves_refl t
  · exact moves_of_same_receivers rfl (fun _ => live_iff.mpr (Or.inl (by simpa using haborted)))
      (fun _ _ => rfl) rfl

theorem moves_wait (t : Task) : t.Moves t.wait := by
  unfold wait
  split_ifs with hhand
  · refine moves_of_same_receivers rfl ?_ (fun _ hsome => absurd hhand hsome) rfl
    intro hlive
    rcases live_iff.mp hlive with haborted | hrunning
    · exact live_iff.mpr (Or.inl haborted)
    · cases hrunning
  · exact moves_refl t

theorem moves_refresh (sent : Feed → List FeedMessage) (found : Bool) (t : Task) :
    t.Moves (t.refresh sent found) := by
  unfold refresh
  by_cases hready : t.running = true ∧ t.refreshing = true ∧ t.hand = none
  · rw [if_pos hready]
    exact moves_of_same_receivers rfl id (fun _ _ => hready.1) rfl
  · rw [if_neg hready]
    exact moves_refl t

theorem moves_pass (t : Task) : t.Moves t.pass :=
  moves_of_same_receivers rfl id (fun _ hsome => absurd rfl hsome) rfl

theorem moves_recv (sent : Feed → List FeedMessage) (j : Nat) (t : Task) :
    t.Moves (t.recv sent j) := by
  unfold recv
  split_ifs with hbusy
  · exact moves_refl t
  · obtain ⟨hrunning, -⟩ := not_or.mp hbusy
    rw [Bool.not_eq_false] at hrunning
    cases hj : t.receivers[j]? with
    | none => exact moves_refl t
    | some x =>
        obtain ⟨feed, r⟩ := x
        dsimp only
        obtain ⟨hcursor, htaken⟩ := Broadcast.recv_forward feed.capacity (sent feed) r
        have hheard : ∀ r', (Broadcast.recv feed.capacity (sent feed) r).2 = r' →
            ∀ f r'', (f, r'') ∈ t.receivers.set j (feed, r') → ∃ r₀, (f, r₀) ∈ t.receivers ∧
              r₀.cursor ≤ r''.cursor ∧ ∀ n ∈ r''.taken, n ∈ r₀.taken ∨ t.live = true ∧ n = r₀.cursor := by
          rintro r' rfl f r'' hmem
          rcases List.mem_or_eq_of_mem_set hmem with hold | hnew
          · exact ⟨r'', hold, le_rfl, fun n hn => Or.inl hn⟩
          · cases hnew
            exact ⟨r, List.mem_of_getElem? hj, hcursor, fun n hn =>
              (htaken n hn).imp_right fun hn => ⟨live_iff.mpr (Or.inr hrunning), hn⟩⟩
        cases hrecv : Broadcast.recv feed.capacity (sent feed) r with
        | mk told r' =>
            rw [hrecv] at hheard
            cases told with
            | empty => exact moves_refl t
            | message n m => exact ⟨rfl, id, fun _ _ => hrunning, hheard r' rfl⟩
            | lagged skipped => exact ⟨rfl, id, fun _ _ => hrunning, hheard r' rfl⟩

end Task

/-! ## One live task a market -/

/-- One task of a market goes on at most, and takes what no other has taken. -/
structure Orderly (unsubscribed : List String) (tasks : List Task) : Prop where
  one : ∀ (i j : Nat) t t' key, tasks[i]? = some t → tasks[j]? = some t' → t.live = true →
    t'.live = true → t.Serves key → t'.Serves key → i = j
  none_after : ∀ t ∈ tasks, t.live = true → ∀ key ∈ unsubscribed, ¬t.Serves key
  /-- what was taken does not come again -/
  once : ∀ (i j : Nat) t t' key r r', tasks[i]? = some t → tasks[j]? = some t' → i ≠ j →
    t'.live = true → (.orderbook key, r) ∈ t.receivers → (.orderbook key, r') ∈ t'.receivers →
      ∀ n ∈ r.taken, n < r'.cursor
  apart : ∀ (i j : Nat) t t' key r r', tasks[i]? = some t → tasks[j]? = some t' → i ≠ j →
    (.orderbook key, r) ∈ t.receivers → (.orderbook key, r') ∈ t'.receivers →
      ∀ n ∈ r.taken, n ∉ r'.taken
  book : ∀ t ∈ tasks, ∀ key, t.Serves key →
    ∃ m, t.key = .orderbook m ∧ normalizeSpotMarketKey sdk m = key
  busy : ∀ t ∈ tasks, t.hand ≠ none → t.running = true

namespace Orderly

variable {sdk} {unsubscribed : List String} {tasks tasks' : List Task}

theorem serves_of_mem {t : Task} {key : String} {r : Broadcast.Receiver}
    (h : (.orderbook key, r) ∈ t.receivers) : t.Serves key := ⟨_, h, rfl⟩

theorem nil (unsubscribed : List String) : Orderly sdk unsubscribed [] where
  one := fun i _ _ _ _ h => by simp at h
  none_after := fun _ ht => absurd ht List.not_mem_nil
  once := fun i _ _ _ _ _ _ h => by simp at h
  apart := fun i _ _ _ _ _ _ h => by simp at h
  book := fun _ ht => absurd ht List.not_mem_nil
  busy := fun _ ht => absurd ht List.not_mem_nil

theorem mono (h : Orderly sdk unsubscribed tasks) {fewer : List String}
    (hsub : fewer ⊆ unsubscribed) : Orderly sdk fewer tasks :=
  { h with none_after := fun t ht hlive key hkey => h.none_after t ht hlive key (hsub hkey) }

/-- Steps of tasks keep them in order. -/
theorem moves (h : Orderly sdk unsubscribed tasks)
    (hmoves : ∀ (i : Nat) t', tasks'[i]? = some t' → ∃ t, tasks[i]? = some t ∧ t.Moves t') :
    Orderly sdk unsubscribed tasks' := by
  have hserves : ∀ {t t' : Task} {key : String}, t.Moves t' → t'.Serves key → t.Serves key := by
    rintro t t' key hmove ⟨⟨feed, r'⟩, hr', rfl⟩
    obtain ⟨r, hr, -⟩ := hmove.heard _ r' hr'
    exact serves_of_mem hr
  refine ⟨?_, ?_, ?_, ?_, ?_, ?_⟩
  · intro i j t t' key hi hj hlive hlive' hkey hkey'
    obtain ⟨u, hu, hmove⟩ := hmoves i t hi
    obtain ⟨u', hu', hmove'⟩ := hmoves j t' hj
    exact h.one i j u u' key hu hu' (hmove.live hlive) (hmove'.live hlive') (hserves hmove hkey)
      (hserves hmove' hkey')
  · intro t ht hlive key hkey hserved
    obtain ⟨i, hi⟩ := List.mem_iff_getElem?.mp ht
    obtain ⟨u, hu, hmove⟩ := hmoves i t hi
    exact h.none_after u (List.mem_of_getElem? hu) (hmove.live hlive) key hkey
      (hserves hmove hserved)
  · intro i j t t' key r r' hi hj hne hlive hr hr' n hn
    obtain ⟨u, hu, hmove⟩ := hmoves i t hi
    obtain ⟨u', hu', hmove'⟩ := hmoves j t' hj
    obtain ⟨r₀, hr₀, -, htaken⟩ := hmove.heard _ r hr
    obtain ⟨r₀', hr₀', hcursor, -⟩ := hmove'.heard _ r' hr'
    rcases htaken n hn with hold | ⟨hlive₀, -⟩
    · exact lt_of_lt_of_le
        (h.once i j u u' key r₀ r₀' hu hu' hne (hmove'.live hlive) hr₀ hr₀' n hold) hcursor
    · -- the other task is live, so this one is not
      exact absurd (h.one i j u u' key hu hu' hlive₀ (hmove'.live hlive) (serves_of_mem hr₀)
        (serves_of_mem hr₀')) hne
  · intro i j t t' key r r' hi hj hne hr hr' n hn hn'
    obtain ⟨u, hu, hmove⟩ := hmoves i t hi
    obtain ⟨u', hu', hmove'⟩ := hmoves j t' hj
    obtain ⟨r₀, hr₀, -, htaken⟩ := hmove.heard _ r hr
    obtain ⟨r₀', hr₀', -, htaken'⟩ := hmove'.heard _ r' hr'
    rcases htaken n hn with hold | ⟨hlive, rfl⟩
    · rcases htaken' n hn' with hold' | ⟨hlive', rfl⟩
      · exact h.apart i j u u' key r₀ r₀' hu hu' hne hr₀ hr₀' n hold hold'
      · exact absurd (h.once i j u u' key r₀ r₀' hu hu' hne hlive' hr₀ hr₀' _ hold) (lt_irrefl _)
    · rcases htaken' _ hn' with hold' | ⟨hlive', -⟩
      · exact absurd (h.once j i u' u key r₀' r₀ hu' hu hne.symm hlive hr₀' hr₀ _ hold')
          (lt_irrefl _)
      · exact hne (h.one i j u u' key hu hu' hlive hlive' (serves_of_mem hr₀)
          (serves_of_mem hr₀'))
  · intro t ht key hkey
    obtain ⟨i, hi⟩ := List.mem_iff_getElem?.mp ht
    obtain ⟨u, hu, hmove⟩ := hmoves i t hi
    obtain ⟨m, hm, hnormal⟩ := h.book u (List.mem_of_getElem? hu) key (hserves hmove hkey)
    exact ⟨m, hmove.key.trans hm, hnormal⟩
  · intro t ht
    obtain ⟨i, hi⟩ := List.mem_iff_getElem?.mp ht
    obtain ⟨u, hu, hmove⟩ := hmoves i t hi
    exact hmove.busy (h.busy u (List.mem_of_getElem? hu))

theorem modify (h : Orderly sdk unsubscribed tasks) (i : Nat) {f : Task → Task}
    (hf : ∀ t : Task, t.Moves (f t)) : Orderly sdk unsubscribed (tasks.modify i f) := by
  refine h.moves fun k t' hk => ?_
  rw [List.getElem?_modify] at hk
  obtain ⟨t, ht, rfl⟩ := Option.map_eq_some_iff.mp hk
  refine ⟨t, ht, ?_⟩
  split_ifs
  · exact hf t
  · exact Task.moves_refl t

/-- A new task, where none of its markets has a live one. -/
theorem concat (h : Orderly sdk unsubscribed tasks) {task : Task} (hhand : task.hand = none)
    (hbook : ∀ key, task.Serves key →
      ∃ m, task.key = .orderbook m ∧ normalizeSpotMarketKey sdk m = key)
    (htaken : ∀ x ∈ task.receivers, x.2.taken = [])
    (hnew : ∀ key r', (.orderbook key, r') ∈ task.receivers → ∀ t ∈ tasks, ∀ r,
      (.orderbook key, r) ∈ t.receivers → t.live = false ∧ ∀ n ∈ r.taken, n < r'.cursor)
    (hunsubscribed : ∀ key ∈ unsubscribed, ¬task.Serves key) :
    Orderly sdk unsubscribed (tasks ++ [task]) := by
  have hcases : ∀ {i : Nat} {t : Task}, (tasks ++ [task])[i]? = some t →
      tasks[i]? = some t ∨ i = tasks.length ∧ t = task := by
    intro i t hi
    rw [List.getElem?_append] at hi
    split_ifs at hi with hlt
    · exact Or.inl hi
    · rw [List.getElem?_singleton] at hi
      split_ifs at hi with hzero
      cases hi
      exact Or.inr ⟨by omega, rfl⟩
  have hdead : ∀ {i : Nat} {t : Task} {key : String}, tasks[i]? = some t → t.live = true →
      t.Serves key → ¬task.Serves key := by
    rintro i t key hi hlive ⟨⟨_, r⟩, hr, rfl⟩ ⟨⟨_, r'⟩, hr', rfl⟩
    have hnot := (hnew key r' hr' t (List.mem_of_getElem? hi) r hr).1
    rw [hlive] at hnot
    cases hnot
  refine ⟨?_, ?_, ?_, ?_, ?_, ?_⟩
  · intro i j t t' key hi hj hlive hlive' hkey hkey'
    rcases hcases hi with hold | ⟨rfl, rfl⟩
    · rcases hcases hj with hold' | ⟨rfl, rfl⟩
      · exact h.one i j t t' key hold hold' hlive hlive' hkey hkey'
      · exact absurd hkey' (hdead hold hlive hkey)
    · rcases hcases hj with hold' | ⟨rfl, rfl⟩
      · exact absurd hkey (hdead hold' hlive' hkey')
      · rfl
  · intro t ht hlive key hkey
    rcases List.mem_append.mp ht with hold | hlast
    · exact h.none_after t hold hlive key hkey
    · rw [List.mem_singleton.mp hlast]
      exact hunsubscribed key hkey
  · intro i j t t' key r r' hi hj hne hlive hr hr' n hn
    rcases hcases hi with hold | ⟨rfl, rfl⟩
    · rcases hcases hj with hold' | ⟨rfl, rfl⟩
      · exact h.once i j t t' key r r' hold hold' hne hlive hr hr' n hn
      · exact (hnew key r' hr' t (List.mem_of_getElem? hold) r hr).2 n hn
    · rw [htaken _ hr] at hn
      cases hn
  · intro i j t t' key r r' hi hj hne hr hr' n hn hn'
    rcases hcases hi with hold | ⟨rfl, rfl⟩
    · rcases hcases hj with hold' | ⟨rfl, rfl⟩
      · exact h.apart i j t t' key r r' hold hold' hne hr hr' n hn hn'
      · rw [htaken _ hr'] at hn'
        cases hn'
    · rw [htaken _ hr] at hn
      cases hn
  · intro t ht
    rcases List.mem_append.mp ht with hold | hlast
    · exact h.book t hold
    · rw [List.mem_singleton.mp hlast]
      exact hbook
  · intro t ht
    rcases List.mem_append.mp ht with hold | hlast
    · exact h.busy t hold
    · rw [List.mem_singleton.mp hlast]
      exact fun hsome => absurd hhand hsome

end Orderly

/-! ## What is aborted -/

namespace Session

variable {s : Session}

theorem length_cancel (s : Session) (key : SubscriptionKey) :
    (s.cancel key).spawned.length = s.spawned.length := by
  unfold cancel
  cases s.tasks.lookup key with
  | none => rfl
  | some i => exact List.length_modify ..

theorem aborts_cancel (s : Session) (key : SubscriptionKey) {i : Nat} {t' : Task}
    (h : (s.cancel key).spawned[i]? = some t') : ∃ t, s.spawned[i]? = some t ∧ t.Aborts t' := by
  unfold cancel at h
  cases hkey : s.tasks.lookup key with
  | none =>
      rw [hkey] at h
      exact ⟨t', h, rfl, rfl, rfl, rfl, id⟩
  | some k =>
      rw [hkey] at h
      change (s.spawned.modify k _)[i]? = some t' at h
      rw [List.getElem?_modify] at h
      obtain ⟨t, ht, rfl⟩ := Option.map_eq_some_iff.mp h
      refine ⟨t, ht, ?_⟩
      split_ifs
      · exact ⟨rfl, rfl, rfl, rfl, nofun⟩
      · exact ⟨rfl, rfl, rfl, rfl, id⟩

theorem lookup_cancel (s : Session) (key key' : SubscriptionKey) :
    (s.cancel key).tasks.lookup key' = if key' = key then none else s.tasks.lookup key' := by
  unfold cancel
  cases hkey : s.tasks.lookup key with
  | none =>
      split_ifs with heq
      · rw [heq]
        exact hkey
      · rfl
  | some i => exact Dict.lookup_erase_ite ..

variable (keys : List SubscriptionKey)

theorem length_foldl_cancel (s : Session) :
    (keys.foldl (fun s key => s.cancel key) s).spawned.length = s.spawned.length := by
  induction keys generalizing s with
  | nil => rfl
  | cons key keys ih => exact (ih (s.cancel key)).trans (length_cancel s key)

theorem aborts_foldl_cancel {i : Nat} {t' : Task}
    (h : (keys.foldl (fun s key => s.cancel key) s).spawned[i]? = some t') :
    ∃ t, s.spawned[i]? = some t ∧ t.Aborts t' := by
  induction keys generalizing s with
  | nil => exact ⟨t', h, rfl, rfl, rfl, rfl, id⟩
  | cons key keys ih =>
      obtain ⟨t₁, ht₁, h₁⟩ := ih h
      obtain ⟨t, ht, h₀⟩ := aborts_cancel s key ht₁
      exact ⟨t, ht, h₁.key.trans h₀.key, h₁.receivers.trans h₀.receivers,
        h₁.running.trans h₀.running, h₁.hand.trans h₀.hand, fun h => h₀.aborted (h₁.aborted h)⟩

theorem lookup_foldl_cancel (s : Session) (key : SubscriptionKey) :
    (keys.foldl (fun s key => s.cancel key) s).tasks.lookup key =
      if key ∈ keys then none else s.tasks.lookup key := by
  induction keys generalizing s with
  | nil => simp
  | cons key' keys ih =>
      rw [List.foldl_cons, ih, lookup_cancel]
      by_cases hkey : key = key'
      · simp [hkey]
      · simp [hkey]

theorem aborted_foldl_cancel (h : s.Held) {i : Nat} {t t' : Task} (ht : s.spawned[i]? = some t)
    (ht' : (keys.foldl (fun s key => s.cancel key) s).spawned[i]? = some t') :
    t'.aborted = false ↔ t.aborted = false ∧ t.key ∉ keys := by
  have hheld := held_foldl_cancel h keys
  obtain ⟨t₀, ht₀, haborts⟩ := aborts_foldl_cancel keys ht'
  cases ht.symm.trans ht₀
  have hlookup := lookup_foldl_cancel keys s t.key
  constructor
  · intro hlive
    have hfound := hheld.live i t' ht' hlive
    rw [haborts.key, hlookup] at hfound
    split_ifs at hfound with hmem
    exact ⟨haborts.aborted hlive, hmem⟩
  · rintro ⟨hlive, hnot⟩
    rw [if_neg hnot, h.live i t ht hlive] at hlookup
    obtain ⟨t₁, ht₁, -, hlive₁⟩ := hheld.held t.key i hlookup
    cases ht'.symm.trans ht₁
    exact hlive₁

end Session

/-! ## Order-book requests -/

def Reply.Of (channel : Channel) : Reply → Prop
  | .error _ => True
  | .snapshot _ => True
  | .subscribed c _ => c = channel
  | .unsubscribed c _ => c = channel

section

variable {s : Session} {r : WsRequest} {a : Answer} {channel : Channel}

theorem of_subscribeAfterSnapshot {spawn : Session → Session} {text : String} :
    ∀ reply ∈ (subscribeAfterSnapshot a spawn channel text s).replies, reply.Of channel := by
  unfold subscribeAfterSnapshot
  cases a.snapshot with
  | none => simp [Reply.Of]
  | some shown => split_ifs <;> simp [Reply.Of]

theorem of_error {text : String} :
    ∀ reply ∈ (errorReply text s).replies, reply.Of channel := by
  simp [errorReply, Reply.Of]

theorem of_required {name : String} {value : Option String} {go : String → Handled}
    (hgo : ∀ v, ∀ reply ∈ (go v).replies, reply.Of channel) :
    ∀ reply ∈ (required name value s go).replies, reply.Of channel := by
  unfold required
  cases given value with
  | none => exact of_error
  | some v => exact hgo v

theorem of_rehydrated {h : Handled} (hh : ∀ reply ∈ h.replies, reply.Of channel) :
    ∀ reply ∈ (match a.rehydrated with
      | .error error => errorReply error s
      | .ok _ => h).replies, reply.Of channel := by
  cases a.rehydrated with
  | error text => exact of_error
  | ok _ => exact hh

theorem of_handleSubscribe :
    ∀ reply ∈ (handleSubscribe sdk a r s channel).replies, reply.Of channel := by
  cases channel with
  | orderbookDelta => exact of_required fun m => of_rehydrated of_subscribeAfterSnapshot
  | quote => exact of_required fun m => of_rehydrated of_subscribeAfterSnapshot
  | user => exact of_required fun u => by simp [handleSubscribeUser, Reply.Of]
  | paperUser => exact of_required fun u => by simp [handleSubscribePaperUser, Reply.Of]
  | paperPositions => simp [handleSubscribe, handleSubscribePaperPositions, Reply.Of]
  | paperActivity => simp [handleSubscribe, handleSubscribePaperActivity, Reply.Of]
  | paperUserState =>
      refine of_required fun u => of_required fun m => ?_
      unfold handleSubscribePaperUserState
      split_ifs
      · exact of_error
      · exact of_error
      · exact of_subscribeAfterSnapshot
  | paperStake =>
      refine of_required fun m => of_required fun u => ?_
      unfold handleSubscribePaperStake
      split_ifs
      · exact of_error
      · exact of_error
      · exact of_subscribeAfterSnapshot
  | paperHouse =>
      refine of_required fun m => ?_
      unfold handleSubscribePaperHouse
      split_ifs
      · exact of_error
      · exact of_subscribeAfterSnapshot
  | bars =>
      refine of_required fun m => ?_
      unfold handleSubscribeBars
      split_ifs
      · exact of_error
      · exact of_subscribeAfterSnapshot
  | oracle =>
      refine of_required fun m => ?_
      unfold handleSubscribeOracle
      split_ifs
      · exact of_error
      · exact of_subscribeAfterSnapshot

theorem of_unsubscribeKey {named : Option String} :
    ∀ reply ∈ (unsubscribeKey channel named s).replies, reply.Of channel := by
  cases named <;> simp [unsubscribeKey, Reply.Of]

theorem of_handleUnsubscribe :
    ∀ reply ∈ (handleUnsubscribe r s channel).replies, reply.Of channel := by
  cases channel with
  | paperPositions => simp [handleUnsubscribe, unsubscribeAll, Reply.Of]
  | paperActivity => simp [handleUnsubscribe, unsubscribeAll, Reply.Of]
  | paperUserState =>
      unfold handleUnsubscribe handleUnsubscribePaperUserState
      cases given r.userAddress <;> simp [Reply.Of]
  | orderbookDelta => exact of_unsubscribeKey
  | quote => exact of_unsubscribeKey
  | user => exact of_unsubscribeKey
  | paperUser => exact of_unsubscribeKey
  | paperStake => exact of_unsubscribeKey
  | paperHouse => exact of_unsubscribeKey
  | bars => exact of_unsubscribeKey
  | oracle => exact of_unsubscribeKey

theorem acknowledge_of_other {replies : List Reply} (hchannel : channel ≠ .orderbookDelta)
    (hof : ∀ reply ∈ replies, reply.Of channel) (unsubscribed : List String) :
    replies.foldl (Follower.acknowledge sdk) unsubscribed = unsubscribed := by
  induction replies with
  | nil => rfl
  | cons reply replies ih =>
      have hsame : Follower.acknowledge sdk unsubscribed reply = unsubscribed := by
        have hreply := hof reply List.mem_cons_self
        cases reply with
        | error text => rfl
        | snapshot text => rfl
        | subscribed c m =>
            cases hreply
            cases channel <;> first | rfl | exact absurd rfl hchannel
        | unsubscribed c m =>
            cases hreply
            cases channel <;> first | rfl | exact absurd rfl hchannel
      rw [List.foldl_cons, hsame]
      exact ih fun reply hmem => hof reply (List.mem_cons_of_mem _ hmem)

theorem book_eq_some_iff {m : String} : r.book = some m ↔
    r.channel = some Channel.orderbookDelta.name ∧ given r.spotMarket = some m := by
  unfold WsRequest.book
  split_ifs with hchannel
  · simp [hchannel]
  · simp [hchannel]

theorem mem_subscribesBook {m : String} : m ∈ r.subscribesBook a ↔
    r.op = "subscribe" ∧ a.rehydrated = .ok () ∧ (a.snapshot = none ∨ a.sinkOpen = true) ∧
      r.book = some m := by
  have hok : a.rehydrated.isOk = true ↔ a.rehydrated = .ok () := by
    cases a.rehydrated <;> simp [Except.isOk, Except.toBool]
  unfold WsRequest.subscribesBook
  split_ifs with hserved
  · obtain ⟨hop, hloaded, hshown⟩ := hserved
    rw [Option.isNone_iff_eq_none] at hshown
    simp [hop, hok.mp hloaded, hshown]
  · constructor
    · intro h
      cases h
    · rintro ⟨hop, hloaded, hshown, -⟩
      exact absurd ⟨hop, hok.mpr hloaded, hshown.imp_left Option.isNone_iff_eq_none.mpr⟩ hserved

theorem mem_unsubscribesBook {m : String} :
    m ∈ r.unsubscribesBook ↔ r.op = "unsubscribe" ∧ r.book = some m := by
  unfold WsRequest.unsubscribesBook
  split_ifs with hop
  · simp [hop]
  · simp [hop]

theorem handleRequest_subscribesBook {m : String} (h : m ∈ r.subscribesBook a)
    (unsubscribed : List String) :
    (handleRequest sdk a r s).session = s.subscribeOrderbook sdk a.held m ∧
      (handleRequest sdk a r s).replies.foldl (Follower.acknowledge sdk) unsubscribed =
        unsubscribed.filter (· ≠ normalizeSpotMarketKey sdk m) := by
  obtain ⟨hop, hloaded, hshown, hbook⟩ := mem_subscribesBook.mp h
  obtain ⟨hchannel, hm⟩ := book_eq_some_iff.mp hbook
  have hhandled : handleRequest sdk a r s = subscribeAfterSnapshot a
      (Session.subscribeOrderbook sdk a.held m) .orderbookDelta m s := by
    unfold handleRequest
    rw [if_pos hop, hchannel]
    dsimp only
    rw [parse_name]
    dsimp only [handleSubscribe]
    unfold required
    rw [hm]
    dsimp only
    unfold handleSubscribeOrderbook
    rw [hloaded]
  rw [hhandled]
  unfold subscribeAfterSnapshot
  cases hsnapshot : a.snapshot with
  | none => exact ⟨rfl, rfl⟩
  | some text =>
      rw [hsnapshot] at hshown
      dsimp only
      rw [if_pos (hshown.resolve_left (by simp))]
      exact ⟨rfl, rfl⟩

theorem handleRequest_unsubscribesBook {m : String} (h : m ∈ r.unsubscribesBook)
    (unsubscribed : List String) :
    (handleRequest sdk a r s).session = s.cancelChannel .orderbookDelta (some m) ∧
      (handleRequest sdk a r s).replies.foldl (Follower.acknowledge sdk) unsubscribed =
        normalizeSpotMarketKey sdk m :: unsubscribed := by
  obtain ⟨hop, hbook⟩ := mem_unsubscribesBook.mp h
  obtain ⟨hchannel, hm⟩ := book_eq_some_iff.mp hbook
  have hhandled : handleRequest sdk a r s = unsubscribeKey .orderbookDelta (some m) s := by
    unfold handleRequest
    rw [if_neg (by rw [hop]; decide), if_pos hop, hchannel, Option.bind_some, parse_name]
    dsimp only [handleUnsubscribe]
    rw [hm]
  rw [hhandled]
  exact ⟨rfl, rfl⟩

/-- Every other request acknowledges nothing, and cancels tasks or spawns one of another feed. -/
theorem handleRequest_other (hsubscribes : r.subscribesBook a = none)
    (hunsubscribes : r.unsubscribesBook = none) (unsubscribed : List String) :
    ((∃ keys : List SubscriptionKey, (handleRequest sdk a r s).session =
        keys.foldl (fun s key => s.cancel key) s) ∨
      ∃ task, (handleRequest sdk a r s).session = s.spawn task ∧ task.Fresh s.sent ∧
        ∀ m, task.key ≠ .orderbook m) ∧
      (handleRequest sdk a r s).replies.foldl (Follower.acknowledge sdk) unsubscribed =
        unsubscribed := by
  by_cases hbook : r.op = "subscribe" ∧ r.channel = some Channel.orderbookDelta.name
  · -- the book is not loaded or not shown, or no market is given
    obtain ⟨hop, hchannel⟩ := hbook
    have hhandled : handleRequest sdk a r s =
        required "spot_market" r.spotMarket s fun m => handleSubscribeOrderbook sdk a m s := by
      unfold handleRequest
      rw [if_pos hop, hchannel]
      dsimp only
      rw [parse_name]
      rfl
    rw [hhandled]
    unfold required
    cases hm : given r.spotMarket with
    | none => exact ⟨Or.inl ⟨[], rfl⟩, rfl⟩
    | some m =>
        dsimp only
        unfold handleSubscribeOrderbook
        cases hloaded : a.rehydrated with
        | error text => exact ⟨Or.inl ⟨[], rfl⟩, rfl⟩
        | ok _ =>
            have hnot : m ∉ r.subscribesBook a := by
              rw [hsubscribes]
              exact nofun
            rw [mem_subscribesBook] at hnot
            have hunshown : ¬(a.snapshot = none ∨ a.sinkOpen = true) := fun hshown =>
              hnot ⟨hop, hloaded, hshown, book_eq_some_iff.mpr ⟨hchannel, hm⟩⟩
            obtain ⟨hsome, hclosed⟩ := not_or.mp hunshown
            unfold subscribeAfterSnapshot
            cases hsnapshot : a.snapshot with
            | none => exact absurd hsnapshot hsome
            | some text =>
                dsimp only
                rw [if_neg hclosed]
                exact ⟨Or.inl ⟨[], rfl⟩, rfl⟩
  · constructor
    · rcases handleRequest_cases sdk with hcancels | ⟨task, hspawn, hfresh, hopens⟩
      · exact Or.inl hcancels
      · refine Or.inr ⟨task, hspawn, hfresh, fun m hm => hbook ⟨hopens.op, ?_⟩⟩
        rw [hopens.channel, hm]
        rfl
    · unfold handleRequest
      split_ifs with hop hunsubscribe
      · cases hname : r.channel with
        | none => rfl
        | some name =>
            dsimp only
            cases hparse : Channel.parse name with
            | none => rfl
            | some channel =>
                have hchannel : channel ≠ .orderbookDelta := by
                  rintro rfl
                  exact hbook ⟨hop, by rw [hname, name_of_parse hparse]⟩
                exact acknowledge_of_other sdk hchannel (of_handleSubscribe sdk) _
      · cases hparse : r.channel.bind Channel.parse with
        | none => rfl
        | some channel =>
            dsimp only
            by_cases hchannel : channel = .orderbookDelta
            · subst hchannel
              obtain ⟨name, hname, hparse⟩ := Option.bind_eq_some_iff.mp hparse
              have hnone : given r.spotMarket = none := by
                cases hm : given r.spotMarket with
                | none => rfl
                | some m =>
                    have hmem := mem_unsubscribesBook.mpr ⟨hunsubscribe, book_eq_some_iff.mpr
                      ⟨by rw [hname, name_of_parse hparse], hm⟩⟩
                    rw [hunsubscribes] at hmem
                    cases hmem
              dsimp only [handleUnsubscribe]
              rw [hnone]
              rfl
            · exact acknowledge_of_other sdk hchannel of_handleUnsubscribe _
      · rfl

end

/-! ## What a session keeps -/

theorem pairwise_of_fibers {A : Type} {R : Nat × A → Nat × A → Prop} {l : List (Nat × A)}
    (hfiber : ∀ i, (l.filter fun e => e.1 = i).Pairwise R)
    (hapart : ∀ e ∈ l, ∀ e' ∈ l, e.1 ≠ e'.1 → R e e') : l.Pairwise R := by
  induction l with
  | nil => exact List.Pairwise.nil
  | cons e l ih =>
      refine List.pairwise_cons.mpr ⟨fun e' he' => ?_, ih (fun i => ?_) fun b hb b' hb' =>
        hapart b (List.mem_cons_of_mem _ hb) b' (List.mem_cons_of_mem _ hb')⟩
      · by_cases hsame : e.1 = e'.1
        · have hown := hfiber e.1
          rw [List.filter_cons_of_pos (by simp)] at hown
          exact (List.pairwise_cons.mp hown).1 e' (List.mem_filter.mpr ⟨he', by simp [hsame]⟩)
        · exact hapart e List.mem_cons_self e' (List.mem_cons_of_mem _ he') hsame
      · exact (hfiber i).sublist ((List.sublist_cons_self e l).filter _)

namespace Follower

/-- The session and its tasks are in order, and nothing of an unsubscribed market waits. -/
structure Sound (f : Follower) : Prop where
  good : f.client.Good
  orderly : Orderly sdk f.unsubscribed f.client.session.spawned
  none_sent : ∀ e ∈ f.client.session.outbound, ∀ x ∈ e.2.delta, x.1 ∉ f.unsubscribed

variable {sdk} {f : Follower}

theorem mem_delta {o : Outbound} {x : String × Nat} :
    x ∈ o.delta ↔ o = .message (.orderbook x.1) x.2 := by
  unfold Outbound.delta
  split
  · simp [Prod.ext_iff]
  · rename_i hnot
    refine iff_of_false (fun h => nomatch h) ?_
    exact hnot _ _

theorem taken_of_sent (h : f.client.Good) {e : Nat × Outbound}
    (he : e ∈ f.client.written ++ f.client.session.outbound) {key : String} {n : Nat}
    (hdelta : (key, n) ∈ e.2.delta) : ∃ t r, f.client.session.spawned[e.1]? = some t ∧
      (.orderbook key, r) ∈ t.receivers ∧ n ∈ r.taken := by
  rw [mem_delta] at hdelta
  have hentry : .message (.orderbook key) n ∈
      entriesOf e.1 (f.client.written ++ f.client.session.outbound) :=
    List.mem_map.mpr ⟨e, List.mem_filter.mpr ⟨he, by simp⟩, hdelta⟩
  rw [h.queue] at hentry
  cases ht : f.client.session.spawned[e.1]? with
  | none =>
      rw [ht] at hentry
      cases hentry
  | some t =>
      rw [ht] at hentry
      have hdelivers := h.delivers t (List.mem_of_getElem? ht)
      have hpassed : .message (.orderbook key) n ∈ t.passedOn ++ t.hand.toList :=
        List.mem_append.mpr (Or.inl hentry)
      obtain ⟨r, hr⟩ := hdelivers.only _ n hpassed
      refine ⟨t, r, rfl, hr, ?_⟩
      have hnumber : n ∈ t.numbers (.orderbook key) :=
        List.mem_filterMap.mpr ⟨_, hpassed, if_pos rfl⟩
      rw [hdelivers.delivered _ hr] at hnumber
      exact (List.mem_filter.mp hnumber).1

theorem once_of_numbers {passed : List Outbound}
    (h : ∀ key, (passed.filterMap (Outbound.numberOn (.orderbook key))).Nodup) :
    passed.Pairwise fun o o' => ∀ x, o.delta = some x → ∀ y, o'.delta = some y → x ≠ y := by
  induction passed with
  | nil => exact List.Pairwise.nil
  | cons o passed ih =>
      refine List.pairwise_cons.mpr ⟨?_, ih fun key => (h key).sublist
        ((List.sublist_cons_self o passed).filterMap _)⟩
      rintro o' ho' ⟨key, n⟩ hx y hy rfl
      have hnumber : ∀ o : Outbound, (key, n) ∈ o.delta →
          o.numberOn (.orderbook key) = some n := by
        intro o hdelta
        rw [mem_delta.mp hdelta]
        exact if_pos rfl
      have hkey := h key
      rw [List.filterMap_cons_some (hnumber o hx), List.nodup_cons] at hkey
      exact hkey.1 (List.mem_filterMap.mpr ⟨o', ho', hnumber o' hy⟩)

/-- A task passes a delta on once. -/
theorem passedOn_once {sent : Feed → List FeedMessage} {t : Task} (h : t.Delivers sent) :
    t.passedOn.Pairwise fun o o' => ∀ x, o.delta = some x → ∀ y, o'.delta = some y → x ≠ y := by
  refine once_of_numbers fun key => ?_
  have hnumbers : (t.numbers (.orderbook key)).Nodup := by
    by_cases hserved : ∃ r, (.orderbook key, r) ∈ t.receivers
    · obtain ⟨r, hr⟩ := hserved
      rw [h.delivered _ hr]
      exact ((h.sound _ hr).increasing.imp fun hlt => ne_of_lt hlt).filter _
    · have hnone : t.numbers (.orderbook key) = [] := by
        refine List.filterMap_eq_nil_iff.mpr fun o ho => ?_
        cases o with
        | snapshot k => rfl
        | message feed n =>
            refine if_neg ?_
            rintro rfl
            exact hserved (h.only _ n ho)
      rw [hnone]
      exact List.nodup_nil
  unfold Task.numbers at hnumbers
  rw [List.filterMap_append] at hnumbers
  exact (List.nodup_append.mp hnumbers).1

theorem sent_once (h : f.Sound sdk) :
    ((f.client.written ++ f.client.session.outbound).filterMap fun e => e.2.delta).Nodup := by
  refine (List.pairwise_filterMap).mpr (pairwise_of_fibers (fun i => ?_) ?_)
  · have hpassed : (entriesOf i (f.client.written ++ f.client.session.outbound)).Pairwise
        fun o o' => ∀ x, o.delta = some x → ∀ y, o'.delta = some y → x ≠ y := by
      rw [h.good.queue i]
      cases ht : f.client.session.spawned[i]? with
      | none => exact List.Pairwise.nil
      | some t => exact passedOn_once (h.good.delivers t (List.mem_of_getElem? ht))
    exact List.pairwise_map.mp hpassed
  · rintro e he e' he' hne ⟨key, n⟩ hx y hy rfl
    obtain ⟨t, r, ht, hr, hn⟩ := taken_of_sent h.good he hx
    obtain ⟨t', r', ht', hr', hn'⟩ := taken_of_sent h.good he' hy
    exact h.orderly.apart e.1 e'.1 t t' key r r' ht ht' hne hr hr' n hn hn'

theorem Sound.oneSubscription (h : f.Sound sdk) : f.OneSubscription where
  one := h.orderly.one
  none_after := h.orderly.none_after
  sent_once := sent_once h
  none_sent := h.none_sent

/-! ## Steps of tasks -/

/-- Steps that are no requests keep the order. -/
theorem sound_step_of_other (h : f.Sound sdk) {next : ClientStep}
    (hnext : ∀ r a, next ≠ .request r a) : (f.step sdk next).Sound sdk := by
  have hgood : (f.client.step sdk next).Good := Client.good_step sdk h.good next
  cases next with
  | request r a => exact absurd rfl (hnext r a)
  | publish feed m => exact ⟨hgood, h.orderly, h.none_sent⟩
  | poll i => exact ⟨hgood, h.orderly.modify i Task.moves_poll, h.none_sent⟩
  | wait i => exact ⟨hgood, h.orderly.modify i Task.moves_wait, h.none_sent⟩
  | recv i j => exact ⟨hgood, h.orderly.modify i (Task.moves_recv _ j), h.none_sent⟩
  | refresh i found => exact ⟨hgood, h.orderly.modify i (Task.moves_refresh _ found), h.none_sent⟩
  | disconnect => exact ⟨hgood, h.orderly, h.none_sent⟩
  | write =>
      change Sound sdk ⟨f.client.write, f.unsubscribed⟩
      change f.client.write.Good at hgood
      revert hgood
      unfold Client.write
      split
      · rename_i o outbound hconnected houtbound
        intro hgood
        refine ⟨hgood, h.orderly, fun e he => h.none_sent e ?_⟩
        rw [houtbound]
        exact List.mem_cons_of_mem _ he
      · exact fun hgood => ⟨hgood, h.orderly, h.none_sent⟩
  | pass i =>
      change Sound sdk ⟨f.client.pass i, f.unsubscribed⟩
      change (f.client.pass i).Good at hgood
      revert hgood
      unfold Client.pass
      split_ifs
      · intro hgood
        refine ⟨hgood, h.orderly.modify i Task.moves_pass, fun e he => ?_⟩
        rcases List.mem_append.mp he with hold | hnew
        · exact h.none_sent e hold
        · -- the task is at work, so its market is subscribed
          rintro ⟨key, n⟩ hdelta hunsubscribed
          obtain ⟨o, ho, rfl⟩ := Option.map_eq_some_iff.mp (Option.mem_toList.mp hnew)
          obtain ⟨t, ht, hhand⟩ := Option.bind_eq_some_iff.mp ho
          have hmem := List.mem_of_getElem? ht
          have hrunning := h.orderly.busy t hmem (by rw [hhand]; exact Option.some_ne_none o)
          have hpassed : .message (.orderbook key) n ∈ t.passedOn ++ t.hand.toList := by
            rw [hhand, ← mem_delta.mp hdelta]
            simp
          obtain ⟨r, hr⟩ := (h.good.delivers t hmem).only _ n hpassed
          exact h.orderly.none_after t hmem (Task.live_iff.mpr (Or.inr hrunning)) key hunsubscribed
            (Orderly.serves_of_mem hr)
      · exact fun hgood => ⟨hgood, h.orderly, h.none_sent⟩

/-! ## Requests -/

theorem orderly_foldl_cancel {unsubscribed : List String} {s : Session}
    (h : Orderly sdk unsubscribed s.spawned) (keys : List SubscriptionKey) :
    Orderly sdk unsubscribed (keys.foldl (fun s key => s.cancel key) s).spawned := by
  refine h.moves fun i t' ht' => ?_
  obtain ⟨t, ht, haborts⟩ := Session.aborts_foldl_cancel keys ht'
  exact ⟨t, ht, Task.moves_of_aborts haborts⟩

/-- One subscription a market, and what was sent does not come again. -/
structure Settled (f : Follower) : Prop extends f.OneSubscription where
  once : ∀ (i j : Nat) t t' key r r', f.client.session.spawned[i]? = some t →
    f.client.session.spawned[j]? = some t' → i ≠ j → t'.live = true →
      (.orderbook key, r) ∈ t.receivers → (.orderbook key, r') ∈ t'.receivers →
        ∀ n ∈ r.taken, n < r'.cursor

theorem Sound.settled (h : f.Sound sdk) : f.Settled :=
  { h.oneSubscription with once := h.orderly.once }

section

variable {r : WsRequest} {a : Answer} {m : String}

def bookTask (sdk : Sdk) (m : String) (held : Feed → Nat) (s : Session) : Task :=
  { key := .orderbook m
    user := ""
    market := m
    receivers := [s.receiver (.orderbook (normalizeSpotMarketKey sdk m))
      (held (.orderbook (normalizeSpotMarketKey sdk m)))] }

theorem spawned_subscribeOrderbook (s : Session) (held : Feed → Nat) :
    (s.subscribeOrderbook sdk held m).spawned =
      (s.cancel (.orderbook m)).spawned ++ [bookTask sdk m held s] := rfl

theorem serves_bookTask {s : Session} {held : Feed → Nat} {key : String}
    (h : (bookTask sdk m held s).Serves key) : normalizeSpotMarketKey sdk m = key := by
  obtain ⟨x, hx, hkey⟩ := h
  rw [List.mem_singleton.mp hx] at hkey
  cases hkey
  rfl

theorem orderly_subscribeOrderbook (h : f.Sound sdk) {held : Feed → Nat}
    (htakes : TakesOver sdk m held f.client.session) :
    Orderly sdk (f.unsubscribed.filter (· ≠ normalizeSpotMarketKey sdk m))
      (f.client.session.subscribeOrderbook sdk held m).spawned := by
  have hfewer : Orderly sdk (f.unsubscribed.filter (· ≠ normalizeSpotMarketKey sdk m))
      f.client.session.spawned := h.orderly.mono (List.filter_subset_self _)
  have hcancelled := orderly_foldl_cancel hfewer [.orderbook m]
  rw [spawned_subscribeOrderbook]
  refine hcancelled.concat rfl ?_ ?_ ?_ ?_
  · exact fun key hkey => ⟨m, rfl, serves_bookTask hkey⟩
  · intro x hx
    rw [List.mem_singleton.mp hx]
    rfl
  · intro key r' hr' t' ht' r hr
    cases List.mem_singleton.mp hr'
    obtain ⟨i, hi⟩ := List.mem_iff_getElem?.mp ht'
    obtain ⟨t, ht, haborts⟩ := Session.aborts_foldl_cancel [.orderbook m] hi
    obtain ⟨hidle, hspelled, htaken⟩ :=
      htakes t (List.mem_of_getElem? ht) _ (haborts.receivers ▸ hr) rfl
    refine ⟨?_, htaken⟩
    rw [← Bool.not_eq_true, Task.live_iff, haborts.running, hidle]
    rintro (hlive | hrunning)
    · obtain ⟨hold, hnot⟩ :=
        (Session.aborted_foldl_cancel [.orderbook m] h.good.toHeld ht hi).mp hlive
      exact hnot (List.mem_singleton.mpr (hspelled hold))
    · cases hrunning
  · intro key hkey hserves
    rw [← serves_bookTask hserves] at hkey
    simp at hkey

theorem outbound_foldl_cancel (s : Session) (keys : List SubscriptionKey) :
    (keys.foldl (fun s key => s.cancel key) s).outbound = s.outbound := by
  induction keys generalizing s with
  | nil => rfl
  | cons key keys ih => exact (ih (s.cancel key)).trans (Session.kept_cancel s key).2

theorem outbound_handleRequest (sdk : Sdk) (r : WsRequest) (a : Answer) (s : Session) :
    (handleRequest sdk a r s).session.outbound = s.outbound := by
  have hcases : _ ∨ ∃ task, (handleRequest sdk a r s).session = s.spawn task ∧ _ :=
    handleRequest_cases sdk
  rcases hcases with ⟨keys, hkeys⟩ | ⟨task, hspawn, -⟩
  · rw [hkeys]
    exact outbound_foldl_cancel s keys
  · rw [hspawn]
    exact (Session.kept_cancel s task.key).2

theorem step_request (hconnected : f.client.connected = true) :
    f.step sdk (.request r a) =
      { client :=
          { f.client with
            session := (handleRequest sdk a r f.client.session).session
            connected := (handleRequest sdk a r f.client.session).keepAlive }
        unsubscribed :=
          (handleRequest sdk a r f.client.session).replies.foldl (acknowledge sdk)
            f.unsubscribed } := by
  simp [step, Client.step, Client.request, hconnected]

/-- A request, where its tasks are in order and nothing waits of what it unsubscribes. -/
theorem sound_request (h : f.Sound sdk) (hconnected : f.client.connected = true)
    {unsubscribed : List String}
    (hacknowledged : (handleRequest sdk a r f.client.session).replies.foldl (acknowledge sdk)
      f.unsubscribed = unsubscribed)
    (horderly : Orderly sdk unsubscribed (handleRequest sdk a r f.client.session).session.spawned)
    (hnone : ∀ e ∈ f.client.session.outbound, ∀ x ∈ e.2.delta, x.1 ∉ unsubscribed) :
    (f.step sdk (.request r a)).Sound sdk := by
  have hgood : (f.step sdk (.request r a)).client.Good :=
    Client.good_step sdk h.good (.request r a)
  rw [step_request hconnected, hacknowledged] at *
  refine ⟨hgood, horderly, fun e he => hnone e ?_⟩
  rw [← outbound_handleRequest sdk r a f.client.session]
  exact he

theorem sound_subscribesBook (h : f.Sound sdk) (hconnected : f.client.connected = true)
    (hm : m ∈ r.subscribesBook a) (htakes : TakesOver sdk m a.held f.client.session) :
    (f.step sdk (.request r a)).Sound sdk := by
  obtain ⟨hsession, hacknowledged⟩ :=
    handleRequest_subscribesBook sdk (s := f.client.session) hm f.unsubscribed
  refine sound_request h hconnected hacknowledged ?_ fun e he x hx hmem => ?_
  · rw [hsession]
    exact orderly_subscribeOrderbook h htakes
  · exact h.none_sent e he x hx (List.mem_of_mem_filter hmem)

theorem orderly_unsubscribeOrderbook (h : f.Sound sdk) (hleaves : Leaves sdk m f.client.session) :
    Orderly sdk (normalizeSpotMarketKey sdk m :: f.unsubscribed)
      (f.client.session.cancelChannel .orderbookDelta (some m)).spawned := by
  let keys := f.client.session.tasks.keys.filter (Session.names .orderbookDelta (some m))
  have hcancelled := orderly_foldl_cancel h.orderly keys
  refine { hcancelled with none_after := fun t' ht' hlive key hkey hserves => ?_ }
  rcases List.mem_cons.mp hkey with rfl | hold
  · obtain ⟨i, hi⟩ := List.mem_iff_getElem?.mp ht'
    obtain ⟨t, ht, haborts⟩ := Session.aborts_foldl_cancel keys hi
    have hserved : t.Serves (normalizeSpotMarketKey sdk m) := by
      unfold Task.Serves at hserves ⊢
      rw [haborts.receivers] at hserves
      exact hserves
    obtain ⟨hidle, hnamed⟩ := hleaves.1 t (List.mem_of_getElem? ht) hserved
    rw [Task.live_iff, haborts.running, hidle] at hlive
    rcases hlive with hlive | hrunning
    · obtain ⟨hold, hnot⟩ := (Session.aborted_foldl_cancel keys h.good.toHeld ht hi).mp hlive
      refine hnot (List.mem_filter.mpr ⟨?_, hnamed hold⟩)
      exact AList.mem_keys.mp (Dict.mem_iff_lookup.mpr ⟨i, h.good.live i t ht hold⟩)
    · cases hrunning
  · exact hcancelled.none_after t' ht' hlive key hold hserves

theorem sound_unsubscribesBook (h : f.Sound sdk) (hconnected : f.client.connected = true)
    (hm : m ∈ r.unsubscribesBook) (hleaves : Leaves sdk m f.client.session) :
    (f.step sdk (.request r a)).Sound sdk := by
  obtain ⟨hsession, hacknowledged⟩ :=
    handleRequest_unsubscribesBook sdk (s := f.client.session) (a := a) hm f.unsubscribed
  refine sound_request h hconnected hacknowledged ?_ fun e he x hx hmem => ?_
  · rw [hsession]
    exact orderly_unsubscribeOrderbook h hleaves
  · rcases List.mem_cons.mp hmem with hkey | hold
    · exact hleaves.2 e he x hx hkey
    · exact h.none_sent e he x hx hold

theorem sound_request_of_other (h : f.Sound sdk) (hconnected : f.client.connected = true)
    (hsubscribes : r.subscribesBook a = none) (hunsubscribes : r.unsubscribesBook = none) :
    (f.step sdk (.request r a)).Sound sdk := by
  obtain ⟨hsession, hacknowledged⟩ := handleRequest_other sdk (s := f.client.session)
    hsubscribes hunsubscribes f.unsubscribed
  refine sound_request h hconnected hacknowledged ?_ h.none_sent
  rcases hsession with ⟨keys, hkeys⟩ | ⟨task, hspawn, hfresh, hother⟩
  · rw [hkeys]
    exact orderly_foldl_cancel h.orderly keys
  · rw [hspawn]
    -- the task of another subscription hears of no book
    have hserves : ∀ key, ¬task.Serves key := by
      rintro key ⟨x, hx, hkey⟩
      have hhears := hfresh.hears x hx
      rw [hkey] at hhears
      cases htask : task.key with
      | orderbook m => exact hother m htask
      | _ =>
          rw [htask] at hhears
          cases hhears
    refine (orderly_foldl_cancel h.orderly [task.key]).concat hfresh.hand ?_ ?_ ?_ ?_
    · exact fun key hkey => absurd hkey (hserves key)
    · intro x hx
      obtain ⟨n, -, hopened, -⟩ := hfresh.opened x hx
      rw [hopened]
      rfl
    · exact fun key r' hr' => absurd (Orderly.serves_of_mem hr') (hserves key)
    · exact fun key _ => hserves key

/-! ## What must be so when a market is subscribed or unsubscribed -/

theorem takesOver_of_settled (h : f.Sound sdk) (hconnected : f.client.connected = true)
    (hm : m ∈ r.subscribesBook a) (hsettled : (f.step sdk (.request r a)).Settled) :
    TakesOver sdk m a.held f.client.session := by
  obtain ⟨hsession, -⟩ :=
    handleRequest_subscribesBook sdk (s := f.client.session) hm f.unsubscribed
  rw [step_request hconnected] at hsettled
  have hone := hsettled.one
  have honce := hsettled.once
  simp only [hsession, spawned_subscribeOrderbook] at hone honce
  rintro t ht ⟨feed, receiver⟩ hreceiver rfl
  obtain ⟨i, hi⟩ := List.mem_iff_getElem?.mp ht
  obtain ⟨hlt, -⟩ := List.getElem?_eq_some_iff.mp hi
  rw [← Session.length_cancel _ (.orderbook m)] at hlt
  have ht' := List.getElem?_eq_getElem hlt
  obtain ⟨t₀, ht₀, haborts⟩ := Session.aborts_cancel _ _ ht'
  cases hi.symm.trans ht₀
  generalize (f.client.session.cancel (.orderbook m)).spawned[i] = t' at ht' haborts
  have hold : ((f.client.session.cancel (.orderbook m)).spawned ++
      [bookTask sdk m a.held f.client.session])[i]? = some t' :=
    (List.getElem?_append_left hlt).trans ht'
  have hnew : ((f.client.session.cancel (.orderbook m)).spawned ++
      [bookTask sdk m a.held f.client.session])[(f.client.session.cancel
        (.orderbook m)).spawned.length]? = some (bookTask sdk m a.held f.client.session) :=
    List.getElem?_concat_length
  have hserves : t'.Serves (normalizeSpotMarketKey sdk m) :=
    Orderly.serves_of_mem (haborts.receivers ▸ hreceiver)
  -- the task that has just been spawned is the live one
  have hdead : ¬t'.live = true := fun hlive => absurd
    (hone i _ t' _ _ hold hnew hlive rfl hserves ⟨_, List.mem_singleton_self _, rfl⟩) (ne_of_lt hlt)
  rw [Task.live_iff, not_or, haborts.running, Bool.not_eq_true] at hdead
  refine ⟨hdead.2, fun hlive => ?_, ?_⟩
  · by_contra hother
    exact hdead.1 ((Session.aborted_foldl_cancel [.orderbook m] h.good.toHeld hi ht').mpr
      ⟨hlive, fun hmem => hother (List.mem_singleton.mp hmem)⟩)
  · exact honce i _ t' _ _ receiver _ hold hnew (ne_of_lt hlt) rfl
      (haborts.receivers ▸ hreceiver) (List.mem_singleton_self _)

theorem leaves_of_settled (h : f.Sound sdk) (hconnected : f.client.connected = true)
    (hm : m ∈ r.unsubscribesBook) (hsettled : (f.step sdk (.request r a)).Settled) :
    Leaves sdk m f.client.session := by
  obtain ⟨hsession, hacknowledged⟩ :=
    handleRequest_unsubscribesBook sdk (s := f.client.session) (a := a) hm f.unsubscribed
  have hnone := hsettled.none_after
  have hsent := hsettled.none_sent
  rw [step_request hconnected, hacknowledged] at hnone hsent
  simp only [outbound_handleRequest] at hsent
  simp only [hsession] at hnone
  refine ⟨fun t ht hserves => ?_, fun e he x hx hkey => ?_⟩
  · let keys := f.client.session.tasks.keys.filter (Session.names .orderbookDelta (some m))
    obtain ⟨i, hi⟩ := List.mem_iff_getElem?.mp ht
    obtain ⟨hlt, -⟩ := List.getElem?_eq_some_iff.mp hi
    rw [← Session.length_foldl_cancel keys] at hlt
    have ht' := List.getElem?_eq_getElem hlt
    obtain ⟨t₀, ht₀, haborts⟩ := Session.aborts_foldl_cancel keys ht'
    cases hi.symm.trans ht₀
    generalize (keys.foldl (fun s key => s.cancel key) f.client.session).spawned[i] = t'
      at ht' haborts
    have hserves' : t'.Serves (normalizeSpotMarketKey sdk m) := by
      unfold Task.Serves at hserves ⊢
      rw [haborts.receivers]
      exact hserves
    have hdead : ¬t'.live = true := fun hlive =>
      hnone t' (List.mem_of_getElem? ht') hlive _ List.mem_cons_self hserves'
    rw [Task.live_iff, not_or, haborts.running, Bool.not_eq_true] at hdead
    refine ⟨hdead.2, fun hlive => ?_⟩
    by_contra hother
    exact hdead.1 ((Session.aborted_foldl_cancel keys h.good.toHeld hi ht').mpr
      ⟨hlive, fun hmem => hother (List.mem_filter.mp hmem).2⟩)
  · exact hsent e he x hx (hkey ▸ List.mem_cons_self)

/-! ## Runs -/

theorem sound_of_spelledAlike (h : f.Sound sdk) {next : ClientStep}
    (halike : f.SpelledAlike sdk next) : (f.step sdk next).Sound sdk := by
  by_cases hrequest : ∃ r a, next = .request r a
  · obtain ⟨r, a, rfl⟩ := hrequest
    by_cases hconnected : f.client.connected = true
    · obtain ⟨htakes, hleaves⟩ := halike hconnected
      cases hsubscribes : r.subscribesBook a with
      | some m => exact sound_subscribesBook h hconnected hsubscribes (htakes m hsubscribes)
      | none =>
          cases hunsubscribes : r.unsubscribesBook with
          | some m =>
              exact sound_unsubscribesBook h hconnected hunsubscribes (hleaves m hunsubscribes)
          | none => exact sound_request_of_other h hconnected hsubscribes hunsubscribes
    · have hsame : f.step sdk (.request r a) = f := by
        simp [step, Client.step, Client.request, hconnected]
      rw [hsame]
      exact h
  · exact sound_step_of_other h fun r a heq => hrequest ⟨r, a, heq⟩

theorem settled_step_iff (f : Follower) (next : ClientStep) (h : f.Sound sdk) :
    (f.step sdk next).Settled ↔ f.SpelledAlike sdk next := by
  constructor
  · intro hsettled
    cases next with
    | request r a =>
        exact fun hconnected => ⟨fun m hm => takesOver_of_settled h hconnected hm hsettled,
          fun m hm => leaves_of_settled h hconnected hm hsettled⟩
    | _ => trivial
  · exact fun halike => (sound_of_spelledAlike h halike).settled

theorem sound_start : Sound sdk {} where
  good := Session.good_start
  orderly := Orderly.nil []
  none_sent := fun _ he => absurd he List.not_mem_nil

end

/-- Over any run, the market has one subscription and nothing that was sent comes again exactly
if the market is spelled alike all along. -/
theorem settled_throughout_iff (sdk : Sdk) (steps : List ClientStep) :
    Throughout (step sdk) Settled steps {} ↔ Along (step sdk) (SpelledAlike sdk) steps {} :=
  throughout_iff_along_of_strong (fun _ h => h.settled) settled_step_iff
    (fun f next h hsettled => sound_of_spelledAlike h ((settled_step_iff f next h).mp hsettled))
    sound_start

/-- Whatever requests, messages, tasks and writes do in whatever order: where the market is spelled
alike all along, and no worker is at a task of it when it is subscribed again or unsubscribed, the
session keeps one subscription a market. -/
theorem oneSubscription_throughout (sdk : Sdk) (steps : List ClientStep)
    (h : Along (step sdk) (SpelledAlike sdk) steps {}) :
    Throughout (step sdk) OneSubscription steps {} :=
  ((settled_throughout_iff sdk steps).mpr h).mono fun _ hsettled => hsettled.toOneSubscription

end Follower

end

namespace Sample

open ClobIndexer.Sample (sdk market)

def subscribeBook (m : String) (held : Nat) : ClientStep :=
  .request { op := "subscribe", channel := "orderbook_delta", spotMarket := m }
    { held := fun _ => held }

def unsubscribeBook (m : String) : ClientStep :=
  .request { op := "unsubscribe", channel := "orderbook_delta", spotMarket := m } {}

def delta : ClientStep := .publish (.orderbook market) {}

/-- A worker takes up the task, which passes a delta on and waits for the next. -/
def passesOn (i : Nat) : List ClientStep := [.poll i, .recv i 0, .pass i, .wait i]

def deltasSent (steps : List ClientStep) : List (String × Nat) :=
  let c := steps.foldl (Client.step sdk) {}
  (c.written ++ c.session.outbound).filterMap fun e => e.2.delta

/-- The market is subscribed again while a delta waits for the first task, and unsubscribed in
capital letters after the second has passed it on. -/
def subscribedAgain : List ClientStep :=
  [subscribeBook market 0, delta] ++ passesOn 0 ++ [.write, delta, subscribeBook market 1, .poll 0] ++
    passesOn 1 ++ [.write, unsubscribeBook (Text.toAsciiUppercase market), delta, .poll 1]

theorem oneSubscription_subscribedAgain :
    Throughout (Follower.step sdk) Follower.OneSubscription subscribedAgain {} ∧
      deltasSent subscribedAgain = [(market, 0), (market, 1)] :=
  ⟨Follower.oneSubscription_throughout sdk subscribedAgain (by decide +kernel), by decide +kernel⟩

/-- The market is subscribed twice, once with a blank before it. -/
def twoSpellings : List ClientStep :=
  [subscribeBook market 0, subscribeBook (" " ++ market) 0, delta] ++ passesOn 0 ++ passesOn 1

/-- The market is subscribed again, and the first task has passed on what the second receiver
holds. -/
def heldTwice : List ClientStep :=
  [subscribeBook market 0, delta] ++ passesOn 0 ++ [subscribeBook market 1] ++ passesOn 1

/-- The market is unsubscribed while a worker is at its task. -/
def unsubscribedAtWork : List ClientStep :=
  [subscribeBook market 0, delta, .poll 0, .recv 0 0, unsubscribeBook market, .pass 0, .write]

theorem client_foldl_step (steps : List ClientStep) (f : Follower) :
    (steps.foldl (Follower.step sdk) f).client = steps.foldl (Client.step sdk) f.client := by
  induction steps generalizing f with
  | nil => rfl
  | cons next steps ih => exact ih (f.step sdk next)

theorem nodup_of_throughout {steps : List ClientStep}
    (h : Throughout (Follower.step sdk) Follower.OneSubscription steps {}) :
    (deltasSent steps).Nodup := by
  have hsent := h.finish.sent_once
  rw [client_foldl_step] at hsent
  exact hsent

/-- A delta is sent twice, in two ways, and one after the acknowledgement. -/
theorem sent_twice_or_late :
    (¬Throughout (Follower.step sdk) Follower.OneSubscription twoSpellings {} ∧
        deltasSent twoSpellings = [(market, 0), (market, 0)]) ∧
      (¬Throughout (Follower.step sdk) Follower.OneSubscription heldTwice {} ∧
        deltasSent heldTwice = [(market, 0), (market, 0)]) ∧
      ¬Throughout (Follower.step sdk) Follower.OneSubscription unsubscribedAtWork {} ∧
        deltasSent (unsubscribedAtWork.take 5) = [] ∧
        deltasSent unsubscribedAtWork = [(market, 0)] := by
  have hspellings : deltasSent twoSpellings = [(market, 0), (market, 0)] := by decide +kernel
  have hheld : deltasSent heldTwice = [(market, 0), (market, 0)] := by decide +kernel
  have hdouble : ¬[(market, 0), (market, 0)].Nodup := by simp
  refine ⟨⟨fun h => ?_, hspellings⟩, ⟨fun h => ?_, hheld⟩, fun h => ?_, by decide +kernel,
    by decide +kernel⟩
  · exact hdouble (hspellings ▸ nodup_of_throughout h)
  · exact hdouble (hheld ▸ nodup_of_throughout h)
  · have hnone := h.finish.none_after
    revert hnone
    decide +kernel

end Sample

end Ws

end ClobIndexer
