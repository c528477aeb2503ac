import ClobIndexer.Lib.Broadcast
import ClobIndexer.Lib.Dict
import ClobIndexer.Sdk
/-!
# The requests of a session

A session has a task for each of its subscriptions, under a key of the channel and the text
that the client sent.  A subscription replaces the task of its key, an unsubscription aborts
those that it names, up to the case of letters, or all of the channel.  A request that is
answered by an error changes nothing.
-/

namespace ClobIndexer

open Lib

namespace Ws

inductive SubscriptionKey where
  | orderbook (spotMarket : String)
  | quote (spotMarket : String)
  | user (userAddress : String)
  | paperUser (userAddress : String)
  | paperPositions
  | paperActivity
  | paperStake (market : String)
  | paperUserState (key : String)
  | paperHouse (market : String)
  | bars (spotMarket : String)
  | oracle (spotMarket : String)
deriving DecidableEq

inductive Channel where
  | orderbookDelta
  | quote
  | user
  | bars
  | oracle
  | paperUser
  | paperUserState
  | paperPositions
  | paperHouse
  | paperActivity
  | paperStake
deriving DecidableEq

def Channel.name : Channel → String
  | .orderbookDelta => "orderbook_delta"
  | .quote => "quote"
  | .user => "user"
  | .bars => "bars"
  | .oracle => "oracle"
  | .paperUser => "paper.user"
  | .paperUserState => "paper.user.state"
  | .paperPositions => "paper.positions"
  | .paperHouse => "paper.house"
  | .paperActivity => "paper.activity"
  | .paperStake => "paper.stake"

def Channel.all : List Channel :=
  [.orderbookDelta, .quote, .user, .paperUser, .paperUserState, .paperPositions, .paperActivity,
    .paperStake, .paperHouse, .bars, .oracle]

def Channel.parse (name : String) : Option Channel := Channel.all.find? fun c => c.name = name

def SubscriptionKey.channel : SubscriptionKey → Channel
  | .orderbook _ => .orderbookDelta
  | .quote _ => .quote
  | .user _ => .user
  | .paperUser _ => .paperUser
  | .paperPositions => .paperPositions
  | .paperActivity => .paperActivity
  | .paperStake _ => .paperStake
  | .paperUserState _ => .paperUserState
  | .paperHouse _ => .paperHouse
  | .bars _ => .bars
  | .oracle _ => .oracle

/-- A request; its depth is left out, which only says how much of a book is shown. -/
structure WsRequest where
  op : String
  channel : Option String := none
  spotMarket : Option String := none
  userAddress : Option String := none
  market : Option String := none
  interval : Option String := none

/-- `value.filter(|value| !value.trim().is_empty())`. -/
def given (value : Option String) : Option String := value.filter fun v => Text.trim v ≠ ""

/-! ## Tasks -/

inductive Feed where
  | orderbook (key : String)
  | quote (key : String)
  | user
  | paperUser
  | paperPositions
  | paperActivity
  | paperStake (key : String)
  | paperHouse (key : String)
  | bars (key : String)
  | oracle (key : String)
deriving DecidableEq

def Feed.capacity : Feed → Nat
  | .orderbook _ => 4096
  | .quote _ => 4096
  | .user => 512
  | .paperUser => 512
  | .paperPositions => 512
  | .paperActivity => 512
  | .paperStake _ => 64
  | .paperHouse _ => 64
  | .bars _ => 256
  | .oracle _ => 256

/-- A message, of which the tasks read two fields; a message without a field has no text in
it. -/
structure FeedMessage where
  userAddress : String := ""
  market : String := ""
  text : String := ""
deriving DecidableEq

/-- What a task hands to the session: a message of a feed by its number, or a state that it has
read. -/
inductive Outbound where
  | message (feed : Feed) (number : Nat)
  | snapshot (key : SubscriptionKey)
deriving DecidableEq

/-- A task.  What it has taken or read is in its hand until it is sent.  A task that is aborted
while a worker runs it goes on until it next waits. -/
structure Task where
  key : SubscriptionKey
  user : String
  market : String
  receivers : List (Feed × Broadcast.Receiver)
  /-- a worker runs the task, which does not wait -/
  running : Bool := false
  /-- a state is to be read -/
  refreshing : Bool := false
  /-- how much of each feed had been sent when the state was last read -/
  readAt : Feed → Nat := fun _ => 0
  hand : Option Outbound := none
  aborted : Bool := false
  passedOn : List Outbound := []

/-- `WsSession`, with all tasks that it has spawned, the feeds, and the queue of its socket, in
which every entry has the number of its task. -/
structure Session where
  sent : Feed → List FeedMessage := fun _ => []
  spawned : List Task := []
  tasks : Dict SubscriptionKey Nat := ∅
  outbound : List (Nat × Outbound) := []

namespace Session

def abort (i : Nat) (s : Session) : Session :=
  { s with spawned := s.spawned.modify i fun t => { t with aborted := true } }

def cancel (key : SubscriptionKey) (s : Session) : Session :=
  match s.tasks.lookup key with
  | some i => { s.abort i with tasks := s.tasks.erase key }
  | none => s

def receiver (feed : Feed) (held : Nat) (s : Session) : Feed × Broadcast.Receiver :=
  (feed, Broadcast.subscribe ((s.sent feed).length - held))

/-- The body of the `subscribe_` functions. -/
def spawn (task : Task) (s : Session) : Session :=
  let s := s.cancel task.key
  { s with
    spawned := s.spawned ++ [task]
    tasks := s.tasks.insert task.key s.spawned.length }

variable (sdk : Sdk) (held : Feed → Nat)

/-- A task that listens to one feed.  Its receiver was opened before the task of the subscription
was aborted, and holds what was sent since. -/
def listen (key : SubscriptionKey) (user market : String) (feed : Feed) (s : Session) : Session :=
  s.spawn { key, user, market, receivers := [s.receiver feed (held feed)] }

def subscribeOrderbook (spotMarket : String) (s : Session) : Session :=
  s.listen held (.orderbook spotMarket) "" spotMarket
    (.orderbook (normalizeSpotMarketKey sdk spotMarket))

def subscribeQuote (spotMarket : String) (s : Session) : Session :=
  s.listen held (.quote spotMarket) "" spotMarket
    (.quote (normalizeSpotMarketKey sdk spotMarket))

def subscribeUser (userAddress : String) (s : Session) : Session :=
  s.listen held (.user userAddress) userAddress "" .user

def subscribePaperUser (userAddress : String) (s : Session) : Session :=
  s.listen held (.paperUser userAddress) userAddress "" .paperUser

def subscribePaperPositions (s : Session) : Session :=
  s.listen held .paperPositions "" "" .paperPositions

def subscribePaperActivity (s : Session) : Session :=
  s.listen held .paperActivity "" "" .paperActivity

def subscribePaperStake (market userAddress : String) (s : Session) : Session :=
  s.listen held (.paperStake market) userAddress market (.paperStake (addrKey market))

/-- Of what the receivers hold some may have been sent before the first state was read. -/
def subscribePaperUserState (user market : String) (unread : Feed → Nat) (s : Session) : Session :=
  let key := Text.toAsciiLowercase user ++ "|" ++ Text.toAsciiLowercase market
  s.spawn
    { key := .paperUserState key, user, market
      receivers := [s.receiver .paperUser (held .paperUser),
        s.receiver (.paperStake (addrKey market)) (held (.paperStake (addrKey market)))]
      readAt := fun feed => (s.sent feed).length - min (unread feed) (held feed) }

def subscribePaperHouse (market : String) (s : Session) : Session :=
  s.listen held (.paperHouse market) "" market (.paperHouse (addrKey market))

def subscribeBars (spotMarket : String) (s : Session) : Session :=
  s.listen held (.bars spotMarket) "" spotMarket (.bars (normalizeSpotMarketKey sdk spotMarket))

def subscribeOracle (spotMarket : String) (s : Session) : Session :=
  s.listen held (.oracle spotMarket) "" spotMarket
    (.oracle (normalizeSpotMarketKey sdk spotMarket))

def names (channel : Channel) (key : Option String) : SubscriptionKey → Bool
  | .orderbook current => channel = .orderbookDelta ∧ key.all (Text.eqIgnoreAsciiCase current)
  | .quote current => channel = .quote ∧ key.all (Text.eqIgnoreAsciiCase current)
  | .user current => channel = .user ∧ key.all (Text.eqIgnoreAsciiCase current)
  | .paperUser current => channel = .paperUser ∧ key.all (Text.eqIgnoreAsciiCase current)
  | .paperPositions => channel = .paperPositions
  | .paperActivity => channel = .paperActivity
  | .paperStake current => channel = .paperStake ∧ key.all (Text.eqIgnoreAsciiCase current)
  | .paperUserState current =>
      channel = .paperUserState ∧ key.all fun key =>
        Text.eqIgnoreAsciiCase current key ||
          (Text.stripPrefix (Text.toAsciiLowercase key ++ "|") (Text.toAsciiLowercase current)).isSome
  | .paperHouse current => channel = .paperHouse ∧ key.all (Text.eqIgnoreAsciiCase current)
  | .bars current => channel = .bars ∧ key.all (Text.eqIgnoreAsciiCase current)
  | .oracle current => channel = .oracle ∧ key.all (Text.eqIgnoreAsciiCase current)

def cancelChannel (channel : Channel) (key : Option String) (s : Session) : Session :=
  (s.tasks.keys.filter (names channel key)).foldl (fun s key => s.cancel key) s

end Session

/-! ## Requests -/

/-- What the rest of the program answers while a request is handled. -/
structure Answer where
  /-- `rehydrate_spot_from_chain` -/
  rehydrated : Except String Unit := .ok ()
  /-- the first message of a subscription, if it has one -/
  snapshot : Option String := none
  /-- the socket takes that message -/
  sinkOpen : Bool := true
  /-- what the receivers of a task hold already when it is spawned, and what of it was sent after
  the first state was read -/
  held : Feed → Nat := fun _ => 0
  unread : Feed → Nat := fun _ => 0

inductive Reply where
  | error (text : String)
  | snapshot (text : String)
  | subscribed (channel : Channel) (key : String)
  | unsubscribed (channel : Channel) (key : String)
deriving DecidableEq

structure Handled where
  session : Session
  replies : List Reply
  keepAlive : Bool := true

variable (sdk : Sdk) (a : Answer)

def errorReply (text : String) (s : Session) : Handled := ⟨s, [.error text], true⟩

/-- The snapshot, the task, and the acknowledgement; a socket that does not take the snapshot
ends the session. -/
def subscribeAfterSnapshot (spawn : Session → Session) (channel : Channel) (key : String)
    (s : Session) : Handled :=
  match a.snapshot with
  | some text =>
      if a.sinkOpen then ⟨spawn s, [.snapshot text, .subscribed channel key], true⟩
      else ⟨s, [.snapshot text], false⟩
  | none => ⟨spawn s, [.subscribed channel key], true⟩

def handleSubscribeOrderbook (spotMarket : String) (s : Session) : Handled :=
  match a.rehydrated with
  | .error error => errorReply error s
  | .ok _ =>
      subscribeAfterSnapshot a (Session.subscribeOrderbook sdk a.held spotMarket) .orderbookDelta
        spotMarket s

def handleSubscribeQuote (spotMarket : String) (s : Session) : Handled :=
  match a.rehydrated with
  | .error error => errorReply error s
  | .ok _ =>
      subscribeAfterSnapshot a (Session.subscribeQuote sdk a.held spotMarket) .quote spotMarket s

def handleSubscribeUser (userAddress : String) (s : Session) : Handled :=
  ⟨s.subscribeUser a.held userAddress, [.subscribed .user userAddress], true⟩

def handleSubscribePaperUser (userAddress : String) (s : Session) : Handled :=
  ⟨s.subscribePaperUser a.held userAddress, [.subscribed .paperUser userAddress], true⟩

def handleSubscribePaperPositions (s : Session) : Handled :=
  ⟨s.subscribePaperPositions a.held, [.subscribed .paperPositions "*"], true⟩

def handleSubscribePaperActivity (s : Session) : Handled :=
  ⟨s.subscribePaperActivity a.held, [.subscribed .paperActivity "*"], true⟩

def handleSubscribePaperUserState (userAddress market : String) (s : Session) : Handled :=
  if Text.trim userAddress = "" then errorReply "missing user_address" s
  else if Text.trim market = "" then errorReply "missing market" s
  else
    subscribeAfterSnapshot a (Session.subscribePaperUserState a.held userAddress market a.unread)
      .paperUserState userAddress s

def handleSubscribePaperStake (market userAddress : String) (s : Session) : Handled :=
  if Text.trim market = "" then errorReply "missing market" s
  else if Text.trim userAddress = "" then errorReply "missing user_address" s
  else
    subscribeAfterSnapshot a (Session.subscribePaperStake a.held market userAddress) .paperStake
      market s

def handleSubscribePaperHouse (market : String) (s : Session) : Handled :=
  if Text.trim market = "" then errorReply "missing market" s
  else subscribeAfterSnapshot a (Session.subscribePaperHouse a.held market) .paperHouse market s

def handleSubscribeBars (spotMarket : String) (interval : Option String) (s : Session) : Handled :=
  if interval.getD "1m" ≠ "1m" then
    errorReply "subscribe bars currently supports interval=1m only; use HTTP history for 5m/1h" s
  else subscribeAfterSnapshot a (Session.subscribeBars sdk a.held spotMarket) .bars spotMarket s

def handleSubscribeOracle (spotMarket : String) (s : Session) : Handled :=
  if Text.trim spotMarket = "" then errorReply "missing spot_market" s
  else subscribeAfterSnapshot a (Session.subscribeOracle sdk a.held spotMarket) .oracle spotMarket s

def required (name : String) (value : Option String) (s : Session) (go : String → Handled) :
    Handled :=
  match given value with
  | some value => go value
  | none => errorReply ("missing " ++ name) s

def handleSubscribe (r : WsRequest) (s : Session) : Channel → Handled
  | .orderbookDelta =>
      required "spot_market" r.spotMarket s fun m => handleSubscribeOrderbook sdk a m s
  | .quote => required "spot_market" r.spotMarket s fun m => handleSubscribeQuote sdk a m s
  | .user => required "user_address" r.userAddress s fun u => handleSubscribeUser a u s
  | .paperUser => required "user_address" r.userAddress s fun u => handleSubscribePaperUser a u s
  | .paperUserState =>
      required "user_address" r.userAddress s fun u =>
        required "market" r.market s fun m => handleSubscribePaperUserState a u m s
  | .paperPositions => handleSubscribePaperPositions a s
  | .paperActivity => handleSubscribePaperActivity a s
  | .paperStake =>
      required "market" r.market s fun m =>
        required "user_address" r.userAddress s fun u => handleSubscribePaperStake a m u s
  | .paperHouse => required "market" r.market s fun m => handleSubscribePaperHouse a m s
  | .bars =>
      required "spot_market" r.spotMarket s fun m => handleSubscribeBars sdk a m r.interval s
  | .oracle => required "spot_market" r.spotMarket s fun m => handleSubscribeOracle sdk a m s

/-- An unsubscription; only one that names a key is acknowledged. -/
def unsubscribeKey (channel : Channel) (key : Option String) (s : Session) : Handled :=
  ⟨s.cancelChannel channel key, (key.map (Reply.unsubscribed channel)).toList, true⟩

def unsubscribeAll (channel : Channel) (s : Session) : Handled :=
  ⟨s.cancelChannel channel none, [.unsubscribed channel "*"], true⟩

def userStateKey (user market : Option String) : Option String :=
  match user, market with
  | some user, some market => some (user ++ "|" ++ market)
  | some user, none => some user
  | none, _ => none

def handleUnsubscribePaperUserState (user market : Option String) (s : Session) : Handled :=
  ⟨s.cancelChannel .paperUserState (userStateKey user market),
    (user.map (Reply.unsubscribed .paperUserState)).toList, true⟩

def handleUnsubscribe (r : WsRequest) (s : Session) : Channel → Handled
  | .orderbookDelta => unsubscribeKey .orderbookDelta (given r.spotMarket) s
  | .quote => unsubscribeKey .quote (given r.spotMarket) s
  | .user => unsubscribeKey .user (given r.userAddress) s
  | .paperUser => unsubscribeKey .paperUser (given r.userAddress) s
  | .paperUserState => handleUnsubscribePaperUserState (given r.userAddress) (given r.market) s
  | .paperPositions => unsubscribeAll .paperPositions s
  | .paperActivity => unsubscribeAll .paperActivity s
  | .paperStake => unsubscribeKey .paperStake (given r.market) s
  | .paperHouse => unsubscribeKey .paperHouse (given r.market) s
  | .bars => unsubscribeKey .bars (given r.spotMarket) s
  | .oracle => unsubscribeKey .oracle (given r.spotMarket) s

def handleRequest (r : WsRequest) (s : Session) : Handled :=
  if r.op = "subscribe" then
    match r.channel with
    | none => errorReply "missing channel" s
    | some name =>
        match Channel.parse name with
        | some channel => handleSubscribe sdk a r s channel
        | none => errorReply ("unknown channel: " ++ name) s
  else if r.op = "unsubscribe" then
    match r.channel.bind Channel.parse with
    | some channel => handleUnsubscribe r s channel
    | none => ⟨s, [], true⟩
  else errorReply ("unknown op: " ++ r.op) s

/-! ## What a request asks for -/

/-- The request gives what the subscription needs, and the program answers. -/
def WsRequest.Gives (r : WsRequest) (a : Answer) : SubscriptionKey → Prop
  | .orderbook m => given r.spotMarket = some m ∧ a.rehydrated = .ok ()
  | .quote m => given r.spotMarket = some m ∧ a.rehydrated = .ok ()
  | .user u => given r.userAddress = some u
  | .paperUser u => given r.userAddress = some u
  | .paperPositions => True
  | .paperActivity => True
  | .paperStake m => given r.market = some m ∧ (given r.userAddress).isSome
  | .paperUserState k => ∃ u m, given r.userAddress = some u ∧ given r.market = some m ∧
      k = Text.toAsciiLowercase u ++ "|" ++ Text.toAsciiLowercase m
  | .paperHouse m => given r.market = some m
  | .bars m => given r.spotMarket = some m ∧ r.interval.getD "1m" = "1m"
  | .oracle m => given r.spotMarket = some m

structure Opens (r : WsRequest) (a : Answer) (key : SubscriptionKey) : Prop where
  op : r.op = "subscribe"
  channel : r.channel = some key.channel.name
  gives : r.Gives a key

/-- The text that an unsubscription names a subscription of the channel by, if it names one. -/
def WsRequest.named (r : WsRequest) : Channel → Option String
  | .orderbookDelta => given r.spotMarket
  | .quote => given r.spotMarket
  | .user => given r.userAddress
  | .paperUser => given r.userAddress
  | .paperUserState => userStateKey (given r.userAddress) (given r.market)
  | .paperPositions => none
  | .paperActivity => none
  | .paperStake => given r.market
  | .paperHouse => given r.market
  | .bars => given r.spotMarket
  | .oracle => given r.spotMarket

structure Closes (r : WsRequest) (key : SubscriptionKey) : Prop where
  op : r.op = "unsubscribe"
  channel : r.channel = some key.channel.name
  named : Session.names key.channel (r.named key.channel) key

/-! ## What a request leaves -/

theorem parse_name (channel : Channel) : Channel.parse channel.name = some channel := by
  cases channel <;> decide +kernel

theorem name_of_parse {name : String} {channel : Channel} (h : Channel.parse name = some channel) :
    channel.name = name := by
  have hfound := List.find?_some h
  exact of_decide_eq_true hfound

variable {s : Session} {key : SubscriptionKey}

namespace Session

theorem mem_cancel {key' : SubscriptionKey} :
    key' ∈ (s.cancel key).tasks ↔ key' ∈ s.tasks ∧ key' ≠ key := by
  unfold cancel
  cases hkey : s.tasks.lookup key with
  | some i =>
      dsimp only
      rw [AList.mem_erase, and_comm]
  | none =>
      constructor
      · intro hmem
        refine ⟨hmem, ?_⟩
        rintro rfl
        exact AList.lookup_eq_none.mp hkey hmem
      · exact And.left

theorem mem_spawn {task : Task} : key ∈ (s.spawn task).tasks ↔ key = task.key ∨ key ∈ s.tasks := by
  unfold spawn
  dsimp only
  rw [AList.mem_insert, mem_cancel]
  by_cases hkey : key = task.key <;> simp [hkey]

theorem mem_foldl_cancel {keys : List SubscriptionKey} :
    key ∈ (keys.foldl (fun s key => s.cancel key) s).tasks ↔ key ∈ s.tasks ∧ key ∉ keys := by
  induction keys generalizing s with
  | nil => simp
  | cons key' keys ih =>
      rw [List.foldl_cons, ih, mem_cancel, List.mem_cons, not_or, and_assoc]

theorem mem_cancelChannel {channel : Channel} {named : Option String} :
    key ∈ (s.cancelChannel channel named).tasks ↔
      key ∈ s.tasks ∧ ¬names channel named key = true := by
  unfold cancelChannel
  rw [mem_foldl_cancel, List.mem_filter, AList.mem_keys]
  constructor
  · rintro ⟨hmem, hnot⟩
    exact ⟨hmem, fun hnames => hnot ⟨hmem, hnames⟩⟩
  · rintro ⟨hmem, hnot⟩
    exact ⟨hmem, fun h => hnot h.2⟩

theorem channel_of_names {channel : Channel} {named : Option String}
    (h : names channel named key = true) : key.channel = channel := by
  cases key
  all_goals
    simp only [names, Bool.decide_and, Bool.and_eq_true, decide_eq_true_eq] at h
    simp only [SubscriptionKey.channel]
  all_goals first
    | exact h.symm
    | exact h.1.symm

end Session

def SubscriptionKey.hears : SubscriptionKey → Feed → Bool
  | .orderbook _, .orderbook _ => true
  | .quote _, .quote _ => true
  | .user _, .user => true
  | .paperUser _, .paperUser => true
  | .paperPositions, .paperPositions => true
  | .paperActivity, .paperActivity => true
  | .paperStake _, .paperStake _ => true
  | .paperUserState _, .paperUser => true
  | .paperUserState _, .paperStake _ => true
  | .paperHouse _, .paperHouse _ => true
  | .bars _, .bars _ => true
  | .oracle _, .oracle _ => true
  | _, _ => false

def SubscriptionKey.address : SubscriptionKey → Option String
  | .user u => some u
  | .paperUser u => some u
  | _ => none

structure Task.Fresh (sent : Feed → List FeedMessage) (t : Task) : Prop where
  aborted : t.aborted = false
  running : t.running = false
  refreshing : t.refreshing = false
  hand : t.hand = none
  passedOn : t.passedOn = []
  feeds : (t.receivers.map Prod.fst).Nodup
  hears : ∀ x ∈ t.receivers, t.key.hears x.1 = true
  address : ∀ u ∈ t.key.address, t.user = u
  opened : ∀ x ∈ t.receivers, ∃ n ≤ (sent x.1).length, x.2 = Broadcast.subscribe n ∧
    ((∃ k, t.key = .paperUserState k) → n ≤ t.readAt x.1)

theorem Session.fresh_listen {key : SubscriptionKey} {user market : String} {feed : Feed}
    {held : Feed → Nat} (hhears : key.hears feed = true)
    (haddress : key.address = none ∨ key.address = some user)
    (hstate : decide (key.channel = .paperUserState) = false) :
    Task.Fresh s.sent { key, user, market, receivers := [s.receiver feed (held feed)] } where
  aborted := rfl
  refreshing := rfl
  running := rfl
  hand := rfl
  passedOn := rfl
  feeds := List.nodup_singleton _
  hears := fun x hx => by
    rw [List.mem_singleton.mp hx]
    exact hhears
  address := fun u hu => by
    rcases haddress with hnone | hsome
    · cases hnone.symm.trans hu
    · cases hsome.symm.trans hu
      rfl
  opened := fun x hx => by
    rw [List.mem_singleton.mp hx]
    refine ⟨_, Nat.sub_le _ _, rfl, ?_⟩
    rintro ⟨k, rfl⟩
    cases hstate

theorem Session.fresh_userState (key user market : String) (held unread : Feed → Nat) :
    Task.Fresh s.sent
      { key := .paperUserState key, user, market
        receivers := [s.receiver .paperUser (held .paperUser),
          s.receiver (.paperStake (addrKey market)) (held (.paperStake (addrKey market)))]
        readAt := fun feed => (s.sent feed).length - min (unread feed) (held feed) } where
  aborted := rfl
  running := rfl
  refreshing := rfl
  hand := rfl
  passedOn := rfl
  feeds := by simp [Session.receiver]
  hears := fun x hx => by
    rcases List.mem_pair.mp hx with rfl | rfl
    · rfl
    · rfl
  address := fun u hu => by cases hu
  opened := fun x hx => by
    rcases List.mem_pair.mp hx with rfl | rfl
    · refine ⟨_, Nat.sub_le _ _, rfl, fun _ => ?_⟩
      dsimp only [Session.receiver]
      omega
    · refine ⟨_, Nat.sub_le _ _, rfl, fun _ => ?_⟩
      dsimp only [Session.receiver]
      omega

def WsRequest.AsksOn (r : WsRequest) (a : Answer) (channel : Channel) (key : SubscriptionKey) :
    Prop :=
  key.channel = channel ∧ r.Gives a key

/-- The socket is gone; or the subscription is refused, and none is asked for; or its task is
spawned, and no error is told. -/
def Handled.Subscribes (asked : SubscriptionKey → Prop) (s : Session) (h : Handled) : Prop :=
  (h.session = s ∧ h.keepAlive = false) ∨
    (h.session = s ∧ ∀ key, ¬asked key) ∨
    ∃ task, h.session = s.spawn task ∧ task.Fresh s.sent ∧ (∀ text, .error text ∉ h.replies) ∧
      ∀ key, asked key ↔ key = task.key

variable {r : WsRequest} {a} {channel : Channel} {asked : SubscriptionKey → Prop}

theorem Handled.Subscribes.congr {h : Handled} {asked' : SubscriptionKey → Prop}
    (hsubscribes : h.Subscribes asked s) (hasked : ∀ key, asked' key ↔ asked key) :
    h.Subscribes asked' s := by
  rcases hsubscribes with hgone | ⟨hsame, hnone⟩ | ⟨task, hspawn, hfresh, hreplies, hkey⟩
  · exact Or.inl hgone
  · exact Or.inr (Or.inl ⟨hsame, fun key h => hnone key ((hasked key).mp h)⟩)
  · exact Or.inr (Or.inr ⟨task, hspawn, hfresh, hreplies, fun key => (hasked key).trans (hkey key)⟩)

theorem subscribes_error {text : String} (hnone : ∀ key, ¬asked key) :
    (errorReply text s).Subscribes asked s := Or.inr (Or.inl ⟨rfl, hnone⟩)

theorem subscribes_reply {task : Task} {channel' : Channel} {text : String}
    (hfresh : task.Fresh s.sent) :
    Handled.Subscribes (· = task.key) s ⟨s.spawn task, [.subscribed channel' text], true⟩ :=
  Or.inr (Or.inr ⟨task, rfl, hfresh, by simp, fun _ => Iff.rfl⟩)

theorem subscribes_spawn {spawn : Session → Session} {task : Task} {channel' : Channel}
    {text : String} (hspawn : spawn s = s.spawn task) (hfresh : task.Fresh s.sent) :
    (subscribeAfterSnapshot a spawn channel' text s).Subscribes (· = task.key) s := by
  unfold subscribeAfterSnapshot
  cases a.snapshot with
  | none => exact Or.inr (Or.inr ⟨task, hspawn, hfresh, by simp, fun _ => Iff.rfl⟩)
  | some shown =>
      dsimp only
      split_ifs
      · exact Or.inr (Or.inr ⟨task, hspawn, hfresh, by simp, fun _ => Iff.rfl⟩)
      · exact Or.inl ⟨rfl, rfl⟩

theorem subscribes_required {name : String} {value : Option String} {go : String → Handled}
    {asked : String → SubscriptionKey → Prop}
    (hgo : ∀ v, given value = some v → (go v).Subscribes (asked v) s) :
    (required name value s go).Subscribes (fun key => ∃ v, given value = some v ∧ asked v key) s := by
  unfold required
  cases hvalue : given value with
  | none => exact subscribes_error fun key ⟨v, hv, _⟩ => by cases hv
  | some v => exact (hgo v hvalue).congr fun key => by simp

theorem trim_ne_of_given {value : Option String} {v : String} (h : given value = some v) :
    Text.trim v ≠ "" := by
  unfold given at h
  rw [Option.filter_eq_some_iff] at h
  simpa using h.2

/-! ## The subscriptions of the channels -/

theorem subscribes_rehydrated {h : Handled} {key : SubscriptionKey}
    (hsubscribes : h.Subscribes (· = key) s) :
    Handled.Subscribes (fun k => a.rehydrated = .ok () ∧ k = key) s
      (match a.rehydrated with
        | .error error => errorReply error s
        | .ok _ => h) := by
  cases a.rehydrated with
  | error text => exact subscribes_error fun key h => nomatch h.1
  | ok _ => exact hsubscribes.congr fun key => and_iff_right rfl

theorem handleSubscribeOrderbook_subscribes (m : String) :
    (handleSubscribeOrderbook sdk a m s).Subscribes
      (fun key => a.rehydrated = .ok () ∧ key = .orderbook m) s :=
  subscribes_rehydrated (subscribes_spawn rfl (Session.fresh_listen rfl (Or.inl rfl) rfl))

theorem handleSubscribeQuote_subscribes (m : String) :
    (handleSubscribeQuote sdk a m s).Subscribes
      (fun key => a.rehydrated = .ok () ∧ key = .quote m) s :=
  subscribes_rehydrated (subscribes_spawn rfl (Session.fresh_listen rfl (Or.inl rfl) rfl))

theorem handleSubscribeUser_subscribes (u : String) :
    (handleSubscribeUser a u s).Subscribes (· = .user u) s :=
  subscribes_reply (Session.fresh_listen rfl (Or.inr rfl) rfl)

theorem handleSubscribePaperUser_subscribes (u : String) :
    (handleSubscribePaperUser a u s).Subscribes (· = .paperUser u) s :=
  subscribes_reply (Session.fresh_listen rfl (Or.inr rfl) rfl)

theorem handleSubscribePaperPositions_subscribes :
    (handleSubscribePaperPositions a s).Subscribes (· = .paperPositions) s :=
  subscribes_reply (Session.fresh_listen rfl (Or.inl rfl) rfl)

theorem handleSubscribePaperActivity_subscribes :
    (handleSubscribePaperActivity a s).Subscribes (· = .paperActivity) s :=
  subscribes_reply (Session.fresh_listen rfl (Or.inl rfl) rfl)

theorem handleSubscribePaperUserState_subscribes {u m : String} (hu : Text.trim u ≠ "")
    (hm : Text.trim m ≠ "") :
    (handleSubscribePaperUserState a u m s).Subscribes
      (· = .paperUserState (Text.toAsciiLowercase u ++ "|" ++ Text.toAsciiLowercase m)) s := by
  unfold handleSubscribePaperUserState
  rw [if_neg hu, if_neg hm]
  exact subscribes_spawn rfl (Session.fresh_userState _ u m a.held a.unread)

theorem handleSubscribePaperStake_subscribes {m u : String} (hm : Text.trim m ≠ "")
    (hu : Text.trim u ≠ "") :
    (handleSubscribePaperStake a m u s).Subscribes (· = .paperStake m) s := by
  unfold handleSubscribePaperStake
  rw [if_neg hm, if_neg hu]
  exact subscribes_spawn rfl (Session.fresh_listen rfl (Or.inl rfl) rfl)

theorem handleSubscribePaperHouse_subscribes {m : String} (hm : Text.trim m ≠ "") :
    (handleSubscribePaperHouse a m s).Subscribes (· = .paperHouse m) s := by
  unfold handleSubscribePaperHouse
  rw [if_neg hm]
  exact subscribes_spawn rfl (Session.fresh_listen rfl (Or.inl rfl) rfl)

theorem handleSubscribeBars_subscribes (m : String) (interval : Option String) :
    (handleSubscribeBars sdk a m interval s).Subscribes
      (fun key => interval.getD "1m" = "1m" ∧ key = .bars m) s := by
  unfold handleSubscribeBars
  split_ifs with hinterval
  · exact subscribes_error fun key h => hinterval h.1
  · refine Handled.Subscribes.congr ?_ fun key => and_iff_right (not_not.mp hinterval)
    exact subscribes_spawn rfl (Session.fresh_listen rfl (Or.inl rfl) rfl)

theorem handleSubscribeOracle_subscribes {m : String} (hm : Text.trim m ≠ "") :
    (handleSubscribeOracle sdk a m s).Subscribes (· = .oracle m) s := by
  unfold handleSubscribeOracle
  rw [if_neg hm]
  exact subscribes_spawn rfl (Session.fresh_listen rfl (Or.inl rfl) rfl)

def WsRequest.Reads (r : WsRequest) (a : Answer) : Channel → SubscriptionKey → Prop
  | .orderbookDelta, key =>
      ∃ m, given r.spotMarket = some m ∧ a.rehydrated = .ok () ∧ key = .orderbook m
  | .quote, key => ∃ m, given r.spotMarket = some m ∧ a.rehydrated = .ok () ∧ key = .quote m
  | .user, key => ∃ u, given r.userAddress = some u ∧ key = .user u
  | .paperUser, key => ∃ u, given r.userAddress = some u ∧ key = .paperUser u
  | .paperPositions, key => key = .paperPositions
  | .paperActivity, key => key = .paperActivity
  | .paperUserState, key =>
      ∃ u, given r.userAddress = some u ∧ ∃ m, given r.market = some m ∧
        key = .paperUserState (Text.toAsciiLowercase u ++ "|" ++ Text.toAsciiLowercase m)
  | .paperStake, key =>
      ∃ m, given r.market = some m ∧ ∃ u, given r.userAddress = some u ∧ key = .paperStake m
  | .paperHouse, key => ∃ m, given r.market = some m ∧ key = .paperHouse m
  | .bars, key => ∃ m, given r.spotMarket = some m ∧ r.interval.getD "1m" = "1m" ∧ key = .bars m
  | .oracle, key => ∃ m, given r.spotMarket = some m ∧ key = .oracle m

theorem reads_of_gives {key : SubscriptionKey} (h : r.Gives a key) :
    r.Reads a key.channel key := by
  cases key with
  | orderbook m => exact ⟨m, h.1, h.2, rfl⟩
  | quote m => exact ⟨m, h.1, h.2, rfl⟩
  | user u => exact ⟨u, h, rfl⟩
  | paperUser u => exact ⟨u, h, rfl⟩
  | paperPositions => rfl
  | paperActivity => rfl
  | paperStake m =>
      obtain ⟨u, hu⟩ := Option.isSome_iff_exists.mp h.2
      exact ⟨m, h.1, u, hu, rfl⟩
  | paperUserState k =>
      obtain ⟨u, m, hu, hm, rfl⟩ := h
      exact ⟨u, hu, m, hm, rfl⟩
  | paperHouse m => exact ⟨m, h, rfl⟩
  | bars m => exact ⟨m, h.1, h.2, rfl⟩
  | oracle m => exact ⟨m, h, rfl⟩

theorem asksOn_of_reads {key : SubscriptionKey} (h : r.Reads a channel key) :
    r.AsksOn a channel key := by
  cases channel with
  | orderbookDelta =>
      obtain ⟨m, hm, hloaded, rfl⟩ := h
      exact ⟨rfl, hm, hloaded⟩
  | quote =>
      obtain ⟨m, hm, hloaded, rfl⟩ := h
      exact ⟨rfl, hm, hloaded⟩
  | user =>
      obtain ⟨u, hu, rfl⟩ := h
      exact ⟨rfl, hu⟩
  | paperUser =>
      obtain ⟨u, hu, rfl⟩ := h
      exact ⟨rfl, hu⟩
  | paperPositions =>
      cases h
      exact ⟨rfl, trivial⟩
  | paperActivity =>
      cases h
      exact ⟨rfl, trivial⟩
  | paperUserState =>
      obtain ⟨u, hu, m, hm, rfl⟩ := h
      exact ⟨rfl, u, m, hu, hm, rfl⟩
  | paperStake =>
      obtain ⟨m, hm, u, hu, rfl⟩ := h
      exact ⟨rfl, hm, Option.isSome_of_eq_some hu⟩
  | paperHouse =>
      obtain ⟨m, hm, rfl⟩ := h
      exact ⟨rfl, hm⟩
  | bars =>
      obtain ⟨m, hm, hinterval, rfl⟩ := h
      exact ⟨rfl, hm, hinterval⟩
  | oracle =>
      obtain ⟨m, hm, rfl⟩ := h
      exact ⟨rfl, hm⟩

theorem asksOn_iff (key : SubscriptionKey) : r.AsksOn a channel key ↔ r.Reads a channel key := by
  constructor
  · rintro ⟨rfl, hgives⟩
    exact reads_of_gives hgives
  · exact asksOn_of_reads

theorem handleSubscribe_subscribes :
    (handleSubscribe sdk a r s channel).Subscribes (r.AsksOn a channel) s := by
  refine Handled.Subscribes.congr ?_ asksOn_iff
  cases channel with
  | orderbookDelta => exact subscribes_required fun m _ => handleSubscribeOrderbook_subscribes sdk m
  | quote => exact subscribes_required fun m _ => handleSubscribeQuote_subscribes sdk m
  | user => exact subscribes_required fun u _ => handleSubscribeUser_subscribes u
  | paperUser => exact subscribes_required fun u _ => handleSubscribePaperUser_subscribes u
  | paperPositions => exact handleSubscribePaperPositions_subscribes
  | paperActivity => exact handleSubscribePaperActivity_subscribes
  | paperUserState =>
      exact subscribes_required fun u hu => subscribes_required fun m hm =>
        handleSubscribePaperUserState_subscribes (trim_ne_of_given hu) (trim_ne_of_given hm)
  | paperStake =>
      exact subscribes_required fun m hm => subscribes_required fun u hu =>
        handleSubscribePaperStake_subscribes (trim_ne_of_given hm) (trim_ne_of_given hu)
  | paperHouse =>
      exact subscribes_required fun m hm =>
        handleSubscribePaperHouse_subscribes (trim_ne_of_given hm)
  | bars =>
      exact subscribes_required fun m _ => handleSubscribeBars_subscribes sdk m r.interval
  | oracle =>
      exact subscribes_required fun m hm =>
        handleSubscribeOracle_subscribes sdk (trim_ne_of_given hm)

theorem mem_handleUnsubscribe :
    key ∈ (handleUnsubscribe r s channel).session.tasks ↔
      key ∈ s.tasks ∧ ¬Session.names channel (r.named channel) key = true := by
  cases channel <;> exact Session.mem_cancelChannel

theorem not_closes_subscribe (hop : r.op = "subscribe") : ¬Closes r key := by
  intro h
  have hop' := hop.symm.trans h.op
  exact absurd hop' (by decide)

theorem not_opens_unsubscribe (hop : r.op ≠ "subscribe") : ¬Opens r a key := fun h => hop h.op

/-- A request opens the subscription that it asks for, ends those that it names, and leaves all
others. -/
theorem mem_handleRequest (halive : (handleRequest sdk a r s).keepAlive = true) :
    key ∈ (handleRequest sdk a r s).session.tasks ↔
      Opens r a key ∨ key ∈ s.tasks ∧ ¬Closes r key := by
  unfold handleRequest at halive ⊢
  by_cases hsubscribe : r.op = "subscribe"
  · have hkept : (key ∈ s.tasks ∧ ¬Closes r key) ↔ key ∈ s.tasks :=
      and_iff_left (not_closes_subscribe hsubscribe)
    rw [hkept]
    rw [if_pos hsubscribe] at halive ⊢
    have hopens : ∀ name, r.channel = some name → ∀ channel, Channel.parse name = some channel →
        (Opens r a key ↔ r.AsksOn a channel key) := by
      intro name hname channel hparse
      have hnamed := name_of_parse hparse
      constructor
      · rintro ⟨-, hchannel, hgives⟩
        rw [hname, Option.some.injEq] at hchannel
        rw [hchannel, parse_name, Option.some.injEq] at hparse
        exact ⟨hparse, hgives⟩
      · rintro ⟨rfl, hgives⟩
        exact ⟨hsubscribe, hname.trans (congrArg some hnamed.symm), hgives⟩
    cases hname : r.channel with
    | none =>
        refine (or_iff_right fun h => ?_).symm
        cases hname.symm.trans h.channel
    | some name =>
        rw [hname] at halive
        dsimp only at halive ⊢
        cases hparse : Channel.parse name with
        | none =>
            refine (or_iff_right fun h => ?_).symm
            have hchannel := h.channel
            rw [hname, Option.some.injEq] at hchannel
            rw [hchannel, parse_name] at hparse
            cases hparse
        | some channel =>
            rw [hparse] at halive
            rw [hopens name hname channel hparse]
            rcases handleSubscribe_subscribes sdk with
              ⟨-, hgone⟩ | ⟨hsame, hnone⟩ | ⟨task, hspawn, -, -, hkey⟩
            · cases hgone.symm.trans halive
            · dsimp only
              rw [hsame, or_iff_right (hnone key)]
            · dsimp only
              rw [hspawn, Session.mem_spawn, hkey]
  · rw [or_iff_right (not_opens_unsubscribe hsubscribe)]
    rw [if_neg hsubscribe]
    by_cases hunsubscribe : r.op = "unsubscribe"
    · rw [if_pos hunsubscribe]
      cases hparse : r.channel.bind Channel.parse with
      | none =>
          refine (and_iff_left fun h => ?_).symm
          rw [h.channel, Option.bind_some, parse_name] at hparse
          cases hparse
      | some channel =>
          dsimp only
          rw [mem_handleUnsubscribe]
          refine and_congr_right fun _ => not_congr ?_
          obtain ⟨name, hname, hparse⟩ := Option.bind_eq_some_iff.mp hparse
          have hnamed := name_of_parse hparse
          constructor
          · intro hnames
            have hchannel := Session.channel_of_names hnames
            subst hchannel
            exact ⟨hunsubscribe, hname.trans (congrArg some hnamed.symm), hnames⟩
          · rintro ⟨-, hchannel, hnames⟩
            rw [hname, Option.some.injEq] at hchannel
            rw [hchannel, parse_name, Option.some.injEq] at hparse
            exact hparse ▸ hnames
    · rw [if_neg hunsubscribe]
      exact (and_iff_left fun h => hunsubscribe h.op).symm

/-- A request that is answered by an error leaves the session as it is. -/
theorem session_of_error {text : String}
    (herror : .error text ∈ (handleRequest sdk a r s).replies) :
    (handleRequest sdk a r s).session = s := by
  unfold handleRequest at herror ⊢
  split_ifs at herror ⊢
  · cases hname : r.channel with
    | none => rfl
    | some name =>
        rw [hname] at herror
        dsimp only at herror ⊢
        cases hparse : Channel.parse name with
        | none => rfl
        | some channel =>
            rw [hparse] at herror
            rcases handleSubscribe_subscribes sdk with
              ⟨hsame, -⟩ | ⟨hsame, -⟩ | ⟨task, -, -, hnone, -⟩
            · exact hsame
            · exact hsame
            · exact absurd herror (hnone text)
  · cases hparse : r.channel.bind Channel.parse with
    | none => rfl
    | some channel =>
        rw [hparse] at herror
        have hreplies : ∀ (value : Option String) (channel : Channel),
            .error text ∉ (value.map (Reply.unsubscribed channel)).toList := by
          intro value channel
          cases value <;> simp
        cases channel
        all_goals first
          | exact absurd herror (hreplies _ _)
          | exact absurd herror (by simp [handleUnsubscribe, unsubscribeAll])
  · rfl

/-- A request cancels some subscriptions, or spawns the task of the one that it opens. -/
theorem handleRequest_cases :
    (∃ keys : List SubscriptionKey, (handleRequest sdk a r s).session =
      keys.foldl (fun s key => s.cancel key) s) ∨
    ∃ task, (handleRequest sdk a r s).session = s.spawn task ∧ task.Fresh s.sent ∧
      Opens r a task.key := by
  have hsame : ∀ h : Handled, h.session = s →
      ∃ keys : List SubscriptionKey, h.session = keys.foldl (fun s key => s.cancel key) s :=
    fun h hs => ⟨[], hs⟩
  unfold handleRequest
  by_cases hsubscribe : r.op = "subscribe"
  · rw [if_pos hsubscribe]
    cases hname : r.channel with
    | none => exact Or.inl (hsame _ rfl)
    | some name =>
        dsimp only
        cases hparse : Channel.parse name with
        | none => exact Or.inl (hsame _ rfl)
        | some channel =>
            rcases handleSubscribe_subscribes sdk with
              ⟨hkept, -⟩ | ⟨hkept, -⟩ | ⟨task, hspawn, hfresh, -, hkey⟩
            · exact Or.inl (hsame _ hkept)
            · exact Or.inl (hsame _ hkept)
            · obtain ⟨hchannel, hgives⟩ := (hkey task.key).mpr rfl
              have hnamed := name_of_parse hparse
              rw [← hchannel] at hnamed
              exact Or.inr ⟨task, hspawn, hfresh, hsubscribe,
                hname.trans (congrArg some hnamed.symm), hgives⟩
  · rw [if_neg hsubscribe]
    refine Or.inl ?_
    split_ifs
    · cases r.channel.bind Channel.parse with
      | none => exact hsame _ rfl
      | some channel =>
          cases channel <;> exact ⟨_, rfl⟩
    · exact hsame _ rfl

end Ws

end ClobIndexer
