import ClobIndexer.Http.MarkCancelled
/-!
# Asking for an order

The order routes of `src/http/routes/orders.rs` and the reads of
`src/indexer/index_state.rs` under them.  An order is asked for by its chain id, by its
own id, or by what it looks like; each route goes through another index, and the answer
is about the same hot orders.
-/

namespace ClobIndexer

open Lib

abbrev OrderQueryResponse := OrderQueryRecord

structure QueryOrderQuery where
  spotMarket : String
  chainOrderId : Option String := none
  userAddress : Option String := none
  side : Option String := none
  price : Option String := none
  sizeRaw : Option UInt64 := none
deriving DecidableEq

variable (sdk : Sdk)

namespace OrderIndex

def queryOrder (idx : OrderIndex) (spotMarket chainOrderId : String)
    (userAddress : Option String) : Option OrderQueryRecord :=
  match idx.find sdk spotMarket chainOrderId with
  | none => none
  | some (_, stored) =>
      if userAddress.all (Text.eqIgnoreAsciiCase stored.userAddress) then
        some (orderQueryRecord stored)
      else none

/-- What `find_open_order_match` asks of an order. -/
def IsOpenMatch (spot side price : String) (sizeRaw : UInt64) (stored : StoredOrder) : Prop :=
  (stored.order.status = "open" ∨ stored.order.status = "partial_filled") ∧
    stored.spotMarket = spot ∧ stored.order.side = side ∧ stored.order.price = price ∧
    stored.sizeRaw = sizeRaw

instance (spot side price : String) (sizeRaw : UInt64) (stored : StoredOrder) :
    Decidable (IsOpenMatch spot side price sizeRaw stored) :=
  inferInstanceAs (Decidable (_ ∧ _))

def findOpenOrderMatch (idx : OrderIndex) (spotMarket userAddress side price : String)
    (sizeRaw : UInt64) : Option OrderQueryRecord :=
  let spot := normalizeSpotMarketKey sdk spotMarket
  (idx.idsOf (userKey userAddress)).keys.findSome? fun id =>
    ((idx.orders.lookup id).filter fun stored => IsOpenMatch spot side price sizeRaw stored).map
      orderQueryRecord

def orderCancelContext (idx : OrderIndex) (orderId : Uuid) (userAddress : String) :
    Option (Order × String × String) :=
  match idx.orders.lookup orderId with
  | none => none
  | some stored =>
      if ¬Text.eqIgnoreAsciiCase stored.userAddress userAddress then none
      else if stored.order.status ≠ "open" ∧ stored.order.status ≠ "partial_filled" then none
      else some (stored.order, stored.chainOrderId, stored.spotMarket)

def addKeys (idx : OrderIndex) (id : Uuid) (stored : StoredOrder) : OrderIndex where
  orders := idx.orders
  ordersById := idx.ordersById.insert (stored.key sdk) id
  ordersByUser := idx.ordersByUser.insert (userKey stored.userAddress)
    ((idx.idsOf (userKey stored.userAddress)).insert id ())

def rebuildOrderIndexes (idx : OrderIndex) : OrderIndex :=
  idx.orders.entries.foldl (fun acc e => acc.addKeys sdk e.1 e.2) { orders := idx.orders }

end OrderIndex

/-! ## The routes -/

def required {α : Type} (field : String) : Option α → Except AppError α
  | some value => .ok value
  | none => .error (.badRequest (field ++ " is required"))

def orNotFound (spotMarket : String) :
    Option OrderQueryRecord → Except AppError OrderQueryResponse
  | some record => .ok record
  | none => .error (.notFound ("order not found for spot market " ++ spotMarket))

/-- `GET /query`. -/
def queryOrder (idx : OrderIndex) (query : QueryOrderQuery) :
    Except AppError OrderQueryResponse := do
  let spotMarket := normalizeSpotMarketKey sdk query.spotMarket
  let record ←
    match query.chainOrderId with
    | some chainOrderId =>
        pure (idx.queryOrder sdk spotMarket chainOrderId query.userAddress)
    | none => do
        let userAddress ← required "user_address" query.userAddress
        let side ← required "side" query.side
        let price ← required "price" query.price
        let sizeRaw ← required "size_raw" query.sizeRaw
        pure (idx.findOpenOrderMatch sdk spotMarket userAddress side price sizeRaw)
  orNotFound spotMarket record

/-- `GET /:id/cancel-context`. -/
def cancelContext (idx : OrderIndex) (id : Uuid) (userAddress : String) :
    Except AppError (Order × String × String) :=
  match idx.orderCancelContext id userAddress with
  | some context => .ok context
  | none => .error (.notFound ("open order " ++ id.toString ++ " not found"))

def enrichOrderRecord (r : Registry) (record : OrderQueryRecord) : OrderQueryRecord :=
  if record.order.question = "" ∨ record.order.marketSlug = "" then
    match r.getMarket record.order.marketId with
    | none => record
    | some market =>
        { record with
          order := { record.order with
            question :=
              if record.order.question = "" then market.label else record.order.question
            marketSlug :=
              if record.order.marketSlug = "" then
                if market.slug ≠ "" then market.slug else market.name
              else record.order.marketSlug } }
  else record

/-- `GET /` and `GET /openOrders`. -/
def listOrders (s : IndexState) (userAddress : String) : List OrderQueryRecord :=
  (s.orders.listOrdersForUser userAddress).map (enrichOrderRecord s.registry)

/-! ## What a query is about -/

namespace QueryOrderQuery

def missing (query : QueryOrderQuery) : Option String :=
  if query.chainOrderId.isSome then none
  else if query.userAddress.isNone then some "user_address"
  else if query.side.isNone then some "side"
  else if query.price.isNone then some "price"
  else if query.sizeRaw.isNone then some "size_raw"
  else none

structure ByChainId (query : QueryOrderQuery) (stored : StoredOrder) : Prop where
  key : ∃ chainOrderId, query.chainOrderId = some chainOrderId ∧
    stored.key sdk = onchainOrderId sdk query.spotMarket chainOrderId
  owner : ∀ user, query.userAddress = some user →
    Text.eqIgnoreAsciiCase stored.userAddress user = true

structure ByLooks (query : QueryOrderQuery) (stored : StoredOrder) : Prop where
  noChainId : query.chainOrderId = none
  owner : ∃ user, query.userAddress = some user ∧ userKey stored.userAddress = userKey user
  spotMarket : stored.spotMarket = normalizeSpotMarketKey sdk query.spotMarket
  side : query.side = some stored.order.side
  price : query.price = some stored.order.price
  sizeRaw : query.sizeRaw = some stored.sizeRaw

def Names (query : QueryOrderQuery) (stored : StoredOrder) : Prop :=
  query.ByChainId sdk stored ∨ query.ByLooks sdk stored

end QueryOrderQuery

namespace OrderIndex

def Hot (idx : OrderIndex) (stored : StoredOrder) : Prop :=
  ∃ id, idx.orders.lookup id = some stored

/-- The answer to a query is one of the hot orders that it names; it is an error only where
there is none, or where the query says too little. -/
structure Answers (idx : OrderIndex) (query : QueryOrderQuery)
    (answer : Except AppError OrderQueryResponse) : Prop where
  incomplete : ∀ field, query.missing = some field →
    answer = .error (.badRequest (field ++ " is required"))
  found : query.missing = none → (∃ stored, idx.Hot stored ∧ query.Names sdk stored) →
    ∃ stored, idx.Hot stored ∧ query.Names sdk stored ∧ answer = .ok (orderQueryRecord stored)
  absent : query.missing = none → (∀ stored, idx.Hot stored → ¬query.Names sdk stored) →
    answer = .error (.notFound
      ("order not found for spot market " ++ normalizeSpotMarketKey sdk query.spotMarket))
  one : query.chainOrderId ≠ none → ∀ stored stored', idx.Hot stored → idx.Hot stored' →
    query.Names sdk stored → query.Names sdk stored' → stored = stored'

variable {sdk} {idx : OrderIndex}

/-! ## The reads of an indexed order map -/

theorem Indexed.find_eq_some_iff (h : Indexed sdk idx) {spot chainId : String} {id : Uuid}
    {stored : StoredOrder} :
    idx.find sdk spot chainId = some (id, stored) ↔
      idx.orders.lookup id = some stored ∧ stored.key sdk = onchainOrderId sdk spot chainId := by
  rw [OrderIndex.find_eq_some_iff, h.byId]
  constructor
  · intro hfind
    obtain ⟨⟨other, hother, hkey⟩, hstored⟩ := hfind
    rw [hstored] at hother
    exact ⟨hstored, Option.some.inj hother ▸ hkey⟩
  · intro hstored
    exact ⟨⟨stored, hstored⟩, hstored.1⟩

/-- A chain id leads to the hot order of its key, where the owner is as asked. -/
theorem Indexed.queryOrder_eq_some_iff (h : Indexed sdk idx) (spot chainId : String)
    (user : Option String) (record : OrderQueryRecord) :
    idx.queryOrder sdk spot chainId user = some record ↔
      ∃ stored, idx.Hot stored ∧ stored.key sdk = onchainOrderId sdk spot chainId ∧
        (∀ u, user = some u → Text.eqIgnoreAsciiCase stored.userAddress u = true) ∧
        orderQueryRecord stored = record := by
  have howner : ∀ stored : StoredOrder, user.all (Text.eqIgnoreAsciiCase stored.userAddress) =
      true ↔ ∀ u, user = some u → Text.eqIgnoreAsciiCase stored.userAddress u = true := by
    intro stored
    cases user with
    | none => simp
    | some u => simp
  have hfind := @Indexed.find_eq_some_iff sdk idx h spot chainId
  unfold queryOrder
  cases hfound : idx.find sdk spot chainId with
  | none =>
      refine iff_of_false (by simp) ?_
      intro hstored
      obtain ⟨stored, ⟨id, hlookup⟩, hkey, -⟩ := hstored
      rw [hfind.mpr ⟨hlookup, hkey⟩] at hfound
      cases hfound
  | some found =>
      obtain ⟨id, stored⟩ := found
      obtain ⟨hlookup, hkey⟩ := hfind.mp hfound
      -- no other hot order has this key
      have hone : ∀ other, idx.Hot other → other.key sdk = onchainOrderId sdk spot chainId →
          other = stored := by
        intro other hother hotherKey
        obtain ⟨otherId, hotherLookup⟩ := hother
        have hsame := hfind.mpr ⟨hotherLookup, hotherKey⟩
        rw [hfound] at hsame
        exact (Prod.mk.inj (Option.some.inj hsame)).2.symm
      dsimp only
      split_ifs with hall
      · rw [Option.some.injEq]
        constructor
        · intro hrecord
          exact ⟨stored, ⟨id, hlookup⟩, hkey, (howner stored).mp hall, hrecord⟩
        · intro hother
          obtain ⟨other, hhot, hotherKey, -, hrecord⟩ := hother
          rw [← hone other hhot hotherKey]
          exact hrecord
      · refine iff_of_false (by simp) ?_
        intro hother
        obtain ⟨other, hhot, hotherKey, hotherOwner, -⟩ := hother
        rw [hone other hhot hotherKey] at hotherOwner
        exact hall ((howner stored).mpr hotherOwner)

theorem Indexed.exists_mem_keys (h : Indexed sdk idx) (user : String) (stored : StoredOrder) :
    (∃ id ∈ (idx.idsOf user).keys, idx.orders.lookup id = some stored) ↔
      idx.Hot stored ∧ userKey stored.userAddress = user := by
  constructor
  · intro hid
    obtain ⟨id, hmem, hlookup⟩ := hid
    rw [← AList.mem_keys, h.byUser] at hmem
    obtain ⟨other, hother, howner⟩ := hmem
    rw [hlookup] at hother
    exact ⟨⟨id, hlookup⟩, Option.some.inj hother ▸ howner⟩
  · intro hhot
    obtain ⟨⟨id, hlookup⟩, howner⟩ := hhot
    refine ⟨id, ?_, hlookup⟩
    rw [← AList.mem_keys, h.byUser]
    exact ⟨stored, hlookup, howner⟩

theorem Indexed.of_findOpenOrderMatch (h : Indexed sdk idx)
    {spotMarket userAddress side price : String} {sizeRaw : UInt64} {record : OrderQueryRecord}
    (hfound : idx.findOpenOrderMatch sdk spotMarket userAddress side price sizeRaw =
      some record) :
    ∃ stored, idx.Hot stored ∧ userKey stored.userAddress = userKey userAddress ∧
      IsOpenMatch (normalizeSpotMarketKey sdk spotMarket) side price sizeRaw stored ∧
      orderQueryRecord stored = record := by
  unfold findOpenOrderMatch at hfound
  obtain ⟨id, hmem, hid⟩ := List.exists_of_findSome?_eq_some hfound
  rw [Option.map_eq_some_iff] at hid
  obtain ⟨stored, hstored, hrecord⟩ := hid
  rw [Option.filter_eq_some_iff] at hstored
  obtain ⟨hhot, howner⟩ := (h.exists_mem_keys _ stored).mp ⟨id, hmem, hstored.1⟩
  exact ⟨stored, hhot, howner, of_decide_eq_true hstored.2, hrecord⟩

theorem Indexed.findOpenOrderMatch_ne_none (h : Indexed sdk idx)
    {spotMarket userAddress side price : String} {sizeRaw : UInt64} {stored : StoredOrder}
    (hhot : idx.Hot stored) (howner : userKey stored.userAddress = userKey userAddress)
    (hlooks : IsOpenMatch (normalizeSpotMarketKey sdk spotMarket) side price sizeRaw stored) :
    idx.findOpenOrderMatch sdk spotMarket userAddress side price sizeRaw ≠ none := by
  intro hnone
  unfold findOpenOrderMatch at hnone
  obtain ⟨id, hmem, hlookup⟩ := (h.exists_mem_keys _ stored).mpr ⟨hhot, howner⟩
  have hid := List.findSome?_eq_none_iff.mp hnone id hmem
  rw [hlookup] at hid
  simp [Option.filter, hlooks] at hid

theorem Indexed.isOpenMatch_iff (h : Indexed sdk idx) {stored : StoredOrder}
    (hhot : idx.Hot stored) {spot side price : String} {sizeRaw : UInt64} :
    IsOpenMatch spot side price sizeRaw stored ↔
      stored.spotMarket = spot ∧ stored.order.side = side ∧ stored.order.price = price ∧
        stored.sizeRaw = sizeRaw := by
  obtain ⟨id, hlookup⟩ := hhot
  exact and_iff_right (h.hot id stored hlookup)

/-- Only hot orders are kept, so an order can be cancelled where it is found. -/
theorem Indexed.orderCancelContext_eq (h : Indexed sdk idx) (orderId : Uuid)
    (userAddress : String) :
    idx.orderCancelContext orderId userAddress =
      idx.storedOrderContextById orderId userAddress := by
  unfold orderCancelContext storedOrderContextById
  cases hlookup : idx.orders.lookup orderId with
  | none => rfl
  | some stored =>
      have hhot := h.hot orderId stored hlookup
      have hopen : ¬(stored.order.status ≠ "open" ∧ stored.order.status ≠ "partial_filled") := by
        tauto
      dsimp only
      rw [if_neg hopen]
      split_ifs <;> simp_all

/-! ## Queries -/

theorem Indexed.one_of_chainId (h : Indexed sdk idx) {query : QueryOrderQuery}
    (hchain : query.chainOrderId ≠ none) {stored stored' : StoredOrder} (hhot : idx.Hot stored)
    (hhot' : idx.Hot stored') (hnames : query.Names sdk stored)
    (hnames' : query.Names sdk stored') : stored = stored' := by
  have hkey : ∀ {s : StoredOrder}, query.Names sdk s → ∃ chainOrderId,
      query.chainOrderId = some chainOrderId ∧
        s.key sdk = onchainOrderId sdk query.spotMarket chainOrderId := by
    intro s hs
    rcases hs with hs | hs
    · exact hs.key
    · exact absurd hs.noChainId hchain
  obtain ⟨chainOrderId, hquery, hstored⟩ := hkey hnames
  obtain ⟨chainOrderId', hquery', hstored'⟩ := hkey hnames'
  rw [hquery] at hquery'
  rw [← Option.some.inj hquery', ← hstored] at hstored'
  obtain ⟨id, hlookup⟩ := hhot
  obtain ⟨id', hlookup'⟩ := hhot'
  -- the key leads to one id
  have hid := (h.byId (stored.key sdk) id).mpr ⟨stored, hlookup, rfl⟩
  rw [(h.byId (stored.key sdk) id').mpr ⟨stored', hlookup', hstored'⟩] at hid
  rw [← Option.some.inj hid, hlookup'] at hlookup
  exact (Option.some.inj hlookup).symm

theorem Indexed.answers_orNotFound (h : Indexed sdk idx) {query : QueryOrderQuery}
    (hcomplete : query.missing = none) {record : Option OrderQueryRecord}
    (hsound : ∀ r, record = some r →
      ∃ stored, idx.Hot stored ∧ query.Names sdk stored ∧ orderQueryRecord stored = r)
    (hfinds : ∀ stored, idx.Hot stored → query.Names sdk stored → record ≠ none) :
    idx.Answers sdk query
      (orNotFound (normalizeSpotMarketKey sdk query.spotMarket) record) := by
  refine ⟨?_, ?_, ?_, fun hchain _ _ => h.one_of_chainId hchain⟩
  · intro field hfield
    rw [hcomplete] at hfield
    cases hfield
  · intro _ hnamed
    obtain ⟨stored, hhot, hnames⟩ := hnamed
    obtain ⟨r, hr⟩ := Option.ne_none_iff_exists'.mp (hfinds stored hhot hnames)
    obtain ⟨stored', hhot', hnames', hrecord⟩ := hsound r hr
    refine ⟨stored', hhot', hnames', ?_⟩
    rw [hr, hrecord]
    rfl
  · intro _ hnone
    cases hr : record with
    | none => rfl
    | some r =>
        obtain ⟨stored, hhot, hnames, -⟩ := hsound r hr
        exact absurd hnames (hnone stored hhot)

theorem Indexed.answers_of_chainId (lawful : LawfulSdk sdk) (h : Indexed sdk idx)
    {query : QueryOrderQuery} {chainOrderId : String}
    (hchain : query.chainOrderId = some chainOrderId) :
    idx.Answers sdk query (ClobIndexer.queryOrder sdk idx query) := by
  have hanswer : ClobIndexer.queryOrder sdk idx query =
      orNotFound (normalizeSpotMarketKey sdk query.spotMarket)
        (idx.queryOrder sdk (normalizeSpotMarketKey sdk query.spotMarket) chainOrderId
          query.userAddress) := by
    unfold ClobIndexer.queryOrder
    rw [hchain]
    rfl
  have hfind := h.queryOrder_eq_some_iff (normalizeSpotMarketKey sdk query.spotMarket)
    chainOrderId query.userAddress
  simp only [onchainOrderId_normalize lawful] at hfind
  rw [hanswer]
  apply h.answers_orNotFound
  · simp [QueryOrderQuery.missing, hchain]
  · intro r hr
    obtain ⟨stored, hhot, hkey, howner, hrecord⟩ := (hfind r).mp hr
    exact ⟨stored, hhot, .inl ⟨⟨chainOrderId, hchain, hkey⟩, howner⟩, hrecord⟩
  · intro stored hhot hnames hnone
    rcases hnames with hnames | hnames
    · obtain ⟨other, hother, hkey⟩ := hnames.key
      rw [hchain] at hother
      rw [← Option.some.inj hother] at hkey
      rw [(hfind _).mpr ⟨stored, hhot, hkey, hnames.owner, rfl⟩] at hnone
      cases hnone
    · rw [hnames.noChainId] at hchain
      cases hchain

theorem Indexed.answers_of_looks (lawful : LawfulSdk sdk) (h : Indexed sdk idx)
    {query : QueryOrderQuery} (hchain : query.chainOrderId = none)
    {user side price : String} {sizeRaw : UInt64}
    (huser : query.userAddress = some user) (hside : query.side = some side)
    (hprice : query.price = some price) (hsize : query.sizeRaw = some sizeRaw) :
    idx.Answers sdk query (ClobIndexer.queryOrder sdk idx query) := by
  have hanswer : ClobIndexer.queryOrder sdk idx query =
      orNotFound (normalizeSpotMarketKey sdk query.spotMarket)
        (idx.findOpenOrderMatch sdk (normalizeSpotMarketKey sdk query.spotMarket) user side price
          sizeRaw) := by
    unfold ClobIndexer.queryOrder
    rw [hchain, huser, hside, hprice, hsize]
    rfl
  rw [hanswer]
  apply h.answers_orNotFound
  · simp [QueryOrderQuery.missing, hchain, huser, hside, hprice, hsize]
  · intro r hr
    obtain ⟨stored, hhot, howner, hlooks, hrecord⟩ := h.of_findOpenOrderMatch hr
    rw [normalize_normalize lawful] at hlooks
    obtain ⟨-, hspot, hsd, hpr, hsz⟩ := hlooks
    refine ⟨stored, hhot, .inr ?_, hrecord⟩
    exact ⟨hchain, ⟨user, huser, howner⟩, hspot, by rw [hside, hsd], by rw [hprice, hpr],
      by rw [hsize, hsz]⟩
  · intro stored hhot hnames
    rcases hnames with hnames | hnames
    · obtain ⟨other, hother, -⟩ := hnames.key
      rw [hchain] at hother
      cases hother
    · obtain ⟨other, hother, howner⟩ := hnames.owner
      rw [huser] at hother
      rw [← Option.some.inj hother] at howner
      have hsd := hnames.side
      have hpr := hnames.price
      have hsz := hnames.sizeRaw
      rw [hside, Option.some.injEq] at hsd
      rw [hprice, Option.some.injEq] at hpr
      rw [hsize, Option.some.injEq] at hsz
      apply h.findOpenOrderMatch_ne_none hhot howner
      rw [normalize_normalize lawful, h.isOpenMatch_iff hhot]
      exact ⟨hnames.spotMarket, hsd.symm, hpr.symm, hsz.symm⟩

/-- A query that says too little is told the first field that it lacks. -/
theorem queryOrder_of_missing {query : QueryOrderQuery} {field : String}
    (hmissing : query.missing = some field) :
    ClobIndexer.queryOrder sdk idx query = .error (.badRequest (field ++ " is required")) := by
  obtain ⟨spotMarket, chainOrderId, userAddress, side, price, sizeRaw⟩ := query
  unfold QueryOrderQuery.missing at hmissing
  dsimp only at hmissing
  cases chainOrderId with
  | some chainOrderId => simp at hmissing
  | none =>
      cases userAddress with
      | none =>
          rw [← show "user_address" = field by simpa using hmissing]
          rfl
      | some userAddress =>
          cases side with
          | none =>
              rw [← show "side" = field by simpa using hmissing]
              rfl
          | some side =>
              cases price with
              | none =>
                  rw [← show "price" = field by simpa using hmissing]
                  rfl
              | some price =>
                  cases sizeRaw with
                  | none =>
                      rw [← show "size_raw" = field by simpa using hmissing]
                      rfl
                  | some sizeRaw => simp at hmissing

theorem exists_of_missing_eq_none {query : QueryOrderQuery} (hmissing : query.missing = none)
    (hchain : query.chainOrderId = none) :
    ∃ user side price sizeRaw, query.userAddress = some user ∧ query.side = some side ∧
      query.price = some price ∧ query.sizeRaw = some sizeRaw := by
  unfold QueryOrderQuery.missing at hmissing
  rw [hchain] at hmissing
  simp only [Option.isSome_none, Bool.false_eq_true, if_false] at hmissing
  split_ifs at hmissing with huser hside hprice hsize
  simp only [Option.isNone_iff_eq_none] at huser hside hprice hsize
  obtain ⟨user, huser⟩ := Option.ne_none_iff_exists'.mp huser
  obtain ⟨side, hside⟩ := Option.ne_none_iff_exists'.mp hside
  obtain ⟨price, hprice⟩ := Option.ne_none_iff_exists'.mp hprice
  obtain ⟨sizeRaw, hsize⟩ := Option.ne_none_iff_exists'.mp hsize
  exact ⟨user, side, price, sizeRaw, huser, hside, hprice, hsize⟩

theorem Indexed.answers_queryOrder (lawful : LawfulSdk sdk) (h : Indexed sdk idx)
    (query : QueryOrderQuery) :
    idx.Answers sdk query (ClobIndexer.queryOrder sdk idx query) := by
  cases hmissing : query.missing with
  | some field =>
      refine ⟨?_, ?_, ?_, fun hchain _ _ => h.one_of_chainId hchain⟩
      · intro other hother
        rw [hmissing] at hother
        rw [← Option.some.inj hother]
        exact queryOrder_of_missing hmissing
      · intro hnone
        rw [hmissing] at hnone
        cases hnone
      · intro hnone
        rw [hmissing] at hnone
        cases hnone
  | none =>
      cases hchain : query.chainOrderId with
      | some chainOrderId => exact h.answers_of_chainId lawful hchain
      | none =>
          obtain ⟨user, side, price, sizeRaw, huser, hside, hprice, hsize⟩ :=
            exists_of_missing_eq_none hmissing hchain
          exact h.answers_of_looks lawful hchain huser hside hprice hsize

/-! ## Rebuilding the secondary indexes -/

theorem lookup_addKeys (acc : OrderIndex) (id : Uuid) (stored : StoredOrder) (key : String) :
    (acc.addKeys sdk id stored).ordersById.lookup key =
      if key = stored.key sdk then some id else acc.ordersById.lookup key :=
  Dict.lookup_insert_ite (stored.key sdk) key id acc.ordersById

theorem mem_idsOf_addKeys (acc : OrderIndex) (id id' : Uuid) (stored : StoredOrder)
    (user : String) :
    id' ∈ (acc.addKeys sdk id stored).idsOf user ↔
      user = userKey stored.userAddress ∧ id' = id ∨ id' ∈ acc.idsOf user :=
  mem_idsOf_insert acc (userKey stored.userAddress) user id id' _ _

theorem orders_rebuildOrderIndexes : (idx.rebuildOrderIndexes sdk).orders = idx.orders := by
  unfold rebuildOrderIndexes
  refine List.foldlRecOn (motive := fun acc : OrderIndex => acc.orders = idx.orders) _ _ rfl ?_
  intro acc hacc e _
  exact hacc

theorem lookup_ordersById_foldl (entries : List (Sigma fun _ : Uuid => StoredOrder))
    (acc : OrderIndex) (hacc : acc.ordersById = ∅)
    (hone : ∀ e ∈ entries, ∀ e' ∈ entries, e.2.key sdk = e'.2.key sdk → e.1 = e'.1)
    (key : String) (id : Uuid) :
    (entries.foldl (fun acc e => acc.addKeys sdk e.1 e.2) acc).ordersById.lookup key = some id ↔
      ∃ e ∈ entries, e.1 = id ∧ e.2.key sdk = key := by
  induction entries using List.reverseRecOn with
  | nil => simp [hacc]
  | append_singleton entries last ih =>
      have hbegins := ih fun e he e' he' => hone e (List.mem_append_left _ he) e'
        (List.mem_append_left _ he')
      rw [List.foldl_concat, lookup_addKeys]
      split_ifs with hkey
      · -- an earlier entry of this key has this id
        rw [Option.some.injEq]
        constructor
        · intro hid
          exact ⟨last, by simp, hid, hkey.symm⟩
        · intro he
          obtain ⟨e, he, hid, hekey⟩ := he
          rw [← hid]
          exact hone last (by simp) e he (by rw [hekey, hkey])
      · rw [hbegins]
        constructor
        · intro he
          obtain ⟨e, he, hid, hekey⟩ := he
          exact ⟨e, List.mem_append_left _ he, hid, hekey⟩
        · intro he
          obtain ⟨e, he, hid, hekey⟩ := he
          rcases List.mem_append.mp he with he | he
          · exact ⟨e, he, hid, hekey⟩
          · rw [List.mem_singleton.mp he] at hekey
            exact absurd hekey.symm hkey

theorem mem_idsOf_foldl (entries : List (Sigma fun _ : Uuid => StoredOrder))
    (acc : OrderIndex) (hacc : acc.ordersByUser = ∅) (user : String) (id : Uuid) :
    id ∈ (entries.foldl (fun acc e => acc.addKeys sdk e.1 e.2) acc).idsOf user ↔
      ∃ e ∈ entries, e.1 = id ∧ userKey e.2.userAddress = user := by
  induction entries using List.reverseRecOn with
  | nil => simp [idsOf, hacc]
  | append_singleton entries last ih =>
      rw [List.foldl_concat, mem_idsOf_addKeys, ih]
      constructor
      · intro h
        rcases h with ⟨huser, hid⟩ | ⟨e, he, hid, huser⟩
        · exact ⟨last, by simp, hid.symm, huser.symm⟩
        · exact ⟨e, List.mem_append_left _ he, hid, huser⟩
      · intro h
        obtain ⟨e, he, hid, huser⟩ := h
        rcases List.mem_append.mp he with he | he
        · exact .inr ⟨e, he, hid, huser⟩
        · rw [List.mem_singleton.mp he] at hid huser
          exact .inl ⟨huser.symm, hid.symm⟩

/-- What the maintained indexes say, those built anew from the orders say too. -/
theorem Indexed.rebuild (h : Indexed sdk idx) : Indexed sdk (idx.rebuildOrderIndexes sdk) := by
  have hentries : ∀ {p : StoredOrder → Prop} (id : Uuid),
      (∃ e ∈ idx.orders.entries, e.1 = id ∧ p e.2) ↔
        ∃ stored, idx.orders.lookup id = some stored ∧ p stored := by
    intro p id
    constructor
    · intro he
      obtain ⟨⟨id', stored⟩, he, rfl, hp⟩ := he
      exact ⟨stored, Dict.mem_entries_iff.mp he, hp⟩
    · intro hstored
      obtain ⟨stored, hlookup, hp⟩ := hstored
      exact ⟨⟨id, stored⟩, Dict.mem_entries_iff.mpr hlookup, rfl, hp⟩
  constructor
  · rw [orders_rebuildOrderIndexes]
    exact h.hot
  · intro key id
    rw [orders_rebuildOrderIndexes]
    unfold rebuildOrderIndexes
    rw [lookup_ordersById_foldl _ _ rfl, hentries (p := fun stored => stored.key sdk = key)]
    intro e he e' he' hkey
    have hid := (h.byId _ _).mpr ⟨e.2, Dict.mem_entries_iff.mp he, rfl⟩
    rw [hkey, (h.byId _ _).mpr ⟨e'.2, Dict.mem_entries_iff.mp he', rfl⟩] at hid
    exact (Option.some.inj hid).symm
  · intro user id
    rw [orders_rebuildOrderIndexes]
    unfold rebuildOrderIndexes
    rw [mem_idsOf_foldl _ _ rfl, hentries (p := fun stored => userKey stored.userAddress = user)]

theorem Indexed.lookup_rebuildOrderIndexes (h : Indexed sdk idx) (key : String) :
    (idx.rebuildOrderIndexes sdk).ordersById.lookup key = idx.ordersById.lookup key := by
  apply Option.ext
  intro id
  have hnew := h.rebuild.byId key id
  rw [orders_rebuildOrderIndexes, ← h.byId] at hnew
  exact hnew

theorem Indexed.mem_idsOf_rebuildOrderIndexes (h : Indexed sdk idx) (user : String) (id : Uuid) :
    id ∈ (idx.rebuildOrderIndexes sdk).idsOf user ↔ id ∈ idx.idsOf user := by
  rw [h.rebuild.byUser, orders_rebuildOrderIndexes, ← h.byUser]

theorem Hot.remove (h : Indexed sdk idx) {orderId : Uuid} {stored : StoredOrder}
    (hstored : idx.orders.lookup orderId = some stored) (other : StoredOrder) :
    (idx.removeHotOrder sdk orderId stored).Hot other ↔
      idx.Hot other ∧ other.key sdk ≠ stored.key sdk := by
  have hlookup : ∀ id, (idx.removeHotOrder sdk orderId stored).orders.lookup id =
      if id = orderId then none else idx.orders.lookup id := fun id =>
    Dict.lookup_erase_ite orderId id idx.orders
  have hkey := (h.byId (stored.key sdk) orderId).mpr ⟨stored, hstored, rfl⟩
  constructor
  · intro hother
    obtain ⟨id, hid⟩ := hother
    rw [hlookup] at hid
    split_ifs at hid with hne
    refine ⟨⟨id, hid⟩, ?_⟩
    intro hsame
    rw [(h.byId (stored.key sdk) id).mpr ⟨other, hid, hsame⟩] at hkey
    exact hne (Option.some.inj hkey)
  · intro hother
    obtain ⟨⟨id, hid⟩, hne⟩ := hother
    refine ⟨id, ?_⟩
    rw [hlookup, if_neg, hid]
    intro hsame
    rw [hsame, hstored] at hid
    exact hne (Option.some.inj hid ▸ rfl)

end OrderIndex

/-! ## Cancelling on request -/

/-- What a cancellation on request does: the order is hot no more, it goes to the history
with the time of the block, and nothing else changes. -/
structure Cancels (c c' : Ctx) (stored : StoredOrder) : Prop where
  hot : ∀ other, c'.store.orders.Hot other ↔
    c.store.orders.Hot other ∧ other.key sdk ≠ stored.key sdk
  indexed : OrderIndex.Indexed sdk c'.store.orders
  history : c'.history = c.history ++
    [{ storedToPersistRow (OrderTx.cancelled stored) with statusTsMs := c.store.tsMs }]
  rest : { c' with store := { c'.store with orders := c.store.orders }, history := c.history } = c

namespace Ctx

variable {env : Env} {c : Ctx}

theorem markCancelled_of_owner (h : OrderIndex.Indexed env.sdk c.store.orders) {orderId : Uuid}
    {userAddress : String} {stored : StoredOrder}
    (hstored : c.store.orders.orders.lookup orderId = some stored)
    (howner : Text.eqIgnoreAsciiCase stored.userAddress userAddress = true) :
    (c.markCancelled env orderId userAddress).2 = .ok () ∧
      Cancels env.sdk c (c.markCancelled env orderId userAddress).1 stored := by
  have hfind : c.store.orders.find env.sdk stored.spotMarket stored.chainOrderId =
      some (orderId, stored) :=
    h.find_eq_some_iff.mpr ⟨hstored, rfl⟩
  have hhot := h.hot orderId stored hstored
  have hcontext : c.store.orders.storedOrderContextById orderId userAddress =
      some (stored.order, stored.chainOrderId, stored.spotMarket) := by
    unfold OrderIndex.storedOrderContextById
    rw [hstored]
    exact if_pos howner
  have hopen : ¬(stored.order.status ≠ "open" ∧ stored.order.status ≠ "partial_filled") := by
    tauto
  have hnot : ¬stored.order.status = "cancelled" := by
    rcases hhot with hhot | hhot
    · rw [hhot]
      decide
    · rw [hhot]
      decide
  have hmark : c.markCancelled env orderId userAddress =
      ({ c.onOrders fun t => t.updateOrderCancelled env.sdk c.store.tsMs stored.spotMarket
          stored.chainOrderId with ws := c.ws }, .ok ()) := by
    unfold markCancelled
    rw [hcontext]
    dsimp only
    rw [if_neg hnot, if_neg hopen]
  have htx : OrderTx.updateOrderCancelled env.sdk c.store.tsMs stored.spotMarket
      stored.chainOrderId ⟨c.store.orders, c.ws.orders, c.history⟩ =
      OrderTx.archiveTerminalOrder env.sdk c.store.tsMs orderId (OrderTx.cancelled stored)
        ⟨c.store.orders, c.ws.orders, c.history⟩ := by
    unfold OrderTx.updateOrderCancelled
    rw [hfind]
    rfl
  have hrow : (if (storedToPersistRow (OrderTx.cancelled stored)).statusTsMs = 0 ∧
        c.store.tsMs ≠ 0 then
      { storedToPersistRow (OrderTx.cancelled stored) with statusTsMs := c.store.tsMs }
      else storedToPersistRow (OrderTx.cancelled stored)) =
      { storedToPersistRow (OrderTx.cancelled stored) with statusTsMs := c.store.tsMs } := by
    split_ifs with hts
    · rfl
    · have hzero : c.store.tsMs = 0 := by
        by_contra hne
        exact hts ⟨rfl, hne⟩
      rw [hzero]
      rfl
  rw [hmark]
  refine ⟨rfl, ?_⟩
  dsimp only [onOrders]
  rw [htx]
  unfold OrderTx.archiveTerminalOrder OrderTx.writeOrderHistory
  constructor
  · change ∀ other, (c.store.orders.removeHotOrder env.sdk orderId stored).Hot other ↔ _
    exact OrderIndex.Hot.remove h hstored
  · exact h.remove hstored rfl rfl
  · exact congrArg (fun row => c.history ++ [row]) hrow
  · rfl

theorem markCancelled_of_not_owner {orderId : Uuid} {userAddress : String}
    (h : ¬∃ stored, c.store.orders.orders.lookup orderId = some stored ∧
      Text.eqIgnoreAsciiCase stored.userAddress userAddress = true) :
    c.markCancelled env orderId userAddress =
      (c, .error (.notFound ("order " ++ orderId.toString ++ " not found"))) := by
  have hcontext : c.store.orders.storedOrderContextById orderId userAddress = none := by
    unfold OrderIndex.storedOrderContextById
    cases hlookup : c.store.orders.orders.lookup orderId with
    | none => rfl
    | some stored => exact if_neg fun howner => h ⟨stored, hlookup, howner⟩
  unfold markCancelled
  rw [hcontext]

end Ctx

/-! ## Runs -/

variable {env : Env}

open OrderIndex

theorem indexed_of_steps (lawful : LawfulSdk env.sdk) {c : Ctx} (hempty : c.store.orders = {})
    (steps : List OrderIndexStep)
    (hinj : Set.InjOn env.sdk.uuidV5 {key | ∃ step ∈ steps, key ∈ step.names env}) :
    Indexed env.sdk (steps.foldl (OrderIndexStep.run env) c).store.orders := by
  refine indexed_foldl_run lawful ?_ ?_ hinj steps ?_
  · rw [hempty]
    exact indexed_empty
  · rw [hempty]
    exact named_empty
  · exact fun step hstep key hkey => ⟨step, hstep, hkey⟩

/-- After any order events, cancellations on request and `clear_all`, the routes answer from
one and the same set of hot orders, whatever index they go through, and the secondary
indexes are those that `rebuild_order_indexes` makes of the orders. -/
theorem answers_of_run (lawful : LawfulSdk env.sdk) (c : Ctx) (hempty : c.store.orders = {})
    (steps : List OrderIndexStep)
    (hinj : Set.InjOn env.sdk.uuidV5 {key | ∃ step ∈ steps, key ∈ step.names env}) :
    let s := (steps.foldl (OrderIndexStep.run env) c).store
    (∀ query, s.orders.Answers env.sdk query (queryOrder env.sdk s.orders query)) ∧
      (∀ orderId user, s.orders.orderCancelContext orderId user =
        s.orders.storedOrderContextById orderId user) ∧
      (∀ user, (listOrders s user).Perm
        ((s.orders.hotOrdersOf user).map (enrichOrderRecord s.registry))) ∧
      (∀ key, (s.orders.rebuildOrderIndexes env.sdk).ordersById.lookup key =
        s.orders.ordersById.lookup key) ∧
      ∀ user id, id ∈ (s.orders.rebuildOrderIndexes env.sdk).idsOf user ↔
        id ∈ s.orders.idsOf user := by
  intro s
  have hindexed : Indexed env.sdk s.orders := indexed_of_steps lawful hempty steps hinj
  exact ⟨hindexed.answers_queryOrder lawful, hindexed.orderCancelContext_eq,
    fun user => (hindexed.perm_listOrdersForUser user).map _,
    hindexed.lookup_rebuildOrderIndexes, hindexed.mem_idsOf_rebuildOrderIndexes⟩

/-- In every such state a request to cancel succeeds exactly for the owner of a hot order. -/
theorem markCancelled_of_run (lawful : LawfulSdk env.sdk) (c : Ctx)
    (hempty : c.store.orders = {}) (steps : List OrderIndexStep)
    (hinj : Set.InjOn env.sdk.uuidV5 {key | ∃ step ∈ steps, key ∈ step.names env})
    (orderId : Uuid) (userAddress : String) :
    let d := steps.foldl (OrderIndexStep.run env) c
    (∀ stored, d.store.orders.orders.lookup orderId = some stored →
      Text.eqIgnoreAsciiCase stored.userAddress userAddress = true →
      (d.markCancelled env orderId userAddress).2 = .ok () ∧
        Cancels env.sdk d (d.markCancelled env orderId userAddress).1 stored) ∧
      ((¬∃ stored, d.store.orders.orders.lookup orderId = some stored ∧
        Text.eqIgnoreAsciiCase stored.userAddress userAddress = true) →
      d.markCancelled env orderId userAddress =
        (d, .error (.notFound ("order " ++ orderId.toString ++ " not found")))) := by
  intro d
  have hindexed : Indexed env.sdk d.store.orders := indexed_of_steps lawful hempty steps hinj
  exact ⟨fun stored hstored howner => Ctx.markCancelled_of_owner hindexed hstored howner,
    Ctx.markCancelled_of_not_owner⟩

namespace Sample

theorem injOn_placedAndCancelled : Set.InjOn setting.sdk.uuidV5
    {key | ∃ step ∈ placedAndCancelled, key ∈ step.names setting} := by
  have hdistinct : setting.sdk.uuidV5 (market ++ ":1") ≠ setting.sdk.uuidV5 (market ++ ":2") := by
    decide +kernel
  intro a ha b hb heq
  rcases names_placedAndCancelled ha with rfl | rfl <;>
    rcases names_placedAndCancelled hb with rfl | rfl
  · rfl
  · exact absurd heq hdistinct
  · exact absurd heq.symm hdistinct
  · rfl

def queries : List QueryOrderQuery :=
  [{ spotMarket := market, chainOrderId := some "1" },
    { spotMarket := market, userAddress := some account, side := some "buy",
      price := some (formatPricePieces 500000), sizeRaw := some 10 },
    { spotMarket := market, userAddress := some account, price := some "0.5" }]

theorem answers_placedAndCancelled :
    let idx := (placedAndCancelled.foldl (OrderIndexStep.run setting) { store := {} }).store.orders
    (∀ query ∈ queries, idx.Answers setting.sdk query (queryOrder setting.sdk idx query)) ∧
      queries.map (fun query => (queryOrder setting.sdk idx query).toOption.isSome) =
        [true, true, false] := by
  refine ⟨?_, by decide +kernel⟩
  intro query _
  exact (answers_of_run lawful { store := {} } rfl placedAndCancelled
    injOn_placedAndCancelled).1 query

theorem markCancelled_placedAndCancelled :
    let c := placedAndCancelled.foldl (OrderIndexStep.run setting) { store := {} }
    (c.markCancelled setting (orderUuid setting.sdk market "1") account).2 = .ok () ∧
      c.markCancelled setting (orderUuid setting.sdk market "2") account =
        (c, .error (.notFound
          ("order " ++ (orderUuid setting.sdk market "2").toString ++ " not found"))) := by
  have hfirst := markCancelled_of_run lawful { store := {} } rfl placedAndCancelled
    injOn_placedAndCancelled (orderUuid setting.sdk market "1") account
  have hsecond := markCancelled_of_run lawful { store := {} } rfl placedAndCancelled
    injOn_placedAndCancelled (orderUuid setting.sdk market "2") account
  have hleft : ((placedAndCancelled.foldl (OrderIndexStep.run setting)
      { store := {} }).store.orders.orders.lookup (orderUuid setting.sdk market "1")).any
        (fun stored => Text.eqIgnoreAsciiCase stored.userAddress account) = true := by
    decide +kernel
  have hgone : (placedAndCancelled.foldl (OrderIndexStep.run setting)
      { store := {} }).store.orders.orders.lookup (orderUuid setting.sdk market "2") = none := by
    decide +kernel
  obtain ⟨stored, hstored, howner⟩ := (Option.any_eq_true _ _).mp hleft
  refine ⟨(hfirst.1 stored hstored howner).1, hsecond.2 ?_⟩
  intro hother
  obtain ⟨other, hlookup, -⟩ := hother
  rw [hgone] at hlookup
  cases hlookup

end Sample

end ClobIndexer
