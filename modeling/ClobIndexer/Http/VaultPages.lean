import ClobIndexer.Http.PageParams
import ClobIndexer.Indexer.RestoreRuns
import ClobIndexer.Lib.Listings
import ClobIndexer.Lib.Runs
import ClobIndexer.VaultEnrich
import Mathlib.Data.String.Basic
/-!
# Pages of vaults

`src/http/process/vaults.rs`, `src/http/routes/vaults.rs` and `IndexState::query_vaults`.
Vaults are listed by their addresses, a page at a time, while blocks go on being indexed.
A vault keeps its address and is never dropped, so a client that asks for one page after the
other misses no vault, in whatever order the map of vaults is iterated for each page.
-/

namespace ClobIndexer

open Lib Lib.Paging Lib.Listing

/-! ## Parameters -/

structure QueryVaultsParams where
  limit : Option UInt32 := none
  offset : Option UInt32 := none
  manager : Option String := none
  vaultAddresses : Option String := none
  account : Option String := none

structure VaultQuery where
  limit : UInt32
  offset : UInt32
  manager : Option String
  vaultAddresses : List String
deriving DecidableEq

def defaultVaultsPageLimit : UInt32 := 100

def maxVaultsPageLimit : UInt32 := 100

def buildVaultQuery (params : QueryVaultsParams) : Except AppError VaultQuery :=
  let vaultAddresses := parseCsv params.vaultAddresses
  if maxVaultsPageLimit.toNat < vaultAddresses.length then
    .error (.badRequest ("vault_addresses accepts at most " ++
      Nat.repr maxVaultsPageLimit.toNat ++ " values"))
  else
    .ok
      { limit := clampLimit 1 maxVaultsPageLimit (params.limit.getD defaultVaultsPageLimit)
        offset := params.offset.getD 0
        manager := givenText params.manager
        vaultAddresses := vaultAddresses }

/-! ## Routes -/

def VaultIndex.known (idx : VaultIndex) : List Vault := idx.vaults.entries.map fun e => e.2

def VaultQuery.keeps (query : VaultQuery) (vault : Vault) : Bool :=
  query.manager.all (fun manager => addrKey vault.manager = addrKey manager) &&
    (query.vaultAddresses.isEmpty ||
      decide (addrKey vault.vaultAddress ∈ query.vaultAddresses.map addrKey))

def queryVaults (query : VaultQuery) (vaults : List Vault) : List Vault × Nat :=
  let vaults := sortBy (fun vault => vault.vaultAddress) true (vaults.filter query.keeps)
  (window query.offset.toNat query.limit.toNat vaults, vaults.length)

structure VaultsPageResponse where
  vaults : List Vault
  total : Nat
  limit : UInt32
  offset : UInt32

def vaultsPage (params : QueryVaultsParams) (vaults : List Vault) (s : VaultSetting) :
    Except AppError VaultsPageResponse :=
  match buildVaultQuery params with
  | .error e => .error e
  | .ok query =>
      let (vaults, total) := queryVaults query vaults
      let account := givenText params.account
      .ok ⟨vaults.map fun vault => s.enrichVaultForAccount vault account, total, query.limit,
        query.offset⟩

def getVaultByAddress (idx : VaultIndex) (s : VaultSetting) (address : String)
    (account : Option String) : Except AppError Vault :=
  match (idx.vaultByAddress.lookup (addrKey address)).bind fun id => idx.vaults.lookup id with
  | none => .error (.notFound ("vault " ++ address ++ " not found"))
  | some vault => .ok (s.enrichVaultForAccount vault (givenText account))

/-! ## A client -/

/-- The index, and a client that reads the vaults page by page. -/
structure VaultReader where
  ctx : Ctx
  reader : Reader Vault := {}

inductive VaultReaderStep where
  | index (step : BlockStep)
  | ask (iteration : Iteration Vault) (s : VaultSetting)

def VaultReaderStep.indexed : VaultReaderStep → Option BlockStep
  | .index step => some step
  | .ask _ _ => none

namespace VaultReader

variable (env : Env) (params : QueryVaultsParams)

/-- The client asks from its next row on, until a page is not full. -/
def ask (iteration : Iteration Vault) (s : VaultSetting) (r : VaultReader) : VaultReader :=
  if r.reader.finished = true ∨ 2 ^ 32 ≤ r.reader.next then r
  else
    match vaultsPage { params with offset := some (UInt32.ofNat r.reader.next) }
        (iteration.order r.ctx.store.vaults.known) s with
    | .error _ => r
    | .ok page => { r with reader := r.reader.read page.limit.toNat page.vaults }

def step (r : VaultReader) : VaultReaderStep → VaultReader
  | .index step => { r with ctx := step.apply env r.ctx }
  | .ask iteration s => r.ask params iteration s

end VaultReader

/-! ## What a step does to the vaults -/

/-- Every vault is under the id of its address. -/
def VaultIndex.Stemmed (sdk : Sdk) (addresses : Set String) (idx : VaultIndex) : Prop :=
  ∀ id vault, idx.vaults.lookup id = some vault →
    vault.vaultAddress ∈ addresses ∧ id = vaultUuid sdk vault.vaultAddress

def VaultIndex.KeepsVaults (idx idx' : VaultIndex) : Prop :=
  ∀ id vault, idx.vaults.lookup id = some vault → ∃ vault', idx'.vaults.lookup id = some vault'

section Steps

variable {env : Env} {addresses : Set String}

/-- The vaults stay, one is created, or one is changed in place. -/
theorem Ctx.vaults_step (env : Env) (c : Ctx) (step : BlockStep) :
    (step.apply env c).store.vaults.vaults = c.store.vaults.vaults ∨
      (∃ created, step = .event (.global (.vaultCreated created)) ∧
        (step.apply env c).store.vaults.vaults =
          c.store.vaults.vaults.insert (vaultUuid env.sdk created.vault)
            (vaultOfCreated env created)) ∨
      ∃ id vault f, c.store.vaults.vaults.lookup id = some vault ∧ VaultTx.KeepsVault f ∧
        (step.apply env c).store.vaults.vaults = c.store.vaults.vaults.insert id (f vault) := by
  cases step with
  | start block => exact .inl rfl
  | unmapped opts e =>
      have hrows := sameRows_unmapped env opts [e] c
      exact .inl (congrArg VaultIndex.vaults hrows.vaults)
  | event e =>
      cases e with
      | order opts blockNum spotMarket e =>
          left
          change (c.applyMarketOrderEvent env opts blockNum spotMarket e).store.vaults.vaults = _
          rcases c.vaults_applyMarketOrderEvent opts blockNum spotMarket e with
            heq | ⟨t, userAddress, side, fillAmount, ht, heq⟩
          · rw [heq]
          · rw [heq, ← ht]
            unfold VaultTx.applyVaultFillToPortfolio
            split_ifs
            · rfl
            · split
              · rfl
              · rfl
      | global e =>
          have happly : (BlockStep.apply env c (.event (.global e))).store.vaults =
              (c.applyGlobalEvent env e).store.vaults := rfl
          rw [happly]
          rcases c.vaults_applyGlobalEvent e with
            heq | ⟨t, created, ht, rfl, heq⟩ | ⟨t, vaultAddress, f, ht, hf, heq⟩
          · rw [heq]
            exact .inl rfl
          · rw [heq, ← ht]
            exact .inr (.inl ⟨created, rfl, rfl⟩)
          · rw [heq, ← ht]
            unfold VaultTx.modifyVault
            split
            · exact .inl rfl
            · rename_i id _
              cases hvault : t.idx.vaults.lookup id with
              | none => exact .inl rfl
              | some vault => exact .inr (.inr ⟨id, vault, f, hvault, hf, rfl⟩)

def BlockStep.vaultsIn (steps : List BlockStep) : Set String :=
  {vault | ∃ created, BlockStep.event (.global (.vaultCreated created)) ∈ steps ∧
    created.vault = vault}

theorem Ctx.keepsVaults_step (c : Ctx) (step : BlockStep) :
    c.store.vaults.KeepsVaults (step.apply env c).store.vaults := by
  intro id vault hvault
  rcases c.vaults_step env step with heq | ⟨created, -, heq⟩ | ⟨id', old, f, -, -, heq⟩
  · exact ⟨vault, by rw [heq]; exact hvault⟩
  · rw [heq, Dict.lookup_insert_ite]
    split_ifs
    · exact ⟨_, rfl⟩
    · exact ⟨vault, hvault⟩
  · rw [heq, Dict.lookup_insert_ite]
    split_ifs
    · exact ⟨_, rfl⟩
    · exact ⟨vault, hvault⟩

theorem Ctx.stemmed_step {c : Ctx} (h : c.store.vaults.Stemmed env.sdk addresses)
    (step : BlockStep) (hstep : ∀ created, step = .event (.global (.vaultCreated created)) →
      created.vault ∈ addresses) :
    (step.apply env c).store.vaults.Stemmed env.sdk addresses := by
  intro id vault hvault
  rcases c.vaults_step env step with
    heq | ⟨created, hcreated, heq⟩ | ⟨id', old, f, hold, hf, heq⟩
  · rw [heq] at hvault
    exact h id vault hvault
  · rw [heq, Dict.lookup_insert_ite] at hvault
    split_ifs at hvault with hid
    · cases hvault
      exact ⟨hstep created hcreated, hid⟩
    · exact h id vault hvault
  · rw [heq, Dict.lookup_insert_ite] at hvault
    split_ifs at hvault with hid
    · cases hvault
      rw [hf.vaultAddress, hid]
      exact h id' old hold
    · exact h id vault hvault

end Steps

/-! ## The listing -/

namespace VaultQuery

def addresses (query : VaultQuery) (idx : VaultIndex) : List String :=
  (idx.known.filter query.keeps).map fun vault => vault.vaultAddress

def listed (query : VaultQuery) (idx : VaultIndex) : List String :=
  sortBy (fun address => address) true (query.addresses idx)

variable {query : VaultQuery} {idx idx' : VaultIndex} {sdk : Sdk} {created : Set String}

theorem mem_addresses {address : String} :
    address ∈ query.addresses idx ↔ ∃ id vault, idx.vaults.lookup id = some vault ∧
      query.keeps vault = true ∧ vault.vaultAddress = address := by
  have hknown := mem_values_iff idx.vaults (fun vault => vault)
  unfold addresses
  rw [List.mem_map]
  constructor
  · rintro ⟨vault, hvault, rfl⟩
    obtain ⟨hmem, hkeeps⟩ := List.mem_filter.mp hvault
    obtain ⟨id, _, hlookup, rfl⟩ := (hknown vault).mp hmem
    exact ⟨id, _, hlookup, hkeeps, rfl⟩
  · rintro ⟨id, vault, hlookup, hkeeps, rfl⟩
    have hmem := (hknown vault).mpr ⟨id, vault, hlookup, rfl⟩
    exact ⟨vault, List.mem_filter.mpr ⟨hmem, hkeeps⟩, rfl⟩

theorem nodup_addresses (h : idx.Stemmed sdk created) : (query.addresses idx).Nodup := by
  have hkeys : (idx.known.map fun vault => vaultUuid sdk vault.vaultAddress) = idx.vaults.keys := by
    unfold VaultIndex.known
    rw [List.map_map]
    apply List.map_congr_left
    rintro ⟨id, vault⟩ he
    exact (h id vault (Dict.mem_entries_iff.mp he)).2.symm
  have hnodup : (idx.known.map fun vault => vault.vaultAddress).Nodup := by
    apply List.Nodup.of_map (vaultUuid sdk)
    rw [List.map_map]
    exact hkeys ▸ idx.vaults.keys_nodup
  exact hnodup.sublist (List.filter_sublist.map _)

theorem nodup_listed (h : idx.Stemmed sdk created) : (query.listed idx).Nodup :=
  (perm_sortBy _ true _).nodup_iff.mpr (nodup_addresses h)

theorem keeps_congr (hmanager : query.manager = none) {vault vault' : Vault}
    (h : vault'.vaultAddress = vault.vaultAddress) : query.keeps vault' = query.keeps vault := by
  unfold keeps
  rw [hmanager, h, Option.all_none, Option.all_none]

theorem listed_sublist (hmanager : query.manager = none)
    (hid : Set.InjOn (vaultUuid sdk) created) (h : idx.Stemmed sdk created)
    (h' : idx'.Stemmed sdk created) (hkeeps : idx.KeepsVaults idx') :
    (query.listed idx).Sublist (query.listed idx') := by
  apply sortBy_sublist (nodup_addresses h)
  intro address haddress
  obtain ⟨id, vault, hvault, hwanted, rfl⟩ := mem_addresses.mp haddress
  obtain ⟨vault', hvault'⟩ := hkeeps id vault hvault
  obtain ⟨hmem, hstem⟩ := h id vault hvault
  obtain ⟨hmem', hstem'⟩ := h' id vault' hvault'
  have hsame : vault'.vaultAddress = vault.vaultAddress :=
    hid hmem' hmem (hstem'.symm.trans hstem)
  exact mem_addresses.mpr ⟨id, vault', hvault', (keeps_congr hmanager hsame).trans hwanted, hsame⟩

/-- A page has the addresses of a window of the listing. -/
theorem map_queryVaults (query : VaultQuery) {vaults : List Vault} (hperm : vaults.Perm idx.known) :
    (queryVaults query vaults).1.map (fun vault => vault.vaultAddress) =
      window query.offset.toNat query.limit.toNat (query.listed idx) := by
  unfold queryVaults
  dsimp only
  rw [map_window, map_sortBy]
  congr 1
  exact sortBy_keys_perm true ((hperm.filter _).map _)

/-- The answer is the same in whatever order the map is iterated. -/
theorem queryVaults_perm (query : VaultQuery) (h : idx.Stemmed sdk created) {vaults : List Vault}
    (hperm : vaults.Perm idx.known) : queryVaults query vaults = queryVaults query idx.known := by
  have hkeys : (query.addresses idx).Nodup := nodup_addresses h
  have hsorted : ∀ ascending, sortBy (fun vault => vault.vaultAddress) ascending
      (vaults.filter query.keeps) = sortBy (fun vault => vault.vaultAddress) ascending
        (idx.known.filter query.keeps) :=
    fun _ => sortBy_perm hkeys (hperm.filter query.keeps)
  unfold queryVaults
  dsimp only
  rw [hsorted]

end VaultQuery

/-! ## Reading the listing -/

theorem vaultAddress_enrichVaultForAccount (s : VaultSetting) (vault : Vault)
    (account : Option String) :
    (s.enrichVaultForAccount vault account).vaultAddress = vault.vaultAddress := by
  unfold VaultSetting.enrichVaultForAccount
  split
  · rfl
  · rfl

theorem map_enrich (s : VaultSetting) (account : Option String) (vaults : List Vault) :
    (vaults.map fun vault => s.enrichVaultForAccount vault account).map
        (fun vault => vault.vaultAddress) = vaults.map fun vault => vault.vaultAddress := by
  rw [List.map_map]
  exact List.map_congr_left fun vault _ => vaultAddress_enrichVaultForAccount s vault account

namespace VaultReader

variable {env : Env} {params : QueryVaultsParams} {addresses : Set String}

def query (params : QueryVaultsParams) : VaultQuery where
  limit := clampLimit 1 maxVaultsPageLimit (params.limit.getD defaultVaultsPageLimit)
  offset := 0
  manager := givenText params.manager
  vaultAddresses := parseCsv params.vaultAddresses

/-- What the client knows when it has read, of the vaults that were there when it began. -/
structure Complete (params : QueryVaultsParams) (start : Ctx) (r : VaultReader) : Prop where
  /-- it has read all that it asked for -/
  missesNone : r.reader.finished = true → ∀ id vault,
    start.store.vaults.vaults.lookup id = some vault → (query params).keeps vault = true →
      ∃ shown ∈ r.reader.seen, shown.vaultAddress = vault.vaultAddress
  /-- and nothing twice or out of order, unless vaults were created on the way -/
  inOrder : r.reader.finished = true →
    r.ctx.store.vaults.KeepsVaults start.store.vaults →
      r.reader.seen.map (fun vault => vault.vaultAddress) =
        (query params).listed start.store.vaults

theorem ask_of_accepted (haccepted : (parseCsv params.vaultAddresses).length ≤
      maxVaultsPageLimit.toNat) (iteration : Iteration Vault) (s : VaultSetting) {r : VaultReader}
    (hopen : ¬r.reader.finished = true) (hnext : r.reader.next < 2 ^ 32) :
    ∃ page : List Vault,
      r.ask params iteration s =
        { r with reader := r.reader.read (query params).limit.toNat page } ∧
      page.map (fun vault => vault.vaultAddress) =
        window r.reader.next (query params).limit.toNat
          ((query params).listed r.ctx.store.vaults) := by
  have hoffset : (UInt32.ofNat r.reader.next).toNat = r.reader.next :=
    UInt32.toNat_ofNat_of_lt' hnext
  have hwindow := VaultQuery.map_queryVaults
    { query params with offset := UInt32.ofNat r.reader.next }
    (iteration.perm r.ctx.store.vaults.known)
  dsimp only at hwindow
  rw [hoffset] at hwindow
  unfold ask
  rw [if_neg (not_or.mpr ⟨hopen, not_le.mpr hnext⟩)]
  unfold vaultsPage buildVaultQuery
  dsimp only
  rw [if_neg (not_lt.mpr haccepted)]
  refine ⟨_, rfl, ?_⟩
  rw [map_enrich]
  exact hwindow

theorem reader_ask (params : QueryVaultsParams) (iteration : Iteration Vault)
    (s : VaultSetting) (r : VaultReader) :
    (r.ask params iteration s).ctx = r.ctx ∧
      ((r.ask params iteration s).reader = r.reader ∨
        ∃ (limit : Nat) (page : List Vault),
          (r.ask params iteration s).reader = r.reader.read limit page ∧
          page.map (fun vault => vault.vaultAddress) =
            window r.reader.next limit ((query params).listed r.ctx.store.vaults)) := by
  by_cases hstop : r.reader.finished = true ∨ 2 ^ 32 ≤ r.reader.next
  · have hstays : r.ask params iteration s = r := if_pos hstop
    rw [hstays]
    exact ⟨rfl, .inl rfl⟩
  · by_cases haccepted : (parseCsv params.vaultAddresses).length ≤ maxVaultsPageLimit.toNat
    · rw [not_or, not_le] at hstop
      obtain ⟨page, hpage, hwindow⟩ :=
        ask_of_accepted haccepted iteration s hstop.1 hstop.2
      rw [hpage]
      exact ⟨rfl, .inr ⟨_, page, rfl, hwindow⟩⟩
    · have hstays : r.ask params iteration s = r := by
        unfold ask
        rw [if_neg hstop]
        unfold vaultsPage buildVaultQuery
        dsimp only
        rw [if_pos (not_le.mp haccepted)]
      rw [hstays]
      exact ⟨rfl, .inl rfl⟩

/-- A client that reads page by page while blocks are indexed misses no vault, whatever the
blocks create and change. -/
theorem reads_step (hmanager : (query params).manager = none)
    (hid : Set.InjOn (vaultUuid env.sdk) addresses) {start : List String} {r : VaultReader}
    (hstem : r.ctx.store.vaults.Stemmed env.sdk addresses)
    (hreads : Reads (fun vault : Vault => vault.vaultAddress) start
      ((query params).listed r.ctx.store.vaults) r.reader)
    {step : VaultReaderStep} (hstep : ∀ created,
      step = .index (.event (.global (.vaultCreated created))) → created.vault ∈ addresses) :
    (r.step env params step).ctx.store.vaults.Stemmed env.sdk addresses ∧
      Reads (fun vault : Vault => vault.vaultAddress) start
        ((query params).listed (r.step env params step).ctx.store.vaults)
        (r.step env params step).reader := by
  cases step with
  | index step =>
      have hstem' : (step.apply env r.ctx).store.vaults.Stemmed env.sdk addresses := by
        apply Ctx.stemmed_step hstem step
        rintro created rfl
        exact hstep created rfl
      refine ⟨hstem', hreads.grow ?_ (VaultQuery.nodup_listed hstem')⟩
      exact VaultQuery.listed_sublist hmanager hid hstem hstem' (r.ctx.keepsVaults_step step)
  | ask iteration s =>
      obtain ⟨hctx, hreader⟩ := reader_ask params iteration s r
      change (r.ask params iteration s).ctx.store.vaults.Stemmed _ _ ∧
        Reads _ start ((query params).listed (r.ask params iteration s).ctx.store.vaults)
          (r.ask params iteration s).reader
      rw [hctx]
      refine ⟨hstem, ?_⟩
      rcases hreader with heq | ⟨limit, page, heq, hpage⟩
      · rw [heq]
        exact hreads
      · rw [heq]
        exact hreads.read hpage

theorem finished_ask (haccepted : (parseCsv params.vaultAddresses).length ≤
      maxVaultsPageLimit.toNat) (iteration : Iteration Vault) (s : VaultSetting) {r : VaultReader}
    (hnext : r.reader.next < 2 ^ 32)
    (hend : ((query params).listed r.ctx.store.vaults).length <
      r.reader.next + (query params).limit.toNat) :
    (r.ask params iteration s).reader.finished = true := by
  by_cases hopen : r.reader.finished = true
  · have hstays : r.ask params iteration s = r := if_pos (.inl hopen)
    rw [hstays]
    exact hopen
  · have hpositive : (1 : UInt32).toNat ≤ (clampLimit 1 maxVaultsPageLimit
        (params.limit.getD defaultVaultsPageLimit)).toNat := (clampLimit_bounds (by decide) _).1
    obtain ⟨page, hpage, hwindow⟩ := ask_of_accepted haccepted iteration s hopen hnext
    rw [hpage]
    exact finished_read hpositive hwindow hend

/-- A client that asks often enough, with no block in between, finishes. -/
theorem finished_asks (haccepted : (parseCsv params.vaultAddresses).length ≤
      maxVaultsPageLimit.toNat) (iteration : Iteration Vault) (s : VaultSetting) {r : VaultReader}
    {k : Nat} (hbound : r.reader.next + k * (query params).limit.toNat < 2 ^ 32)
    (hend : ((query params).listed r.ctx.store.vaults).length <
      r.reader.next + (k + 1) * (query params).limit.toNat) :
    ((ask params iteration s)^[k + 1] r).reader.finished = true := by
  refine finished_iterate (P := fun r' => r'.ctx = r.ctx) ?_ ?_ ?_ ?_ rfl hbound hend
  · intro r' hctx
    rw [(reader_ask params iteration s r').1, hctx]
  · exact fun r' hdone => if_pos (.inl hdone)
  · intro r' _ hopen hnext
    obtain ⟨page, hpage, -⟩ := ask_of_accepted haccepted iteration s hopen hnext
    rw [hpage]
    rfl
  · intro r' hctx hnext hend
    rw [← hctx] at hend
    exact finished_ask haccepted iteration s hnext hend

/-- In every run in which a client reads the vaults of an index page by page, while blocks go on
being indexed, it has read all vaults that were there when it began once it finishes. -/
theorem vaultPages_of_run (env : Env) (before : List BlockStep) (params : QueryVaultsParams)
    (hmanager : givenText params.manager = none) (steps : List VaultReaderStep)
    (hid : Set.InjOn (vaultUuid env.sdk)
      (BlockStep.vaultsIn (before ++ steps.filterMap VaultReaderStep.indexed))) :
    Throughout (VaultReader.step env params)
      (Complete params (before.foldl (BlockStep.apply env) { store := {} })) steps
      ⟨before.foldl (BlockStep.apply env) { store := {} }, {}⟩ := by
  let addresses := BlockStep.vaultsIn (before ++ steps.filterMap VaultReaderStep.indexed)
  have hstart : (before.foldl (BlockStep.apply env) { store := {} }).store.vaults.Stemmed
      env.sdk addresses := by
    refine List.foldlRecOn (motive := fun c : Ctx => c.store.vaults.Stemmed env.sdk addresses)
      before _ (fun _ _ h => nomatch h) ?_
    intro c hc step hmem
    apply Ctx.stemmed_step hc step
    rintro created rfl
    exact ⟨created, List.mem_append_left _ hmem, rfl⟩
  generalize before.foldl (BlockStep.apply env) { store := {} } = start at hstart ⊢
  have hkeeps : ∀ (r : VaultReader) (step : VaultReaderStep), step ∈ steps →
      r.ctx.store.vaults.Stemmed env.sdk addresses ∧
        Reads (fun vault : Vault => vault.vaultAddress) ((query params).listed start.store.vaults)
          ((query params).listed r.ctx.store.vaults) r.reader →
      (r.step env params step).ctx.store.vaults.Stemmed env.sdk addresses ∧
        Reads (fun vault : Vault => vault.vaultAddress) ((query params).listed start.store.vaults)
          ((query params).listed (r.step env params step).ctx.store.vaults)
          (r.step env params step).reader := by
    intro r step hmem ⟨hstem, hreads⟩
    apply reads_step hmanager hid hstem hreads
    rintro created rfl
    exact ⟨created, List.mem_append_right _ (List.mem_filterMap.mpr ⟨_, hmem, rfl⟩), rfl⟩
  have hsteps : ∀ step ∈ steps, step ∈ steps := fun _ h => h
  refine (throughout_of_keeps hkeeps hsteps ⟨hstart, reads_start _ _⟩).mono ?_
  rintro r ⟨hstem, hreads⟩
  constructor
  · intro hfinished id vault hvault hwanted
    have hlisted : vault.vaultAddress ∈ (query params).listed start.store.vaults :=
      mem_sortBy.mpr (VaultQuery.mem_addresses.mpr ⟨id, vault, hvault, hwanted, rfl⟩)
    exact List.mem_map.mp (hreads.misses hfinished _ hlisted)
  · intro hfinished hnone
    apply hreads.whole hfinished
    exact (VaultQuery.listed_sublist hmanager hid hstem hstart hnone).antisymm hreads.grown

end VaultReader

/-- The route by address gives the vault at the address, as it is enriched. -/
theorem getVaultByAddress_eq_ok {sdk : Sdk} {created : Set String} {idx : VaultIndex}
    (h : idx.Exact sdk created) (s : VaultSetting) {address : String} {account : Option String}
    {shown : Vault} :
    getVaultByAddress idx s address account = .ok shown ↔
      ∃ id vault, idx.vaults.lookup id = some vault ∧
        addrKey vault.vaultAddress = addrKey address ∧
        s.enrichVaultForAccount vault (givenText account) = shown := by
  have hfound : ∀ vault, ((idx.vaultByAddress.lookup (addrKey address)).bind
      fun id => idx.vaults.lookup id) = some vault ↔
        ∃ id, idx.vaults.lookup id = some vault ∧
          addrKey vault.vaultAddress = addrKey address := by
    intro vault
    rw [Option.bind_eq_some_iff]
    constructor
    · rintro ⟨id, hid, hvault⟩
      obtain ⟨vault', hvault', haddress⟩ := (h.byAddress _ id).mp hid
      cases hvault.symm.trans hvault'
      exact ⟨id, hvault, haddress⟩
    · rintro ⟨id, hvault, haddress⟩
      exact ⟨id, (h.byAddress _ id).mpr ⟨vault, hvault, haddress⟩, hvault⟩
  unfold getVaultByAddress
  split
  · rename_i hnone
    constructor
    · intro hok
      cases hok
    · rintro ⟨id, vault, hvault, haddress, -⟩
      cases hnone.symm.trans ((hfound vault).mpr ⟨id, hvault, haddress⟩)
  · rename_i vault hsome
    obtain ⟨id, hvault, haddress⟩ := (hfound vault).mp hsome
    constructor
    · intro hok
      cases hok
      exact ⟨id, vault, hvault, haddress, rfl⟩
    · rintro ⟨id', vault', hvault', haddress', rfl⟩
      cases hsome.symm.trans ((hfound vault').mpr ⟨id', hvault', haddress'⟩)
      rfl

namespace Sample

/-! Two vaults are read one by one, and a third, which comes before them, is created after the
first page. -/

def created (address : String) : BlockStep :=
  .event (.global (.vaultCreated ⟨address, "LP vault", account, otherMarket, market⟩))

def twoVaults : List BlockStep := [created vault, created otherVault]

def asStored : Lib.Listing.Iteration Vault := ⟨fun vaults => vaults, fun _ => List.Perm.refl _⟩

def oneVault : QueryVaultsParams := { limit := some 1 }

def vaultSteps : List VaultReaderStep :=
  [.ask asStored (vaultHolding 1500000), .index (created laterVault),
    .ask asStored (vaultHolding 1500000), .ask asStored (vaultHolding 1500000),
    .ask asStored (vaultHolding 1500000)]

def vaultStart : Ctx := twoVaults.foldl (BlockStep.apply setting) { store := {} }

def vaultAdded : Ctx := (created laterVault).apply setting vaultStart

theorem vaultUuid_injOn :
    Set.InjOn (vaultUuid setting.sdk) {vault, otherVault, laterVault} := by
  rintro a (rfl | rfl | rfl) b (rfl | rfl | rfl) h
  all_goals first | rfl | exact absurd h (by decide +kernel)

theorem vaultsIn_vaultSteps :
    BlockStep.vaultsIn (twoVaults ++ vaultSteps.filterMap VaultReaderStep.indexed) ⊆
      {vault, otherVault, laterVault} := by
  rintro address ⟨made, hmem, rfl⟩
  simp only [twoVaults, vaultSteps, created, VaultReaderStep.indexed, List.filterMap_cons,
    List.filterMap_nil, List.cons_append, List.nil_append, List.mem_cons, List.not_mem_nil,
    or_false, BlockStep.event.injEq, ChainEvent.global.injEq, GlobalEvent.vaultCreated.injEq]
    at hmem
  rcases hmem with rfl | rfl | rfl
  · exact .inl rfl
  · exact .inr (.inl rfl)
  · exact .inr (.inr rfl)

theorem ask_vaultStart :
    ∃ page, VaultReader.ask oneVault asStored (vaultHolding 1500000) ⟨vaultStart, {}⟩ =
      ⟨vaultStart, Lib.Listing.Reader.read 1 page {}⟩ := by
  obtain ⟨page, hpage, -⟩ := @VaultReader.ask_of_accepted oneVault (by decide) asStored
    (vaultHolding 1500000) ⟨vaultStart, {}⟩ (by decide) (by decide)
  exact ⟨page, hpage⟩

theorem finished_vaultSteps :
    (vaultSteps.foldl (VaultReader.step setting oneVault) ⟨vaultStart, {}⟩).reader.finished =
      true := by
  obtain ⟨page, hpage⟩ := ask_vaultStart
  have hlast : vaultSteps.foldl (VaultReader.step setting oneVault) ⟨vaultStart, {}⟩ =
      (VaultReader.ask oneVault asStored (vaultHolding 1500000))^[2 + 1]
        ⟨vaultAdded, Lib.Listing.Reader.read 1 page {}⟩ := by
    unfold vaultSteps
    simp only [List.foldl_cons, List.foldl_nil, VaultReader.step, hpage]
    rfl
  have hsize : ((VaultReader.query oneVault).listed vaultAdded.store.vaults).length = 3 := by
    unfold VaultQuery.listed
    rw [Lib.Listing.length_sortBy]
    decide +kernel
  rw [hlast]
  apply VaultReader.finished_asks (by decide) asStored
  · change 1 + 2 * (VaultReader.query oneVault).limit.toNat < 2 ^ 32
    decide
  · change ((VaultReader.query oneVault).listed vaultAdded.store.vaults).length <
      1 + (2 + 1) * (VaultReader.query oneVault).limit.toNat
    rw [hsize]
    decide

/-- Both vaults that were there are read. -/
theorem vaultPages_vaultSteps :
    [vault, otherVault] ⊆ (vaultSteps.foldl (VaultReader.step setting oneVault)
      ⟨vaultStart, {}⟩).reader.seen.map fun shown => shown.vaultAddress := by
  have hread := (VaultReader.vaultPages_of_run setting twoVaults oneVault rfl vaultSteps
    (vaultUuid_injOn.mono vaultsIn_vaultSteps)).finish
  have hthere : ∀ address ∈ [vault, otherVault],
      (vaultStart.store.vaults.vaults.lookup (vaultUuid setting.sdk address)).map
        (fun shown => shown.vaultAddress) = some address := by
    decide +kernel
  intro address haddress
  obtain ⟨shown, hshown, rfl⟩ := Option.map_eq_some_iff.mp (hthere address haddress)
  exact List.mem_map.mpr (hread.missesNone finished_vaultSteps _ shown hshown rfl)

end Sample

end ClobIndexer
