import ClobIndexer.Indexer.Steps
import ClobIndexer.Bars
import ClobIndexer.Paper
/-!
# Blocks with candles and the paper market

`process_prepared_block` again, with the state that no index-state table holds: the
candles, which the buy side of a fill feeds when publishing, and the paper market,
which its own events feed in the serial stage and the two flushes at the end of a
block sample.  Neither reads the other or is read by the order events, so the part
of the index that the tables hold is the one of `Ctx.processPreparedBlock`.
-/

namespace ClobIndexer

open Lib

structure World where
  ctx : Ctx
  bars : Bars := {}
  paper : Paper := {}
  paperFeed : List PaperWsMessage := []

variable (env : Env) (paperChain : PaperChain)

/-- The candles after an order event; `Bars::now_ts` is the wall clock in seconds. -/
def Bars.applyMarketOrderEvent (opts : ProcessOpts) (spotMarket : String) (b : Bars) :
    MarketOrderEvent → Bars
  | .filled e _ =>
      if opts.publishWs ∧ e.side = .buy then
        b.onTrade env.sdk spotMarket e.price e.fillAmount (env.nowMs / 1000)
      else b
  | .created _ => b
  | .cancelled _ => b
  | .updated _ => b
  | .executed _ => b

def Paper.applyGlobalEvent (paperEnv : PaperEnv) (p : Paper) : GlobalEvent → Paper
  | .secondary e => p.applySecondaryEvent paperEnv e
  | .eventContractCreated _ => p
  | .eventContractResolved _ => p
  | .vaultCreated _ => p
  | .vaultDeposited _ _ => p
  | .vaultWithdrawn _ _ => p
  | .vaultManagerUpdated _ _ => p
  | .vaultDepositPermissionUpdated _ _ => p
  | .vaultClosed _ => p
  | .marketCreated _ => p

namespace World

def paperEnv (blockNum : UInt64) (w : World) : PaperEnv where
  sdk := env.sdk
  blockNum := blockNum
  blockMs := w.ctx.store.tsMs
  nowMs := env.nowMs

def applyGlobalEvent (blockNum : UInt64) (w : World) (e : GlobalEvent) : World :=
  { w with
    ctx := w.ctx.applyGlobalEvent env e
    paper := w.paper.applyGlobalEvent (w.paperEnv env blockNum) e }

def applyUnmapped (opts : ProcessOpts) (w : World) (e : UnmappedOrderEvent) : World :=
  { w with ctx := w.ctx.applyUnmapped env opts e }

def applyMarketOrderEvent (opts : ProcessOpts) (blockNum : UInt64) (spotMarket : String)
    (w : World) (e : MarketOrderEvent) : World :=
  { w with
    ctx := w.ctx.applyMarketOrderEvent env opts blockNum spotMarket e
    bars := w.bars.applyMarketOrderEvent env opts spotMarket e }

def applyMarketOrderEvents (opts : ProcessOpts) (blockNum : UInt64) (spotMarket : String)
    (events : List MarketOrderEvent) (w : World) : World :=
  events.foldl (applyMarketOrderEvent env opts blockNum spotMarket) w

def setWs (ws : IndexWriteSet) (w : World) : World := { w with ctx := { w.ctx with ws } }

def runMarketTask (opts : ProcessOpts) (blockNum : UInt64) (w : World)
    (task : Sigma fun _ : String => List MarketOrderEvent) : World :=
  let done := (w.setWs {}).applyMarketOrderEvents env opts blockNum task.1 task.2
  done.setWs (w.ctx.ws.merge done.ctx.ws)

def applySerial (opts : ProcessOpts) (prepared : PreparedBlock) (w : World) : World :=
  prepared.unmapped.foldl (applyUnmapped env opts)
    (prepared.block.globalEvents.foldl (applyGlobalEvent env prepared.blockNum)
      { w with ctx := w.ctx.beginBlock prepared.block })

def applyMarkets (opts : ProcessOpts) (prepared : PreparedBlock) (w : World) : World :=
  prepared.markets.entries.foldl (runMarketTask env opts prepared.blockNum) w

/-- The end of a block: the flushes, and the head that is written with the rows. -/
def endBlock (opts : ProcessOpts) (prepared : PreparedBlock) (w : World) : World :=
  let paperEnv := w.paperEnv env prepared.blockNum
  let flushed := Paper.flushPaperStakeHistory paperEnv paperChain opts.publishWs
    (Paper.flushPaperHouseWs paperEnv opts.publishWs (w.paper, w.paperFeed))
  { w.setWs { w.ctx.ws with blockNum := prepared.blockNum, digest := prepared.blockDigest } with
    paper := flushed.1
    paperFeed := flushed.2 }

def processPreparedBlock (opts : ProcessOpts) (prepared : PreparedBlock) (w : World) : World :=
  ((w.applySerial env opts prepared).applyMarkets env opts prepared).endBlock env paperChain opts
    prepared

/-! ## The part that the tables hold -/

theorem ctx_foldl {E : Type} {f : World → E → World} {g : Ctx → E → Ctx}
    (h : ∀ w e, (f w e).ctx = g w.ctx e) (es : List E) (w : World) :
    (es.foldl f w).ctx = es.foldl g w.ctx := by
  induction es generalizing w with
  | nil => rfl
  | cons e es ih => rw [List.foldl_cons, List.foldl_cons, ih, h]

theorem ctx_applySerial (opts : ProcessOpts) (prepared : PreparedBlock) (w : World) :
    (w.applySerial env opts prepared).ctx = w.ctx.applySerial env opts prepared := by
  unfold applySerial Ctx.applySerial
  rw [ctx_foldl (g := Ctx.applyUnmapped env opts) fun _ _ => rfl,
    ctx_foldl (g := Ctx.applyGlobalEvent env) fun _ _ => rfl]

theorem ctx_runMarketTask (opts : ProcessOpts) (blockNum : UInt64) (w : World)
    (task : Sigma fun _ : String => List MarketOrderEvent) :
    (w.runMarketTask env opts blockNum task).ctx =
      w.ctx.runMarketTask env opts blockNum task := by
  have hevents : ((w.setWs {}).applyMarketOrderEvents env opts blockNum task.1 task.2).ctx =
      ({ w.ctx with ws := {} }).applyMarketOrderEvents env opts blockNum task.1 task.2 :=
    ctx_foldl (g := Ctx.applyMarketOrderEvent env opts blockNum task.1) (fun _ _ => rfl) task.2
      (w.setWs {})
  unfold runMarketTask Ctx.runMarketTask setWs at *
  dsimp only
  rw [hevents]

/-- On the part that the tables hold, this is the block of the index. -/
theorem ctx_processPreparedBlock (opts : ProcessOpts) (prepared : PreparedBlock) (w : World) :
    (w.processPreparedBlock env paperChain opts prepared).ctx =
      w.ctx.processPreparedBlock env opts prepared := by
  unfold processPreparedBlock Ctx.processPreparedBlock endBlock applyMarkets setWs
  dsimp only
  rw [ctx_foldl (ctx_runMarketTask env opts prepared.blockNum), ctx_applySerial]

end World

end ClobIndexer
