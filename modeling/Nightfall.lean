import Nightfall.Library.Hex
import Nightfall.Library.FirstOfKey
import Nightfall.Library.Machine
import Nightfall.Library.Guard
import Nightfall.Library.KeySum
import Nightfall.Types
import Nightfall.Crypto
import Nightfall.Ledger.Utxo
import Nightfall.Ledger.Tx
import Nightfall.Ledger.Aggregate
import Nightfall.Ledger.State
import Nightfall.Ledger.Accepted
import Nightfall.Ledger.Supply
import Nightfall.Library.UndoLog
import Nightfall.Ledger.Undo
import Nightfall.Consensus.Block
import Nightfall.Consensus.Chain
import Nightfall.Library.GuardedRun
import Nightfall.Library.Chained
import Nightfall.Consensus.Verdict
import Nightfall.Consensus.Atomicity
import Nightfall.Consensus.History
import Nightfall.Consensus.Follows
import Nightfall.Consensus.Run
import Nightfall.Consensus.Steps
import Nightfall.Consensus.Records
import Nightfall.Consensus.Bodies
import Nightfall.Consensus.Rewind
import Nightfall.Sample
import Nightfall.Library.HalvingSum
import Nightfall.Consensus.Emission
import Nightfall.Ledger.CachedSum
import Nightfall.Library.SortByKey
import Nightfall.Ledger.Merging
import Nightfall.Ledger.BodyHash
import Nightfall.Consensus.Difficulty
import Nightfall.Library.Limbs
import Nightfall.Consensus.Target
import Nightfall.Library.Median
import Nightfall.Consensus.Timestamps
import Nightfall.Consensus.Mempool
import Nightfall.Ledger.Balance
import Nightfall.Library.ProbeSearch
import Nightfall.Wallet.Stealth
import Nightfall.Wallet.Builder
import Nightfall.Wallet.BuiltTransfer
import Nightfall.Wallet.Balances
import Nightfall.Wallet.State
import Nightfall.Wallet.Payment
import Nightfall.Wallet.Scan
import Nightfall.Wallet.Light
import Nightfall.Wallet.Run
import Nightfall.Wallet.Branch
import Nightfall.Wallet.Sample
import Nightfall.Wallet.PaymentRequest
import Nightfall.Wallet.LinkText
import Nightfall.Library.OnceMap
import Nightfall.Wallet.Air
import Nightfall.Library.Pieces
import Nightfall.Wallet.AirFrames
import Nightfall.Library.LargestFirst
import Nightfall.Wallet.CoinSelection
import Nightfall.Wallet.Invoice
import Nightfall.Wallet.InvoicePaid
import Nightfall.Wallet.Settlement
import Nightfall.Wallet.TillRun
import Nightfall.Wallet.Feed
import Nightfall.Wallet.Pass
import Nightfall.Wallet.Continuity
import Nightfall.Wallet.Pages
import Nightfall.Wallet.Rebuild
import Nightfall.Wallet.Settling
import Nightfall.Wallet.Agreement
import Nightfall.Wallet.Paging
import Nightfall.Wallet.PageIndependence
import Nightfall.Wallet.Reconcile
import Nightfall.Wallet.Promises
import Nightfall.Wallet.AirSigning
import Nightfall.Wallet.Withheld
import Nightfall.Wallet.AirReplay
import Nightfall.Consensus.Clock
import Nightfall.Consensus.Replay
import Nightfall.Library.BoundedMap
import Nightfall.Library.Files
import Nightfall.Library.Records
import Nightfall.Library.Text
import Nightfall.Library.Lossy
import Nightfall.Library.Percent
import Nightfall.Runtime.Ibd
import Nightfall.Runtime.IbdPages
import Nightfall.Runtime.IbdRun
import Nightfall.Runtime.Ancestor
import Nightfall.Storage.Codec
import Nightfall.Storage.Datadir
import Nightfall.Storage.Restore
import Nightfall.Storage.Trust
import Nightfall.Library.Json
import Nightfall.Library.PrefixCode
import Nightfall.Storage.Layout
import Nightfall.Storage.Sample
import Nightfall.Storage.Migrate
import Nightfall.Storage.SideFiles
import Nightfall.Storage.Committed
import Nightfall.Storage.Saving
import Nightfall.Storage.Archive
import Nightfall.Storage.Interrupted
import Nightfall.Storage.ArchiveCrash
import Nightfall.Storage.ArchiveSurvival
import Nightfall.Storage.Base
import Nightfall.Storage.PrunedCrash
import Nightfall.Storage.PrunedSurvival
import Nightfall.Storage.RoundTrip
import Nightfall.Library.Decimal
import Nightfall.Wallet.AmountInput
import Nightfall.Wallet.Receipt
import Nightfall.Runtime.Headers
import Nightfall.Library.IpText
import Nightfall.Runtime.Dial
import Nightfall.Library.Streams
import Nightfall.Runtime.Wire
import Nightfall.Runtime.Framing
import Nightfall.Runtime.RequestBlocks
import Nightfall.Library.Sightings
import Nightfall.Wallet.SwapJournal
import Nightfall.Wallet.SwapWorkers
import Nightfall.Storage.Tips
import Nightfall.Storage.Appends
import Nightfall.Storage.SaveRun
import Nightfall.Library.Moves
import Nightfall.Storage.Import
import Nightfall.Runtime.Recovery
import Nightfall.Runtime.RecoverySafety
import Nightfall.Runtime.Serving
import Nightfall.Ledger.Mineable
import Nightfall.Consensus.Template
import Nightfall.Consensus.Selection
import Nightfall.Consensus.Mining
import Nightfall.Consensus.Standing
import Nightfall.Consensus.ForkChoice
import Nightfall.Consensus.Validated
import Nightfall.Consensus.Pruning
import Nightfall.Library.Faulty
import Nightfall.Wallet.Vault
import Nightfall.Wallet.VaultStore
import Nightfall.Wallet.VaultSample
import Nightfall.Wallet.VaultCommits
import Nightfall.Wallet.VaultRun
import Nightfall.Wallet.VaultRecovery
