import GrinWallet.Contexts.Draw
import GrinWallet.Contexts.Secrecy
import GrinWallet.Exchange.Balance
import GrinWallet.Exchange.Calls
import GrinWallet.Exchange.Elements
import GrinWallet.Exchange.Finalize
import GrinWallet.Exchange.LateLock
import GrinWallet.Exchange.PaymentProof
import GrinWallet.Exchange.Protection
import GrinWallet.Exchange.Receive
import GrinWallet.Exchange.Repay
import GrinWallet.Exchange.Retry
import GrinWallet.Exchange.Rounds
import GrinWallet.Exchange.Signing
import GrinWallet.Exchange.Undo
import GrinWallet.Formats.Armor
import GrinWallet.Formats.BinarySlate
import GrinWallet.Formats.BinarySlatepack
import GrinWallet.Formats.Configuration
import GrinWallet.Formats.EncryptedMetadata
import GrinWallet.Formats.Encryption
import GrinWallet.Formats.ForwardCompat
import GrinWallet.Formats.HostileInput
import GrinWallet.Formats.Recognition
import GrinWallet.Formats.SizeLimit
import GrinWallet.Formats.SlateConversion
import GrinWallet.Formats.SlatepackMessage
import GrinWallet.Formats.StoredContext
import GrinWallet.Lib.Digits
import GrinWallet.Lib.Document
import GrinWallet.Lib.Effect
import GrinWallet.Lib.Json
import GrinWallet.Lib.Keystream
import GrinWallet.Lib.OneTimePad
import GrinWallet.Lib.OrderedTable
import GrinWallet.Lib.Pedersen
import GrinWallet.Lib.Sections
import GrinWallet.Lib.Serde
import GrinWallet.Lib.SmallestFirst
import GrinWallet.Lib.StableSort
import GrinWallet.Lib.Text
import GrinWallet.Lib.Wire
import GrinWallet.Lifecycle.OwnerSession
import GrinWallet.Lifecycle.Seed
import GrinWallet.Lifecycle.Sessions
import GrinWallet.Lifecycle.StoredSeed
import GrinWallet.Model.Api
import GrinWallet.Model.Backend
import GrinWallet.Model.Config
import GrinWallet.Model.ContextSer
import GrinWallet.Model.Crypto
import GrinWallet.Model.Lifecycle
import GrinWallet.Model.Mwixnet
import GrinWallet.Model.Owner
import GrinWallet.Model.OwnerSession
import GrinWallet.Model.PaymentProof
import GrinWallet.Model.Sample
import GrinWallet.Model.SampleConfig
import GrinWallet.Model.SampleContext
import GrinWallet.Model.SampleMwixnet
import GrinWallet.Model.SampleSlatepack
import GrinWallet.Model.SampleSwap
import GrinWallet.Model.Scan
import GrinWallet.Model.Seed
import GrinWallet.Model.Selection
import GrinWallet.Model.Ser
import GrinWallet.Model.Slate
import GrinWallet.Model.SlateV4
import GrinWallet.Model.SlateV4Bin
import GrinWallet.Model.Slatepack
import GrinWallet.Model.SlatepackArmor
import GrinWallet.Model.SlatepackMessage
import GrinWallet.Model.Slatepacker
import GrinWallet.Model.SwapReq
import GrinWallet.Model.Tx
import GrinWallet.Model.TxQuery
import GrinWallet.Model.Types
import GrinWallet.Model.Update
import GrinWallet.Model.Updater
import GrinWallet.Mwixnet.ComSig
import GrinWallet.Mwixnet.Onion
import GrinWallet.Mwixnet.SwapReq
import GrinWallet.Runs.Accounts
import GrinWallet.Runs.Coherence
import GrinWallet.Runs.Confirmation
import GrinWallet.Runs.Frame
import GrinWallet.Runs.Outputs
import GrinWallet.Runs.PaymentProofs
import GrinWallet.Runs.Receipts
import GrinWallet.Runs.Refresh
import GrinWallet.Runs.ScanProgress
import GrinWallet.Runs.Sends
import GrinWallet.Runs.Steps
import GrinWallet.Runs.Writes
import GrinWallet.Selection.Building
import GrinWallet.Selection.Cancelling
import GrinWallet.Selection.Checked
import GrinWallet.Selection.Choice
import GrinWallet.Selection.Conservation
import GrinWallet.Selection.Distinct
import GrinWallet.Selection.Estimate
import GrinWallet.Selection.Fees
import GrinWallet.Selection.Funds
import GrinWallet.Selection.Locking
import GrinWallet.Selection.Panics
import GrinWallet.Selection.SendPanics
import GrinWallet.Selection.SoftLimit
import GrinWallet.Updating.Coinbase
import GrinWallet.Updating.ScanBatches
import GrinWallet.Updating.StoredTx
import GrinWallet.Updating.TxQuery
