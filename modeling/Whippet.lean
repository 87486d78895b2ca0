import Whippet.Primitives.MerkleRoot
import Whippet.Script.Inspect
import Whippet.Script.SigOpBound
import Whippet.Consensus.ParamsTree
import Whippet.Validation.BlockTime
import Whippet.Validation.CoinRun
import Whippet.Validation.PoolConflicts
import Whippet.Validation.Provenance
import Whippet.Validation.Reissue
import Whippet.Pow.AuxPow
import Whippet.Pow.Compact
import Whippet.Pow.LongDivision
import Whippet.Pow.LwmaWeights
import Whippet.Ports.CoinFunds
import Whippet.Ports.MakerGuarantee
import Whippet.Ports.PaymentAccounts
import Whippet.Indexer.Mirror
import Whippet.Indexer.ReorgWalk
import Whippet.Indexer.SyncFollow
import Whippet.Faucet.ClientIp
import Whippet.Faucet.Limits
import Whippet.Faucet.LineageCap
import Whippet.Faucet.LiquidityCaps
import Whippet.Web.AddressCodec
import Whippet.Web.MarketFill
import Whippet.Web.Metadata
import Whippet.Web.MnemonicKey
import Whippet.Web.TransferFee
import Whippet.Web.WalletSecrets
