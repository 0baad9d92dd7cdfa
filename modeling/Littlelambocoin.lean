import Littlelambocoin.Sync.Invalidate
import Littlelambocoin.Sync.Push
import Littlelambocoin.Sync.Lifecycle
import Littlelambocoin.Sync.Teardown
import Littlelambocoin.Sync.System
import Littlelambocoin.Offer.Pattern
import Littlelambocoin.Offer.Parse
import Littlelambocoin.Offer.Import
import Littlelambocoin.Rewards.BlockRewards
import Littlelambocoin.Wallet.CatSend
