import CashStratum.ByteString
import CashStratum.Sha2
import CashStratum.MerkleTree
import CashStratum.Merkle
import CashStratum.ByteReader
import CashStratum.Sv2Tx
import CashStratum.Sv2Cb
import CashStratum.Numeral
import CashStratum.CashAddr
import CashStratum.LibCkpool
import CashStratum.Workbase
import CashStratum.Coinbase
import CashStratum.Submission
import CashStratum.Sv2Work
import CashStratum.SeenTable
import CashStratum.ShareTable
import CashStratum.JdCoinbase
import CashStratum.JdToken
import CashStratum.JdState
import CashStratum.Run
import CashStratum.JdRun
import CashStratum.JdInvariant
import CashStratum.Sv2Custom
import CashStratum.MiningChannel
import CashStratum.Pool
import CashStratum.PoolInvariant
import CashStratum.Username
import CashStratum.Instance
import CashStratum.Authorise
import CashStratum.Stratifier
import CashStratum.InstanceInvariant
import CashStratum.InstanceStep
import CashStratum.InstanceKeeps
import CashStratum.SoloPayout
import CashStratum.Authorising
import CashStratum.WorkerCount
import CashStratum.NodeList
import CashStratum.Enonce1
import CashStratum.Difficulty
import CashStratum.DifficultyRun
import CashStratum.InFlight
import CashStratum.DiffBounds
import CashStratum.PinnedDiff
import CashStratum.PoolRounds
import CashStratum.UserFiles
import CashStratum.KeyedList
import CashStratum.Txns
import CashStratum.JdCoalesce
import CashStratum.JdCounters
import CashStratum.Sv2Drop
import CashStratum.Sv2Target
import CashStratum.Sv2Batch
import CashStratum.Sv2Codec
import CashStratum.Sv2Messages
import CashStratum.Sv2JdMessages
import CashStratum.NoiseFrame
import CashStratum.Sv2Conn
import CashStratum.JdcRx
import CashStratum.Lines
import CashStratum.ConnectorRx
import CashStratum.SendQueue
import CashStratum.JdcDeclare
import CashStratum.CText
import CashStratum.Reconnect
import CashStratum.Sv2Proxy
import CashStratum.Sv2ProxyRing
import CashStratum.Sv2ProxyShare
import CashStratum.Sv2ProxyWork
import CashStratum.Sv2ProxyAccount
import CashStratum.Sv2CbOutputs
import CashStratum.Sv2ProxySolve
import CashStratum.RejectStats
import CashStratum.Rejects
import CashStratum.BestShare
import CashStratum.Scan
import CashStratum.PoolEvents
import CashStratum.AuthLog
import CashStratum.ShareFeed
import CashStratum.ShareFeedRun
import CashStratum.LogTail
import CashStratum.Deliver
import CashStratum.Runes
import CashStratum.GoCashaddr
import CashStratum.ApiNames
import CashStratum.ProxyClients
import CashStratum.ProxyEnonce1
import CashStratum.ProxyTable
import CashStratum.ProxyPrio
import CashStratum.ProxySelect
import CashStratum.Joiner
import CashStratum.ProxyShares
import CashStratum.ApiQueries
import CashStratum.Subclients
import CashStratum.Redirector
import CashStratum.RedirectorShares
import CashStratum.RedirectorCalls
import CashStratum.RedirectorRun
import CashStratum.Regex
import CashStratum.PoolLine
import CashStratum.SolvedLine
import CashStratum.IndexState
import CashStratum.CoinbaseFinal
import CashStratum.AuthorityKey
import CashStratum.GoBytes
import CashStratum.CoinbaseTemplate
import CashStratum.TemplateCache
import CashStratum.CoinbaseFlights
import CashStratum.ResponseCache
import CashStratum.ProbeTable
import CashStratum.HsLimit
import CashStratum.NoiseHandshake
import CashStratum.GrowingFiles
import CashStratum.FloatOrder
import CashStratum.SharelogIndex
import CashStratum.Sv2ProxyPrefix
import CashStratum.Sv2ProxyUpstream
import CashStratum.TailFollow
import CashStratum.TipRing
import CashStratum.PasswordTokens
import CashStratum.BlockHeight
import CashStratum.Sv2Txid
import CashStratum.Sv2CbPayouts
import CashStratum.CoinbasePayout
import CashStratum.LruCache
import CashStratum.ChannelJobs
import CashStratum.TxnAddress
import CashStratum.CoinbaseProof
import CashStratum.JdBlock
import CashStratum.Sha2Stream
import CashStratum.CkLock
