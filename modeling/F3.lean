import F3.Lib.Run
import F3.Lib.Bytes
import F3.Lib.Lines
import F3.Lib.GoText
import F3.Lib.Tree
import F3.Lib.Prog
import F3.Lib.Arena
import F3.Lib.Posix
import F3.Lib.PosixFrame
import F3.Lib.PosixNames
import F3.Lib.PosixOk
import F3.Producer
import F3.ProducerStream
import F3.ProducerFlag
import F3.DoneFraming
import F3.Client
import F3.ClientCopy
import F3.ClientAnswer
import F3.Download
import F3.ClientRequest
import F3.ClientServers
import F3.Driver
import F3.DriverRequests
import F3.DriverLookup
import F3.DriverTable
import F3.DriverMark
import F3.DriverFrames
import F3.DriverAround
import F3.DriverAnswers
import F3.DriverConvert
import F3.DriverRecycle
import F3.DriverKeys
import F3.DriverChoice
import F3.DriverCluster
import F3.DriverPaths
import F3.DriverService
import F3.DriverReplies
import F3.DriverTrees
import F3.DriverLedger
import F3.DriverLedgerRun
import F3.DriverFetch
import F3.DriverHandles
import F3.DriverSeats
import F3.DriverSizes
import F3.DriverSizesRun
import F3.DriverConverted
import F3.NodeServer
import F3.NodeVolume
import F3.DriverLocks
import F3.DriverOffer
import F3.DriverListing
import F3.Lib.PosixFds
import F3.DriverFds
import F3.Lib.Custody
import F3.DriverOwners
import F3.DriverOwnersRun
import F3.DriverLeaks
import F3.Lib.PosixBooks
import F3.DriverDurable
import F3.DriverCopies
import F3.Controller
import F3.NodeExit
import F3.ClientFastest
import F3.DriverRead
import F3.ProducerOrder
import F3.DriverStat
import F3.Lib.Paging
import F3.DriverPaging
import F3.DriverInherit
import F3.Lib.Mirror
import F3.DriverMirror
import F3.DriverMirrorRun
import F3.DriverAttrs
import F3.DriverAttrsRun
import F3.DriverSizeText
import F3.Lib.GoPath
import F3.TransferPath
import F3.Lib.ReadWrite
import F3.ClientRoute
import F3.Lib.GoCopy
import F3.ClientDownload
import F3.Lib.GoPanic
import F3.ClientIndex
import F3.Lib.Writes
import F3.ControllerCreate
import F3.Lib.Python
import F3.ActionEnv
import F3.Lib.Scatter
import F3.Transfer
import F3.TransferWhole
import F3.TransferProgress
import F3.Cxxopts
import F3.DriverOptions
import F3.NodeCommand
import F3.DriverProgress
import F3.FuseBuffer
import F3.DriverData
import F3.TransferRead
import F3.TransferName
