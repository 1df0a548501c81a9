import Hamster.Lib.Bytes
import Hamster.Lib.Clock
import Hamster.Lib.Memory
import Hamster.Lib.Buffer
import Hamster.Lib.Framing
import Hamster.Lib.Runs
import Hamster.Lib.Datagrams
import Hamster.Lib.Posix
import Hamster.Lib.Unreliable
import Hamster.Lib.RecordFile
import Hamster.Lib.Rows
import Hamster.Lib.Java
import Hamster.Lib.Loops
import Hamster.Lib.Streams
import Hamster.Lib.Scanf
import Hamster.Lib.Strtok
import Hamster.Lib.Format
import Hamster.Lib.Query
import Hamster.Lib.Codecs
import Hamster.Lib.Contingency
import Hamster.Lib.Dictionary
import Hamster.Lib.LogSpace
import Hamster.Store.Entry
import Hamster.Store.Fields
import Hamster.Store.Library
import Hamster.Store.Frame
import Hamster.Store.Scans
import Hamster.Store.CollectScan
import Hamster.Store.Amounts
import Hamster.Store.Outcomes
import Hamster.Store.Session
import Hamster.Store.Faults
import Hamster.Store.Alike
import Hamster.Asylum.Guest
import Hamster.Asylum.Machine
import Hamster.Asylum.Steps
import Hamster.Asylum.Refinement
import Hamster.Server.Wire
import Hamster.Server.Messages
import Hamster.Server.Handlers
import Hamster.Server.Protocol
import Hamster.Server.Loop
import Hamster.Server.Bounded
import Hamster.Server.Primitives
import Hamster.Client.Stubs
import Hamster.Client.Exchange
import Hamster.Client.Receiving
import Hamster.SunRpc.Service
import Hamster.SunRpc.Client
import Hamster.SunRpc.Network
import Hamster.Rest.Helpers
import Hamster.Rest.Split
import Hamster.Rest.Lookups
import Hamster.Classifier.Chi
import Hamster.Classifier.Train
import Hamster.Classifier.Vocabulary
import Hamster.Classifier.Apply
import Hamster.Iot.Wheel
import Hamster.Contract.Integrity
import Hamster.Contract.Identity
import Hamster.Contract.Ledger
import Hamster.Contract.Billing
import Hamster.Contract.Failure
import Hamster.Contract.Enumeration
import Hamster.Contract.Dispatch
import Hamster.Contract.Delivery
import Hamster.Contract.Replies
import Hamster.Contract.Descriptors
import Hamster.Contract.Secrecy
import Hamster.Contract.Bounds
import Hamster.Contract.Arguments
import Hamster.Contract.Results
import Hamster.Contract.Pairing
import Hamster.Contract.Exceptions
import Hamster.Contract.RoundTrip
import Hamster.Contract.RemoteDirectory
import Hamster.Contract.Transparency
import Hamster.Contract.Leftovers
import Hamster.Contract.Copies
import Hamster.Contract.Commuting
import Hamster.Contract.Collecting
import Hamster.Contract.Updates
import Hamster.Contract.NameScans
import Hamster.Contract.Bills
import Hamster.Contract.Corruption
import Hamster.Contract.Leaks
import Hamster.Contract.Backup
import Hamster.Contract.RestCollect
import Hamster.Contract.RestFailures
import Hamster.Contract.RestSplit
import Hamster.Contract.RestRecords
import Hamster.Contract.RestSearch
import Hamster.Contract.RestLists
import Hamster.Contract.RestUrls
import Hamster.Contract.ChiSquared
import Hamster.Contract.Training
import Hamster.Contract.TrainingReach
import Hamster.Contract.NaiveBayes
import Hamster.Contract.WheelRounds
import Hamster.Contract.WireCodec
import Hamster.Contract.Reassembly
import Hamster.Contract.Sites
import Hamster.Contract.JavaSessions
import Hamster.Lib.Stdin
import Hamster.Cli.Menu
import Hamster.Cli.Agreement
import Hamster.Contract.MenuRefinement
import Hamster.Contract.MenuListing
import Hamster.Contract.MenuEnds
import Hamster.Cli.Orders
import Hamster.Contract.MenuSessions
import Hamster.Contract.RemoteMenu
import Hamster.Lib.Xdr
import Hamster.SunRpc.Xdr
import Hamster.Contract.WireMessages
import Hamster.Lib.Utf8
import Hamster.Mqtt.Utf8
import Hamster.Contract.TopicNames
import Hamster.Lib.Handshake
import Hamster.Mqtt.Session
import Hamster.Mqtt.Connection
import Hamster.Mqtt.Exchange
import Hamster.Mqtt.Outgoing
import Hamster.Mqtt.Progress
import Hamster.Contract.ExactlyOnce
import Hamster.Lib.StopAndWait
import Hamster.Mqtt.Single
import Hamster.Mqtt.Steady
import Hamster.Iot.Device
import Hamster.Contract.DeviceDelivery
import Hamster.Contract.DeviceLost
import Hamster.Contract.DeviceReturns
