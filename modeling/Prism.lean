import Prism.Lib.Interpolation
import Prism.Lib.Hiding
import Prism.Lib.BigEndian
import Prism.Lib.Cbor
import Prism.Lib.Base64
import Prism.Lib.Json
import Prism.Lib.Rsa
import Prism.Lib.Resumption
import Prism.Lib.Hex
import Prism.Lib.Machine
import Prism.Lib.Handler
import Prism.Lib.Distance
import Prism.Lib.Flooding
import Prism.Lib.LiveList
import Prism.Lib.Calendar
import Prism.Lib.Retry
import Prism.Python
import Prism.Message.Enums
import Prism.Message.Schema
import Prism.Message.Codec
import Prism.Message.RoundTrip
import Prism.Message.Cbor
import Prism.Message.PrismMessage
import Prism.Message.Sizes
import Prism.Message.Clone
import Prism.Message.Tracing
import Prism.Transport.Hooks
import Prism.Transport.HookInvariant
import Prism.Transport.HookSteps
import Prism.Transport.HookRuns
import Prism.Transport.EpochLinks
import Prism.Crypto.ModMath
import Prism.Crypto.Shamir
import Prism.Crypto.RootPolynomial
import Prism.Crypto.Feldman
import Prism.Crypto.ShamirHiding
import Prism.Crypto.SecretSharing
import Prism.Crypto.ServerMessage
import Prism.Lockfree.Sharing
import Prism.Lockfree.Evaluation
import Prism.Lockfree.Hook
import Prism.Lockfree.Gather
import Prism.Lockfree.Mpc
import Prism.Lockfree.Find
import Prism.Lockfree.Preproduct
import Prism.Lockfree.PreproductStore
import Prism.Lockfree.PreproductRuns
import Prism.Lockfree.Committee
import Prism.Lockfree.Saved
import Prism.Lockfree.Peer
import Prism.Lockfree.PeerMessages
import Prism.Lockfree.Dropbox
import Prism.Lockfree.DropboxRuns
import Prism.Lib.Sorting
import Prism.Lib.Rotation
import Prism.Routing.EarkStore
import Prism.Client.Dropbox
import Prism.Client.Matching
import Prism.Vrf.Vrf
import Prism.Vrf.Uniqueness
import Prism.Vrf.Completeness
import Prism.Vrf.Sortition
import Prism.Vrf.Committees
import Prism.Lockfree.EpochCommittee
import Prism.Itertools
import Prism.Lockfree.PreproductGroups
import Prism.Lockfree.FragmentChoice
import Prism.Lockfree.PollTask
import Prism.Lockfree.FindAnswers
import Prism.Config.Servers
import Prism.Config.AssignRoles
import Prism.Config.Constraints
import Prism.Config.Sortition
import Prism.Lib.Bfs
import Prism.Config.Topology
import Prism.Crypto.Malleable
import Prism.Lib.Pairing
import Prism.Bfibe.Hash
import Prism.Bfibe.Scheme
import Prism.Bfibe.Stream
import Prism.Bfibe.Export
import Prism.Bfibe.Shards
import Prism.Bfibe.MessageFormat
import Prism.Bfibe.Failures
import Prism.Crypto.Verify
import Prism.Crypto.ArkTransport
import Prism.Routing.Network
import Prism.Routing.Forwarding
import Prism.Routing.CurrentTable
import Prism.Routing.PathCost
import Prism.Routing.FloodTask
import Prism.Routing.Flood
import Prism.Routing.Clocks
import Prism.Routing.FloodRuns
import Prism.Routing.FloodReach
import Prism.Config.HopLimit
import Prism.Routing.ArkStore
import Prism.Lockfree.Poll
import Prism.Lockfree.Retrieve
import Prism.Client.Requests
import Prism.Client.StoredMessage
import Prism.Routing.Announcing
import Prism.Routing.Convergence
import Prism.Roles.Emix
import Prism.Client.Onion
import Prism.Client.SendLog
import Prism.Client.SendLimit
import Prism.Client.FindRoute
import Prism.Lib.Double
import Prism.Datetime
import Prism.Client.ServerStatus
import Prism.Client.SavedServers
import Prism.Client.Pseudonym
import Prism.Message.Floats
import Prism.Roles.Dropbox
import Prism.Client.Expiration
import Prism.Server.Epochs
import Prism.Server.EpochRuns
import Prism.Server.SavedEpochs
import Prism.Server.Restarts
import Prism.Server.CommandText
import Prism.Routing.SavedRouter
import Prism.Routing.ReloadedRouter
import Prism.Routing.RouterRuns
import Prism.Transport.CommsLink
import Prism.Transport.Receive
import Prism.Transport.Sends
import Prism.Transport.Connections
import Prism.Roles.DropboxRuns
import Prism.Lib.Undirected
import Prism.Config.Clustered
import Prism.Lib.Rounding
import Prism.Lib.Decimal
import Prism.Lib.FiniteGraph
import Prism.Vrf.Distribution
import Prism.Vrf.RoleDistribution
import Prism.Config.VrfTopology
import Prism.Lib.Comes
import Prism.Config.VrfConnected
import Prism.Transport.ChannelSelect
import Prism.Client.Deduplicate
import Prism.Transport.LinkWrapping
import Prism.Client.EpochCommands
import Prism.Config.GeneratedIbe
import Prism.Lib.JsonText
import Prism.Server.StateStore
import Prism.Config.Salt
import Prism.Routing.ArkBroadcast
import Prism.Routing.ArkFairness
import Prism.Crypto.Primality
import Prism.Lib.RowReduction
import Prism.Lib.CoefficientList
import Prism.Lib.KeyEquation
import Prism.Crypto.FiniteField
import Prism.Crypto.Polynomials
import Prism.Crypto.LinearSolver
import Prism.Crypto.WelchBerlekamp
import Prism.Crypto.FeldmanReconstruct
import Prism.Lockfree.Handshake
import Prism.Lockfree.HandshakeSeats
import Prism.Lockfree.HandshakeRuns
import Prism.Lockfree.HandshakeProgress
import Prism.Client.UserMessages
import Prism.Client.Bootstrap
import Prism.Client.BootstrapSteps
import Prism.Client.BootstrapRuns
