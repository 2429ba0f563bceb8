import PeerBeam.Lib.Bytes
import PeerBeam.Lib.Run
import PeerBeam.Session.Basic
import PeerBeam.Session.Crypto
import PeerBeam.Session.SealedPipe
import PeerBeam.Session.Frame
import PeerBeam.Session.Resume
import PeerBeam.Session.Control
import PeerBeam.Session.ChannelManager
import PeerBeam.Session.ManagerCalls
import PeerBeam.Session.ChannelKeys
import PeerBeam.Session.OpenPairing
import PeerBeam.Session.ChannelBounds
import PeerBeam.Session.Reattach
import PeerBeam.Session.Recovery
import PeerBeam.Session.ResumeReply
import PeerBeam.Session.EpochFreshness
import PeerBeam.Lib.KeyedFold
import PeerBeam.Sync.Version
import PeerBeam.Sync.Folder
import PeerBeam.Sync.Chunk
import PeerBeam.Sync.Index
import PeerBeam.Sync.Reconcile
import PeerBeam.Sync.Apply
import PeerBeam.Sync.Convergence
import PeerBeam.Sync.Mirror
import PeerBeam.Sync.Delta
import PeerBeam.Sync.Serving
import PeerBeam.Sync.ChunkReads
import PeerBeam.Transfer.Basic
import PeerBeam.Quic.Link
import PeerBeam.Transfer.Names
import PeerBeam.Transfer.Staging
import PeerBeam.Transfer.Publish
import PeerBeam.Transfer.FolderSafety
import PeerBeam.Transfer.FolderFidelity
import PeerBeam.Transfer.Stream
import PeerBeam.Transfer.Recover
import PeerBeam.Sync.LocalWork
import PeerBeam.Transfer.FolderReceive
import PeerBeam.Transfer.FolderSend
import PeerBeam.Devices.Store
import PeerBeam.Devices.Replica
import PeerBeam.Devices.ChangeStream
import PeerBeam.Trust.Record
import PeerBeam.Trust.Store
import PeerBeam.Trust.Revocation
import PeerBeam.Trust.Pinning
import PeerBeam.Sync.Handler
import PeerBeam.Lib.Selection
import PeerBeam.Notes.Store
import PeerBeam.Notes.Exchange
import PeerBeam.Notes.Sessions
import PeerBeam.Notes.Convergence
import PeerBeam.Notes.Edits
import PeerBeam.Groups.Record
import PeerBeam.Groups.Store
import PeerBeam.Groups.Rosters
import PeerBeam.Groups.Network
import PeerBeam.Groups.Membership
import PeerBeam.Groups.Agreement
import PeerBeam.Lib.SortedMap
import PeerBeam.Chat.Record
import PeerBeam.Chat.Store
import PeerBeam.Chat.Outbox
import PeerBeam.Chat.Readers
import PeerBeam.Chat.Window
import PeerBeam.Lib.Program
import PeerBeam.Lib.Pool
import PeerBeam.Chat.Calls
import PeerBeam.Chat.Message
import PeerBeam.Chat.Handler
import PeerBeam.Chat.Updates
import PeerBeam.Chat.UpdateRuns
import PeerBeam.Chat.Landings
import PeerBeam.Chat.Deletion
import PeerBeam.Chat.FileQueue
import PeerBeam.Chat.Restart
import PeerBeam.Lib.Metered
import PeerBeam.Transfer.RateLimit
import PeerBeam.Pairing.Attempts
import PeerBeam.Update.Verify
import PeerBeam.Update.Fetch
import PeerBeam.Update.FetchRuns
import PeerBeam.Transfer.Pipe
import PeerBeam.Chat.Gate
import PeerBeam.Session.ChannelIds
import PeerBeam.Devices.Discovery
import PeerBeam.Spaces.Store
import PeerBeam.Spaces.Edits
import PeerBeam.Spaces.EditRuns
import PeerBeam.Lib.FileTree
import PeerBeam.Browse.Shares
import PeerBeam.Browse.Secrecy
import PeerBeam.Transfer.Checkpoint
import PeerBeam.Transfer.Reclaim
import PeerBeam.Transfer.Resumable
import PeerBeam.Inbound.Manager
import PeerBeam.Inbound.Prompts
import PeerBeam.Inbound.Endings
import PeerBeam.Inbound.Decisions
import PeerBeam.Inbound.FirstContact
import PeerBeam.Inbound.Consent
import PeerBeam.Sync.VersionLattice
import PeerBeam.Sync.RescanWalks
import PeerBeam.Sync.ChunkLocality
import PeerBeam.Sync.DeltaPlan
import PeerBeam.Sync.DeltaFiles
import PeerBeam.Sync.RenameCollapse
import PeerBeam.Sync.CollapsedRuns
import PeerBeam.Sync.ConflictNames
import PeerBeam.Sync.ConflictCopies
import PeerBeam.Session.ResumeTokens
import PeerBeam.Session.SealedLink
import PeerBeam.Auth.Transcript
import PeerBeam.Auth.Handshake
import PeerBeam.Auth.Confirmation
import PeerBeam.Session.FrameCodec
import PeerBeam.Lib.SortedVec
import PeerBeam.Session.Capabilities
import PeerBeam.Sync.Settling
import PeerBeam.Sync.Listings
import PeerBeam.Trust.FailedWrites
import PeerBeam.Lib.JsonText
import PeerBeam.Notes.Frames
import PeerBeam.Transfer.SafeComponents
import PeerBeam.Config.SaveRules
import PeerBeam.Lib.FreshName
import PeerBeam.Browse.Naming
import PeerBeam.Lib.HexText
import PeerBeam.Sync.Namespaces
import PeerBeam.AppStore.Files
import PeerBeam.AppStore.Records
import PeerBeam.Chat.DeliveryRuns
import PeerBeam.Chat.Reads
import PeerBeam.Chat.Receipts
import PeerBeam.Lib.FirstSeen
import PeerBeam.Lib.Ranked
import PeerBeam.Chat.GroupHistory
import PeerBeam.Lib.CharOffsets
import PeerBeam.Chat.SearchText
import PeerBeam.Chat.SearchSpec
import PeerBeam.Lib.Numerals
import PeerBeam.Chat.MintId
import PeerBeam.Update.Versions
import PeerBeam.Update.Newer
import PeerBeam.Update.Assets
import PeerBeam.Update.Redirects
import PeerBeam.Clipboard.History
import PeerBeam.Transfer.ReceiveHook
import PeerBeam.Lib.Presence
import PeerBeam.Discovery.Trackers
import PeerBeam.Lib.FlaggedStart
import PeerBeam.Discovery.Starts
import PeerBeam.Lib.Neighbours
import PeerBeam.Routes.Manager
import PeerBeam.Lib.Checked
import PeerBeam.Wake.Mac
import PeerBeam.Lib.Wire
import PeerBeam.Session.Actor
import PeerBeam.Session.GracefulClose
import PeerBeam.Session.ClosingPair
import PeerBeam.Session.CloseDelivery
import PeerBeam.Session.CloseTermination
import PeerBeam.Wake.Packet
import PeerBeam.Wake.Device
import PeerBeam.Lib.Flips
import PeerBeam.Transfer.CoopPause
import PeerBeam.Transfer.PauseMirror
import PeerBeam.Transfer.PauseTraffic
import PeerBeam.Transfer.PauseBounce
import PeerBeam.Lib.Held
import PeerBeam.Session.Lanes
import PeerBeam.Session.LaneMoves
import PeerBeam.Session.LaneAccounts
import PeerBeam.Session.LaneDelivery
import PeerBeam.Session.Opening
import PeerBeam.Session.OpeningAgreement
