import Wayfinder.Lib.Serial
import Wayfinder.Lib.Table
import Wayfinder.Frame
import Wayfinder.Seqno
import Wayfinder.SeqnoRun
import Wayfinder.SeqnoResync
import Wayfinder.Wire
import Wayfinder.Tvlv
import Wayfinder.Trickle
import Wayfinder.Engine
import Wayfinder.EngineRx
import Wayfinder.Lib.Grouping
import Wayfinder.McastSplit
import Wayfinder.EngineRun
import Wayfinder.BestRoute
import Wayfinder.ProofGate
import Wayfinder.Auth.Cert
import Wayfinder.Auth.Revoke
import Wayfinder.Lib.Keyed
import Wayfinder.Auth.State
import Wayfinder.Auth.Verify
import Wayfinder.Auth.Merge
import Wayfinder.Auth.Run
import Wayfinder.Auth.Cache
import Wayfinder.Relay
import Wayfinder.Broadcast
import Wayfinder.Auth.Pairwise
import Wayfinder.Auth.Renewal
import Wayfinder.Auth.Steps
import Wayfinder.Auth.Replay
import Wayfinder.Auth.Rows
import Wayfinder.Auth.Memo
import Wayfinder.Auth.Challenge
import Wayfinder.Auth.Control
import Wayfinder.Router
import Wayfinder.RouterRun
import Wayfinder.Auth.Latch
import Wayfinder.SelfRevocation
import Wayfinder.Install
import Wayfinder.Authority.Log
import Wayfinder.Authority.Issue
import Wayfinder.Authority.Run
import Wayfinder.Authority.Admission
import Wayfinder.Authority.Sessions
import Wayfinder.Authority.Persistence
import Wayfinder.Authority.Agreement
import Wayfinder.Forwarding
import Wayfinder.UnknownSubtype
import Wayfinder.Recode
import Wayfinder.RecodeRx
import Wayfinder.RecodeRun
import Wayfinder.Lib.NorFlash
import Wayfinder.Storage.Flash
import Wayfinder.Storage.Pages
import Wayfinder.Storage.PowerLoss
import Wayfinder.Storage.Register
import Wayfinder.Storage.Persisted
import Wayfinder.Lib.Pieces
import Wayfinder.Link.Fragment
import Wayfinder.Link.Reassembly
import Wayfinder.Link.Media
import Wayfinder.Link.Tracks
import Wayfinder.Link.Medium
import Wayfinder.Membership
import Wayfinder.Driver.Fanout
import Wayfinder.Auth.Credential
import Wayfinder.KeyMatch
import Wayfinder.Auth.Flood
import Wayfinder.Auth.Fetch
import Wayfinder.Auth.Envelope
import Wayfinder.Cadence
import Wayfinder.Management
import Wayfinder.Driver.Renewal
import Wayfinder.Lib.Ring
import Wayfinder.Ping
import Wayfinder.LinkTables
import Wayfinder.Node
import Wayfinder.Locked
import Wayfinder.Lib.Cursor
import Wayfinder.LogRing
import Wayfinder.Storage.NodeRecord
import Wayfinder.Storage.Settings
import Wayfinder.Storage.Superseded
import Wayfinder.Driver.Checkpoint
import Wayfinder.Authority.Policy
import Wayfinder.Authority.Accounts
import Wayfinder.Authority.Invites
import Wayfinder.Authority.Roster
import Wayfinder.Authority.Registration
import Wayfinder.Authority.Review
import Wayfinder.Authority.Readmission
import Wayfinder.TvlvCursor
import Wayfinder.PingAccount
import Wayfinder.Lib.Scratch
import Wayfinder.ChallengeSchedule
import Wayfinder.Lib.Limiter
import Wayfinder.Auth.RateLimit
import Wayfinder.Auth.RequestPacing
import Wayfinder.LocalSend
import Wayfinder.Authority.Vpn
import Wayfinder.ClockFloor
import Wayfinder.Storage.RecordExact
import Wayfinder.DueOrder
import Wayfinder.Lib.Least
import Wayfinder.AlarmBoard
import Wayfinder.LogFilter
import Wayfinder.LogGate
import Wayfinder.TrickleSchedule
import Wayfinder.Lib.Hoare
import Wayfinder.Storage.Addressing
import Wayfinder.Lib.Links
import Wayfinder.Lib.Recency
import Wayfinder.RoutingTable
import Wayfinder.AlarmDetail
import Wayfinder.Link.AdvertisingData
import Wayfinder.Lib.Numeral
import Wayfinder.Link.Base64
import Wayfinder.Link.RadioLine
import Wayfinder.Driver.Snoop
import Wayfinder.Driver.ProviderAddress
import Wayfinder.Authority.Rfc3339
import Wayfinder.Server.Framing
import Wayfinder.Server.Embedded
import Wayfinder.Eviction
import Wayfinder.Link.AtClient
import Wayfinder.Link.AtPairing
import Wayfinder.Authority.Task
import Wayfinder.Driver.HopProof
import Wayfinder.Driver.Dispatch
import Wayfinder.Driver.Agreement
import Wayfinder.Driver.Receive
import Wayfinder.Lib.Loop
import Wayfinder.Driver.Polling
import Wayfinder.Driver.Tick
import Wayfinder.Driver.TickRun
import Wayfinder.Server.Authz
import Wayfinder.Server.Transport
import Wayfinder.Server.Served
import Wayfinder.Server.Listener
