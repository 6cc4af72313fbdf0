import Sharerr.Process.Program
import Sharerr.Process.Pool
import Sharerr.Process.Safety
import Sharerr.Process.History
import Sharerr.Process.Places
import Sharerr.Process.Solo
import Sharerr.Table.Keyed
import Sharerr.Rust.Basic
import Sharerr.Rust.Path
import Sharerr.Items.Model
import Sharerr.Items.Table
import Sharerr.Feed.Magnet
import Sharerr.Peers.Table
import Sharerr.Peers.Endpoints
import Sharerr.Vault.File
import Sharerr.Vault.Format
import Sharerr.Vault.Handles
import Sharerr.Vault.Updates
import Sharerr.Vault.Alike
import Sharerr.Vault.Traces
import Sharerr.Torrent.Metainfo
import Sharerr.Client.Torrents
import Sharerr.Tracker.Admission
import Sharerr.Tracker.Download
import Sharerr.Vault.Seeds
import Sharerr.Gossip.Calls
import Sharerr.Gossip.Handlers
import Sharerr.Gossip.Rules
import Sharerr.Gossip.Identity
import Sharerr.Gossip.Freshness
import Sharerr.Gossip.Pairing
import Sharerr.Gossip.Alone
import Sharerr.Gossip.FirstUse
import Sharerr.Gossip.ActiveSubjects
import Sharerr.Gossip.Return
import Sharerr.Serve.Rebuild
import Sharerr.Sync.Seed
import Sharerr.Sync.Calls
import Sharerr.Sync.Pass
import Sharerr.Sync.Rules
import Sharerr.Sync.Runs
import Sharerr.Sync.Sources
import Sharerr.Sync.Alone
import Sharerr.Sync.DryRun
import Sharerr.Sync.Ownership
import Sharerr.Sync.Told
import Sharerr.Sync.Passes
import Sharerr.Sync.Filed
import Sharerr.Sync.Handed
import Sharerr.Sync.Remembered
import Sharerr.Sync.Reports
import Sharerr.Sync.Described
import Sharerr.Sync.Genuine
import Sharerr.Sync.Built
import Sharerr.Sync.Magnets
import Sharerr.Sync.Parts
import Sharerr.Sync.Identities
import Sharerr.Sync.Withdrawals
import Sharerr.Settings.Calls
import Sharerr.Settings.Importer
import Sharerr.Settings.Handlers
import Sharerr.Settings.Slots
import Sharerr.Settings.Rotation
import Sharerr.Settings.Rejected
import Sharerr.Serve.Caches
import Sharerr.Serve.Coherence
import Sharerr.Accounts.Totp
import Sharerr.Accounts.Model
import Sharerr.Accounts.Handlers
import Sharerr.Accounts.Rules
import Sharerr.Accounts.Named
import Sharerr.Accounts.Owner
import Sharerr.Accounts.Spent
import Sharerr.Accounts.Guesses
import Sharerr.Accounts.CutOff
import Sharerr.Rust.IpAddr
import Sharerr.Friends.Restored
import Sharerr.Friends.Refused
import Sharerr.Friends.Orphans
import Sharerr.Process.Endings
import Sharerr.Web.Forwarded
import Sharerr.Settings.Drift
import Sharerr.Sqlite.Number
import Sharerr.Rust.Text
import Sharerr.Tracker.Swarms
import Sharerr.Tracker.Introductions
import Sharerr.Friends.Store
import Sharerr.Tracker.Transfers
import Sharerr.Sqlite.Condition
import Sharerr.Items.Scope
import Sharerr.Friends.Limits
import Sharerr.Feed.Search
import Sharerr.Feed.Visible
import Sharerr.Arr.Tags
import Sharerr.Friends.Tagged
import Sharerr.Sync.Catalog
import Sharerr.Sync.Evidence
import Sharerr.Rust.Traverse
import Sharerr.Arr.Model
import Sharerr.Arr.Walks
import Sharerr.Arr.Audience
import Sharerr.Arr.Tracks
import Sharerr.Scan.Titles
import Sharerr.Scan.Walk
import Sharerr.Scan.Complete
import Sharerr.Gluetun.Endpoint
import Sharerr.Gluetun.Polls
import Sharerr.Gluetun.Forgotten
import Sharerr.Gluetun.History
import Sharerr.Rust.IndexMap
import Sharerr.Config.Edits
import Sharerr.Config.Frame
import Sharerr.Config.Touches
import Sharerr.Config.File
import Sharerr.Config.Kept
import Sharerr.Settings.Saves
import Sharerr.Settings.Agreement
import Sharerr.Settings.Matching
import Sharerr.Rust.HashMap
import Sharerr.Lighthouse.State
import Sharerr.Lighthouse.Table
import Sharerr.Lighthouse.Freshness
import Sharerr.Lighthouse.Decoys
import Sharerr.Tracker.SwarmMap
import Sharerr.Tracker.Accounting
import Sharerr.Tracker.Views
import Sharerr.Friends.Sightings
import Sharerr.Rust.BTreeMap
import Sharerr.Rust.Decimal
import Sharerr.Torrent.Bencode
import Sharerr.Torrent.Written
import Sharerr.Torrent.Decoding
import Sharerr.Torrent.InfoHash
import Sharerr.Friends.Export
import Sharerr.Friends.RoundTrip
import Sharerr.Figment.Value
import Sharerr.Startup.Layers
import Sharerr.Startup.Recovered
import Sharerr.Startup.Locks
import Sharerr.Sync.Audiences
import Sharerr.Rust.Chunks
import Sharerr.Rust.IpText
import Sharerr.Torrent.Reading
import Sharerr.Torrent.Spellings
import Sharerr.Torrent.Info
import Sharerr.Torrent.Announce
import Sharerr.Tracker.Response
import Sharerr.Merkle.Tree
import Sharerr.Torrent.Pieces
import Sharerr.Torrent.Hybrid
import Sharerr.Torrent.Factory
import Sharerr.Rust.PathBuf
import Sharerr.Rust.MaxByKey
import Sharerr.Paths.Resolver
import Sharerr.Sync.Refreshed
import Sharerr.Whatwg.Url
import Sharerr.Torrent.AnnounceUrl
import Sharerr.Rust.Words
import Sharerr.Scan.Reading
import Sharerr.Torrent.Title
import Sharerr.Torrent.ReadBack
import Sharerr.Table.Limited
import Sharerr.Peers.History
import Sharerr.Peers.Newest
import Sharerr.Peers.Fabricated
import Sharerr.Vault.Layout
import Sharerr.Items.History
import Sharerr.Tracker.Query
import Sharerr.Lighthouse.Verify
import Sharerr.Gossip.HexCase
import Sharerr.Torrent.Buffers
import Sharerr.Torrent.Moving
import Sharerr.Torrent.Files
import Sharerr.Paths.Suggest
import Sharerr.Feed.Folding
import Sharerr.Seeding.QuietHours
import Sharerr.Web.Ranges
import Sharerr.Web.Private
import Sharerr.Accounts.OneTime
import Sharerr.Friends.Invites
import Sharerr.Web.Throttle
import Sharerr.Client.Replies
