import OpenMigrate.Apply.Ambiguity
import OpenMigrate.Apply.AutoApply
import OpenMigrate.Apply.Deletion
import OpenMigrate.Apply.Evaluate
import OpenMigrate.Apply.Recorded
import OpenMigrate.Apply.Tombstone
import OpenMigrate.Async.Completed
import OpenMigrate.Async.Emits
import OpenMigrate.Async.Episodes
import OpenMigrate.Async.Machine
import OpenMigrate.Async.Monitor
import OpenMigrate.Async.Prog
import OpenMigrate.Async.RelyGuarantee
import OpenMigrate.Async.Sessions
import OpenMigrate.Async.Solo
import OpenMigrate.Async.Stretch
import OpenMigrate.Async.System
import OpenMigrate.Async.Turns
import OpenMigrate.Async.Watch
import OpenMigrate.Billing.Amounts
import OpenMigrate.Billing.Calendar
import OpenMigrate.Billing.Final
import OpenMigrate.Billing.Metering
import OpenMigrate.Billing.Months
import OpenMigrate.Billing.Received
import OpenMigrate.Billing.Routes
import OpenMigrate.Concurrency.DomainLanes
import OpenMigrate.Concurrency.InProcessScheduler
import OpenMigrate.Concurrency.Lanes
import OpenMigrate.Concurrency.Log
import OpenMigrate.Concurrency.Runners
import OpenMigrate.Concurrency.SingleFlight
import OpenMigrate.Concurrency.Throttled
import OpenMigrate.Cron.Schedule
import OpenMigrate.Cutover.Linear
import OpenMigrate.Cutover.Prepare
import OpenMigrate.Cutover.Propagation
import OpenMigrate.Cutover.Rollback
import OpenMigrate.Cutover.RoundTrip
import OpenMigrate.Cutover.State
import OpenMigrate.Cutover.Store
import OpenMigrate.Dav.Api
import OpenMigrate.Dav.Canonical
import OpenMigrate.Dav.ContentLine
import OpenMigrate.Dav.DavApply
import OpenMigrate.Dav.DavSync
import OpenMigrate.Dav.Existence
import OpenMigrate.Dav.FileWriter
import OpenMigrate.Dav.Fingerprint
import OpenMigrate.Dav.FolderRequest
import OpenMigrate.Dav.Href
import OpenMigrate.Dav.HrefSpelling
import OpenMigrate.Dav.MultiStatus
import OpenMigrate.Dav.NaturalKeys
import OpenMigrate.Dav.ObjectWriter
import OpenMigrate.Dav.OwnerEdits
import OpenMigrate.Dav.Relisting
import OpenMigrate.Dav.Removals
import OpenMigrate.Dav.Requests
import OpenMigrate.Dav.Server
import OpenMigrate.Dav.SpelledPaths
import OpenMigrate.Dav.Uid
import OpenMigrate.Dav.UidAgree
import OpenMigrate.Dav.Unfold
import OpenMigrate.Dav.Version
import OpenMigrate.Dav.WebdavPolls
import OpenMigrate.Dav.WebdavSource
import OpenMigrate.Dav.WebdavTree
import OpenMigrate.Dav.XmlEntities
import OpenMigrate.Decisions.Detection
import OpenMigrate.Decisions.Once
import OpenMigrate.Decisions.SharedAddresses
import OpenMigrate.Decisions.Store
import OpenMigrate.Digest.Calm
import OpenMigrate.Digest.Runs
import OpenMigrate.Escape.Backslash
import OpenMigrate.Escape.Joined
import OpenMigrate.Escape.Replace
import OpenMigrate.Files.Fetch
import OpenMigrate.Files.Prefix
import OpenMigrate.Graph.ContactCard
import OpenMigrate.Graph.ContactSource
import OpenMigrate.Graph.Delta
import OpenMigrate.Graph.DriveMoves
import OpenMigrate.Graph.DriveSource
import OpenMigrate.Graph.DriveTree
import OpenMigrate.Graph.MailFolders
import OpenMigrate.Graph.MailSource
import OpenMigrate.Graph.VCardText
import OpenMigrate.Imap.Listing
import OpenMigrate.Imap.Polls
import OpenMigrate.Jmap.ContactVersion
import OpenMigrate.Jmap.Emails
import OpenMigrate.Jmap.FilePath
import OpenMigrate.Jmap.FileTarget
import OpenMigrate.Jmap.FileTree
import OpenMigrate.Jmap.Files
import OpenMigrate.Jmap.Mailboxes
import OpenMigrate.Jmap.PathExact
import OpenMigrate.Jmap.Places
import OpenMigrate.Json.Stringify
import OpenMigrate.Json.Value
import OpenMigrate.Ledger.Effect
import OpenMigrate.Ledger.PgLedger
import OpenMigrate.Ledger.Record
import OpenMigrate.Matching.Greedy
import OpenMigrate.Offboarding.Closing
import OpenMigrate.Offboarding.Erasure
import OpenMigrate.Offboarding.Passes
import OpenMigrate.Offboarding.Purge
import OpenMigrate.Offboarding.Quiesced
import OpenMigrate.Offboarding.Records
import OpenMigrate.Rate.Bucket
import OpenMigrate.Pglite.Gates
import OpenMigrate.Schema.Ending
import OpenMigrate.Secrets.Base64
import OpenMigrate.Secrets.Envelope
import OpenMigrate.Sync.Accounting
import OpenMigrate.Sync.Aftermath
import OpenMigrate.Sync.Alive
import OpenMigrate.Sync.Bins
import OpenMigrate.Sync.Claims
import OpenMigrate.Sync.Classify
import OpenMigrate.Sync.Cursor
import OpenMigrate.Sync.DomainSync
import OpenMigrate.Sync.Effect
import OpenMigrate.Sync.Footprint
import OpenMigrate.Sync.Handles
import OpenMigrate.Sync.HeaderEnd
import OpenMigrate.Sync.IdReaders
import OpenMigrate.Sync.Item
import OpenMigrate.Sync.MailMessage
import OpenMigrate.Sync.MoveMatching
import OpenMigrate.Sync.Observed
import OpenMigrate.Sync.OwnCopies
import OpenMigrate.Sync.PassAccounts
import OpenMigrate.Sync.PassFootprint
import OpenMigrate.Sync.Passes
import OpenMigrate.Sync.Polls
import OpenMigrate.Sync.Reconcile
import OpenMigrate.Sync.Removal
import OpenMigrate.Sync.Rules
import OpenMigrate.Sync.Signals
import OpenMigrate.Sync.Stamped
import OpenMigrate.Sync.Steady
import OpenMigrate.Sync.Tagged
import OpenMigrate.Sync.World
import OpenMigrate.Tenants.Members
import OpenMigrate.Tenants.Owners
import OpenMigrate.Text
import OpenMigrate.Throttle.Limiter
import OpenMigrate.Throttle.PgRateBudget
import OpenMigrate.Throttle.RateBudget
import OpenMigrate.Throttle.RateLimitRetry
import OpenMigrate.Throttle.Slots
import OpenMigrate.Tree.Chain
import OpenMigrate.Tree.Covered
import OpenMigrate.Tree.Forest
import OpenMigrate.Tree.NameSource
import OpenMigrate.Url.Decoding
import OpenMigrate.Url.Lossy
import OpenMigrate.Url.Path
import OpenMigrate.Url.Percent
import OpenMigrate.Url.Written
import OpenMigrate.Verify.Acknowledged
import OpenMigrate.Verify.Decisions
import OpenMigrate.Verify.History
import OpenMigrate.Verify.Keeps
import OpenMigrate.Verify.Moves
import OpenMigrate.Verify.Names
import OpenMigrate.Verify.Parked
import OpenMigrate.Verify.Queries
import OpenMigrate.Verify.Reindex
import OpenMigrate.Verify.Samples
import OpenMigrate.Verify.Sound
import OpenMigrate.Verify.Unclaimed
import OpenMigrate.Verify.Verification
import OpenMigrate.Verify.WentAway
import OpenMigrate.Sharing.Settling
import OpenMigrate.Jmap.Imports
import OpenMigrate.Tokens.Provider
import OpenMigrate.Rate.KnockLimit
import OpenMigrate.Tenants.Seats
import OpenMigrate.Tenants.AccessRequests
