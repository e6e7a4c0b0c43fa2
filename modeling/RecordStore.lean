import RecordStore.Config
import RecordStore.Lifecycle.Json
import RecordStore.Server
import RecordStore.Storage.Faulty
import RecordStore.Proofs.Base64
import RecordStore.Proofs.Id
import RecordStore.Proofs.Json.RoundTrip
import RecordStore.Proofs.Json.Control
import RecordStore.Proofs.Dict
import RecordStore.Proofs.Record.Json
import RecordStore.Proofs.Record.Presentation
import RecordStore.Proofs.Log.Entry
import RecordStore.Proofs.Log.Frame
import RecordStore.Proofs.Log.Replay
import RecordStore.Proofs.Log.Store
import RecordStore.Proofs.Log.Durability
import RecordStore.Proofs.Log.Crash
import RecordStore.Proofs.Log.Maintenance
import RecordStore.Proofs.Log.Rollback
import RecordStore.Proofs.Log.Crc32
import RecordStore.Proofs.Log.Damage
import RecordStore.Proofs.Log.Recovery
import RecordStore.Proofs.Storage.Atomic
import RecordStore.Proofs.Storage.Instances
import RecordStore.Proofs.Storage.Tables
import RecordStore.Proofs.Pass
import RecordStore.Proofs.Storage.Backing
import RecordStore.Proofs.Log.TornPass
import RecordStore.Proofs.Convergence
import RecordStore.Proofs.Log.Growth
import RecordStore.Proofs.Record.Basic
import RecordStore.Proofs.Container
import RecordStore.Proofs.Container.Views
import RecordStore.Proofs.Container.Loading
import RecordStore.Proofs.Text.Decimal
import RecordStore.Proofs.Record.Rebuilt
import RecordStore.Proofs.Metadata
import RecordStore.Proofs.Query
import RecordStore.Proofs.Container.Search
import RecordStore.Proofs.Request
import RecordStore.Proofs.Anonymous
import RecordStore.Proofs.Denied
import RecordStore.Proofs.Failures
import RecordStore.Proofs.Storage.Mirror
import RecordStore.Proofs.Storage.Foretold
import RecordStore.Proofs.Server.Run
import RecordStore.Proofs.Server.Lifecycle
import RecordStore.Proofs.Server.Restart
import RecordStore.Proofs.Server.Passes
import RecordStore.Proofs.Server.Versions
import RecordStore.Proofs.Server.Accounts
import RecordStore.Proofs.Server.Recovered
import RecordStore.Proofs.Server.Requests
import RecordStore.Proofs.Server.Clients
import RecordStore.Proofs.Storage.Agreement
import RecordStore.Proofs.Version
import RecordStore.Proofs.Log.Concatenation
import RecordStore.Proofs.Config
