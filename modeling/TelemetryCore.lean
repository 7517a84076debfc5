import TelemetryCore.Collections
import TelemetryCore.Types
import TelemetryCore.Ordinary
import TelemetryCore.Batched
import TelemetryCore.Run
import TelemetryCore.Steps
import TelemetryCore.Replay
import TelemetryCore.Invariants
import TelemetryCore.Removal
import TelemetryCore.Simulation
import TelemetryCore.Drain
import TelemetryCore.Transient
import TelemetryCore.Roster
import TelemetryCore.Feed
import TelemetryCore.Joining
import TelemetryCore.Records
import TelemetryCore.Announcements
import TelemetryCore.ChainList
import TelemetryCore.Aggregator
