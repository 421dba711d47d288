import NetAlert.Lib.HashMap
import NetAlert.Lib.Inverted
import NetAlert.Lib.Method
import NetAlert.Lib.SlotRing
import NetAlert.Lib.Loop
import NetAlert.Lib.Best
import NetAlert.Lib.Tally
import NetAlert.Lib.Relate
import NetAlert.Net
import NetAlert.Config
import NetAlert.RingBuffer
import NetAlert.Processor
import NetAlert.Routing
import NetAlert.Dotted
import NetAlert.Rates
import NetAlert.Mitigation
import NetAlert.Alert
import NetAlert.Debounce
import NetAlert.Manager
import NetAlert.Reload
import NetAlert.Hysteresis
import NetAlert.LifeCycle
import NetAlert.Candidates
import NetAlert.FlowSpec
import NetAlert.Analysis
import NetAlert.RuleHits
import NetAlert.RuleScope
import NetAlert.Trigger
import NetAlert.Metering
import NetAlert.Daemon
import NetAlert.SteadyReload
import NetAlert.Lib.Backlog
import NetAlert.Lib.QueueLog
import NetAlert.Lib.Exposition
import NetAlert.Capture
import NetAlert.OwnRate
import NetAlert.LiveRules
import NetAlert.Loading
import NetAlert.Startup
import NetAlert.Restart
import NetAlert.Receiver
import NetAlert.Prometheus
import NetAlert.Pipeline
import NetAlert.Wrapping
import NetAlert.Scripts
import NetAlert.TickOrder
import NetAlert.Staleness
import NetAlert.StopTest
import NetAlert.Generations
import NetAlert.Ties
import NetAlert.Omission
import NetAlert.Trailing
import NetAlert.Starvation
import NetAlert.Search
import NetAlert.Narrowing
import NetAlert.Rounds
import NetAlert.RuleWidth
import NetAlert.Blanket
import NetAlert.Window
import NetAlert.Updates
import NetAlert.CaptureLog
import NetAlert.PrefixTable
import NetAlert.Monitor
import NetAlert.Interleaving
import NetAlert.Monotonicity
import NetAlert.Sampling
import NetAlert.Footprint
import NetAlert.Detection
import NetAlert.Validation
import NetAlert.Isolation
import NetAlert.Tasks
import NetAlert.Service
import NetAlert.Locking
import NetAlert.Evidence
import NetAlert.Payload
