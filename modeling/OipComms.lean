import OipComms.Lib.Run
import OipComms.Lib.BigEndian
import OipComms.Lib.FirstMatch
import OipComms.S7.Tag
import OipComms.S7.Plc
import OipComms.S7.Interface
import OipComms.S7.Handles
import OipComms.Lib.Hull
import OipComms.S7.Coverage
import OipComms.Rtde.Client
import OipComms.Rtde.Group
import OipComms.Rtde.Incoming
import OipComms.Rtde.Session
import OipComms.Rtde.Outgoing
import OipComms.Rtde.Layout
import OipComms.Rtde.Placement
import OipComms.Rtde.Input
import OipComms.Rtde.Output
import OipComms.Rtde.Freshness
import OipComms.Lib.BitMemory
import OipComms.S7.Request
import OipComms.S7.Controller
import OipComms.S7.RoundTrip
import OipComms.Lib.Deferral
import OipComms.S7.Deferred
import OipComms.Comms.Registry
import OipComms.Comms.Worker
import OipComms.Comms.Stop
import OipComms.Comms.Drain
import OipComms.Comms.RtdeGroup
import OipComms.Comms.Callers
import OipComms.Comms.Pipeline
import OipComms.Comms.Roll
import OipComms.Comms.Grace
import OipComms.Comms.Cadence
import OipComms.Backend.Group
import OipComms.Backend.Plc
import OipComms.Backend.Ads
import OipComms.Backend.OpcUa
import OipComms.Backend.Dispatch
import OipComms.Rtde.Count
import OipComms.Backend.Counting
import OipComms.Backend.Sessions
import OipComms.Backend.Housed
import OipComms.Backend.Ready
import OipComms.Backend.CleanPoll
import OipComms.Backend.Programs
import OipComms.Backend.SimulationTime
import OipComms.Backend.AdsDevices
import OipComms.Backend.TagOwnership
import OipComms.Backend.Resources
import OipComms.Backend.Conserved
import OipComms.Backend.Known
import OipComms.Backend.Polled
import OipComms.Backend.Refinement
import OipComms.S7.Exchange
import OipComms.S7.Stream
import OipComms.S7.Pairing
import OipComms.S7.Chunks
import OipComms.S7.Image
import OipComms.S7.Latest
import OipComms.Lib.Separator
import OipComms.S7.Grammar
import OipComms.S7.Registry
import OipComms.Rtde.Index
import OipComms.Rtde.Setup
import OipComms.Backend.MqttSession
import OipComms.Lib.Scratch
import OipComms.S7.Pollers
import OipComms.Backend.Shutdown
import OipComms.Backend.S7Delivery
import OipComms.Backend.S7Refines
import OipComms.Backend.Browse
import OipComms.SoftPlc.Engine
