import LaptopPaxos.Lib.StdMap
import LaptopPaxos.Lib.Machine
import LaptopPaxos.Lib.Quorum
import LaptopPaxos.Lib.Ballots
import LaptopPaxos.Lib.Bytes
import LaptopPaxos.Steps
import LaptopPaxos.Wires
import LaptopPaxos.Acceptors
import LaptopPaxos.PreparePhase
import LaptopPaxos.Decisions
import LaptopPaxos.Slots
import LaptopPaxos.Agreement
import LaptopPaxos.FreeSlots
import LaptopPaxos.Acknowledge
import LaptopPaxos.DurableLog
import LaptopPaxos.AtMostOnce
import LaptopPaxos.Records
import LaptopPaxos.Codec
import LaptopPaxos.Portability
import LaptopPaxos.Rounds
import LaptopPaxos.Quorums
import LaptopPaxos.Delivery
import LaptopPaxos.Engineer
import LaptopPaxos.Process
import LaptopPaxos.ClientThread
import LaptopPaxos.Bounds
import LaptopPaxos.Descriptors
import LaptopPaxos.Lib.Pipe
import LaptopPaxos.Network
import LaptopPaxos.Sessions
import LaptopPaxos.Framing
import LaptopPaxos.OneAcceptor
import LaptopPaxos.ProposalNumbers
import LaptopPaxos.CommandIds
import LaptopPaxos.Membership
import LaptopPaxos.Cursors
import LaptopPaxos.Lib.Arrivals
import LaptopPaxos.Receivers
import LaptopPaxos.PaxosStream
import LaptopPaxos.Turns
import LaptopPaxos.Failover
import LaptopPaxos.Calls
import LaptopPaxos.Phases
import LaptopPaxos.Uncontended
import LaptopPaxos.Lib.Formatted
import LaptopPaxos.Recovery
import LaptopPaxos.Lib.Iterators
import LaptopPaxos.Broadcast
import LaptopPaxos.SocketLoops
import LaptopPaxos.LogFiles
import LaptopPaxos.Lib.Simulation
import LaptopPaxos.Lib.Carriage
import LaptopPaxos.ClientRuns
import LaptopPaxos.Requests
import LaptopPaxos.Servers
import LaptopPaxos.Wiring
import LaptopPaxos.Handlers
import LaptopPaxos.Accepted
import LaptopPaxos.Desks
import LaptopPaxos.Answers
import LaptopPaxos.Sized
import LaptopPaxos.Queues
import LaptopPaxos.Returns
import LaptopPaxos.Refinement
import LaptopPaxos.Votes
import LaptopPaxos.Placed
import LaptopPaxos.Lib.ReplicatedLog
import LaptopPaxos.Replication
import LaptopPaxos.Logged
import LaptopPaxos.Waiting
import LaptopPaxos.CutOff
import LaptopPaxos.Recovered
import LaptopPaxos.StartUp
import LaptopPaxos.Converged
import LaptopPaxos.Lib.WaitGraph
import LaptopPaxos.Deadlock
import LaptopPaxos.Queries
import LaptopPaxos.Snapshots
