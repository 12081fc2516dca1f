import LeaderlessDatastore.Transition
import LeaderlessDatastore.Occupancy
import LeaderlessDatastore.Text
import LeaderlessDatastore.TokenStream
import LeaderlessDatastore.ServerConfig
import LeaderlessDatastore.TransactionId
import LeaderlessDatastore.Message
import LeaderlessDatastore.Coordinator
import LeaderlessDatastore.Replica
import LeaderlessDatastore.Cluster
import LeaderlessDatastore.DatastoreManager
import LeaderlessDatastore.Convergence
import LeaderlessDatastore.Steps
import LeaderlessDatastore.LockDiscipline
import LeaderlessDatastore.Quorum
import LeaderlessDatastore.Protocol
import LeaderlessDatastore.Phases
import LeaderlessDatastore.Invariant
import LeaderlessDatastore.MutualExclusion
import LeaderlessDatastore.FailedWrites
import LeaderlessDatastore.Atomicity
import LeaderlessDatastore.Freshness
import LeaderlessDatastore.Reads
import LeaderlessDatastore.Chunks
import LeaderlessDatastore.Framing
import LeaderlessDatastore.Receiving
import LeaderlessDatastore.Pattern
import LeaderlessDatastore.Regex
import LeaderlessDatastore.Codec
import LeaderlessDatastore.Encoding
import LeaderlessDatastore.EntryLists
import LeaderlessDatastore.Forgery
import LeaderlessDatastore.Synchronisation
import LeaderlessDatastore.Serving
import LeaderlessDatastore.Dump
import LeaderlessDatastore.DatastoreFile
import LeaderlessDatastore.Configuration
import LeaderlessDatastore.Exceptions
import LeaderlessDatastore.Decision
import LeaderlessDatastore.Attempt
import LeaderlessDatastore.Answering
import LeaderlessDatastore.Connections
import LeaderlessDatastore.VersionWidths
import LeaderlessDatastore.Growth
import LeaderlessDatastore.ClientOperation
import LeaderlessDatastore.ClientMessages
import LeaderlessDatastore.Reading
import LeaderlessDatastore.Entries
import LeaderlessDatastore.Sections
import LeaderlessDatastore.ClientConfig
import LeaderlessDatastore.Termination
import LeaderlessDatastore.Selection
import LeaderlessDatastore.Linearizability
import LeaderlessDatastore.Linearization
import LeaderlessDatastore.Draining
import LeaderlessDatastore.Quiescence
import LeaderlessDatastore.Numbering
import LeaderlessDatastore.Contents
import LeaderlessDatastore.Wire
import LeaderlessDatastore.Wired
import LeaderlessDatastore.Histories
import LeaderlessDatastore.Rejoining
import LeaderlessDatastore.Restarts
import LeaderlessDatastore.Session
import LeaderlessDatastore.Client
import LeaderlessDatastore.Requests
import LeaderlessDatastore.Shell
import LeaderlessDatastore.Repairs
import LeaderlessDatastore.Emplace
import LeaderlessDatastore.Arguments
import LeaderlessDatastore.Descriptors
