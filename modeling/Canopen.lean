import Canopen.Lib.FixedBuffer
import Canopen.Lib.Deque
import Canopen.Lib.LittleEndian
import Canopen.Transport
import Canopen.Sdo.Protocol
import Canopen.Nmt
import Canopen.Od
import Canopen.Sync
import Canopen.Pdo.Bits
import Canopen.Pdo.Engine
import Canopen.Derive.GeneratedOd
import Canopen.Sdo.Validation
import Canopen.Sdo.Server
import Canopen.Sdo.Commit
import Canopen.Sdo.Transfers
import Canopen.Sdo.Activity
import Canopen.Sdo.DownloadIntegrity
import Canopen.Sdo.BlockUpload
import Canopen.Sdo.Client
import Canopen.Sdo.Exchange
import Canopen.Emcy
import Canopen.Heartbeat
import Canopen.Lss
import Canopen.Node.Config
import Canopen.Node.Process
import Canopen.Node.Steps
import Canopen.Node.Trace
import Canopen.Node.NmtGating
import Canopen.Node.PdoLock
import Canopen.Lib.History
import Canopen.Node.PdoWork
import Canopen.Lib.Mailbox
import Canopen.Node.SdoDiscards
import Canopen.Node.SdoMailbox
import Canopen.Derive.Writes
import Canopen.Node.Running
import Canopen.Node.Mirror
import Canopen.Node.Construction
import Canopen.Node.CobPlan
import Canopen.Derive.Store
import Canopen.Node.Collisions
import Canopen.Derive.Mappings
import Canopen.Lib.ByteBits
import Canopen.Pdo.Codec
import Canopen.Derive.PdoClient
import Canopen.Derive.Codecs
import Canopen.Derive.Usability
import Canopen.Node.Resync
import Canopen.Lib.Checked
import Canopen.Sdo.Checked
import Canopen.Slcan
import Canopen.Sdo.Safety
import Canopen.Node.Accounting
import Canopen.Lib.Runs
import Canopen.Node.Actions
import Canopen.Node.Coherence
import Canopen.Node.SyncCycle
import Canopen.Bus
import Canopen.Sdo.BlockLength
import Canopen.Eds.Values
import Canopen.Eds.Agreement
import Canopen.Eds.CobIds
import Canopen.Eds.Definition
import Canopen.Eds.Import
import Canopen.Eds.Regrouping
import Canopen.Eds.Initial
import Canopen.Eds.Preservation
import Canopen.Eds.Layout
import Canopen.Eds.Names
import Canopen.Eds.Export
import Canopen.Eds.Written
import Canopen.Eds.Sections
import Canopen.Lib.Sequence
import Canopen.Emcy.Announcements
import Canopen.Heartbeat.Trace
import Canopen.Lss.Selection
import Canopen.Node.ErrorRegister
import Canopen.Node.Consumers
import Canopen.Sdo.ClientProgress
import Canopen.Sdo.ClientSafety
import Canopen.Node.PdoRuntime
import Canopen.Lib.Retry
import Canopen.Node.SyncRetry
import Canopen.Lib.Divisor
import Canopen.Node.TpdoSlots
import Canopen.Node.SyncSchedule
import Canopen.Lib.Trigger
import Canopen.Node.EventTpdos
import Canopen.Lib.Watchdog
import Canopen.Node.Deadlines
import Canopen.Lib.LossReport
import Canopen.Canwsd.DropBuffer
import Canopen.Slcan.Codec
import Canopen.Slcan.Replies
import Canopen.Eds.Numerals
import Canopen.Eds.Headers
import Canopen.Eds.Spelling
import Canopen.Derive.Dispatch
import Canopen.Lib.StringLiteral
import Canopen.Eds.Strings
import Canopen.Lib.FixedWidth
import Canopen.Eds.Defaults
import Canopen.Sdo.Driver
import Canopen.Sdo.Conversation
import Canopen.Router
import Canopen.Sdo.Port
import Canopen.Sdo.Overflow
