import Hypersh.Transduction
import Hypersh.Blocks
import Hypersh.CacheOnly
import Hypersh.Detailed
import Hypersh.Timeline
import Hypersh.FlowControl
import Hypersh.Branches
import Hypersh.FastForward
import Hypersh.Translations
import Hypersh.Control
import Hypersh.Writers
import Hypersh.Requests
import Hypersh.Commands
import Hypersh.Interpretation
import Hypersh.System
import Hypersh.Dispatch
import Hypersh.Messages
import Hypersh.Mcount
import Hypersh.Windows
import Hypersh.AccessReports
import Hypersh.Records
import Hypersh.Idling
import Hypersh.Brackets
import Hypersh.Lifetimes
import Hypersh.Relocation
import Hypersh.Independence
import Hypersh.Segments
import Hypersh.Components
import Hypersh.Interleavings
import Hypersh.Pmem
import Hypersh.Sampling
import Hypersh.Divisors
import Hypersh.Outputs
import Hypersh.Conservation
import Hypersh.Captures
import Hypersh.Printing
import Hypersh.Client
import Hypersh.Statistics
import Hypersh.Congruential
import Hypersh.Projection
import Hypersh.BbvCount
import Hypersh.Arguments
import Hypersh.Slomo
import Hypersh.Tags
import Hypersh.Ranking
import Hypersh.HotBlocks
import Hypersh.Precedence
import Hypersh.Announcements
import Hypersh.Balance
import Hypersh.ReportFile
import Hypersh.Linearization
import Hypersh.Emulation
import Hypersh.Handles
import Hypersh.Rates
import Hypersh.Shutdown
import Hypersh.Formats
import Hypersh.Sessions
import Hypersh.Texts
import Hypersh.Accounts
import Hypersh.CodeCache
import Hypersh.Coverage
import Hypersh.Resolution
