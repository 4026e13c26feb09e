import Chip8.Machine.Frames
import Chip8.Main
import Chip8.Picture.Sheet
import Chip8.Supervisor.Request
import Chip8.Proofs.Supervised
import Chip8.Proofs.SupervisedRun
import Chip8.Proofs.Reachable
import Chip8.Proofs.Invariant
import Chip8.Proofs.Events
import Chip8.Proofs.Loading
import Chip8.Proofs.Calls
import Chip8.Machine.Input
import Chip8.Proofs.KeyWait
import Chip8.Instruction.Pattern
import Chip8.Proofs.Recognition
import Chip8.Proofs.Alike
import Chip8.Host.Window
import Chip8.Proofs.Window
import Chip8.Machine.Part
import Chip8.Proofs.Patterns
import Chip8.Machine.Flow
import Chip8.Proofs.Footprint
import Chip8.Proofs.FrameLaw
import Chip8.Proofs.StraightLine
import Chip8.Proofs.ExactLoad
import Chip8.Proofs.Pause
import Chip8.Proofs.Commuting
import Chip8.Supervisor.History
import Chip8.Proofs.History
import Chip8.Proofs.RandomStream
import Chip8.Proofs.Notices
import Chip8.Proofs.Records
import Chip8.Proofs.Strictness
import Chip8.Log.Use
import Chip8.Proofs.Raster
import Chip8.Supervisor.Clock
import Chip8.Host.Course
import Chip8.Proofs.Levels
import Chip8.Proofs.Course
import Chip8.Proofs.Safety
import Chip8.Proofs.Latch
import Chip8.Proofs.Arithmetic
import Chip8.Proofs.Transfer
import Chip8.Proofs.Jam
import Chip8.Host.Account
import Chip8.Proofs.Account
import Chip8.Proofs.Involution
import Chip8.Progress.Trace
import Chip8.Proofs.Bar
import Chip8.Proofs.Grid
import Chip8.Proofs.Tiling
import Chip8.Proofs.Nesting
import Chip8.Proofs.ProgramImage
import Chip8.CallStack.Use
import Chip8.Proofs.StackList
import Chip8.Supervisor.Visit
import Chip8.Proofs.MemoryRead
import Chip8.Proofs.Decoding
