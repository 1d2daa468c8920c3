import Famicom.Cartridge.Board
import Famicom.Console.ConfigFile
import Famicom.Console.Frame
import Famicom.Decimal.Float
import Famicom.Proofs.Console.Acts
import Famicom.Proofs.Cpu.ExactTime
import Famicom.Proofs.Console.Calls
import Famicom.Proofs.Console.Drift
import Famicom.Proofs.Console.DotOrder
import Famicom.Proofs.Ppu.Sprites
import Famicom.Proofs.Ppu.Picture
import Famicom.Proofs.Ppu.Brush
import Famicom.Proofs.Console.Painting
import Famicom.Proofs.Console.LateReload
import Famicom.Proofs.Ppu.Settings
import Famicom.Proofs.Cpu.Passive
import Famicom.Proofs.Cpu.Program
import Famicom.Proofs.Console.Moments
import Famicom.Proofs.Console.Interrupts
import Famicom.Proofs.Console.Halted
import Famicom.Proofs.Console.RenderingGate
import Famicom.Proofs.Ppu.WellFormed
import Famicom.Proofs.Ppu.Checked
import Famicom.Proofs.Ppu.CheckedSprites
import Famicom.Proofs.Ppu.Calls
import Famicom.Proofs.Console.Pacing
import Famicom.Proofs.Console.Lockstep
import Famicom.Proofs.Console.Scheduling
import Famicom.Proofs.Console.Configured
import Famicom.Proofs.Console.PowerCycle
import Famicom.Proofs.Cpu.Phantoms
import Famicom.Proofs.Cpu.Pushes
import Famicom.Proofs.Console.Phantoms
import Famicom.Proofs.Bus.Mirrors
import Famicom.Proofs.Ppu.Pipeline
import Famicom.Proofs.Console.Repaint
import Famicom.Proofs.Console.SpriteLines
import Famicom.Proofs.Bus.Ledger
import Famicom.Proofs.Console.BoardMemory
import Famicom.Proofs.Ppu.Flags
import Famicom.Proofs.Console.Requests
import Famicom.Proofs.Console.StatusFlags
import Famicom.Proofs.Console.InForce
import Famicom.Proofs.Cpu.Metered
import Famicom.Proofs.Cpu.Timetable
import Famicom.Proofs.Cpu.Overshoot
import Famicom.Proofs.Cpu.Splitting
import Famicom.Proofs.Console.Splitting
import Famicom.Proofs.Cpu.Writes
import Famicom.Proofs.Cpu.Flags
import Famicom.Proofs.Console.Nesting
import Famicom.Proofs.Bus.Cells
import Famicom.Proofs.Cpu.Returns
import Famicom.Proofs.Cpu.StackRing
import Famicom.Proofs.Cpu.Resolution
import Famicom.Proofs.Cpu.Arithmetic
import Famicom.Proofs.Cpu.Combinations
import Famicom.Proofs.Ppu.NinthSprite
import Famicom.Proofs.Ppu.Layers
import Famicom.Proofs.Cpu.MaskedStores
import Famicom.Proofs.Cpu.Replay
import Famicom.Proofs.Bus.SpriteTransfer
import Famicom.Proofs.Console.Transfers
import Famicom.Proofs.Ppu.Counters
import Famicom.Proofs.Ppu.ScrollWrites
import Famicom.Proofs.Ppu.VramCells
import Famicom.Proofs.Ppu.VramAliases
import Famicom.Proofs.Ppu.Upload
import Famicom.Proofs.Console.PacingStep
import Famicom.Proofs.Bus.Controllers
import Famicom.Proofs.Video.Rgba
import Famicom.Proofs.Console.ConfigText
