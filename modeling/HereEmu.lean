import HereEmu.Proofs.AdFrame
import HereEmu.Proofs.Satp
import HereEmu.Proofs.TrapSafety
import HereEmu.Proofs.WalkSafety
import HereEmu.Proofs.TrapReturn
import HereEmu.Proofs.InterruptBits
import HereEmu.Proofs.BareAccess
import HereEmu.Proofs.PcAlign
import HereEmu.Proofs.RetireStep
import HereEmu.Proofs.BlockReservation
import HereEmu.Proofs.VirtioRegisters
import HereEmu.Proofs.PlicArbitration
import HereEmu.Proofs.ClintTimer
import HereEmu.Proofs.ContextStatus
import HereEmu.Proofs.FloatConvert
import HereEmu.Proofs.NanBoxing
import HereEmu.Proofs.Expansion
import HereEmu.Proofs.DecoderTable
import HereEmu.Proofs.ImageLoad
import HereEmu.Proofs.BoardWiring
import HereEmu.Proofs.VectorWidths
import HereEmu.Proofs.VectorMasks
import HereEmu.Proofs.BlockRead
import HereEmu.Proofs.VectorPermute
import HereEmu.Proofs.TimerQueue
import HereEmu.Proofs.BoardCycles
import HereEmu.HostFilter
import HereEmu.SymTab
import HereEmu.Proofs.CachePolicies
import HereEmu.IsaBuilder
