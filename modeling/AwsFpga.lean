import AwsFpga.Clkgen.Avail
import AwsFpga.Lib.Exec
import AwsFpga.Mgmt.Describe
import AwsFpga.Mgmt.SyncResult
import AwsFpga.Pci.Bars
import AwsFpga.Pci.Attach
import AwsFpga.Lib.Effect
import AwsFpga.Lib.Owned
import AwsFpga.Mgmt.Lifecycle
import AwsFpga.Sde.HwCtrl
import AwsFpga.System.Table
import AwsFpga.System.Owners
import AwsFpga.System.Runs
import AwsFpga.Xvc.Server
import AwsFpga.Xvc.Pass
import AwsFpga.Xvc.Stream
import AwsFpga.Utils.Io
import AwsFpga.Utils.Numbers
import AwsFpga.Tools.ParseSound
import AwsFpga.Xvc.Session
import AwsFpga.Sde.Mem
import AwsFpga.Sde.DmaBuffer
import AwsFpga.Sde.Mgmt
import AwsFpga.Lib.Env
import AwsFpga.Sde.Engine
import AwsFpga.Lib.Axi
import AwsFpga.Rtl.Blocks
import AwsFpga.Rtl.SdePmWrite
import AwsFpga.Rtl.SdePmResp
import AwsFpga.Rtl.SdeDesc
import AwsFpga.Rtl.SdeDescFormats
import AwsFpga.Rtl.SdeH2cBuf
import AwsFpga.Rtl.HbmMux
import AwsFpga.Rtl.OclRegs
import AwsFpga.Lib.LeadsTo
import AwsFpga.Rtl.SdePsAcc
import AwsFpga.Rtl.SdePsAccFull
import AwsFpga.Rtl.SdePs
import AwsFpga.Rtl.SdePsSafe
import AwsFpga.Rtl.SdeWb
import AwsFpga.Rtl.SdeWbResp
import AwsFpga.Rtl.SdeWbBeats
import AwsFpga.Rtl.SdeWbCoalesce
import AwsFpga.Rtl.SdeWbRing
import AwsFpga.Rtl.SdePsRuns
import AwsFpga.Lib.Meets
import AwsFpga.Sde.Calls
import AwsFpga.Sde.Faults
import AwsFpga.Sde.Regions
import AwsFpga.Lib.Credit
import AwsFpga.Sde.Credits
import AwsFpga.Sde.CreditRuns
import AwsFpga.Mgmt.Reload
import AwsFpga.Rtl.HostUart
import AwsFpga.Rtl.ClTst
import AwsFpga.Lib.Bypass
import AwsFpga.Rtl.ClTstRd
import AwsFpga.Rtl.ClTstRdReq
import AwsFpga.Rtl.ClTstRdTrk
import AwsFpga.Rtl.ClTstRdTags
import AwsFpga.Rtl.ClTstWdata
import AwsFpga.Rtl.ClAxiCtl
import AwsFpga.Rtl.ClAxiWindow
import AwsFpga.Lib.Lossy
import AwsFpga.Rtl.ClKernelReq
import AwsFpga.Rtl.ClKernelChannel
import AwsFpga.Rtl.ClKernelRegs
import AwsFpga.Rtl.ClKernel
import AwsFpga.Rtl.ClPktTst
import AwsFpga.Rtl.ClPktTx
import AwsFpga.Rtl.ClPktRx
import AwsFpga.Rtl.ClPktLoop
import AwsFpga.Rtl.ClAxilRegAccess
import AwsFpga.Rtl.AwsClkRegs
import AwsFpga.Rtl.AwsClkRegsRuns
import AwsFpga.Sde.Wire
import AwsFpga.Sde.HostMemory
import AwsFpga.Sde.Posting
import AwsFpga.Sde.C2hHost
import AwsFpga.Sde.Reading
import AwsFpga.Sde.ReadRuns
import AwsFpga.Sde.ReadBytes
import AwsFpga.Lib.Chunks
import AwsFpga.Sde.H2cHost
import AwsFpga.Sde.Writing
import AwsFpga.Sde.WriteRuns
import AwsFpga.Rtl.SdeC2hBuf
import AwsFpga.Rtl.SdeC2hBeats
import AwsFpga.Rtl.SdeC2hFlow
import AwsFpga.Rtl.SdeC2h
import AwsFpga.Rtl.SdeC2hRuns
import AwsFpga.Rtl.SdeC2hBursts
import AwsFpga.Rtl.SdeC2hWrites
import AwsFpga.Rtl.SdeC2hRecs
import AwsFpga.Rtl.SdeC2hMd
import AwsFpga.Rtl.SdeC2hPackets
import AwsFpga.Rtl.SdeC2hLive
import AwsFpga.Rtl.SdeC2hServed
import AwsFpga.Rtl.SdeC2hData
import AwsFpga.Lib.Lanes
import AwsFpga.Lib.Writes
import AwsFpga.Lib.Packed
import AwsFpga.Lib.Spans
import AwsFpga.Rtl.RamFifoFt
import AwsFpga.Lib.RoundRobin
import AwsFpga.Rtl.RrArb
import AwsFpga.Lib.Queue
import AwsFpga.Rtl.FlopFifo
import AwsFpga.Rtl.AxisFlopFifo
import AwsFpga.Lib.FlowThrough
import AwsFpga.Rtl.FtFifos
import AwsFpga.Rtl.RamFifoReset
import AwsFpga.Rtl.SrlFifo
import AwsFpga.Rtl.SdeH2cReq
import AwsFpga.Rtl.SdeH2cData
import AwsFpga.Rtl.SdeH2cDataRuns
import AwsFpga.Rtl.SdeH2cReads
import AwsFpga.Rtl.SdeH2c
import AwsFpga.Clkgen.Utils
import AwsFpga.Mbox.Read
import AwsFpga.Clkgen.Layout
import AwsFpga.Clkgen.Reset
import AwsFpga.Clkgen.Reject
import AwsFpga.Clkgen.Freq
import AwsFpga.Pci.Access
import AwsFpga.Dma.Burst
import AwsFpga.Xvc.Shift
import AwsFpga.Pci.Sysfs
import AwsFpga.Pci.Slots
import AwsFpga.Tools.Getopt
import AwsFpga.Tools.Parse
import AwsFpga.Rtl.MemScrb
