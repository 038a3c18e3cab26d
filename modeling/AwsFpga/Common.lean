import Mathlib.Data.BitVec

/-!
# Return codes

An `int` of the source is an `Int`, and 0 means success. Fixed-width registers
and counters are `BitVec`.
-/

namespace AwsFpga

/-! ## errno values -/

def ENOENT : Int := 2
def EAGAIN : Int := 11
def ENOMEM : Int := 12
def EINVAL : Int := 22
def ETIMEDOUT : Int := 110

/-! ## FPGA errors (`hal/fpga_common.h`) -/

def FPGA_ERR_AFI_CMD_API_VERSION_INVALID : Int := 11
def FPGA_ERR_FAIL : Int := 14
def FPGA_ERR_HARDWARE_BUSY : Int := 19
def FPGA_ERR_PCI_MISSING : Int := 20
def FPGA_ERR_AFI_CMD_MALFORMED : Int := 21
def FPGA_ERR_SOFTWARE_PROBLEM : Int := 24
def FPGA_ERR_UNRESPONSIVE : Int := 25
def FPGA_ERR_INVALID_CLKGEN_INPUTS : Int := 28
def FPGA_ERR_CLKGEN_NOT_FOUND : Int := 29

end AwsFpga
