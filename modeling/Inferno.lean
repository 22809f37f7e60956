import Inferno.DeviceTree.Size
import Inferno.DeviceTree.RoundTrip
import Inferno.Dart.Irq
import Inferno.Aic.Distribution
import Inferno.Aic.Delivery
import Inferno.A7iop.Irq
import Inferno.Rtkit.Rollcall
import Inferno.Rtkit.Pump
import Inferno.Smc.Laws
import Inferno.SepSim.Safety
import Inferno.Aop.Transmit
import Inferno.Aes.Status
import Inferno.Aes.Level
import Inferno.Sio.Stream
import Inferno.Sio.Addressing
import Inferno.Sio.Mappings
import Inferno.Aes.Migration
import Inferno.Sio.Migration
import Inferno.MtSpi.Safety
import Inferno.MtSpi.Lockstep
import Inferno.Spmi.Safety
import Inferno.Spmi.Core
import Inferno.Pmu.Rtc
import Inferno.Gpio.Safety
import Inferno.I2c.Safety
import Inferno.Spi.Safety
import Inferno.Nvram.History
import Inferno.Ssc.Sessions
import Inferno.Aess.KeyDisable
import Inferno.Carveout.Laws
import Inferno.Sart.Access
import Inferno.Patcher.InRange
import Inferno.FallbackEmu
import Inferno.Payload
import Inferno.Scaler
import Inferno.Roswell
import Inferno.Mca
import Inferno.MachO.Bounds
import Inferno.Gxf.Consistency
import Inferno.Gxf.Privilege
import Inferno.Gxf.RoundTrip
import Inferno.Ptw.SprrWrite
import Inferno.UsbTcp.Framing
import Inferno.UsbTcp.Safety
import Inferno.Cs42l77
import Inferno.Dwc3.Events
