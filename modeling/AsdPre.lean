import AsdPre.AudioGain
import AsdPre.AudioPath
import AsdPre.ByteMemory
import AsdPre.ConfigCrash
import AsdPre.ConfigMap
import AsdPre.ConfigStore
import AsdPre.Firmware
import AsdPre.FpgaLink
import AsdPre.ShiftRegister
import AsdPre.SpiSlave
import AsdPre.Traces
import AsdPre.MainLoop
import AsdPre.MainLoopMute
import AsdPre.MainLoopSave
import AsdPre.GpioInterrupts
import AsdPre.FpgaAgreement
import AsdPre.CommandServer
import AsdPre.CommandStream
import AsdPre.CommandFaults
import AsdPre.DacVolume
import AsdPre.Encoder
import AsdPre.Serialiser
import AsdPre.MainLoopRestore
import AsdPre.CommandNumbers
import AsdPre.AndroidApp
import AsdPre.VolumeCommand
import AsdPre.AppRefresh
import AsdPre.Delays
import AsdPre.FpgaTop
import AsdPre.SourceRouting
import AsdPre.AppSession
import AsdPre.CommandConnection
import AsdPre.EthBus
import AsdPre.EthController
import AsdPre.EthDriver
import AsdPre.MainLoopLeds
import AsdPre.DeltaQueue
import AsdPre.SdCard
import AsdPre.Timeouts
import AsdPre.InetChksum
