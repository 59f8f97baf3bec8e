import Ch583Kbd.Lib.RingQueue
import Ch583Kbd.Tmk.ActionUtil
import Ch583Kbd.Tmk.Action
import Ch583Kbd.Tmk.ActionTapping
import Ch583Kbd.Tmk.Calls
import Ch583Kbd.Tmk.Accounting
import Ch583Kbd.Tmk.Drain
import Ch583Kbd.Tmk.DeliveryOrder
import Ch583Kbd.Tmk.PressOrder
import Ch583Kbd.Tmk.KeyOrder
import Ch583Kbd.Lib.CircularArray
import Ch583Kbd.Tmk.KeyReportTheorems
import Ch583Kbd.Tmk.SixKeys
import Ch583Kbd.Tmk.ActionTheorems
import Ch583Kbd.Tmk.OverflowRecovery
import Ch583Kbd.Lib.Mailbox
import Ch583Kbd.Usb.Endpoint
import Ch583Kbd.Eeprom.Storage
import Ch583Kbd.Eeprom.Clamp
import Ch583Kbd.Eeprom.Keymap
import Ch583Kbd.Eeprom.Persistence
import Ch583Kbd.Usb.HidConfiguration
import Ch583Kbd.Usb.StorageCommands
import Ch583Kbd.Usb.SingleKey
import Ch583Kbd.Usb.FailedCommands
import Ch583Kbd.Usb.ChunkedTransfer
import Ch583Kbd.Usb.HidOutcome
import Ch583Kbd.Usb.PacketBytes
import Ch583Kbd.Firmware.System
import Ch583Kbd.Firmware.FactoryKeymap
import Ch583Kbd.Firmware.Remap
import Ch583Kbd.Tmk.TapDecision
import Ch583Kbd.Tmk.TapCounts
import Ch583Kbd.Tmk.Pairing
import Ch583Kbd.Tmk.HeldKeys
import Ch583Kbd.Tmk.LayerPressed
import Ch583Kbd.Tmk.NoStuck
import Ch583Kbd.Tmk.FirstInFirstOut
import Ch583Kbd.Usb.OutPackets
import Ch583Kbd.Lib.ChunkReader
import Ch583Kbd.Usb.Descriptors
import Ch583Kbd.Usb.ControlTransfer
import Ch583Kbd.Usb.ControlTokens
import Ch583Kbd.Usb.ControlReplies
import Ch583Kbd.Usb.ControlClassRequests
import Ch583Kbd.Usb.ControlDescriptorRequests
import Ch583Kbd.Usb.ControlRuns
import Ch583Kbd.Tmk.LayerCodes
import Ch583Kbd.Tmk.SentReports
import Ch583Kbd.Firmware.KeymapBounds
import Ch583Kbd.Tmk.TapToggle
import Ch583Kbd.Tmk.NkroKeys
import Ch583Kbd.Lib.Trace
import Ch583Kbd.Tmk.ActionSteps
import Ch583Kbd.Tmk.AnyRing
import Ch583Kbd.Tmk.ReportMarks
import Ch583Kbd.Tmk.ClearKeyboard
import Ch583Kbd.Tmk.OneshotMods
import Ch583Kbd.Tmk.Contributors
import Ch583Kbd.Usb.CommandEndpoint
import Ch583Kbd.Usb.CommandResponses
import Ch583Kbd.Usb.DeviceSteps
import Ch583Kbd.Usb.EndpointHalt
import Ch583Kbd.Drivers.KeyboardTimer
import Ch583Kbd.Lib.Debounce
import Ch583Kbd.Drivers.KeyboardMatrix
import Ch583Kbd.Tmk.KeyboardTask
import Ch583Kbd.Tmk.MouseKeySafety
import Ch583Kbd.Tmk.MouseKeyProgress
import Ch583Kbd.Tmk.ActionMacro
import Ch583Kbd.Tmk.TapMacro
import Ch583Kbd.Rgb.ConfigStorage
import Ch583Kbd.Lib.AgeWindow
import Ch583Kbd.Rgb.LastHits
import Ch583Kbd.Rgb.MatrixModes
import Ch583Kbd.Rgb.Underglow
import Ch583Kbd.Drivers.I2cMaster
import Ch583Kbd.Rgb.Is31fl3733
import Ch583Kbd.Rgb.Snake
import Ch583Kbd.Drivers.Encoder
import Ch583Kbd.Tmk.FirstKey
import Ch583Kbd.Firmware.Typing
import Ch583Kbd.Firmware.TypingReports
import Ch583Kbd.Lib.ByteMemory
import Ch583Kbd.Lib.BlockList
import Ch583Kbd.Rtt.Kservice
import Ch583Kbd.Rtt.Mem
import Ch583Kbd.Rtt.MemBlocks
import Ch583Kbd.Rtt.MemAlloc
import Ch583Kbd.Rtt.MemObjects
import Ch583Kbd.Rtt.MemRequests
import Ch583Kbd.Rtt.MemTheorems
import Ch583Kbd.Lib.StableInsert
import Ch583Kbd.Rtt.Kernel
import Ch583Kbd.Rtt.KernelQueues
import Ch583Kbd.Rtt.Tasks
import Ch583Kbd.Rtt.KernelTimers
import Ch583Kbd.Rtt.KernelWaits
import Ch583Kbd.Rtt.KernelTick
import Ch583Kbd.Rtt.KernelInvariant
import Ch583Kbd.Rtt.KernelTheorems
import Ch583Kbd.Rtt.SemaphoreUnits
