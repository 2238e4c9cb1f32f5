import QmkFirmware.Foundations.Memory
import QmkFirmware.Foundations.Runs
import QmkFirmware.Foundations.Traced
import QmkFirmware.Foundations.Replay
import QmkFirmware.Foundations.Sweep
import QmkFirmware.Foundations.Bits
import QmkFirmware.Foundations.Stutter
import QmkFirmware.Foundations.Ledger
import QmkFirmware.WearLeveling.LogEntry
import QmkFirmware.WearLeveling.Model
import QmkFirmware.WearLeveling.Playback
import QmkFirmware.WearLeveling.Log
import QmkFirmware.WearLeveling.Operations
import QmkFirmware.WearLeveling.Recovery
import QmkFirmware.WearLeveling.Refinement
import QmkFirmware.WearLeveling.FlashDiscipline
import QmkFirmware.WearLeveling.StoreBounds
import QmkFirmware.WearLeveling.PlaybackBounds
import QmkFirmware.WearLeveling.RangeChecks
import QmkFirmware.WearLeveling.LockDiscipline
import QmkFirmware.WearLeveling.Durability
import QmkFirmware.WearLeveling.PowerLoss
import QmkFirmware.Qmkata.Stream
import QmkFirmware.Qmkata.Framing
import QmkFirmware.Qmkata.SysexHandler
import QmkFirmware.Qmkata.PacketBounds
import QmkFirmware.Qmkata.FunctionUpload
import QmkFirmware.DynamicKeymap.Model
import QmkFirmware.DynamicKeymap.Store
import QmkFirmware.Via.Model
import QmkFirmware.Via.PacketBounds
import QmkFirmware.Tapping.Model
import QmkFirmware.Tapping.Effects
import QmkFirmware.Tapping.Calls
import QmkFirmware.Tapping.Conservation
import QmkFirmware.Tapping.Progress
import QmkFirmware.Tapping.Decision
import QmkFirmware.Tapping.Stamps
import QmkFirmware.Tapping.TapHold
import QmkFirmware.Debounce.Key
import QmkFirmware.Debounce.Model
import QmkFirmware.Debounce.Eager
import QmkFirmware.Debounce.Contract
import QmkFirmware.Debounce.AsymEagerDefer
import QmkFirmware.Debounce.Deferral
import QmkFirmware.Debounce.SymDefer
import QmkFirmware.ActionLayer.Model
import QmkFirmware.ActionLayer.SourceLayers
import QmkFirmware.DeferredExec.Model
import QmkFirmware.DeferredExec.Operations
import QmkFirmware.DeferredExec.Timing
import QmkFirmware.DeferredExec.Reentrancy
import QmkFirmware.Wireless.Events
import QmkFirmware.Wireless.Link
import QmkFirmware.Wireless.ReportBuffer
import QmkFirmware.Wireless.NkroDelivery
import QmkFirmware.Wireless.DeliveryOrder
import QmkFirmware.Wireless.Sessions
import QmkFirmware.Wireless.Receiver
import QmkFirmware.Wireless.ReceiverBounds
import QmkFirmware.Wireless.DfuBridge
import QmkFirmware.Wireless.Transport
import QmkFirmware.Secure.Unlock
import QmkFirmware.Combos.Conservation
import QmkFirmware.KeyOverrides.StuckKeys
import QmkFirmware.LegacyEeprom.PowerLoss
import QmkFirmware.Encoder.Detents
import QmkFirmware.Foundations.Strides
import QmkFirmware.DynamicMacro.Slots
import QmkFirmware.DynamicMacro.Playback
import QmkFirmware.TapDance.LifeCycle
import QmkFirmware.SplitSync.Delivery
import QmkFirmware.SplitSync.RgbLight
import QmkFirmware.Foundations.RunLength
import QmkFirmware.Painter.Stream
import QmkFirmware.Painter.Codec
import QmkFirmware.Painter.Truncation
import QmkFirmware.Painter.Qgf
import QmkFirmware.Painter.Validation
import QmkFirmware.Painter.QgfWriter
import QmkFirmware.Painter.QgfBlocks
import QmkFirmware.Painter.DrawImage
import QmkFirmware.Painter.DrawCore
import QmkFirmware.Foundations.LineWalk
import QmkFirmware.Painter.Rect
import QmkFirmware.Painter.Line
import QmkFirmware.Painter.QgfRoundTrip
import QmkFirmware.Painter.Agreement
import QmkFirmware.Foundations.Endian
import QmkFirmware.ExternalFlash.Chip
import QmkFirmware.ExternalFlash.Driver
import QmkFirmware.ExternalFlash.BackingStore
import QmkFirmware.Qmkata.Packets
import QmkFirmware.Qmkata.DynamicFunctions
import QmkFirmware.Qmkata.SetRequests
import QmkFirmware.SendString.Terminator
import QmkFirmware.DynamicKeymap.MacroSend
import QmkFirmware.DynamicKeymap.MacroPlayback
import QmkFirmware.Wireless.RetryBound
import QmkFirmware.Foundations.PolynomialDivision
import QmkFirmware.SplitSync.Crc8
import QmkFirmware.SplitSync.Rpc
import QmkFirmware.LegacyEeprom.Rejection
import QmkFirmware.KeyOverrides.Symmetry
import QmkFirmware.Foundations.Holding
import QmkFirmware.FactoryTest.Reset
import QmkFirmware.Foundations.ShiftRegister
import QmkFirmware.Matrix.Scan
import QmkFirmware.Foundations.Trie
import QmkFirmware.Autocorrect.Dictionary
import QmkFirmware.Autocorrect.Model
import QmkFirmware.Autocorrect.Layout
import QmkFirmware.Autocorrect.Firing
import QmkFirmware.Autocorrect.Buffers
import QmkFirmware.Autocorrect.Corrections
import QmkFirmware.Autocorrect.Agreement
import QmkFirmware.Autocorrect.Spelling
import QmkFirmware.Wireless.Pairing
import QmkFirmware.Report.RingBuffer
import QmkFirmware.Report.Window
import QmkFirmware.AutoShift.Model
import QmkFirmware.AutoShift.HeldShift
import QmkFirmware.RepeatKey.Model
import QmkFirmware.RepeatKey.Balance
import QmkFirmware.Unicode.Model
import QmkFirmware.Unicode.Typing
import QmkFirmware.Unicode.Decoder
import QmkFirmware.Unicode.RoundTrip
import QmkFirmware.Unicode.StringBounds
import QmkFirmware.Ucis.Model
import QmkFirmware.Ucis.Matching
import QmkFirmware.Ucis.Sessions
import QmkFirmware.Foundations.Ring
import QmkFirmware.Wireless.EventQueue
import QmkFirmware.RgbMatrix.Model
import QmkFirmware.RgbMatrix.IdleTimeout
import QmkFirmware.RgbMatrix.HitHistory
import QmkFirmware.Foundations.Occupancy
import QmkFirmware.Sequencer.Model
import QmkFirmware.Sequencer.Notes
import QmkFirmware.Wpm.Model
import QmkFirmware.Wpm.Smoothing
import QmkFirmware.Foundations.Switches
import QmkFirmware.Foundations.Conduction
import QmkFirmware.Keyboard.MatrixTask
import QmkFirmware.Keyboard.Ghosts
import QmkFirmware.Action.Keys
import QmkFirmware.Action.Model
import QmkFirmware.Action.Outputs
import QmkFirmware.Action.Backing
import QmkFirmware.Action.Contributions
import QmkFirmware.Action.Held
import QmkFirmware.Action.HandSwap
import QmkFirmware.Action.Typing
import QmkFirmware.Foundations.Mirror
import QmkFirmware.Painter.Surface
import QmkFirmware.Painter.Mirrored
import QmkFirmware.Foundations.Transducer
import QmkFirmware.Midi.Arrival
