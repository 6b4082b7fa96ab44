import AndromedaBoot.Lib.Slice
import AndromedaBoot.Lib.Lines
import AndromedaBoot.Lib.Fill
import AndromedaBoot.Lib.GapFill
import AndromedaBoot.Lib.Tracked
import AndromedaBoot.Lib.ByteMemory
import AndromedaBoot.Lib.InPlace
import AndromedaBoot.Lib.Arm64
import AndromedaBoot.Efi
import AndromedaBoot.BootConfig.Text
import AndromedaBoot.BootConfig.Reader
import AndromedaBoot.BootConfig.Grammar
import AndromedaBoot.BootConfig.Scan
import AndromedaBoot.BootConfig.Records
import AndromedaBoot.BootConfig.Agree
import AndromedaBoot.BootConfig.Sizing
import AndromedaBoot.BootConfig.Hob
import AndromedaBoot.MemoryMap.Descriptor
import AndromedaBoot.MemoryMap.Record
import AndromedaBoot.MemoryMap.Section
import AndromedaBoot.MemoryMap.Comment
import AndromedaBoot.MemoryMap.Merge
import AndromedaBoot.MemoryMap.Tiling
import AndromedaBoot.MemoryMap.PStore
import AndromedaBoot.MemoryMap.Platform
import AndromedaBoot.MemoryMap.Exclusive
import AndromedaBoot.MemoryMap.Unordered
import AndromedaBoot.MemoryMap.Tables
import AndromedaBoot.MemoryMap.Lazy
import AndromedaBoot.MemoryMap.Locate
import AndromedaBoot.Smmu.Registers
import AndromedaBoot.Smmu.Detach
import AndromedaBoot.Smmu.Keep
import AndromedaBoot.Errata.Reference
import AndromedaBoot.Lib.Arm64Run
import AndromedaBoot.Errata.ShellCode
import AndromedaBoot.Errata.Run
import AndromedaBoot.Errata.Branch
import AndromedaBoot.Errata.Trampoline
import AndromedaBoot.Errata.Template
import AndromedaBoot.Errata.Redirect
import AndromedaBoot.Errata.Overlap
import AndromedaBoot.Lib.OnePass
import AndromedaBoot.Errata.FindPattern
import AndromedaBoot.Errata.OsLoader
import AndromedaBoot.Errata.Winload
import AndromedaBoot.Errata.Frame
import AndromedaBoot.MemoryMap.Numeral
import AndromedaBoot.MemoryMap.Number
import AndromedaBoot.MemoryMap.Csv
import AndromedaBoot.MemoryMap.Overlay
import AndromedaBoot.Serial.InMemory
import AndromedaBoot.Lib.RingBuffer
import AndromedaBoot.Lib.BlockCopy
import AndromedaBoot.Loader.BootShim
import AndromedaBoot.Serial.Ring
import AndromedaBoot.Whea.EarlyStorage
import AndromedaBoot.Display.DsiCtrl
import AndromedaBoot.Display.RightFrameBuffer
import AndromedaBoot.Lib.Pen
import AndromedaBoot.Display.Console
import AndromedaBoot.Display.Terminal
import AndromedaBoot.Serial.Screen
import AndromedaBoot.Lib.PackedFields
import AndromedaBoot.Whea.Records
import AndromedaBoot.Lib.Arm64Assemble
import AndromedaBoot.Loader.Payload
import AndromedaBoot.Loader.Handoff
import AndromedaBoot.MemoryMap.Accepts
import AndromedaBoot.MemoryMap.Peim
import AndromedaBoot.SecureBoot.Provisioning
import AndromedaBoot.Errata.Hook
import AndromedaBoot.Lib.BoundedLog
import AndromedaBoot.Whea.Log
import AndromedaBoot.SecureBoot.CertDb
import AndromedaBoot.SecureBoot.CertOwners
import AndromedaBoot.SecureBoot.SignatureLists
import AndromedaBoot.SecureBoot.AuthService
import AndromedaBoot.SecureBoot.Frame
import AndromedaBoot.SecureBoot.Keys
import AndromedaBoot.SecureBoot.Modes
import AndromedaBoot.SecureBoot.SignatureDatabase
