import Qboot.Library.Loop
import Qboot.Library.Lockstep
import Qboot.Library.Run
import Qboot.Library.Flash
import Qboot.Library.Crc32
import Qboot.Library.InPlace
import Qboot.Model.Machine
import Qboot.Model.Stream
import Qboot.Model.Codecs
import Qboot.Model.Hpatch
import Qboot.Model.Boot
import Qboot.Model.Shell
import Qboot.Model.Device
import Qboot.Model.Update
import Qboot.Model.Threads
import Qboot.Proofs.ReadyFlag
import Qboot.Proofs.Sessions
import Qboot.Proofs.DownloadFlag
import Qboot.Proofs.Requests
import Qboot.Proofs.IdleTimeout
import Qboot.Proofs.Record
import Qboot.Proofs.Emitted
import Qboot.Proofs.CheckPass
import Qboot.Proofs.Validation
import Qboot.Proofs.BootPath
import Qboot.Proofs.StoredReason
import Qboot.Proofs.TwoBoots
import Qboot.Proofs.StreamSteps
import Qboot.Proofs.WritePass
import Qboot.Proofs.StreamRules
import Qboot.Proofs.DeviceSteps
import Qboot.Proofs.Commit
import Qboot.Proofs.InPlacePatch
import Qboot.Proofs.SameSteps
import Qboot.Proofs.Restart
import Qboot.Proofs.RegionCrc
import Qboot.Proofs.BlockHeader
import Qboot.Model.Packager
import Qboot.Proofs.PackageFormat
import Qboot.Proofs.Overrun
import Qboot.Proofs.BodyFeed
import Qboot.Proofs.PatchFrame
import Qboot.Proofs.BodyDecryption
import Qboot.Proofs.SourceKept
import Qboot.Proofs.Clone
import Qboot.Proofs.SameTarget
import Qboot.Proofs.ReleasedOnce
import Qboot.Library.Digits
import Qboot.Model.Reason
import Qboot.Proofs.ReasonNumber
import Qboot.Model.Registry
import Qboot.Proofs.CodecLookup
import Qboot.Proofs.CoherentFiles
import Qboot.Proofs.PatchStream
import Qboot.Proofs.WriteProgress
import Qboot.Proofs.StagePairing
import Qboot.Proofs.TimeoutUnits
import Qboot.Library.Posix
import Qboot.Model.Files
import Qboot.Proofs.Descriptors
import Qboot.Proofs.PlainBuilds
import Qboot.Proofs.Unpack
import Qboot.Proofs.FileVerify
import Qboot.Proofs.FileSteps
import Qboot.Proofs.FileUpdate
import Qboot.Proofs.FileInstall
import Qboot.Library.Simulation
import Qboot.Proofs.PassAgreement
import Qboot.Proofs.CheckedInstall
import Qboot.Library.Framing
import Qboot.Proofs.Decoding
import Qboot.Proofs.Encodings
import Qboot.Proofs.PackageCheck
import Qboot.Library.FreeFds
import Qboot.Proofs.Mirroring
import Qboot.Proofs.FreshStages
import Qboot.Proofs.FileView
import Qboot.Proofs.FileRelease
import Qboot.Library.FlashPart
import Qboot.Model.Store
import Qboot.Proofs.OneFlash
import Qboot.Proofs.Dispatch
import Qboot.Proofs.PackagedRelease
import Qboot.Proofs.JumpSafety
