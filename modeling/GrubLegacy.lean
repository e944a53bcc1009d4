import GrubLegacy.Base.Runs
import GrubLegacy.DiskIo.ReadAfterWrite
import GrubLegacy.DiskIo.ReadFailures
import GrubLegacy.DiskIo.PartitionBounds
import GrubLegacy.DiskIo.EzDrive
import GrubLegacy.DiskIo.DeviceNames
import GrubLegacy.Menu.ReadOnce
import GrubLegacy.Menu.ParseConfig
import GrubLegacy.Menu.Selection
import GrubLegacy.Menu.RunScript
import GrubLegacy.Menu.EditedLines
import GrubLegacy.Menu.FailedBoot
import GrubLegacy.Clanton.ConfigFile
import GrubLegacy.Clanton.ConfigFallback
import GrubLegacy.Clanton.Initrd
import GrubLegacy.Clanton.RecoveryShell
import GrubLegacy.Clanton.SpiAsset
import GrubLegacy.Efi.E820
import GrubLegacy.Efi.UtfConversion
import GrubLegacy.Fsys.Ext2Read
import GrubLegacy.Fsys.Ext4Extents
import GrubLegacy.Fsys.Ext2Ends
import GrubLegacy.Fsys.FatEnds
import GrubLegacy.Fsys.FfsRead
import GrubLegacy.Fsys.Ufs2Read
import GrubLegacy.Fsys.XfsRead
import GrubLegacy.Fsys.JfsRead
import GrubLegacy.Fsys.Iso9660Read
import GrubLegacy.Partition.Numbering
import GrubLegacy.Partition.GptEnumeration
import GrubLegacy.Partition.BufferBounds
import GrubLegacy.Partition.OpenPartition
import GrubLegacy.BlockFiles.OpenedLists
import GrubLegacy.Loader.MultibootBounds
import GrubLegacy.Loader.MultibootSegments
import GrubLegacy.Loader.MapBuffer
import GrubLegacy.Loader.ModuleList
import GrubLegacy.Loader.PageOwnership
import GrubLegacy.Loader.UnverifiedKernel
import GrubLegacy.Loader.VerifiedKernel
import GrubLegacy.Console.CallerBuffers
import GrubLegacy.Console.HistoryLines
import GrubLegacy.Console.EditorRuns
import GrubLegacy.Clanton.ImrSetup
import GrubLegacy.Clanton.MfhLookups
import GrubLegacy.Efi.FixPathName
import GrubLegacy.Stage2.FormatAscii
import GrubLegacy.Stage2.Vsprintf
import GrubLegacy.Stage2.FormatTexts
import GrubLegacy.Base.BlockFold
import GrubLegacy.Stage2.Md5
import GrubLegacy.Base.SineTable
import GrubLegacy.Stage2.Rfc1321
import GrubLegacy.Stage2.Md5Digest
import GrubLegacy.Stage2.Md5Crypt
import GrubLegacy.Stage2.Md5Password
import GrubLegacy.Stage2.Sha2Digest
import GrubLegacy.Stage2.ShaCryptDigest
import GrubLegacy.Stage2.ShaCryptText
import GrubLegacy.Stage2.ShaCryptCheck
import GrubLegacy.Stage2.Gunzip
import GrubLegacy.Stage2.GzipFiles
import GrubLegacy.Stage2.DecompressionMode
import GrubLegacy.Efi.DhcpClientId
import GrubLegacy.Base.QuotedStrings
import GrubLegacy.Efi.Xpm
import GrubLegacy.Efi.XpmStores
import GrubLegacy.Efi.XpmPictures
import GrubLegacy.Efi.XpmFaithful
import GrubLegacy.Base.HighestFit
import GrubLegacy.Efi.PathParts
import GrubLegacy.Loader.InitrdSearch
import GrubLegacy.Efi.ConfigFileNames
import GrubLegacy.Partition.NewPartition
import GrubLegacy.BlockFiles.BlocklistCommand
import GrubLegacy.BlockFiles.PrintedLists
import GrubLegacy.BlockFiles.BlocklistUses
import GrubLegacy.Base.Coverage
import GrubLegacy.Stage2.AvailableMemory
import GrubLegacy.Stage2.BoundedConcat
import GrubLegacy.Stage2.CaseFolding
import GrubLegacy.Stage2.ParsedNumbers
import GrubLegacy.Base.KeyedEntries
import GrubLegacy.Menu.KeyMaps
import GrubLegacy.Menu.KeyEntries
import GrubLegacy.Console.SerialBuffer
import GrubLegacy.Console.SerialKeys
import GrubLegacy.Console.EscapedStrings
import GrubLegacy.Stage2.GzipHeader
import GrubLegacy.Base.ThreeWay
import GrubLegacy.Efi.DevicePaths
import GrubLegacy.Efi.DiskNames
import GrubLegacy.Efi.NamedDisks
import GrubLegacy.Inflate.GzipContents
import GrubLegacy.Inflate.WindowBounds
