import LtrData.Library.Cells
import LtrData.Library.LittleEndian
import LtrData.Library.Traced
import LtrData.Library.XorAll
import LtrData.StrArc.Format
import LtrData.StrArc.Session
import LtrData.StrArc.Archived
import LtrData.StrArc.Restore
import LtrData.StrArc.Actions
import LtrData.StrArc.StreamActions
import LtrData.StrArc.ObjectActions
import LtrData.StrArc.TreeActions
import LtrData.StrArc.Delivery
import LtrData.StrArc.Framing
import LtrData.StrArc.StreamFraming
import LtrData.StrArc.TreeFraming
import LtrData.StrArc.Backup
import LtrData.StrArc.BackupRuns
import LtrData.StrArc.Links
import LtrData.StrArc.FileSystem
import LtrData.StrArc.Untouched
import LtrData.StrArc.Volume
import LtrData.StrArc.Bounds
import LtrData.StrArc.Failures
import LtrData.StrArc.Resync
import LtrData.StrArc.RoundTrip
import LtrData.StrArc.ReadErrors
import LtrData.StrArc.BufferSizes
import LtrData.StrArc.Traversal
import LtrData.StrArc.PathNames
import LtrData.StrArc.Incremental
import LtrData.StrArc.Filter
import LtrData.StrArc.CopyPipe
import LtrData.Fdf.FileSystem
import LtrData.Fdf.FileCompare
import LtrData.Fdf.FileRecordTable
import LtrData.Fdf.ExactEquality
import LtrData.Fdf.Search
import LtrData.Fdf.Deletion
import LtrData.Fdf.Replacement
import LtrData.Cxr.Parity
import LtrData.Cxr.Restoring
import LtrData.FileSplit.DoSplitFile
import LtrData.Rawcopy.CopyLoop
import LtrData.Rawcopy.Blocks
import LtrData.Rawcopy.Optimisations
import LtrData.Rawcopy.IgnoredErrors
import LtrData.Library.TransitionSystem
import LtrData.Library.CrlfLines
import LtrData.Nyfilosof.Philosophers
import LtrData.Smtpsend.DataPhase
import LtrData.Popdump.Session
import LtrData.Popdump.Lines
import LtrData.Popdump.SavedMail
import LtrData.Popdump.Deletion
import LtrData.Tcpfw.AsyncBufferedSwitch
import LtrData.LightRepeater.RepeaterEngine
import LtrData.LightRepeater.AnnounceEngine
import LtrData.Lab4Server.ClientManager
import LtrData.Library.LinkedChain
import LtrData.Chatsrv.ClientManager
import LtrData.Chatsrv.ClientChain
import LtrData.Chatsrv.BroadcastOrder
import LtrData.Library.DirectoryTree
import LtrData.Xcopynt.Copying
import LtrData.Xcopynt.Placement
import LtrData.Xcopynt.Stopping
import LtrData.Xcopynt.OneTarget
import LtrData.StrArc.LinkTracker
import LtrData.StrArc.Belonging
import LtrData.StrArc.CopyResult
import LtrData.Library.CStrings
import LtrData.Library.Occurrences
import LtrData.Regrepl.ReplaceInString
import LtrData.Trunczerotail.Truncation
import LtrData.Stripcr.Conversion
import LtrData.Stripcr.InPlace
import LtrData.Getftp.Transfer
import LtrData.LightRepeater.TimeLimits
import LtrData.LightRepeater.SquelchLine
import LtrData.Library.PercentDecoding
import LtrData.Undecorateurl.Decoder
import LtrData.Library.Strtok
import LtrData.Ftpcp.ConnectionInfo
import LtrData.Devredir.Forwarding
import LtrData.Popdump.Pieces
import LtrData.Popdump.ReceiveLoop
import LtrData.Ftpcp.ReplyLoops
import LtrData.Library.Replacements
import LtrData.Reptxt32.Process
import LtrData.Txtcnv32.Filter
import LtrData.Library.WideText
import LtrData.Regrepl.Values
import LtrData.Regrepl.BinaryLoop
import LtrData.Regrepl.BinaryData
import LtrData.Regrepl.MultiString
import LtrData.Regrepl.OutputBuffer
import LtrData.PosixLab4.RsaCrypt
import LtrData.PosixLab4.ReadLine
import LtrData.Chatsrv.LineBuffer
import LtrData.Fsplit32.Parts
import LtrData.Cxr.Streams
import LtrData.Primeser.PrimeFactors
import LtrData.Importini.Entries
import LtrData.Regdump.CreateDirectoryPath
import LtrData.Wfind.FilteredFileFinder
import LtrData.Library.FirstMet
import LtrData.Sizeof.FileTable
import LtrData.Sizeof.Directory
import LtrData.Sizeof.Totals
import LtrData.Wstring.Trim
import LtrData.Lab3.GameGrid
import LtrData.Lab3.TestInsert
import LtrData.Wfilemap.MappedFile
import LtrData.Library.Containers
import LtrData.Lab2.Items
import LtrData.Lab2.Commands
import LtrData.Library.Tokens
import LtrData.Filosof.Philosophers
import LtrData.Lab3.Game
import LtrData.StrArc.VolumeStreams
import LtrData.StrArc.VolumeRestore
import LtrData.Library.KeyedUpdates
import LtrData.StrArc.Versions
import LtrData.StrArc.Chain
import LtrData.StrArc.FreshRestore
import LtrData.Ftpcp.PortString
import LtrData.Ftpcp.Transfer
import LtrData.Ftpcp.Handover
import LtrData.Ftpcp.TransferRuns
import LtrData.Library.TreeWalk
import LtrData.Regrepl.Registry
import LtrData.Regrepl.DoSubKey
import LtrData.Regrepl.KeyTree
import LtrData.Regrepl.RegistryRuns
