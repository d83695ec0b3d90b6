import VgiCbor.Lib.MachineInt
import VgiCbor.Lib.Traverse
import VgiCbor.Lib.Segments
import VgiCbor.Lib.Binary64
import VgiCbor.Lib.BigEndian
import VgiCbor.Lib.ItemStream
import VgiCbor.Lib.StreamCut
import VgiCbor.Lib.Frames
import VgiCbor.Lib.BufferedSource
import VgiCbor.Lib.KeySort
import VgiCbor.Lib.IpAddress
import VgiCbor.Lib.Gregorian
import VgiCbor.Lib.InstantText
import VgiCbor.Lib.Slice
import VgiCbor.Lib.UniqueReading
import VgiCbor.Lib.Outcome
import VgiCbor.Lib.DecimalScale
import VgiCbor.Lib.LabelScan
import VgiCbor.Lib.SqlText
import VgiCbor.Lib.SortedMap
import VgiCbor.Core.Value
import VgiCbor.Core.Bignum
import VgiCbor.Core.Msgpack
import VgiCbor.Core.Seq
import VgiCbor.Core.Encode
import VgiCbor.Core.Json
import VgiCbor.Core.ConcreteCodecs
import VgiCbor.Core.RowFiles
import VgiCbor.Core.Validate
import VgiCbor.Core.CanonicalJson
import VgiCbor.Core.JsonRoundTrip
import VgiCbor.Core.Transcode
import VgiCbor.Core.DuplicateKeys
import VgiCbor.Core.Ctap2
import VgiCbor.Core.Instants
import VgiCbor.Core.Erasure
import VgiCbor.Core.Calendar
import VgiCbor.Core.MsgpackJson
import VgiCbor.Core.TimestampViews
import VgiCbor.Core.MsgpackShapes
import VgiCbor.Core.MsgpackViews
import VgiCbor.Core.Diagnostic
import VgiCbor.Core.DiagnosticReadable
import VgiCbor.Core.Tags
import VgiCbor.Worker.Arrow
import VgiCbor.Worker.ArrayLibrary
import VgiCbor.Worker.ValueIn
import VgiCbor.Worker.ValueOut
import VgiCbor.Worker.RowSemantics
import VgiCbor.Worker.ColumnRefinement
import VgiCbor.Worker.Arithmetic
import VgiCbor.Worker.OverflowChecks
import VgiCbor.Worker.OverflowColumns
import VgiCbor.Worker.CopyCommon
import VgiCbor.Worker.BuildBatch
import VgiCbor.Worker.CopyFrom
import VgiCbor.Worker.IgnoreErrors
import VgiCbor.Worker.CopyTo
import VgiCbor.Worker.CellTypes
import VgiCbor.Worker.RoundTrip
import VgiCbor.Worker.MsgpackWire
import VgiCbor.Worker.CanonicalRows
import VgiCbor.Worker.Cloud
import VgiCbor.Worker.RangeReader
import VgiCbor.Worker.RemoteSource
import VgiCbor.Worker.IntegerTargets
import VgiCbor.Worker.TimeOfDay
import VgiCbor.Worker.ExactScaling
import VgiCbor.Worker.DecimalDomain
import VgiCbor.Security.Registry
import VgiCbor.Security.CoseKey
import VgiCbor.Security.Cose
import VgiCbor.Security.CoseMessages
import VgiCbor.Security.Cwt
import VgiCbor.Security.CwtClaims
import VgiCbor.Security.Webauthn
import VgiCbor.Security.Attestation
import VgiCbor.Worker.CopyDestination
import VgiCbor.Worker.CopyService
import VgiCbor.Worker.ExportImport
import VgiCbor.Worker.ArrowIo
import VgiCbor.Worker.BlobScalars
import VgiCbor.Worker.Scalars
import VgiCbor.Wasm.HeaderLines
import VgiCbor.Wasm.HttpWire
import VgiCbor.Wasm.XhrService
import VgiCbor.Worker.TableFunctions
import VgiCbor.Worker.Listing
import VgiCbor.Worker.RegistryView
import VgiCbor.Security.Registration
