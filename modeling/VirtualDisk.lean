import VirtualDisk.Bytes
import VirtualDisk.Text.Hex
import VirtualDisk.Text.Utf8
import VirtualDisk.Text.Utf16
import VirtualDisk.Text.Blank
import VirtualDisk.Text.Unprintable
import VirtualDisk.Text.Quoted
import VirtualDisk.UniqueId
import VirtualDisk.DiskType
import VirtualDisk.Path
import VirtualDisk.Error
import VirtualDisk.Limits
import VirtualDisk.StoredSize
import VirtualDisk.Checksum
import VirtualDisk.Geometry
import VirtualDisk.Instant
import VirtualDisk.Instant.Reading
import VirtualDisk.Files
import VirtualDisk.FileTree
import VirtualDisk.Handle
import VirtualDisk.Window
import VirtualDisk.Footer
import VirtualDisk.ParentLocator
import VirtualDisk.SparseHeader
import VirtualDisk.BlockTable
import VirtualDisk.Coverage
import VirtualDisk.Level
import VirtualDisk.ParentSearch
import VirtualDisk.Disk
import VirtualDisk.Source
import VirtualDisk.FileRange
import VirtualDisk.SectorMerge
import VirtualDisk.Stream.Piece
import VirtualDisk.Stream.Plan
import VirtualDisk.Stream.PlanBounds
import VirtualDisk.Stream.LevelStream
import VirtualDisk.Stream.ChainStream
import VirtualDisk.Stream.DiskStream
import VirtualDisk.Json.Quotation
import VirtualDisk.Json.Token
import VirtualDisk.Json.Value
import VirtualDisk.Json.Grammar
import VirtualDisk.Serializer
import VirtualDisk.Summary
import VirtualDisk.Proofs.Octets
import VirtualDisk.Proofs.Yield
import VirtualDisk.Proofs.FileYield
import VirtualDisk.Proofs.BlockYield
import VirtualDisk.Proofs.ChainYield
import VirtualDisk.Proofs.Coverage
import VirtualDisk.Proofs.Draft
import VirtualDisk.Proofs.DraftPair
import VirtualDisk.Proofs.Flattening
import VirtualDisk.Proofs.Inheritance
import VirtualDisk.Proofs.Chunking
import VirtualDisk.Proofs.Ledger
import VirtualDisk.Proofs.StreamLedger
import VirtualDisk.Proofs.CheckedPlan
import VirtualDisk.Proofs.ParentStreams
import VirtualDisk.Proofs.Accounting
import VirtualDisk.Proofs.FixedFooter
import VirtualDisk.Proofs.RoundTrip
import VirtualDisk.Proofs.BufferSizes
import VirtualDisk.Proofs.PathSteps
import VirtualDisk.Proofs.Candidates
import VirtualDisk.Proofs.FirstMatch
import VirtualDisk.Proofs.Resolution
import VirtualDisk.Proofs.Reading
import VirtualDisk.Proofs.FooterEdits
import VirtualDisk.Proofs.Acceptance
import VirtualDisk.Proofs.Layout
import VirtualDisk.Proofs.FooterFormat
import VirtualDisk.Proofs.HeaderFormat
import VirtualDisk.Proofs.Detection
import VirtualDisk.Proofs.StoredNames
import VirtualDisk.Proofs.Mapping
import VirtualDisk.Proofs.Observation
import VirtualDisk.Proofs.Verification
import VirtualDisk.Proofs.Spelling
import VirtualDisk.Proofs.Document
import VirtualDisk.Proofs.Calendar
import VirtualDisk.Proofs.Numerals
import VirtualDisk.Proofs.Timestamps
import VirtualDisk.Proofs.Serialization
import VirtualDisk.Proofs.SummaryText
import VirtualDisk.Proofs.CheckedStream
import VirtualDisk.Proofs.Exactness
import VirtualDisk.Proofs.LocatorLoading
import VirtualDisk.Proofs.RangeChunks
import VirtualDisk.Proofs.MergeBooks
import VirtualDisk.Proofs.Resemblance
import VirtualDisk.Proofs.CreatorTag
import VirtualDisk.Proofs.UniformBits
import VirtualDisk.Proofs.SharedFile
