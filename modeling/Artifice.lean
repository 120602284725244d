import Artifice.Lib.Mem
import Artifice.Lib.Bits
import Artifice.Lib.Loop
import Artifice.Lib.Sorted
import Artifice.Lib.Keccak
import Artifice.Lib.SpeckCipher
import Artifice.Lib.Walk
import Artifice.Lib.SearchTree
import Artifice.Lib.Antilog
import Artifice.Lib.ByteField
import Artifice.Lib.Elimination
import Artifice.Config
import Artifice.Io
import Artifice.Kernel
import Artifice.Allocation
import Artifice.Acquire
import Artifice.Metadata.Defs
import Artifice.Metadata.Frame
import Artifice.Metadata.SuperBlock
import Artifice.Metadata.BinarySearch
import Artifice.Metadata.Replicas
import Artifice.Metadata.Distinct
import Artifice.Metadata.MapBlocks
import Artifice.Metadata.CreateMap
import Artifice.Metadata.FillMap
import Artifice.Metadata.Mount
import Artifice.Metadata.Search
import Artifice.Metadata.Index
import Artifice.Metadata.Footprint
import Artifice.Modules.Ext4
import Artifice.Modules.Ext4Memory
import Artifice.Modules.Ext4Scan
import Artifice.Modules.Ext4Volume
import Artifice.Modules.Ext4Exact
import Artifice.Modules.Ext4Bounds
import Artifice.Modules.Fat32
import Artifice.Modules.Fat32Bounds
import Artifice.Modules.Ntfs
import Artifice.Modules.NtfsRuns
import Artifice.Modules.NtfsBitmap
import Artifice.Modules.NtfsGeometry
import Artifice.Modules.NtfsRunList
import Artifice.Modules.NtfsWalk
import Artifice.Modules.FreeLists
import Artifice.Modules.Detect
import Artifice.Codec.Speck
import Artifice.Codec.SpeckMode
import Artifice.Codec.SpeckInverse
import Artifice.Codec.Sha3
import Artifice.Codec.Keccak
import Artifice.Codec.Sha3Digest
import Artifice.Codec.City
import Artifice.Codec.GfMem
import Artifice.Codec.GfInit
import Artifice.Codec.GfKernels
import Artifice.Codec.GfBytes
import Artifice.Codec.CauchyRs
import Artifice.Codec.Erasures
import Artifice.Codec.Ldu
import Artifice.Codec.Solve
import Artifice.Codec.Recover
import Artifice.Codec.Single
import Artifice.Codec.Aont
import Artifice.Codec.Package
import Artifice.Codec.GfShare
import Artifice.Codec.Shamir
import Artifice.Codec.Secrecy
import Artifice.Codec.Stepwise
import Artifice.Engine.Defs
import Artifice.Engine.Life
import Artifice.Engine.Queue
import Artifice.Engine.Segments
import Artifice.Engine.Mapping
import Artifice.Engine.Atomic
import Artifice.Engine.Carriers
import Artifice.Engine.Steps
import Artifice.Engine.Once
import Artifice.Engine.Stored
import Artifice.Engine.Holds
import Artifice.Engine.Alone
import Artifice.Engine.Create
import Artifice.Engine.Args
import Artifice.Engine.Session
import Artifice.Engine.Rebuild
import Artifice.Engine.Partial
import Artifice.Engine.Errors
import Artifice.Engine.Damage
import Artifice.Engine.Target
import Artifice.Engine.Race
import Artifice.Engine.Effect
import Artifice.Engine.Interleave
import Artifice.Engine.Layout
import Artifice.Engine.ReadOnly
import Artifice.Engine.Remount
import Artifice.Engine.Footprint
import Artifice.Engine.Host
import Artifice.Engine.Extent
import Artifice.Engine.Slicing
import Artifice.Engine.Flat
import Artifice.Engine.Account
import Artifice.Engine.Health
import Artifice.Engine.Module
