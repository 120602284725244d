import Artifice.Modules.Ext4Exact

/-!
When the detection of ext4 stays in its buffers.

The sizes that `new_disk` takes from the super block are not checked, neither on their own nor against
each other: `s_blocks_per_group` is a divisor and the bound of the loop over the bitmap's page,
`s_desc_size` is a divisor, and `block_list` has room for as many blocks as the super block counts as
free, whatever the bitmaps say.
-/

namespace Artifice

open Lib

/-! ### The property -/

section

variable {k : Kernel} {is64bit before : Bool} {disk : Ext4Disk} {data device page : Mem}
  {gdArr gdArr' : ℕ → Mem} {sb : Ext4Superblock} {fs : AfsPassiveFs} {first g n per : ℕ}

/-! ### The summary and the descriptors -/

end

end Artifice
