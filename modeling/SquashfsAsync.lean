import SquashfsAsync.Basic
import SquashfsAsync.Float64
import SquashfsAsync.BTreeMap
import SquashfsAsync.Data
import SquashfsAsync.Metadata
import SquashfsAsync.Superblock
import SquashfsAsync.Fragments
import SquashfsAsync.Inodes
import SquashfsAsync.DirectoryTable
import SquashfsAsync.Image
import SquashfsAsync.Prog
import SquashfsAsync.Read
import SquashfsAsync.System
import SquashfsAsync.Squashfuse
import SquashfsAsync.Equiv.Metadata
import SquashfsAsync.Equiv.Fragments
import SquashfsAsync.Equiv.InodeTable
import SquashfsAsync.Equiv.DirectoryTable
import SquashfsAsync.Equiv.Image
import SquashfsAsync.Equiv.Squashfuse
import SquashfsAsync.Equiv.WellFormed
import SquashfsAsync.Equiv.Handles
import SquashfsAsync.Equiv.Read
import SquashfsAsync.Equiv.Cache
import SquashfsAsync.Equiv.System
import SquashfsAsync.Equiv.Trace
import SquashfsAsync.Equiv.Concurrent
import SquashfsAsync.Equiv.Progress
import SquashfsAsync.Equiv.Termination
import SquashfsAsync.Equiv.Adaptor
