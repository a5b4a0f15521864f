import Ouichefs.Allocator
import Ouichefs.BigErrors
import Ouichefs.BigLaw
import Ouichefs.BlockRuns
import Ouichefs.DirErrors
import Ouichefs.EmptyWrite
import Ouichefs.Format
import Ouichefs.GetBlock
import Ouichefs.InodeStore
import Ouichefs.Ioctl
import Ouichefs.Listing
import Ouichefs.MkfsCounts
import Ouichefs.ModuleRuns
import Ouichefs.NameLaws
import Ouichefs.NoLeak
import Ouichefs.Orphan
import Ouichefs.Paths
import Ouichefs.Readdir
import Ouichefs.RewriteErrors
import Ouichefs.SliceCount
import Ouichefs.SliceRefs
import Ouichefs.Sync
import Ouichefs.WriteLaws
import Ouichefs.WriteRefs
import Ouichefs.BigGuard
import Ouichefs.Contain
import Ouichefs.Statfs
