import Kthreads.Mutex.Lifecycle
import Kthreads.Mutex.Wakeup
import Kthreads.Mutex.Ownership
import Kthreads.Files.Resources
import Kthreads.Sched.Cpus
import Kthreads.Sched.Sleep
import Kthreads.Tree.Bounds
import Kthreads.Tree.Alloc
import Kthreads.Log.Reservation
import Kthreads.Desc.Ends
import Kthreads.Cwd.Reference
import Kthreads.Vm.Mapped
import Kthreads.Vm.Refines
import Kthreads.Spin.Order
import Kthreads.Process.Kill
import Kthreads.Mutex.Exit
import Kthreads.Mutex.Holder
import Kthreads.Paging.Sbrk
import Kthreads.Exec.Copyout
import Kthreads.Exec.Image
import Kthreads.Bio.Coherence
import Kthreads.Console.Lines
import Kthreads.Dir.Path
import Kthreads.User.Grep
import Kthreads.Inode.Content
import Kthreads.Vm.Args
import Kthreads.Spin.Sleeplock
