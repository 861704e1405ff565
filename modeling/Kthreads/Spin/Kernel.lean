import Kthreads.Lib.Locks

/-! The spin locks of the kernel and the code that takes them. Every function that takes a lock, or calls
one that does, is here with its branches, loops and early returns; what its conditions depend on is left
out, except where memory runs out and where user memory is touched under a lock. -/
namespace Kthreads.Spin
open Locks

/-- The spin lock inside a sleep lock of a buffer or of an inode. -/
inductive Sleeplock
  | buf (b : Nat)
  | inode (ip : Nat)
  deriving DecidableEq

inductive Lock
  | ptable
  | mtable
  | mutex (i : Nat)
  | cons
  | ticks
  | log
  | pipe (p : Nat)
  | ide
  | kmem
  | icache
  | ftable
  | bcache
  | sleeplock (lk : Sleeplock)
  deriving DecidableEq

/-- Conditions. `outOfMemory` are those under which `allocuvm` prints, `fault` is an access to user memory
that traps in the kernel. -/
inductive Chance
  | other
  | outOfMemory
  | fault
  deriving DecidableEq

inductive Fn
  -- kalloc.c, vm.c
  | kalloc | kfree | walkpgdir | mappages | setupkvm | inituvm | loaduvm (ip : Nat) | allocuvm | deallocuvm | freevm
  | clearpteu | copyuvm | copyout
  -- sleeplock.c, bio.c, ide.c
  | acquiresleep (lk : Sleeplock) | releasesleep (lk : Sleeplock) | holdingsleep (lk : Sleeplock)
  | bget (b : Nat) | bread (b : Nat) | bwrite (b : Nat) | brelse (b : Nat) | iderw (b : Nat) | ideintr
  -- console.c, trap.c, syscall.c
  | cprintf | consoleintr | consoleread (ip : Nat) | consolewrite (ip : Nat) | trap | kernelTrap | syscall
  -- proc.c
  | allocproc | allocthread | userinit | growproc | fork | exit | exitThread | wait | scheduler | sched | yield
  | sleep (lk : Lock) | wakeup | kill | procdump | kthreadCreate | kthreadExit | kthreadJoin | kthreadMutexAlloc
  | kthreadMutexDealloc | kthreadMutexLock | kthreadMutexUnlock
  -- log.c
  | initlog | installTrans | readHead | writeHead | recoverFromLog | beginOp | endOp | writeLog | commit | logWrite
  -- fs.c
  | readsb | bzero | balloc | bfree | iinit | ialloc | iupdate | iget | idup | ilock (ip : Nat) | iunlock (ip : Nat)
  | iput (ip : Nat) | iunlockput (ip : Nat) | bmap | itrunc | readi (ip : Nat) | writei (ip : Nat)
  | dirlookup (dp : Nat) | dirlink (dp : Nat) | namex
  -- file.c, pipe.c
  | filealloc | filedup | fileclose | filestat | fileread | filewrite | pipealloc | pipeclose (p : Nat)
  | pipewrite (p : Nat) | piperead (p : Nat)
  -- sysfile.c, sysproc.c, exec.c
  | sysDup | sysRead | sysWrite | sysClose | sysFstat | sysLink | isdirempty (dp : Nat) | sysUnlink | create | sysOpen
  | sysMkdir | sysMknod | sysChdir | sysExec | sysPipe | sysKill | sysSbrk | sysSleep | sysUptime | sysKthreadCreate
  | sysKthreadJoin | exec

abbrev Code := Prog Lock Fn Chance

def perhaps (p : Code) : Code := .test .other p .skip

def either (p q : Code) : Code := .test .other p q

def touch : Code := .test .fault (.call .kernelTrap) .skip

def calls (fs : List Fn) : Code := .block (fs.map .call)

def freelist : Code := either (.block [.acquire .kmem,.release .kmem]) .skip

/-- The end of `exec` after a failure: before `ptable.lock` is taken, and after it. -/
def execBad (ip : Nat) : Code :=
  .block [perhaps (.call .freevm),calls [.iunlockput ip,.endOp],.release .ptable,.ret]

def execBadLocked : Code := .block [.call .freevm,.release .ptable,.ret]

def pipeallocBad : Code :=
  .block [perhaps (.call .kfree),perhaps (.call .fileclose),perhaps (.call .fileclose),.ret]

def updateBlock : Code := .pick fun b => calls [.bread b,.logWrite,.brelse b]

def readBlock : Code := .pick fun b => calls [.bread b,.brelse b]

def body : Fn → Code
  | .kalloc => freelist
  | .kfree => .block [perhaps .panic,freelist]
  | .walkpgdir => perhaps (.call .kalloc)
  | .mappages => .loop (.block [.call .walkpgdir,perhaps .ret,perhaps .panic])
  | .setupkvm =>
    .block [.call .kalloc,perhaps .ret,perhaps .panic,
      .loop (.block [.call .mappages,perhaps (.block [.call .freevm,.ret])])]
  | .inituvm => .block [perhaps .panic,calls [.kalloc,.mappages]]
  | .loaduvm ip =>
    .block [perhaps .panic,.loop (.block [.call .walkpgdir,perhaps .panic,.call (.readi ip),perhaps .ret])]
  | .allocuvm =>
    .block [perhaps .ret,perhaps .ret,.loop (.block [.call .kalloc,
      .test .outOfMemory (.block [calls [.cprintf,.deallocuvm],.ret]) .skip,.call .mappages,
      .test .outOfMemory (.block [calls [.cprintf,.deallocuvm,.kfree],.ret]) .skip])]
  | .deallocuvm =>
    .block [perhaps .ret,.loop (.block [.call .walkpgdir,perhaps (.block [perhaps .panic,.call .kfree])])]
  | .freevm => .block [perhaps .panic,.call .deallocuvm,.loop (perhaps (.call .kfree)),.call .kfree]
  | .clearpteu => .block [.call .walkpgdir,perhaps .panic]
  | .copyuvm =>
    .block [.call .setupkvm,perhaps .ret,.loop (.block [.call .walkpgdir,perhaps .panic,perhaps .panic,.call .kalloc,
      perhaps (.block [.call .freevm,.ret]),.call .mappages,perhaps (.block [calls [.kfree,.freevm],.ret])])]
  | .copyout => .loop (.block [.call .walkpgdir,perhaps .ret])
  | .acquiresleep lk =>
    .block [.acquire (.sleeplock lk),.loop (.call (.sleep (.sleeplock lk))),.release (.sleeplock lk)]
  | .releasesleep lk => .block [.acquire (.sleeplock lk),.call .wakeup,.release (.sleeplock lk)]
  | .holdingsleep lk => .block [.acquire (.sleeplock lk),.release (.sleeplock lk)]
  | .bget b =>
    .block [.acquire .bcache,.loop (perhaps (.block [.release .bcache,.call (.acquiresleep (.buf b)),.ret])),
      .loop (perhaps (.block [.release .bcache,.call (.acquiresleep (.buf b)),.ret])),.panic]
  | .bread b => .block [.call (.bget b),perhaps (.call (.iderw b))]
  | .bwrite b => .block [.call (.holdingsleep (.buf b)),perhaps .panic,.call (.iderw b)]
  | .brelse b =>
    .block [.call (.holdingsleep (.buf b)),perhaps .panic,.call (.releasesleep (.buf b)),.acquire .bcache,
      .release .bcache]
  | .iderw b =>
    .block [.call (.holdingsleep (.buf b)),perhaps .panic,perhaps .panic,perhaps .panic,.acquire .ide,
      .loop (.call (.sleep .ide)),.release .ide]
  | .ideintr => .block [.acquire .ide,perhaps (.block [.release .ide,.ret]),.call .wakeup,.release .ide]
  | .cprintf => either (.block [.acquire .cons,perhaps .panic,.release .cons]) (perhaps .panic)
  | .consoleintr =>
    .block [.acquire .cons,.loop (perhaps (.call .wakeup)),.release .cons,perhaps (.call .procdump)]
  | .consoleread ip =>
    .block [.call (.iunlock ip),.acquire .cons,
      .loop (.block [.loop (.block [perhaps (.block [.release .cons,.call (.ilock ip),.ret]),.call (.sleep .cons)]),
        touch]),
      .release .cons,.call (.ilock ip)]
  | .consolewrite ip => .block [.call (.iunlock ip),.acquire .cons,.loop touch,.release .cons,.call (.ilock ip)]
  | .trap =>
    either
      (.block [perhaps (.call .exit),perhaps (.call .kthreadExit),.call .syscall,perhaps (.call .exit),
        perhaps (.call .kthreadExit),.ret])
      (.block [
        .oneOf .other [perhaps (.block [.acquire .ticks,.call .wakeup,.release .ticks]),.call .ideintr,
          .call .consoleintr,.call .cprintf,.block [.call .cprintf,.panic],.skip],
        perhaps (.call .exit),perhaps (.call .kthreadExit),perhaps (.call .yield),perhaps (.call .exit),
        perhaps (.call .kthreadExit)])
  | .kernelTrap => .block [.call .cprintf,.panic]
  | .syscall =>
    .oneOf .other [.call .sysSbrk,.call .fork,.call .exit,.call .wait,.call .sysKill,.skip,.call .sysSleep,
      .call .sysUptime,.call .sysDup,.call .sysRead,.call .sysWrite,.call .sysClose,.call .sysFstat,.call .sysLink,
      .call .sysUnlink,.call .sysOpen,.call .sysMkdir,.call .sysMknod,.call .sysChdir,.call .sysExec,.call .sysPipe,
      .call .sysKthreadCreate,.call .kthreadExit,.call .sysKthreadJoin,.call .kthreadMutexAlloc,
      perhaps (.call .kthreadMutexDealloc),perhaps (.call .kthreadMutexLock),perhaps (.call .kthreadMutexUnlock),
      .call .cprintf]
  | .allocproc => .block [.acquire .ptable,perhaps (.block [.release .ptable,.ret]),.release .ptable]
  | .allocthread =>
    .block [.acquire .ptable,perhaps (.block [.release .ptable,.ret]),.release .ptable,.call .kalloc,perhaps .ret]
  | .userinit =>
    .block [calls [.allocproc,.allocthread,.setupkvm],perhaps .panic,calls [.inituvm,.namex],.acquire .ptable,
      .release .ptable]
  | .growproc =>
    .block [.acquire .ptable,
      .oneOf .other [.block [.call .allocuvm,perhaps (.block [.release .ptable,.ret])],
        .block [.call .deallocuvm,perhaps (.block [.release .ptable,.ret])],.skip],
      .release .ptable,perhaps .panic]
  | .fork =>
    .block [.call .allocproc,perhaps .ret,.call .allocthread,perhaps .ret,.call .copyuvm,
      perhaps (.block [.call .kfree,.ret]),.loop (perhaps (.call .filedup)),.call .idup,.acquire .ptable,
      .release .ptable]
  | .exit =>
    .block [perhaps .panic,.acquire .ptable,.release .ptable,.loop (.loop (perhaps (.call .kfree))),
      .loop (perhaps (.call .kthreadMutexDealloc)),.loop (perhaps (.call .fileclose)),.call .beginOp,
      .pick fun ip => .call (.iput ip),.call .endOp,.acquire .ptable,.call .sched,.panic]
  | .exitThread => .block [.acquire .ptable,.call .sched,.panic]
  | .wait =>
    .block [.acquire .ptable,.forever (.block [
      .loop (perhaps (.block [.loop (perhaps (.call .kfree)),.call .freevm,.release .ptable,.ret])),
      perhaps (.block [.release .ptable,.ret]),.call (.sleep .ptable)])]
  | .scheduler => .forever (.block [.acquire .ptable,.loop (.loop (perhaps .switch)),.release .ptable])
  | .sched => .block [perhaps .panic,perhaps .panic,perhaps .panic,perhaps .panic,.switch]
  | .yield => .block [.acquire .ptable,.call .sched,.release .ptable]
  | .sleep lk =>
    .block [perhaps .panic,perhaps .panic,perhaps .panic,
      if lk = .ptable then .skip else .block [.acquire .ptable,.release lk],
      .call .sched,perhaps (.block [.release .ptable,.call .kthreadExit]),
      if lk = .ptable then .skip else .block [.release .ptable,.acquire lk]]
  | .wakeup => .block [.acquire .ptable,.release .ptable]
  | .kill => .block [.acquire .ptable,.loop (perhaps (.block [.release .ptable,.ret])),.release .ptable]
  | .procdump =>
    .loop (perhaps (.loop (.block [.call .cprintf,perhaps (.loop (.call .cprintf)),.call .cprintf])))
  | .kthreadCreate => .block [perhaps .ret,.call .allocthread,perhaps .ret,.acquire .ptable,.release .ptable]
  | .kthreadExit => .block [perhaps (.call .exit),.call .exitThread]
  | .kthreadJoin =>
    .block [.acquire .ptable,.forever (.block [
      perhaps (.block [.release .ptable,.call .kthreadExit]),
      perhaps (.block [.release .ptable,.ret]),
      perhaps .panic,
      either (.block [.release .ptable,.call .kfree,.ret]) (.call (.sleep .ptable))])]
  | .kthreadMutexAlloc =>
    .block [.acquire .mtable,perhaps (.block [.release .mtable,.ret]),
      .pick fun i => .block [.acquire (.mutex i),.release .mtable,.release (.mutex i)]]
  | .kthreadMutexDealloc =>
    .block [.acquire .mtable,perhaps (.block [.release .mtable,.ret]),perhaps (.block [.release .mtable,.ret]),
      .pick fun i => .block [.acquire (.mutex i),.release (.mutex i)],.release .mtable]
  | .kthreadMutexLock =>
    .block [.acquire .mtable,perhaps (.block [.release .mtable,.ret]),touch,perhaps (.block [.release .mtable,.ret]),
      .pick fun i =>
        .block [.acquire (.mutex i),.release .mtable,.loop (.call (.sleep (.mutex i))),.release (.mutex i)]]
  | .kthreadMutexUnlock =>
    .block [.acquire .mtable,perhaps (.block [.release .mtable,.ret]),
      .pick fun i =>
        .block [.acquire (.mutex i),.release .mtable,touch,perhaps (.block [.release (.mutex i),.ret]),
          .loop (perhaps (.block [.release (.mutex i),.ret])),.release (.mutex i)]]
  | .initlog => .block [perhaps .panic,calls [.readsb,.recoverFromLog]]
  | .installTrans =>
    .loop (.pick fun lbuf => .pick fun dbuf => calls [.bread lbuf,.bread dbuf,.bwrite dbuf,.brelse lbuf,.brelse dbuf])
  | .readHead => readBlock
  | .writeHead => .pick fun b => calls [.bread b,.bwrite b,.brelse b]
  | .recoverFromLog => calls [.readHead,.installTrans,.writeHead]
  | .beginOp =>
    .block [.acquire .log,.forever (either (.call (.sleep .log)) (either (.call (.sleep .log))
      (.block [.release .log,.ret])))]
  | .endOp =>
    .block [.acquire .log,perhaps .panic,perhaps (.call .wakeup),.release .log,
      perhaps (.block [.call .commit,.acquire .log,.call .wakeup,.release .log])]
  | .writeLog =>
    .loop (.pick fun b => .pick fun src => calls [.bread b,.bread src,.bwrite b,.brelse src,.brelse b])
  | .commit => perhaps (calls [.writeLog,.writeHead,.installTrans,.writeHead])
  | .logWrite => .block [perhaps .panic,perhaps .panic,.acquire .log,.release .log]
  | .readsb => readBlock
  | .bzero => updateBlock
  | .balloc =>
    .block [.loop (.pick fun b => .block [.call (.bread b),
      .loop (perhaps (.block [calls [.logWrite,.brelse b,.bzero],.ret])),.call (.brelse b)]),.panic]
  | .bfree => .block [.call .readsb,.pick fun b => .block [.call (.bread b),perhaps .panic,calls [.logWrite,.brelse b]]]
  | .iinit => calls [.readsb,.cprintf]
  | .ialloc =>
    .block [.loop (.pick fun b => .block [.call (.bread b),
      perhaps (.block [calls [.logWrite,.brelse b,.iget],.ret]),.call (.brelse b)]),.panic]
  | .iupdate => updateBlock
  | .iget => .block [.acquire .icache,.loop (perhaps (.block [.release .icache,.ret])),perhaps .panic,.release .icache]
  | .idup => .block [.acquire .icache,.release .icache]
  | .ilock ip =>
    .block [perhaps .panic,.call (.acquiresleep (.inode ip)),perhaps (.block [readBlock,perhaps .panic])]
  | .iunlock ip =>
    .block [perhaps .panic,.call (.holdingsleep (.inode ip)),perhaps .panic,.call (.releasesleep (.inode ip))]
  | .iput ip =>
    .block [.call (.acquiresleep (.inode ip)),
      perhaps (.block [.acquire .icache,.release .icache,perhaps (calls [.itrunc,.iupdate])]),
      .call (.releasesleep (.inode ip)),.acquire .icache,.release .icache]
  | .iunlockput ip => calls [.iunlock ip,.iput ip]
  | .bmap =>
    .block [perhaps (.block [perhaps (.call .balloc),.ret]),
      perhaps (.block [perhaps (.call .balloc),
        .pick fun b => .block [.call (.bread b),perhaps (calls [.balloc,.logWrite]),.call (.brelse b)],.ret]),
      .panic]
  | .itrunc =>
    .block [.loop (perhaps (.call .bfree)),
      perhaps (.block [.pick fun b => .block [.call (.bread b),.loop (perhaps (.call .bfree)),.call (.brelse b)],
        .call .bfree]),
      .call .iupdate]
  | .readi ip =>
    .block [perhaps (.block [perhaps .ret,.call (.consoleread ip),.ret]),perhaps .ret,
      .loop (.block [.call .bmap,readBlock])]
  | .writei ip =>
    .block [perhaps (.block [perhaps .ret,.call (.consolewrite ip),.ret]),perhaps .ret,perhaps .ret,
      .loop (.block [.call .bmap,updateBlock]),perhaps (.call .iupdate)]
  | .dirlookup dp =>
    .block [perhaps .panic,.loop (.block [.call (.readi dp),perhaps .panic,perhaps (.block [.call .iget,.ret])])]
  | .dirlink dp =>
    .block [.call (.dirlookup dp),perhaps (.block [.pick fun ip => .call (.iput ip),.ret]),
      .loop (.block [.call (.readi dp),perhaps .panic]),.call (.writei dp),perhaps .panic]
  | .namex =>
    .block [either (.call .iget) (.call .idup),
      .loop (.pick fun ip => .block [.call (.ilock ip),perhaps (.block [.call (.iunlockput ip),.ret]),
        perhaps (.block [.call (.iunlock ip),.ret]),.call (.dirlookup ip),
        perhaps (.block [.call (.iunlockput ip),.ret]),.call (.iunlockput ip)]),
      perhaps (.pick fun ip => .call (.iput ip))]
  | .filealloc => .block [.acquire .ftable,.loop (perhaps (.block [.release .ftable,.ret])),.release .ftable]
  | .filedup => .block [.acquire .ftable,perhaps .panic,.release .ftable]
  | .fileclose =>
    .block [.acquire .ftable,perhaps .panic,perhaps (.block [.release .ftable,.ret]),.release .ftable,
      .oneOf .other [.pick fun p => .call (.pipeclose p),
        .block [.call .beginOp,.pick fun ip => .call (.iput ip),.call .endOp],.skip]]
  | .filestat => perhaps (.pick fun ip => calls [.ilock ip,.iunlock ip])
  | .fileread =>
    .block [perhaps .ret,perhaps (.block [.pick fun p => .call (.piperead p),.ret]),
      perhaps (.block [.pick fun ip => calls [.ilock ip,.readi ip,.iunlock ip],.ret]),.panic]
  | .filewrite =>
    .block [perhaps .ret,perhaps (.block [.pick fun p => .call (.pipewrite p),.ret]),
      perhaps (.block [
        .loop (.pick fun ip => .block [calls [.beginOp,.ilock ip,.writei ip,.iunlock ip,.endOp],perhaps .ret,
          perhaps .panic]),.ret]),
      .panic]
  | .pipealloc =>
    .block [.call .filealloc,perhaps pipeallocBad,.call .filealloc,perhaps pipeallocBad,.call .kalloc,
      perhaps pipeallocBad]
  | .pipeclose p =>
    .block [.acquire (.pipe p),.call .wakeup,
      either (.block [.release (.pipe p),.call .kfree]) (.release (.pipe p))]
  | .pipewrite p =>
    .block [.acquire (.pipe p),
      .loop (.block [.loop (.block [perhaps (.block [.release (.pipe p),.ret]),.call .wakeup,.call (.sleep (.pipe p))]),
        touch]),
      .call .wakeup,.release (.pipe p)]
  | .piperead p =>
    .block [.acquire (.pipe p),.loop (.block [perhaps (.block [.release (.pipe p),.ret]),.call (.sleep (.pipe p))]),
      .loop touch,.call .wakeup,.release (.pipe p)]
  | .sysDup => .block [perhaps .ret,.call .filedup]
  | .sysRead => .block [perhaps .ret,.call .fileread]
  | .sysWrite => .block [perhaps .ret,.call .filewrite]
  | .sysClose => .block [perhaps .ret,.call .fileclose]
  | .sysFstat => .block [perhaps .ret,.call .filestat]
  | .sysLink =>
    .block [perhaps .ret,calls [.beginOp,.namex],perhaps (.block [.call .endOp,.ret]),.pick fun ip => .pick fun dp =>
      .block [.call (.ilock ip),perhaps (.block [calls [.iunlockput ip,.endOp],.ret]),
        calls [.iupdate,.iunlock ip,.namex],
        perhaps (.block [.call (.ilock dp),
          either (.block [.call (.dirlink dp),perhaps (.block [calls [.iunlockput dp,.iput ip,.endOp],.ret])]) .skip,
          .call (.iunlockput dp)]),
        calls [.ilock ip,.iupdate,.iunlockput ip,.endOp]]]
  | .isdirempty dp => .loop (.block [.call (.readi dp),perhaps .panic,perhaps .ret])
  | .sysUnlink =>
    .block [perhaps .ret,calls [.beginOp,.namex],perhaps (.block [.call .endOp,.ret]),.pick fun dp => .pick fun ip =>
      .block [.call (.ilock dp),
        perhaps (.block [.call (.dirlookup dp),
          perhaps (.block [.call (.ilock ip),perhaps .panic,perhaps (.call (.isdirempty ip)),
            either (.call (.iunlockput ip))
              (.block [.call (.writei dp),perhaps .panic,perhaps (.call .iupdate),
                calls [.iunlockput dp,.iupdate,.iunlockput ip,.endOp],.ret])])]),
        calls [.iunlockput dp,.endOp]]]
  | .create =>
    .block [.call .namex,perhaps .ret,.pick fun dp => .pick fun ip =>
      .block [calls [.ilock dp,.dirlookup dp],
        perhaps (.block [calls [.iunlockput dp,.ilock ip],perhaps .ret,.call (.iunlockput ip),.ret]),
        .call .ialloc,perhaps .panic,calls [.ilock ip,.iupdate],
        perhaps (.block [calls [.iupdate,.dirlink ip],perhaps .panic,.call (.dirlink ip),perhaps .panic]),
        .call (.dirlink dp),perhaps .panic,.call (.iunlockput dp)]]
  | .sysOpen =>
    .block [perhaps .ret,.call .beginOp,.pick fun ip =>
      .block [either (.block [.call .create,perhaps (.block [.call .endOp,.ret])])
          (.block [.call .namex,perhaps (.block [.call .endOp,.ret]),.call (.ilock ip),
            perhaps (.block [calls [.iunlockput ip,.endOp],.ret])]),
        .call .filealloc,
        perhaps (.block [perhaps (.call .fileclose),calls [.iunlockput ip,.endOp],.ret]),
        calls [.iunlock ip,.endOp]]]
  | .sysMkdir =>
    .block [.call .beginOp,perhaps (.block [perhaps (.call .create),.call .endOp,.ret]),.call .create,
      .pick fun ip => calls [.iunlockput ip,.endOp]]
  | .sysMknod =>
    .block [.call .beginOp,perhaps (.block [perhaps (.call .create),.call .endOp,.ret]),.call .create,
      .pick fun ip => calls [.iunlockput ip,.endOp]]
  | .sysChdir =>
    .block [.call .beginOp,perhaps (.block [perhaps (.call .namex),.call .endOp,.ret]),.call .namex,
      .pick fun ip => .block [.call (.ilock ip),perhaps (.block [calls [.iunlockput ip,.endOp],.ret]),
        .call (.iunlock ip),.pick fun cwd => .call (.iput cwd),.call .endOp]]
  | .sysExec => .block [perhaps .ret,.loop (perhaps .ret),.call .exec]
  | .sysPipe =>
    .block [perhaps .ret,.call .pipealloc,perhaps .ret,perhaps (.block [calls [.fileclose,.fileclose],.ret])]
  | .sysKill => .block [perhaps .ret,.call .kill]
  | .sysSbrk => .block [perhaps .ret,.call .growproc]
  | .sysSleep =>
    .block [perhaps .ret,.acquire .ticks,
      .loop (.block [perhaps (.block [.release .ticks,.ret]),.call (.sleep .ticks)]),.release .ticks]
  | .sysUptime => .block [.acquire .ticks,.release .ticks]
  | .sysKthreadCreate => .block [perhaps .ret,perhaps .ret,.call .kthreadCreate]
  | .sysKthreadJoin => .block [perhaps .ret,.call .kthreadJoin]
  | .exec =>
    .block [perhaps (.call .kthreadExit),.acquire .ptable,.release .ptable,.loop (.loop (perhaps (.call .kfree))),
      calls [.beginOp,.namex],perhaps (.block [calls [.endOp,.cprintf],.ret]),.pick fun ip =>
      .block [calls [.ilock ip,.readi ip],perhaps (execBad ip),.call .setupkvm,perhaps (execBad ip),
        .loop (.block [.call (.readi ip),perhaps (execBad ip),
          perhaps (.block [perhaps (execBad ip),.call .allocuvm,perhaps (execBad ip),.call (.loaduvm ip),
            perhaps (execBad ip)])]),
        calls [.iunlockput ip,.endOp],.acquire .ptable,.call .allocuvm,perhaps execBadLocked,.call .clearpteu,
        .loop (.block [touch,perhaps execBadLocked,touch,.call .copyout,perhaps execBadLocked]),
        .call .copyout,perhaps execBadLocked,.loop touch,.release .ptable,.call .freevm]]

/-- A new thread: `forkret`, with the lock that the scheduler has taken, and then the traps of user code. -/
def forkret : Code :=
  .block [.release .ptable,perhaps (calls [.iinit,.initlog]),.forever (.call .trap)]

def kernel : Locks.Code Lock Fn Chance := ⟨body,.trap,[.run forkret]⟩

def mpmain (first : Bool) : Code :=
  .block [if first then .call .userinit else .skip,calls [.cprintf,.scheduler]]

/-- The processors before they run any process; the slots of all threads are ready to be set up. -/
def boot {C : Type} (T : Type) (first : C → Bool) : State C T Lock Fn Chance where
  cpu c := ⟨[.run (mpmain (first c))],[],none,[]⟩
  saved _ := some [.run forkret]

end Kthreads.Spin
