-- The fault rules of the engine: what a rule says, the trigger and the
-- probability that decide on one call, and the classes of system calls and
-- paths that the filters distinguish.
import Faultbox.FanOutSize
import Faultbox.PathMatch

open gopath faultbox.plan_tree faultbox.pathmatch

namespace faultbox.engine

/-! ## System calls -/

inductive Arch where
  | amd64
  | arm64

/-- `syscallNames` of each architecture. -/
def syscallNames : Arch → List (Nat × String)
  | .amd64 =>
    [(0, "read"), (1, "write"), (2, "open"), (3, "close"), (17, "pread64"), (18, "pwrite64"),
     (19, "readv"), (20, "writev"), (42, "connect"), (43, "accept"), (44, "sendto"),
     (45, "recvfrom"), (46, "sendmsg"), (47, "recvmsg"), (49, "bind"), (50, "listen"),
     (41, "socket"), (74, "fsync"), (75, "fdatasync"), (257, "openat"), (83, "mkdir"),
     (84, "rmdir"), (87, "unlink"), (263, "unlinkat"), (258, "mkdirat"), (4, "stat"),
     (5, "fstat"), (6, "lstat"), (262, "newfstatat"), (9, "mmap"), (10, "mprotect"), (12, "brk"),
     (16, "ioctl"), (21, "access"), (56, "clone"), (57, "fork"), (59, "execve"), (60, "exit"),
     (61, "wait4"), (39, "getpid"), (63, "uname"), (72, "fcntl"), (78, "getdents"),
     (89, "readlink"), (217, "getdents64"), (302, "prlimit64"), (318, "getrandom"),
     (231, "exit_group"), (13, "sigaction"), (14, "sigprocmask"), (15, "sigreturn"),
     (35, "nanosleep"), (228, "clock_gettime"), (230, "clock_nanosleep"), (202, "futex"),
     (7, "poll"), (23, "select"), (270, "pselect6"), (271, "ppoll")]
  | .arm64 =>
    [(56, "openat"), (57, "close"), (63, "read"), (64, "write"), (67, "pread64"),
     (68, "pwrite64"), (82, "fsync"), (83, "fdatasync"), (203, "connect"), (198, "socket"),
     (200, "bind"), (201, "listen"), (202, "accept"), (204, "getsockname"), (206, "sendto"),
     (207, "recvfrom"), (211, "sendmsg"), (212, "recvmsg"), (222, "mmap"), (226, "mprotect"),
     (233, "mkdirat"), (35, "unlinkat"), (48, "faccessat"), (79, "fstatat"), (61, "getdents64"),
     (78, "readlinkat"), (160, "uname"), (172, "getpid"), (214, "brk"), (260, "wait4"),
     (220, "clone"), (221, "execve"), (93, "exit"), (94, "exit_group"), (261, "prlimit64"),
     (29, "ioctl"), (25, "fcntl"), (66, "writev"), (65, "readv"), (278, "getrandom"),
     (73, "ppoll"), (72, "pselect6"), (134, "sigaction"), (135, "sigprocmask"),
     (139, "sigreturn"), (101, "nanosleep"), (113, "clock_gettime"), (115, "clock_nanosleep"),
     (422, "futex")]

def syscallName (arch : Arch) (nr : Nat) : String :=
  ((syscallNames arch).lookup nr).getD ("syscall_" ++ toString nr)

/-- `SyscallNumber`; the -1 of an unknown name is `none`. -/
def syscallNumber (arch : Arch) (name : String) : Option Nat :=
  ((syscallNames arch).find? fun e => e.2 == name).map (·.1)

def isFileSyscall (name : String) : Bool :=
  ["open", "openat", "creat", "mkdirat", "unlinkat", "faccessat", "fstatat", "readlinkat",
    "renameat", "renameat2", "linkat", "symlinkat"].contains name

def isFdSyscall (name : String) : Bool :=
  ["write", "writev", "pwrite64", "pwritev", "pwritev2", "read", "readv", "pread64", "preadv",
    "preadv2", "fsync", "fdatasync", "ftruncate", "fchmod", "fchown"].contains name

def isTimeSyscall (name : String) : Bool :=
  ["nanosleep", "clock_nanosleep", "clock_gettime"].contains name

def systemPathPrefixes : List String :=
  ["/lib/", "/lib64/", "/usr/lib/", "/usr/lib64/", "/proc/", "/sys/", "/dev/", "/etc/ld.so."]

def isSystemPath (path : Bytes) : Bool :=
  systemPathPrefixes.any fun start => (bytes start).isPrefixOf path

/-! ## Rules -/

inductive FaultAction where
  | deny
  | delay
  | hold
  | trace
deriving DecidableEq

inductive FaultTrigger where
  | always
  | nth
  | after
deriving DecidableEq

/-- `FaultRule`, with the values of its two counters; a nil counter is zero. -/
structure FaultRule where
  syscall : String
  action : FaultAction := .deny
  errno : Nat := 0
  delay : Int := 0
  probability : Rat := 0
  pathGlob : Bytes := []
  trigger : FaultTrigger := .always
  triggerN : Int := 0
  destAddr : String := ""
  label : String := ""
  op : String := ""
  holdTag : String := ""
  maxFires : Int := 0
  mode : FanoutMode := .unset
  counter : Nat := 0
  probCounter : Nat := 0
deriving DecidableEq

def FaultRule.matchPath (r : FaultRule) (path : Bytes) : Bool := globMatch r.pathGlob path

def FaultRule.onPath (r : FaultRule) (path : Bytes) : Bool :=
  r.matchPath path || r.matchPath (dir path ++ [slash])

def FaultRule.installed (r : FaultRule) : FaultRule := { r with counter := 0, probCounter := 0 }

/-! ## The decision on one call -/

/-- What `rand.Float64` can return. -/
structure Draw where
  val : Rat
  nonneg : 0 ≤ val
  lt_one : val < 1

/-- `ShouldFire`: counts the call, and says whether the trigger selects it. -/
def FaultRule.shouldFire (r : FaultRule) : Bool × FaultRule :=
  let n : Int := r.counter + 1
  let fires := match r.trigger with
    | .nth => n == r.triggerN
    | .after => decide (n > r.triggerN)
    | .always => true
  (fires, { r with counter := r.counter + 1 })

/-- `NextProbabilityOccurrence`. -/
def FaultRule.nextProbabilityOccurrence (r : FaultRule) : Nat × FaultRule :=
  (r.probCounter, { r with probCounter := r.probCounter + 1 })

/-- A `ProbabilityDecider`: `none` when the leaf does not pin the occurrence. -/
abbrev Decider : Type := FaultRule → Nat → Option Bool

/-- The random draw, overruled by a decider that pins the occurrence. -/
def FaultRule.fireDecision (decider : Option Decider) (draw : Draw) (r : FaultRule) :
    Bool × FaultRule :=
  let fire := decide (draw.val < r.probability)
  match decider with
  | none => (fire, r)
  | some d =>
    if r.mode = .stochastic then (fire, r)
    else
      let (occ, r') := r.nextProbabilityOccurrence
      ((d r' occ).getD fire, r')

def FaultRule.selects (decider : Option Decider) (draw : Draw) (r : FaultRule) : Bool :=
  r.shouldFire.1 && (r.shouldFire.2.fireDecision decider draw).1

theorem FaultRule.installed_shouldFire (r : FaultRule) :
    r.shouldFire.2.installed = r.installed := rfl

theorem FaultRule.installed_fireDecision (decider : Option Decider) (draw : Draw)
    (r : FaultRule) : (r.fireDecision decider draw).2.installed = r.installed := by
  unfold FaultRule.fireDecision
  split
  · rfl
  · split
    · rfl
    · rfl

end faultbox.engine
