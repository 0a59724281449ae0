-- The seccomp program that the shim installs. It asks the supervisor about the
-- listed system calls of the native architecture, except a read or a write on
-- a descriptor that the shim itself needs, and lets every other call pass.
import Faultbox.ClassicBpf
import Faultbox.FaultRules
import Mathlib.Algebra.Order.BigOperators.Group.List
import Mathlib.Data.Bool.AllAny
import Mathlib.Data.List.Perm.Subperm

open bpf faultbox.engine

namespace faultbox.seccomp

/-! ## The data of a call -/

/-- `struct seccomp_data`. -/
structure SeccompData where
  nr : UInt32
  arch : UInt32
  instructionPointer : UInt64
  args : Vector UInt64 6

def low (w : UInt64) : UInt32 := w.toUInt32

def high (w : UInt64) : UInt32 := (w >>> 32).toUInt32

/-- The word at an offset; both architectures store the low word first. -/
def SeccompData.word (d : SeccompData) (off : UInt32) : Option UInt32 :=
  match off.toNat with
  | 0 => some d.nr
  | 4 => some d.arch
  | 8 => some (low d.instructionPointer)
  | 12 => some (high d.instructionPointer)
  | n =>
    if n % 4 = 0 then
      (d.args[(n - 16) / 8]?).map fun arg => if n % 8 = 0 then low arg else high arg
    else none

/-- The size of `struct seccomp_data`. -/
def dataSize : UInt32 := 64

/-! ## The program -/

def retAllow : UInt32 := 0x7fff0000

def retUserNotif : UInt32 := 0x7fc00000

def offsetNr : UInt32 := 0

def offsetArch : UInt32 := 4

def offsetArgs0 : UInt32 := 16

/-- The code `bpfLD | bpfW | bpfABS`. -/
def codeLoad : UInt16 := 0x00 ||| 0x00 ||| 0x20

/-- The code `bpfJMP | bpfJEQ | bpfK`. -/
def codeJumpEq : UInt16 := 0x05 ||| 0x10 ||| 0x00

/-- The code `bpfRET`. -/
def codeRet : UInt16 := 0x06

/-- `AUDIT_ARCH_X86_64` and `AUDIT_ARCH_AARCH64`. -/
def nativeArch : Arch → UInt32
  | .amd64 => 0xC000003E
  | .arm64 => 0xC00000B7

def uint32 (n : Int) : UInt32 := UInt32.ofNat (n % 2 ^ 32).toNat

def writeFamily : List String := ["write", "writev", "pwrite64"]

def socketFamily : List String :=
  ["read", "readv", "pread64", "sendmsg", "sendto", "recvmsg", "recvfrom"]

/-- The six instructions of a call with an allowed descriptor. -/
def fdWhitelist (nr : UInt32) (allowFd : Int) : List Insn :=
  [{ code := codeJumpEq, jt := 0, jf := 5, k := nr },
   { code := codeLoad, k := offsetArgs0 },
   { code := codeJumpEq, jt := 1, jf := 0, k := uint32 allowFd },
   { code := codeRet, k := retUserNotif },
   { code := codeRet, k := retAllow },
   { code := codeLoad, k := offsetNr }]

def notify (nr : UInt32) : List Insn :=
  [{ code := codeJumpEq, jt := 0, jf := 1, k := nr },
   { code := codeRet, k := retUserNotif }]

/-- The map `writeLike`, as the list of its keys. -/
def writeLike (arch : Arch) (syscallNrs : List UInt32) (allowFdForWrite : Int) : List UInt32 :=
  syscallNrs.filter fun nr =>
    writeFamily.contains (syscallName arch nr.toNat) && decide (0 ≤ allowFdForWrite)

/-- The map `socketLike`, as the list of its keys. -/
def socketLike (arch : Arch) (syscallNrs : List UInt32) (allowFdForSocket : Int) : List UInt32 :=
  syscallNrs.filter fun nr =>
    socketFamily.contains (syscallName arch nr.toNat) && decide (0 ≤ allowFdForSocket)

/-- The instructions of one listed call. -/
def target (arch : Arch) (syscallNrs : List UInt32) (allowFdForWrite allowFdForSocket : Int)
    (nr : UInt32) : List Insn :=
  if nr ∈ writeLike arch syscallNrs allowFdForWrite then fdWhitelist nr allowFdForWrite
  else if nr ∈ socketLike arch syscallNrs allowFdForSocket then fdWhitelist nr allowFdForSocket
  else notify nr

def archCheckIdx : Nat := 1

/-- `buildFilter`: the jump of the architecture check is patched at the end, when
the length is known, and is a byte. -/
def buildFilter (arch : Arch) (syscallNrs : List UInt32) (allowFdForWrite allowFdForSocket : Int) :
    List Insn :=
  let insns :=
    [{ code := codeLoad, k := offsetArch },
     { code := codeJumpEq, jt := 0, jf := 0, k := nativeArch arch },
     { code := codeLoad, k := offsetNr }] ++
    syscallNrs.flatMap (target arch syscallNrs allowFdForWrite allowFdForSocket) ++
    [{ code := codeRet, k := retAllow }]
  insns.modify archCheckIdx fun i =>
    { i with jf := UInt8.ofNat (insns.length - archCheckIdx - 2) }

def verdict (prog : List Insn) (d : SeccompData) : Option UInt32 := run d.word dataSize prog

/-! ## What a call means -/

/-- The call is of a family with an allowed descriptor, and on that descriptor. -/
def OnAllowedFd (arch : Arch) (allowFdForWrite allowFdForSocket : Int) (d : SeccompData) : Prop :=
  (syscallName arch d.nr.toNat ∈ writeFamily ∧ 0 ≤ allowFdForWrite ∧
      low d.args[0] = uint32 allowFdForWrite) ∨
    (syscallName arch d.nr.toNat ∈ socketFamily ∧ 0 ≤ allowFdForSocket ∧
      low d.args[0] = uint32 allowFdForSocket)

/-- The supervisor is asked about the call. -/
def Intercepted (arch : Arch) (syscallNrs : List UInt32) (allowFdForWrite allowFdForSocket : Int)
    (d : SeccompData) : Prop :=
  d.arch = nativeArch arch ∧ d.nr ∈ syscallNrs ∧
    ¬ OnAllowedFd arch allowFdForWrite allowFdForSocket d

instance (arch : Arch) (w s : Int) (d : SeccompData) : Decidable (OnAllowedFd arch w s d) :=
  inferInstanceAs (Decidable (_ ∨ _))

instance (arch : Arch) (nrs : List UInt32) (w s : Int) (d : SeccompData) :
    Decidable (Intercepted arch nrs w s d) :=
  inferInstanceAs (Decidable (_ ∧ _))

variable {arch : Arch} {nrs : List UInt32} {w s : Int} {d : SeccompData}

variable {nr : UInt32} {block : List Insn}

theorem mem_writeLike :
    nr ∈ writeLike arch nrs w ↔ nr ∈ nrs ∧ syscallName arch nr.toNat ∈ writeFamily ∧ 0 ≤ w := by
  simp only [writeLike, List.mem_filter, Bool.and_eq_true, List.contains_iff_mem,
    decide_eq_true_eq]

theorem mem_socketLike :
    nr ∈ socketLike arch nrs s ↔
      nr ∈ nrs ∧ syscallName arch nr.toNat ∈ socketFamily ∧ 0 ≤ s := by
  simp only [socketLike, List.mem_filter, Bool.and_eq_true, List.contains_iff_mem,
    decide_eq_true_eq]

theorem families_disjoint {name : String} (hw : name ∈ writeFamily) : name ∉ socketFamily := by
  have h : ∀ n ∈ writeFamily, n ∉ socketFamily := by decide
  exact h name hw

/-! ## One block -/

section blocks

variable {m : Machine} {rest : List Insn}

theorem word_nr : d.word offsetNr = some d.nr := rfl

theorem word_arch : d.word offsetArch = some d.arch := rfl

theorem word_args0 : d.word offsetArgs0 = some (low d.args[0]) := by
  simp [SeccompData.word, offsetArgs0]

theorem notify_block (nr : UInt32) (h : m.a = d.nr) :
    exec d.word dataSize (notify nr ++ rest) 0 m =
      if d.nr = nr then some retUserNotif else exec d.word dataSize rest 0 m := by
  have hj : exec d.word dataSize (notify nr ++ rest) 0 m =
      exec d.word dataSize ([⟨codeRet, 0, 0, retUserNotif⟩] ++ rest)
        (if m.a = nr then 0 else 1) m := exec_jeq 0 1 nr
  rw [hj, h]
  split
  · exact exec_ret 0 0 retUserNotif
  · exact exec_past [⟨codeRet, 0, 0, retUserNotif⟩] 0

theorem fdWhitelist_block (nr : UInt32) (allowFd : Int) (h : m.a = d.nr) :
    exec d.word dataSize (fdWhitelist nr allowFd ++ rest) 0 m =
      if d.nr = nr then
        some (if low d.args[0] = uint32 allowFd then retAllow else retUserNotif)
      else exec d.word dataSize rest 0 m := by
  have hj : exec d.word dataSize (fdWhitelist nr allowFd ++ rest) 0 m =
      exec d.word dataSize ((fdWhitelist nr allowFd).tail ++ rest)
        (if m.a = nr then 0 else 5) m := exec_jeq 0 5 nr
  rw [hj, h]
  split
  · have hl : exec d.word dataSize ((fdWhitelist nr allowFd).tail ++ rest) 0 m =
        exec d.word dataSize ((fdWhitelist nr allowFd).tail.tail ++ rest) 0
          { m with a := low d.args[0] } := exec_ld 0 0 word_args0
    have hfd : exec d.word dataSize ((fdWhitelist nr allowFd).tail.tail ++ rest) 0
          { m with a := low d.args[0] } =
        exec d.word dataSize ((fdWhitelist nr allowFd).tail.tail.tail ++ rest)
          (if low d.args[0] = uint32 allowFd then 1 else 0) { m with a := low d.args[0] } :=
      exec_jeq 1 0 (uint32 allowFd)
    rw [hl, hfd]
    split
    · rfl
    · rfl
  · exact exec_past (fdWhitelist nr allowFd).tail 0

/-- Which of the two blocks a listed call has is what its family says. -/
theorem target_block (hnr : nr ∈ nrs) (h : m.a = d.nr) :
    exec d.word dataSize (target arch nrs w s nr ++ rest) 0 m =
      if d.nr = nr then
        some (if OnAllowedFd arch w s d then retAllow else retUserNotif)
      else exec d.word dataSize rest 0 m := by
  rw [target]
  split
  · rename_i hw
    obtain ⟨-, hfam, hpos⟩ := mem_writeLike.mp hw
    rw [fdWhitelist_block nr w h]
    split
    · rename_i heq
      subst heq
      have hiff : OnAllowedFd arch w s d ↔ low d.args[0] = uint32 w := by
        simp only [OnAllowedFd, hfam, hpos, families_disjoint hfam, true_and, false_and, or_false]
      simp only [hiff]
    · rfl
  · rename_i hw
    split
    · rename_i hs
      obtain ⟨-, hfam, hpos⟩ := mem_socketLike.mp hs
      rw [fdWhitelist_block nr s h]
      split
      · rename_i heq
        subst heq
        have hnot : syscallName arch d.nr.toNat ∉ writeFamily := fun hf =>
          families_disjoint hf hfam
        have hiff : OnAllowedFd arch w s d ↔ low d.args[0] = uint32 s := by
          simp only [OnAllowedFd, hfam, hpos, hnot, true_and, false_and, false_or]
        simp only [hiff]
      · rfl
    · rename_i hs
      rw [notify_block nr h]
      split
      · rename_i heq
        subst heq
        have hnot : ¬ OnAllowedFd arch w s d := by
          rintro (⟨hf, hpos, -⟩ | ⟨hf, hpos, -⟩)
          · exact hw (mem_writeLike.mpr ⟨hnr, hf, hpos⟩)
          · exact hs (mem_socketLike.mpr ⟨hnr, hf, hpos⟩)
        rw [if_neg hnot]
      · rfl

/-- The blocks of a part of the list, by induction on it: they decide on the calls
of that part and leave the number of every other call in the accumulator. -/
theorem targets_block {part : List UInt32} (hp : ∀ nr ∈ part, nr ∈ nrs) (h : m.a = d.nr) :
    exec d.word dataSize (part.flatMap (target arch nrs w s) ++ rest) 0 m =
      if d.nr ∈ part then
        some (if OnAllowedFd arch w s d then retAllow else retUserNotif)
      else exec d.word dataSize rest 0 m := by
  induction part with
  | nil => rfl
  | cons nr part ih =>
    rw [List.flatMap_cons, List.append_assoc, target_block (hp nr List.mem_cons_self) h,
      ih fun n hn => hp n (List.mem_cons_of_mem nr hn)]
    by_cases heq : d.nr = nr
    · rw [if_pos heq, if_pos (List.mem_cons.mpr (Or.inl heq))]
    · simp only [heq, if_false, List.mem_cons, false_or]

end blocks

/-! ## The length of the program -/

def blockSize (arch : Arch) (nr : Nat) : Nat :=
  if syscallName arch nr ∈ writeFamily ∨ syscallName arch nr ∈ socketFamily then 6 else 2

theorem target_length_le (nr : UInt32) :
    (target arch nrs w s nr).length ≤ blockSize arch nr.toNat := by
  rw [target, blockSize]
  split
  · rename_i hw
    rw [if_pos (Or.inl (mem_writeLike.mp hw).2.1)]
    exact Nat.le_refl 6
  · split
    · rename_i hs
      rw [if_pos (Or.inr (mem_socketLike.mp hs).2.1)]
      exact Nat.le_refl 6
    · split
      · exact (by decide : 2 ≤ 6)
      · exact Nat.le_refl 2

theorem sum_blockSize_le (hno : nrs.Nodup)
    (ht : ∀ nr ∈ nrs, nr.toNat ∈ (syscallNames arch).map (·.1)) :
    (nrs.map fun nr => blockSize arch nr.toNat).sum ≤
      (((syscallNames arch).map (·.1)).map (blockSize arch)).sum := by
  have hsub : nrs.map UInt32.toNat ⊆ (syscallNames arch).map (·.1) := by
    intro n hn
    obtain ⟨nr, hnr, rfl⟩ := List.mem_map.mp hn
    exact ht nr hnr
  have hno' : (nrs.map UInt32.toNat).Nodup :=
    hno.map fun a b hab => UInt32.toNat_inj.mp hab
  obtain ⟨l, hp, hl⟩ := List.subperm_of_subset hno' hsub
  calc (nrs.map fun nr => blockSize arch nr.toNat).sum
      = ((nrs.map UInt32.toNat).map (blockSize arch)).sum := by rw [List.map_map]; rfl
    _ = (l.map (blockSize arch)).sum := (hp.map (blockSize arch)).sum_eq.symm
    _ ≤ _ := (hl.map (blockSize arch)).sum_le_sum fun n _ => Nat.zero_le n

theorem table_blockSize (arch : Arch) :
    (((syscallNames arch).map (·.1)).map (blockSize arch)).sum ≤ 158 := by
  cases arch
  · decide
  · decide

theorem targets_length_le (hn : nrs.Nodup)
    (ht : ∀ nr ∈ nrs, nr.toNat ∈ (syscallNames arch).map (·.1)) :
    (nrs.flatMap (target arch nrs w s)).length ≤ 158 := by
  rw [List.length_flatMap]
  calc (nrs.map fun nr => (target arch nrs w s nr).length).sum
      ≤ (nrs.map fun nr => blockSize arch nr.toNat).sum :=
        List.sum_le_sum fun nr _ => target_length_le nr
    _ ≤ (((syscallNames arch).map (·.1)).map (blockSize arch)).sum :=
        sum_blockSize_le hn ht
    _ ≤ 158 := table_blockSize arch

/-! ## The whole program -/

/-- The program without its last instruction. -/
def body (arch : Arch) (nrs : List UInt32) (w s : Int) : List Insn :=
  { code := codeLoad, k := offsetArch } ::
  { code := codeJumpEq, jt := 0,
    jf := UInt8.ofNat ((nrs.flatMap (target arch nrs w s)).length + 1), k := nativeArch arch } ::
  { code := codeLoad, k := offsetNr } ::
  nrs.flatMap (target arch nrs w s)

theorem buildFilter_eq (arch : Arch) (nrs : List UInt32) (w s : Int) :
    buildFilter arch nrs w s = body arch nrs w s ++ [{ code := codeRet, k := retAllow }] := by
  simp [buildFilter, body, archCheckIdx]

theorem archJump_toNat (hn : nrs.Nodup)
    (ht : ∀ nr ∈ nrs, nr.toNat ∈ (syscallNames arch).map (·.1)) :
    (UInt8.ofNat ((nrs.flatMap (target arch nrs w s)).length + 1)).toNat =
      (nrs.flatMap (target arch nrs w s)).length + 1 := by
  have hle := targets_length_le (w := w) (s := s) hn ht
  rw [UInt8.toNat_ofNat']
  exact Nat.mod_eq_of_lt (by omega)

/-- The architecture check jumps over the load of the number and all blocks. -/
theorem verdict_eq (hn : nrs.Nodup)
    (ht : ∀ nr ∈ nrs, nr.toNat ∈ (syscallNames arch).map (·.1)) :
    verdict (buildFilter arch nrs w s) d =
      some (if Intercepted arch nrs w s d then retUserNotif else retAllow) := by
  let blocks := nrs.flatMap (target arch nrs w s)
  let last : List Insn := [{ code := codeRet, k := retAllow }]
  let loadNr : Insn := { code := codeLoad, k := offsetNr }
  have har : verdict (buildFilter arch nrs w s) d =
      exec d.word dataSize (loadNr :: (blocks ++ last))
        (if d.arch = nativeArch arch then 0 else (UInt8.ofNat (blocks.length + 1)).toNat)
        { a := d.arch } := by
    rw [buildFilter_eq]
    exact (exec_ld 0 0 word_arch).trans (exec_jeq 0 _ (nativeArch arch))
  rw [har, archJump_toNat hn ht]
  by_cases ha : d.arch = nativeArch arch
  · have hl : exec d.word dataSize (loadNr :: (blocks ++ last)) 0 { a := d.arch } =
        exec d.word dataSize (blocks ++ last) 0 { a := d.nr } := exec_ld 0 0 word_nr
    rw [if_pos ha, hl, targets_block (fun _ h => h) rfl]
    by_cases hmem : d.nr ∈ nrs
    · rw [if_pos hmem]
      by_cases hfd : OnAllowedFd arch w s d
      · rw [if_pos hfd, if_neg fun h : Intercepted arch nrs w s d => h.2.2 hfd]
      · have hint : Intercepted arch nrs w s d := ⟨ha, hmem, hfd⟩
        rw [if_neg hfd, if_pos hint]
    · rw [if_neg hmem, if_neg fun h : Intercepted arch nrs w s d => hmem h.2.1]
      exact exec_ret 0 0 retAllow
  · rw [if_neg ha, if_neg fun h : Intercepted arch nrs w s d => ha h.1]
    have hp : exec d.word dataSize ((loadNr :: blocks) ++ last) (blocks.length + 1)
        { a := d.arch } = exec d.word dataSize last 0 { a := d.arch } :=
      exec_past (loadNr :: blocks) 0
    exact hp

/-! ## The jumps -/

theorem closed_load (off : UInt32) (h : Closed d.word dataSize block) :
    Closed d.word dataSize ({ code := codeLoad, k := off } :: block) := by
  refine closed_cons (fun m skip m' hs => ?_) h
  rw [step_ld hs]
  exact Nat.zero_le _

theorem closed_ret (k : UInt32) (h : Closed d.word dataSize block) :
    Closed d.word dataSize ({ code := codeRet, k := k } :: block) :=
  closed_cons (fun m skip m' hs => absurd hs (step_ret m skip m')) h

theorem closed_jumpEq {jt jf : UInt8} (k : UInt32) (ht : jt.toNat ≤ block.length)
    (hf : jf.toNat ≤ block.length) (h : Closed d.word dataSize block) :
    Closed d.word dataSize ({ code := codeJumpEq, jt := jt, jf := jf, k := k } :: block) := by
  refine closed_cons (fun m skip m' hs => ?_) h
  rcases step_jeq hs with rfl | rfl
  · exact ht
  · exact hf

theorem closed_fdWhitelist (nr : UInt32) (allowFd : Int) :
    Closed d.word dataSize (fdWhitelist nr allowFd) :=
  closed_jumpEq nr (Nat.zero_le 5) (Nat.le_refl 5) <| closed_load offsetArgs0 <|
    closed_jumpEq (uint32 allowFd) (by decide) (by decide) <| closed_ret retUserNotif <|
    closed_ret retAllow <| closed_load offsetNr closed_nil

theorem closed_notify (nr : UInt32) : Closed d.word dataSize (notify nr) :=
  closed_jumpEq nr (by decide) (by decide) <| closed_ret retUserNotif closed_nil

theorem closed_target (nr : UInt32) : Closed d.word dataSize (target arch nrs w s nr) := by
  rw [target]
  split
  · exact closed_fdWhitelist nr w
  · split
    · exact closed_fdWhitelist nr s
    · exact closed_notify nr

theorem closed_body (hn : nrs.Nodup)
    (ht : ∀ nr ∈ nrs, nr.toNat ∈ (syscallNames arch).map (·.1)) :
    Closed d.word dataSize (body arch nrs w s) := by
  have hb : Closed d.word dataSize (nrs.flatMap (target arch nrs w s)) :=
    closed_flatMap fun nr _ => closed_target nr
  have hj := archJump_toNat (w := w) (s := s) hn ht
  refine closed_load offsetArch (closed_jumpEq (nativeArch arch) (Nat.zero_le _) ?_
    (closed_load offsetNr hb))
  rw [hj, List.length_cons]

/-- The program asks the supervisor about exactly the listed calls of the native
architecture that are not on an allowed descriptor, lets every other call pass,
and never leaves itself. -/
theorem filter_means_the_list (arch : Arch) (syscallNrs : List UInt32)
    (allowFdForWrite allowFdForSocket : Int) (hnodup : syscallNrs.Nodup)
    (htable : ∀ nr ∈ syscallNrs, nr.toNat ∈ (syscallNames arch).map (·.1)) (d : SeccompData) :
    let prog := buildFilter arch syscallNrs allowFdForWrite allowFdForSocket
    (verdict prog d = some retUserNotif ↔
        Intercepted arch syscallNrs allowFdForWrite allowFdForSocket d) ∧
      (¬ Intercepted arch syscallNrs allowFdForWrite allowFdForSocket d →
        verdict prog d = some retAllow) ∧
      StaysInside d.word dataSize prog := by
  intro prog
  have hv : verdict prog d = _ := verdict_eq hnodup htable
  refine ⟨?_, ?_, ?_⟩
  · rw [hv]
    split
    · rename_i h
      exact ⟨fun _ => h, fun _ => rfl⟩
    · rename_i h
      exact ⟨fun heq => absurd (Option.some.inj heq) (by decide), fun hi => absurd hi h⟩
  · intro h
    rw [hv, if_neg h]
  · have hp : prog = body arch syscallNrs allowFdForWrite allowFdForSocket ++
        [{ code := codeRet, k := retAllow }] := buildFilter_eq _ _ _ _
    rw [hp]
    exact staysInside_concat (closed_body hnodup htable) step_ret

def writeOn (fd : UInt64) : SeccompData :=
  { nr := 1, arch := 0xC000003E, instructionPointer := 0, args := #v[fd, 0, 0, 0, 0, 0] }

/-- The shim writes its own log on descriptor 2 and is not asked about it. -/
theorem filter_of_read_write_and_openat :
    verdict (buildFilter .amd64 [0, 1, 257] 2 3) (writeOn 2) = some retAllow ∧
      verdict (buildFilter .amd64 [0, 1, 257] 2 3) (writeOn 5) = some retUserNotif :=
  have ht : ∀ nr ∈ ([0, 1, 257] : List UInt32),
      nr.toNat ∈ (syscallNames .amd64).map (·.1) := List.all_iff_forall_prop.mp (by decide)
  ⟨(filter_means_the_list .amd64 [0, 1, 257] 2 3 (by decide) ht (writeOn 2)).2.1 (by decide),
    (filter_means_the_list .amd64 [0, 1, 257] 2 3 (by decide) ht (writeOn 5)).1.mpr
      (by decide)⟩

end faultbox.seccomp
