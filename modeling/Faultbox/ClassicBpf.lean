-- The classic packet filter machine: an accumulator, an index register and
-- sixteen scratch words. A program jumps forward only, so a run is one pass
-- over its instructions. The rules say where a step goes on, and that a block
-- whose steps end inside it or right after it can be put before any rest.
import Mathlib.Data.List.Basic

namespace bpf

/-! ## Instructions and machine -/

/-- One instruction, as `struct sock_filter` holds it. -/
structure Insn where
  code : UInt16
  jt : UInt8 := 0
  jf : UInt8 := 0
  k : UInt32 := 0

structure Machine where
  a : UInt32 := 0
  x : UInt32 := 0
  scratch : List UInt32 := List.replicate 16 0

/-- Where a step goes: past `skip` further instructions, to the end of the
program with a value, or nowhere, as the instruction is refused. -/
inductive Outcome where
  | next (skip : Nat) (m : Machine)
  | ret (value : UInt32)
  | invalid

/-- The conditions of the jumps, by the operation bits of the code. -/
def holds (op : Nat) (a b : UInt32) : Option Bool :=
  match op with
  | 0x10 => some (a == b)
  | 0x20 => some (decide (b < a))
  | 0x30 => some (decide (b ≤ a))
  | 0x40 => some (a &&& b != 0)
  | _ => none

def setA (m : Machine) : Option UInt32 → Outcome
  | some v => .next 0 { m with a := v }
  | none => .invalid

def setX (m : Machine) : Option UInt32 → Outcome
  | some v => .next 0 { m with x := v }
  | none => .invalid

def store (m : Machine) (at' : Nat) (v : UInt32) : Outcome :=
  if at' < m.scratch.length then .next 0 { m with scratch := m.scratch.set at' v } else .invalid

def byIndex (i : Insn) : Bool := i.code.toNat &&& 0x08 != 0

def operand (i : Insn) (m : Machine) : UInt32 := if byIndex i then m.x else i.k

/-- A division by a constant zero is refused; by an index register that is zero
it ends the run with 0. -/
def divided (i : Insn) (m : Machine) (op : UInt32 → UInt32 → UInt32) : Outcome :=
  if operand i m = 0 then (if byIndex i then .ret 0 else .invalid)
  else .next 0 { m with a := op m.a (operand i m) }

def shifted (i : Insn) (m : Machine) (op : UInt32 → UInt32 → UInt32) : Outcome :=
  if byIndex i ∨ i.k < 32 then .next 0 { m with a := op m.a (operand i m) } else .invalid

/-- The arithmetic of the machine, by the operation bits of the code. -/
def alu (op : Nat) (i : Insn) (m : Machine) : Outcome :=
  match op with
  | 0x00 => .next 0 { m with a := m.a + operand i m }
  | 0x10 => .next 0 { m with a := m.a - operand i m }
  | 0x20 => .next 0 { m with a := m.a * operand i m }
  | 0x30 => divided i m (· / ·)
  | 0x40 => .next 0 { m with a := m.a ||| operand i m }
  | 0x50 => .next 0 { m with a := m.a &&& operand i m }
  | 0x60 => shifted i m (· <<< ·)
  | 0x70 => shifted i m (· >>> ·)
  | 0x80 => .next 0 { m with a := 0 - m.a }
  | 0x90 => divided i m (· % ·)
  | 0xa0 => .next 0 { m with a := m.a ^^^ operand i m }
  | _ => .invalid

def branch (i : Insn) (m : Machine) : Option Bool → Outcome
  | some true => .next i.jt.toNat m
  | some false => .next i.jf.toNat m
  | none => .invalid

/-- One instruction. `load` is the word of the input at an offset, and `size`
the length of the input. -/
def step (load : UInt32 → Option UInt32) (size : UInt32) (i : Insn) (m : Machine) : Outcome :=
  match i.code.toNat with
  | 0x00 => setA m (some i.k)
  | 0x20 => setA m (load i.k)
  | 0x60 => setA m (m.scratch[i.k.toNat]?)
  | 0x80 => setA m (some size)
  | 0x01 => setX m (some i.k)
  | 0x61 => setX m (m.scratch[i.k.toNat]?)
  | 0x81 => setX m (some size)
  | 0x02 => store m i.k.toNat m.a
  | 0x03 => store m i.k.toNat m.x
  | 0x05 => .next i.k.toNat m
  | 0x06 => .ret i.k
  | 0x16 => .ret m.a
  | 0x07 => setX m (some m.a)
  | 0x87 => setA m (some m.x)
  | code =>
    if code &&& 0x07 = 0x04 then alu (code &&& 0xf0) i m
    else if code &&& 0x07 = 0x05 then branch i m (holds (code &&& 0xf0) m.a (operand i m))
    else .invalid

/-- A run from the instruction after the first `skip` ones; `none` is a refused
instruction or a jump behind the end. -/
def exec (load : UInt32 → Option UInt32) (size : UInt32) :
    List Insn → Nat → Machine → Option UInt32
  | [], _, _ => none
  | _ :: rest, skip + 1, m => exec load size rest skip m
  | i :: rest, 0, m =>
    match step load size i m with
    | .next skip m' => exec load size rest skip m'
    | .ret v => some v
    | .invalid => none

def run (load : UInt32 → Option UInt32) (size : UInt32) (prog : List Insn) : Option UInt32 :=
  exec load size prog 0 {}

variable {load : UInt32 → Option UInt32} {size : UInt32} {m : Machine} {rest : List Insn}

/-! ## The three instructions of a simple filter -/

/-- `LD | W | ABS`. -/
theorem exec_ld {off v : UInt32} (jt jf : UInt8) (h : load off = some v) :
    exec load size (⟨0x20, jt, jf, off⟩ :: rest) 0 m = exec load size rest 0 { m with a := v } := by
  have hs : step load size ⟨0x20, jt, jf, off⟩ m = setA m (load off) := rfl
  rw [exec, hs, h]
  rfl

theorem step_jeq_eq (jt jf : UInt8) (k : UInt32) :
    step load size ⟨0x15, jt, jf, k⟩ m = .next (if m.a = k then jt.toNat else jf.toNat) m := by
  have hs : step load size ⟨0x15, jt, jf, k⟩ m =
      branch ⟨0x15, jt, jf, k⟩ m (some (m.a == k)) := by
    simp [step, operand, byIndex, holds]
  rw [hs]
  by_cases h : m.a = k
  · rw [if_pos h, beq_iff_eq.mpr h]
    rfl
  · rw [if_neg h, beq_eq_false_iff_ne.mpr h]
    rfl

/-- `JMP | JEQ | K`. -/
theorem exec_jeq (jt jf : UInt8) (k : UInt32) :
    exec load size (⟨0x15, jt, jf, k⟩ :: rest) 0 m =
      exec load size rest (if m.a = k then jt.toNat else jf.toNat) m := by
  rw [exec, step_jeq_eq]

/-- `RET | K`. -/
theorem exec_ret (jt jf : UInt8) (k : UInt32) :
    exec load size (⟨0x06, jt, jf, k⟩ :: rest) 0 m = some k := rfl

theorem exec_past (block : List Insn) (skip : Nat) :
    exec load size (block ++ rest) (block.length + skip) m = exec load size rest skip m := by
  induction block with
  | nil => rw [List.nil_append, List.length_nil, Nat.zero_add]
  | cons i block ih =>
    rw [List.length_cons, Nat.add_right_comm, List.cons_append, exec, ih]

/-! ## Jumps that stay inside -/

/-- From every instruction and every state of the machine, the next instruction
is one of the block, or the first one after it. -/
def Closed (load : UInt32 → Option UInt32) (size : UInt32) (block : List Insn) : Prop :=
  ∀ pos i m skip m', block[pos]? = some i → step load size i m = .next skip m' →
    pos + 1 + skip ≤ block.length

/-- From every instruction and every state of the machine, the next instruction
is one of the program. -/
def StaysInside (load : UInt32 → Option UInt32) (size : UInt32) (prog : List Insn) : Prop :=
  ∀ pos i m skip m', prog[pos]? = some i → step load size i m = .next skip m' →
    pos + 1 + skip < prog.length

theorem closed_nil : Closed load size [] := by
  intro pos i m skip m' hi _
  rw [List.getElem?_nil] at hi
  cases hi

theorem closed_cons {i : Insn} {block : List Insn}
    (hi : ∀ m skip m', step load size i m = .next skip m' → skip ≤ block.length)
    (h : Closed load size block) : Closed load size (i :: block) := by
  intro pos j m skip m' hj hs
  cases pos with
  | zero =>
    rw [List.getElem?_cons_zero] at hj
    cases hj
    have := hi m skip m' hs
    rw [List.length_cons]
    omega
  | succ pos =>
    rw [List.getElem?_cons_succ] at hj
    have := h pos j m skip m' hj hs
    rw [List.length_cons]
    omega

theorem closed_append {xs ys : List Insn} (hx : Closed load size xs) (hy : Closed load size ys) :
    Closed load size (xs ++ ys) := by
  intro pos i m skip m' hi hs
  rw [List.length_append]
  rcases Nat.lt_or_ge pos xs.length with hp | hp
  · rw [List.getElem?_append_left hp] at hi
    have := hx pos i m skip m' hi hs
    omega
  · rw [List.getElem?_append_right hp] at hi
    have := hy (pos - xs.length) i m skip m' hi hs
    omega

theorem closed_flatMap {α : Type} {f : α → List Insn} {l : List α}
    (h : ∀ a ∈ l, Closed load size (f a)) : Closed load size (l.flatMap f) := by
  induction l with
  | nil => exact closed_nil
  | cons a l ih =>
    rw [List.flatMap_cons]
    exact closed_append (h a List.mem_cons_self) (ih fun b hb => h b (List.mem_cons_of_mem a hb))

theorem staysInside_concat {block : List Insn} {i : Insn} (h : Closed load size block)
    (hi : ∀ m skip m', step load size i m ≠ .next skip m') :
    StaysInside load size (block ++ [i]) := by
  intro pos j m skip m' hj hs
  rw [List.length_append, List.length_singleton]
  rcases Nat.lt_or_ge pos block.length with hp | hp
  · rw [List.getElem?_append_left hp] at hj
    have := h pos j m skip m' hj hs
    omega
  · rw [List.getElem?_append_right hp, List.getElem?_singleton] at hj
    split at hj
    · cases hj
      exact absurd hs (hi m skip m')
    · cases hj

/-! ## Steps of the three instructions -/

theorem step_ld {jt jf : UInt8} {off : UInt32} {skip : Nat} {m' : Machine}
    (h : step load size ⟨0x20, jt, jf, off⟩ m = .next skip m') : skip = 0 := by
  have hs : step load size ⟨0x20, jt, jf, off⟩ m = setA m (load off) := rfl
  rw [hs] at h
  cases hl : load off with
  | none =>
    rw [hl] at h
    cases h
  | some v =>
    rw [hl] at h
    cases h
    rfl

theorem step_jeq {jt jf : UInt8} {k : UInt32} {skip : Nat} {m' : Machine}
    (h : step load size ⟨0x15, jt, jf, k⟩ m = .next skip m') :
    skip = jt.toNat ∨ skip = jf.toNat := by
  rw [step_jeq_eq] at h
  cases h
  split
  · exact Or.inl rfl
  · exact Or.inr rfl

theorem step_ret {jt jf : UInt8} {k : UInt32} (m : Machine) (skip : Nat) (m' : Machine) :
    step load size ⟨0x06, jt, jf, k⟩ m ≠ .next skip m' := by
  intro h
  cases h

end bpf
