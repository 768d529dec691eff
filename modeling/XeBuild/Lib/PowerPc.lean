import XeBuild.Lib.Runs
import XeBuild.Lib.WordMemory

/-!
# A fragment of the 64-bit PowerPC

The integer instructions of small copy loops, with labels as indices into the
program. Registers are 64 bits wide. A load or store of memory that is not
backed has no successor state. Of the condition register only the equal bit is
kept, and effective addresses are used as they are, whatever the machine state
register says about relocation.
-/

namespace PowerPc

open WordMemory Runs

set_option autoImplicit false

inductive Instr
  | li (rt imm : Nat)
  | lis (rt imm : Nat)
  | ori (ra rs imm : Nat)
  | oris (ra rs imm : Nat)
  | rldicr (ra rs sh me : Nat)
  | addi (rt ra : Nat) (imm : Int)
  | add (rt ra rb : Nat)
  | andc (ra rs rb : Nat)
  | lwzu (rt : Nat) (d : Int) (ra : Nat)
  | stwu (rs : Nat) (d : Int) (ra : Nat)
  | cmpwi (ra : Nat) (imm : Int)
  | beq (target : Nat)
  | b (target : Nat)
  | mtctr (rs : Nat)
  | bdnz (target : Nat)
  | mfmsr (rt : Nat)
  | mtmsrd (rs : Nat)
  | isync
  | dcbst (ra rb : Nat)
  | icbi (ra rb : Nat)

/-- The assembler's name for a shift by whole bits. -/
def Instr.sldi (ra rs n : Nat) : Instr := .rldicr ra rs n (63 - n)

structure Cpu where
  gpr : Nat → Nat
  ctr : Nat
  eq : Bool
  msr : Nat
  pc : Nat
  memory : Memory

/-- The pattern of a signed number in a register. -/
def pattern (value : Int) : Nat := (value % addressSpace).toNat

def extend16 (imm : Nat) : Int := if imm < 0x8000 then imm else (imm : Int) - 0x10000

def rotateLeft (value sh : Nat) : Nat := value * 2 ^ sh % addressSpace + value / 2 ^ (64 - sh)

namespace Cpu

def set (cpu : Cpu) (register value : Nat) : Cpu :=
  { cpu with gpr := fun other => if other = register then value else cpu.gpr other }

def next (cpu : Cpu) : Cpu := { cpu with pc := cpu.pc + 1 }

def goto (cpu : Cpu) (target : Nat) : Cpu := { cpu with pc := target }

/-- `RA|0`. -/
def base (cpu : Cpu) (ra : Nat) : Nat := if ra = 0 then 0 else cpu.gpr ra

@[simp] theorem set_pc (cpu : Cpu) (register value : Nat) : (cpu.set register value).pc = cpu.pc :=
  rfl

@[simp] theorem next_pc (cpu : Cpu) : cpu.next.pc = cpu.pc + 1 := rfl

end Cpu

/-- One instruction; `none` is an access to memory that is not there. -/
def exec (instr : Instr) (cpu : Cpu) : Option Cpu :=
  match instr with
  | .li rt imm => some (cpu.set rt (pattern (extend16 imm))).next
  | .lis rt imm => some (cpu.set rt (pattern (extend16 imm * 0x10000))).next
  | .ori ra rs imm => some (cpu.set ra (cpu.gpr rs ||| imm)).next
  | .oris ra rs imm => some (cpu.set ra (cpu.gpr rs ||| imm * 0x10000)).next
  | .rldicr ra rs sh me =>
      some (cpu.set ra (rotateLeft (cpu.gpr rs) sh / 2 ^ (63 - me) * 2 ^ (63 - me))).next
  | .addi rt ra imm => some (cpu.set rt ((cpu.base ra + pattern imm) % addressSpace)).next
  | .add rt ra rb => some (cpu.set rt ((cpu.gpr ra + cpu.gpr rb) % addressSpace)).next
  | .andc ra rs rb => some (cpu.set ra (cpu.gpr rs &&& (addressSpace - 1 - cpu.gpr rb))).next
  | .lwzu rt d ra =>
      let ea := (cpu.gpr ra + pattern d) % addressSpace
      (loadWord cpu.memory ea).map fun word => ((cpu.set ra ea).set rt word.toNat).next
  | .stwu rs d ra =>
      let ea := (cpu.gpr ra + pattern d) % addressSpace
      (storeWord cpu.memory ea (UInt32.ofNat (cpu.gpr rs))).map fun memory =>
        ({ cpu with memory := memory }.set ra ea).next
  | .cmpwi ra imm =>
      some { cpu with eq := cpu.gpr ra % 0x100000000 = pattern imm % 0x100000000 }.next
  | .beq target => some (if cpu.eq then cpu.goto target else cpu.next)
  | .b target => some (cpu.goto target)
  | .mtctr rs => some { cpu with ctr := cpu.gpr rs }.next
  | .bdnz target =>
      let ctr := (cpu.ctr + (addressSpace - 1)) % addressSpace
      some (if ctr ≠ 0 then { cpu with ctr := ctr }.goto target else { cpu with ctr := ctr }.next)
  | .mfmsr rt => some (cpu.set rt cpu.msr).next
  | .mtmsrd rs => some { cpu with msr := cpu.gpr rs }.next
  | .isync => some cpu.next
  | .dcbst _ _ => some cpu.next
  | .icbi _ _ => some cpu.next

def step (program : List Instr) (cpu : Cpu) : Option Cpu := program[cpu.pc]?.bind (exec · cpu)

/-- Behind the last instruction. -/
def Halted (program : List Instr) (cpu : Cpu) : Prop := cpu.pc = program.length

instance (program : List Instr) : DecidablePred (Halted program) :=
  fun cpu => inferInstanceAs (Decidable (cpu.pc = program.length))

def runProgram (program : List Instr) : Nat → Cpu → Option Cpu :=
    run (step program) (Halted program)

/-! ## Running through a program -/

abbrev Leads (program : List Instr) (first last : Cpu) : Prop :=
  Reaches (step program) (Halted program) first last

abbrev Hangs (program : List Instr) (cpu : Cpu) : Prop := Stuck (step program) (Halted program) cpu

section Steps

variable {program : List Instr} {instr : Instr} {cpu cpu' : Cpu} {rt ra rs address target : Nat}
variable {word : UInt32} {memory : Memory}

theorem fetched_running (fetch : program[cpu.pc]? = some instr) : ¬ Halted program cpu := by
  intro halted
  have inside := (List.getElem?_eq_some_iff.mp fetch).1
  exact absurd halted (Nat.ne_of_lt inside)

theorem fetch_at (program : List Instr) (index : Nat) {pc : Nat} (place : pc = index)
    (here : program[index]? = some instr) :
    program[pc]? = some instr := by
  rw [place, here]

theorem exec_leads (fetch : program[cpu.pc]? = some instr) (moved : exec instr cpu = some cpu') :
    Leads program cpu cpu' := by
  apply reaches_step (fetched_running fetch)
  rw [step, fetch]
  exact moved

theorem exec_hangs (fetch : program[cpu.pc]? = some instr) (failed : exec instr cpu = none) :
    Hangs program cpu := by
  apply stuck_of_step (fetched_running fetch)
  rw [step, fetch]
  exact failed

theorem behind_load (pointer : (cpu.gpr ra + 4) % addressSpace = address % addressSpace) :
    loadWord cpu.memory ((cpu.gpr ra + pattern 4) % addressSpace) =
      loadWord cpu.memory address := by
  apply load_word_congr
  rw [Nat.mod_mod]
  exact pointer

theorem behind_store (pointer : (cpu.gpr ra + 4) % addressSpace = address % addressSpace) :
    storeWord cpu.memory ((cpu.gpr ra + pattern 4) % addressSpace) word =
      storeWord cpu.memory address word := by
  apply store_word_congr
  rw [Nat.mod_mod]
  exact pointer

theorem lwzu_leads (fetch : program[cpu.pc]? = some (.lwzu rt 4 ra))
    (pointer : (cpu.gpr ra + 4) % addressSpace = address % addressSpace)
    (loaded : loadWord cpu.memory address = some word) :
    Leads program cpu ((cpu.set ra (address % addressSpace)).set rt word.toNat).next := by
  apply exec_leads fetch
  have ea : (cpu.gpr ra + pattern 4) % addressSpace = address % addressSpace := pointer
  simp only [exec, behind_load pointer, loaded, Option.map_some]
  rw [ea]

theorem lwzu_hangs (fetch : program[cpu.pc]? = some (.lwzu rt 4 ra))
    (pointer : (cpu.gpr ra + 4) % addressSpace = address % addressSpace)
    (missing : loadWord cpu.memory address = none) : Hangs program cpu := by
  apply exec_hangs fetch
  simp only [exec, behind_load pointer, missing, Option.map_none]

theorem stwu_leads (fetch : program[cpu.pc]? = some (.stwu rs 4 ra))
    (pointer : (cpu.gpr ra + 4) % addressSpace = address % addressSpace)
    (value : cpu.gpr rs = word.toNat) (stored : storeWord cpu.memory address word = some memory) :
    Leads program cpu ({ cpu with memory := memory }.set ra (address % addressSpace)).next := by
  apply exec_leads fetch
  have ea : (cpu.gpr ra + pattern 4) % addressSpace = address % addressSpace := pointer
  simp only [exec, value, UInt32.ofNat_toNat, behind_store pointer, stored, Option.map_some]
  rw [ea]

theorem stwu_hangs (fetch : program[cpu.pc]? = some (.stwu rs 4 ra))
    (pointer : (cpu.gpr ra + 4) % addressSpace = address % addressSpace)
    (value : cpu.gpr rs = word.toNat) (missing : storeWord cpu.memory address word = none) :
    Hangs program cpu := by
  apply exec_hangs fetch
  simp only [exec, value, UInt32.ofNat_toNat, behind_store pointer, missing, Option.map_none]

/-- A loaded word against -1: only the low half of the register counts. -/
theorem cmpwi_leads (fetch : program[cpu.pc]? = some (.cmpwi ra (-1)))
    (value : cpu.gpr ra = word.toNat) :
    Leads program cpu { cpu with eq := decide (word = 0xFFFFFFFF) }.next := by
  apply exec_leads fetch
  have bound := word.toNat_lt
  have ones : pattern (-1) % 0x100000000 = 0xFFFFFFFF := by decide
  have same : (cpu.gpr ra % 0x100000000 = pattern (-1) % 0x100000000) ↔ word = 0xFFFFFFFF := by
    rw [value, ones, Nat.mod_eq_of_lt bound, ← UInt32.toNat_inj]
    rfl
  simp only [exec, same]

theorem beq_taken (fetch : program[cpu.pc]? = some (.beq target)) (equal : cpu.eq = true) :
    Leads program cpu (cpu.goto target) := by
  apply exec_leads fetch
  simp only [exec, equal, if_true]

theorem beq_passed (fetch : program[cpu.pc]? = some (.beq target)) (different : cpu.eq = false) :
    Leads program cpu cpu.next := by
  apply exec_leads fetch
  simp only [exec, different, Bool.false_eq_true, if_false]

theorem lis_leads {imm value : Nat} (fetch : program[cpu.pc]? = some (.lis rt imm))
    (result : pattern (extend16 imm * 0x10000) = value) :
    Leads program cpu (cpu.set rt value).next := by
  apply exec_leads fetch
  rw [← result]
  rfl

theorem ori_leads {imm source value : Nat} (fetch : program[cpu.pc]? = some (.ori ra rs imm))
    (held : cpu.gpr rs = source) (result : source ||| imm = value) :
    Leads program cpu (cpu.set ra value).next := by
  apply exec_leads fetch
  rw [← result, ← held]
  rfl

theorem oris_leads {imm source value : Nat} (fetch : program[cpu.pc]? = some (.oris ra rs imm))
    (held : cpu.gpr rs = source) (result : source ||| imm * 0x10000 = value) :
    Leads program cpu (cpu.set ra value).next := by
  apply exec_leads fetch
  rw [← result, ← held]
  rfl

theorem rldicr_leads {sh me source value : Nat}
    (fetch : program[cpu.pc]? = some (.rldicr ra rs sh me))
    (held : cpu.gpr rs = source)
    (result : rotateLeft source sh / 2 ^ (63 - me) * 2 ^ (63 - me) = value) :
    Leads program cpu (cpu.set ra value).next := by
  apply exec_leads fetch
  rw [← result, ← held]
  rfl

theorem addi_leads {imm : Int} {source value : Nat}
    (fetch : program[cpu.pc]? = some (.addi rt ra imm))
    (named : ra ≠ 0) (held : cpu.gpr ra = source)
    (sum : (source + pattern imm) % addressSpace = value) :
    Leads program cpu (cpu.set rt value).next := by
  apply exec_leads fetch
  simp only [exec, Cpu.base, if_neg named, held, sum]

theorem b_leads (fetch : program[cpu.pc]? = some (.b target)) :
    Leads program cpu (cpu.goto target) :=
  exec_leads fetch rfl

theorem mtctr_leads (fetch : program[cpu.pc]? = some (.mtctr rs)) :
    Leads program cpu { cpu with ctr := cpu.gpr rs }.next :=
  exec_leads fetch rfl

theorem bdnz_taken (fetch : program[cpu.pc]? = some (.bdnz target)) {left : Nat}
    (down : (cpu.ctr + (addressSpace - 1)) % addressSpace = left) (more : left ≠ 0) :
    Leads program cpu ({ cpu with ctr := left }.goto target) := by
  apply exec_leads fetch
  simp only [exec, down]
  rw [if_pos more]

theorem bdnz_passed (fetch : program[cpu.pc]? = some (.bdnz target))
    (down : (cpu.ctr + (addressSpace - 1)) % addressSpace = 0) :
    Leads program cpu { cpu with ctr := 0 }.next := by
  apply exec_leads fetch
  simp only [exec, down]
  rw [if_neg (fun more => more rfl)]

end Steps

end PowerPc
