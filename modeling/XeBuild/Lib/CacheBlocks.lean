import XeBuild.Lib.PowerPc

/-!
# Cache lines and the cache block instructions of the PowerPC

Which lines a sweep over memory reaches, a line at a time from any first address.
Beside the integer fragment stand the instructions that act on the cache line of
an address; the machine keeps the addresses they were given, in order.
-/

set_option autoImplicit false

namespace CacheLines

section Sweep

variable {size modulus first start length count : Nat}

def Covered (size : Nat) (Addressed : Nat → Prop) (start length : Nat) : Prop :=
  ∀ offset < length, ∃ address, Addressed address ∧ address / size = (start + offset) / size

/-- The addresses of `count` rounds, a line apart, in a register. -/
def Swept (size modulus first count address : Nat) : Prop :=
  ∃ round < count, address = (first + size * round) % modulus

theorem swept_line {round : Nat} (positive : 0 < size) :
    (first + size * round) / size = first / size + round :=
  Nat.add_mul_div_left first round positive

theorem swept_succ {address : Nat} :
    Swept size modulus first (count + 1) address ↔
      address = first % modulus ∨
        Swept size modulus ((first + size) % modulus) count address := by
  constructor
  · intro swept
    rcases swept with ⟨round, within, rfl⟩
    cases round with
    | zero => exact .inl rfl
    | succ round =>
        refine .inr ⟨round, by omega, ?_⟩
        rw [Nat.mod_add_mod, Nat.mul_succ, Nat.add_assoc, Nat.add_comm size]
  · intro either
    rcases either with rfl | ⟨round, within, rfl⟩
    · exact ⟨0, Nat.succ_pos _, rfl⟩
    · refine ⟨round + 1, by omega, ?_⟩
      rw [Nat.mod_add_mod, Nat.mul_succ, Nat.add_assoc, Nat.add_comm size]

/-- A sweep that begins in the line of the range covers it exactly when it comes to
the line of the last byte. -/
theorem swept_covers_iff (positive : 0 < size) (whole : size ∣ modulus)
    (sameLine : first / size = start / size) (some : 1 ≤ length)
    (inside : start + length ≤ modulus) :
    Covered size (Swept size modulus first (count + 1)) start length ↔
      (start + length - 1) / size ≤ first / size + count := by
  constructor
  · intro covered
    rcases covered (length - 1) (by omega) with ⟨_, ⟨round, within, rfl⟩, line⟩
    have last : start + (length - 1) = start + length - 1 := by omega
    have low : (first + size * round) % modulus / size ≤ (first + size * round) / size :=
      Nat.div_le_div_right (Nat.mod_le _ _)
    rw [line, last, swept_line positive] at low
    omega
  · intro reached offset within
    have above : start / size ≤ (start + offset) / size :=
      Nat.div_le_div_right (Nat.le_add_right _ _)
    have below : (start + offset) / size ≤ (start + length - 1) / size :=
      Nat.div_le_div_right (by omega)
    have line : (first + size * ((start + offset) / size - first / size)) / size =
        (start + offset) / size := by
      rw [swept_line positive]
      omega
    have stored : first + size * ((start + offset) / size - first / size) < modulus := by
      rcases whole with ⟨lines, rfl⟩
      have place : (start + offset) / size < lines :=
        Nat.div_lt_of_lt_mul (by omega)
      rw [← line] at place
      rw [Nat.mul_comm size lines]
      exact (Nat.div_lt_iff_lt_mul positive).mp place
    refine ⟨_, ⟨(start + offset) / size - first / size, by omega, rfl⟩, ?_⟩
    rw [Nat.mod_eq_of_lt stored, line]

/-- The residues of the first address and of the length decide about the last line. -/
theorem last_line_iff (positive : 0 < size) (some : 1 ≤ length) :
    (first + length - 1) / size ≤ first / size + length / size ↔
      first % size + length % size ≤ size := by
  have splitFirst := Nat.div_add_mod first size
  have splitLength := Nat.div_add_mod length size
  have belowFirst := Nat.mod_lt first positive
  have belowLength := Nat.mod_lt length positive
  have last : first + length - 1 < size * (first / size + length / size + 1) ↔
      first % size + length % size ≤ size := by
    rw [Nat.mul_add, Nat.mul_add, Nat.mul_one]
    omega
  rw [← last, ← Nat.lt_succ_iff, Nat.div_lt_iff_lt_mul positive, Nat.mul_comm]

end Sweep

end CacheLines

namespace PowerPc

open WordMemory Runs

inductive BlockOp
  | dcbst
  | dcbf
  | icbi
deriving DecidableEq

/-- `plain` are the instructions of the integer fragment. -/
inductive CacheInstr
  | plain (instr : Instr)
  | and (ra rs rb : Nat)
  | subf (rt ra rb : Nat)
  | addic (rt ra : Nat) (imm : Int)
  | subicRecord (rt ra : Nat) (imm : Int)
  | bge (target : Nat)
  | block (op : BlockOp) (ra rb : Nat)
  | sync
  | blr

/-- With the negative bit of the condition register and the addresses of the block
instructions so far. -/
structure CacheCpu where
  cpu : Cpu
  negative : Bool
  touched : List (BlockOp × Nat)
  returned : Bool

namespace CacheCpu

def write (state : CacheCpu) (register value : Nat) : CacheCpu :=
  { state with cpu := (state.cpu.set register value).next }

theorem write_gpr (state : CacheCpu) (register value other : Nat) :
    (state.write register value).cpu.gpr other =
      if other = register then value else state.cpu.gpr other := rfl

def next (state : CacheCpu) : CacheCpu := { state with cpu := state.cpu.next }

def touch (state : CacheCpu) (op : BlockOp) (address : Nat) : CacheCpu :=
  { state.next with touched := state.touched ++ [(op, address)] }

end CacheCpu

def execCache (instr : CacheInstr) (state : CacheCpu) : Option CacheCpu :=
  match instr with
  | .plain instr => (exec instr state.cpu).map fun cpu => { state with cpu := cpu }
  | .and ra rs rb => some (state.write ra (state.cpu.gpr rs &&& state.cpu.gpr rb))
  | .subf rt ra rb =>
      let complement := addressSpace - 1 - state.cpu.gpr ra
      some (state.write rt ((complement + state.cpu.gpr rb + 1) % addressSpace))
  | .addic rt ra imm =>
      some (state.write rt ((state.cpu.gpr ra + pattern imm) % addressSpace))
  | .subicRecord rt ra imm =>
      let result := (state.cpu.gpr ra + pattern (-imm)) % addressSpace
      some { state.write rt result with negative := decide (0x8000000000000000 ≤ result) }
  | .bge target =>
      some (if state.negative then state.next else { state with cpu := state.cpu.goto target })
  | .block op ra rb =>
      some (state.touch op ((state.cpu.base ra + state.cpu.gpr rb) % addressSpace))
  | .sync => some state.next
  | .blr => some { state with returned := true }

def cacheStep (program : List CacheInstr) (state : CacheCpu) : Option CacheCpu :=
  program[state.cpu.pc]?.bind (execCache · state)

/-- Behind `blr`. -/
def Returned (state : CacheCpu) : Prop := state.returned = true

instance : DecidablePred Returned :=
  fun state => inferInstanceAs (Decidable (state.returned = true))

def runCached (program : List CacheInstr) : Nat → CacheCpu → Option CacheCpu :=
  run (cacheStep program) Returned

abbrev LeadsCached (program : List CacheInstr) (first last : CacheCpu) : Prop :=
  Reaches (cacheStep program) Returned first last

section Steps

variable {program : List CacheInstr} {instr : CacheInstr} {state state' : CacheCpu}

theorem cached_leads (running : state.returned = false)
    (fetch : program[state.cpu.pc]? = some instr) (moved : execCache instr state = some state') :
    LeadsCached program state state' := by
  apply reaches_step
  · intro stopped
    rw [Returned, running] at stopped
    cases stopped
  · rw [cacheStep, fetch]
    exact moved

theorem cached_leads_at {front rest : List CacheInstr} (running : state.returned = false)
    (code : program = front ++ instr :: rest) (here : state.cpu.pc = front.length)
    (moved : execCache instr state = some state') : LeadsCached program state state' := by
  apply cached_leads running _ moved
  rw [code, here, List.getElem?_append_right (Nat.le_refl _), Nat.sub_self]
  rfl

/-- Some steps led to this state, which is still inside the program. -/
structure Running (program : List CacheInstr) (first : CacheCpu) (pc : Nat) (state : CacheCpu) :
    Prop where
  path : LeadsCached program first state
  pc : state.cpu.pc = pc
  running : state.returned = false

theorem running_write {first : CacheCpu} {pc register value result : Nat}
    (here : Running program first pc state) (fetch : program[pc]? = some instr)
    (moved : execCache instr state = some (state.write register result))
    (same : result = value) :
    Running program first (pc + 1) (state.write register value) := by
  rw [same] at moved
  rw [← here.pc] at fetch
  exact ⟨reaches_trans here.path (cached_leads here.running fetch moved),
    congrArg (· + 1) here.pc, here.running⟩

end Steps

end PowerPc
