import XeBuild.Lib.CacheBlocks

/-!
# `dcache_flush`, `dcache_inv` and `flush_code`

The three routines of `cache.S` as they are assembled, with their labels as indices.
They differ in the block instructions of the loop and in what they wait for behind
it. The mask in front of the loop clears bits 1 to 3 of the start address, so that
the sweep begins somewhere in the first line, and how much of its last step it
needs depends on that place.
-/

namespace XeBuild.RebootCore

open WordMemory Runs PowerPc PowerPc.CacheCpu CacheLines

set_option autoImplicit false

/-! ## The programs -/

def cacheSize : Nat := 0x80

/-- The masked start address in `%r5`, and in `%r4` the length from there. -/
def maskStart : List CacheInstr :=
  [ .plain (.lis 5 0xFFFF)
  -- ~0xE, not the ~0x7F of a line
  , .plain (.ori 5 5 0xFFF1)
  , .and 5 5 3
  , .subf 3 5 3
  , .plain (.add 4 4 3) ]

def loopEnd : List CacheInstr :=
  [ .addic 5 5 cacheSize
  , .subicRecord 4 4 cacheSize
  , .bge 5 ]

inductive OnPointer : List CacheInstr → List BlockOp → Prop
  | nil : OnPointer [] []
  | block {op : BlockOp} {code : List CacheInstr} {ops : List BlockOp} :
      OnPointer code ops → OnPointer (.block op 0 5 :: code) (op :: ops)
  | sync {code : List CacheInstr} {ops : List BlockOp} :
      OnPointer code ops → OnPointer (.sync :: code) ops

inductive Leaves : List CacheInstr → Prop
  | blr : Leaves [.blr]
  | isync {code : List CacheInstr} : Leaves code → Leaves (.plain .isync :: code)
  | sync {code : List CacheInstr} : Leaves code → Leaves (.sync :: code)

structure CacheRoutine where
  body : List CacheInstr
  closing : List CacheInstr
  ops : List BlockOp
  onPointer : OnPointer body ops
  leaves : Leaves closing

def CacheRoutine.program (routine : CacheRoutine) : List CacheInstr :=
  maskStart ++ (routine.body ++ (loopEnd ++ routine.closing))

def dcacheFlush : CacheRoutine where
  body := [.block .dcbst 0 5]
  closing := [.plain .isync, .blr]
  ops := [.dcbst]
  onPointer := .block .nil
  leaves := .isync .blr

def dcacheInv : CacheRoutine where
  body := [.block .dcbf 0 5]
  closing := [.plain .isync, .blr]
  ops := [.dcbf]
  onPointer := .block .nil
  leaves := .isync .blr

def flushCode : CacheRoutine where
  body := [.block .dcbst 0 5, .sync, .block .icbi 0 5]
  closing := [.sync, .plain .isync, .blr]
  ops := [.dcbst, .icbi]
  onPointer := .block (.sync (.block .nil))
  leaves := .sync (.isync .blr)

example : flushCode.program =
    [ .plain (.lis 5 0xFFFF)
    , .plain (.ori 5 5 0xFFF1)
    , .and 5 5 3
    , .subf 3 5 3
    , .plain (.add 4 4 3)
    , .block .dcbst 0 5
    , .sync
    , .block .icbi 0 5
    , .addic 5 5 0x80
    , .subicRecord 4 4 0x80
    , .bge 5
    , .sync
    , .plain .isync
    , .blr ] := rfl

/-- At the entry of a routine, with nothing touched yet. -/
structure Called (address length : Nat) (state : CacheCpu) : Prop where
  pc : state.cpu.pc = 0
  address : state.cpu.gpr 3 = address
  length : state.cpu.gpr 4 = length
  touched : state.touched = []
  running : state.returned = false

/-- The routine returns, and each of its instructions acted on every line that holds
a byte of the range. -/
def CoversRange (routine : CacheRoutine) (state : CacheCpu) (address length : Nat) : Prop :=
  ∃ fuel final, runCached routine.program fuel state = some final ∧
    ∀ op ∈ routine.ops,
      Covered cacheSize (fun touched => (op, touched) ∈ final.touched) address length

/-! ## One round -/

structure AtRound (pointer left : Nat) (touched : List (BlockOp × Nat)) (state : CacheCpu) :
    Prop where
  pc : state.cpu.pc = 5
  pointer : state.cpu.gpr 5 = pointer
  left : state.cpu.gpr 4 = left
  touched : state.touched = touched
  running : state.returned = false

section Round

variable {program front rest code : List CacheInstr} {ops : List BlockOp} {state : CacheCpu}
variable {routine : CacheRoutine} {pointer left : Nat} {touched : List (BlockOp × Nat)}

theorem body_leads (acts : OnPointer code ops) (shape : program = front ++ (code ++ rest))
    (here : state.cpu.pc = front.length) (running : state.returned = false)
    (small : state.cpu.gpr 5 < addressSpace) :
    LeadsCached program state
      { state with
        cpu := state.cpu.goto (front.length + code.length)
        touched := state.touched ++ ops.map fun op => (op, state.cpu.gpr 5) } := by
  induction acts generalizing front state with
  | nil =>
      rw [List.length_nil, Nat.add_zero, List.map_nil, List.append_nil, ← here]
      exact ⟨0, fun _ => rfl⟩
  | @block op code ops _ ih =>
      have moved : execCache (.block op 0 5) state =
          some (state.touch op (state.cpu.gpr 5)) := by
        have address : (state.cpu.base 0 + state.cpu.gpr 5) % addressSpace = state.cpu.gpr 5 := by
          rw [Cpu.base, if_pos rfl, Nat.zero_add, Nat.mod_eq_of_lt small]
        simp only [execCache, address]
      apply reaches_trans (cached_leads_at running shape here moved)
      have later := @ih (front ++ [.block op 0 5]) (state.touch op (state.cpu.gpr 5))
        (by rw [shape, List.append_assoc]; rfl)
        (by rw [List.length_append]; exact congrArg (· + 1) here) running small
      rw [List.length_append, List.length_singleton] at later
      rw [List.length_cons, ← Nat.add_assoc, Nat.add_right_comm, List.map_cons,
        List.append_cons]
      exact later
  | @sync code ops _ ih =>
      apply reaches_trans (cached_leads_at running shape here rfl)
      have later := @ih (front ++ [.sync]) state.next
        (by rw [shape, List.append_assoc]; rfl)
        (by rw [List.length_append]; exact congrArg (· + 1) here) running small
      rw [List.length_append, List.length_singleton] at later
      rw [List.length_cons, ← Nat.add_assoc, Nat.add_right_comm]
      exact later

/-- From here on the code leaves the routine and touches nothing. -/
def ClosesAt (program code : List CacheInstr) : Prop :=
  ∀ {front : List CacheInstr} {state : CacheCpu}, program = front ++ code →
    state.cpu.pc = front.length → state.returned = false →
      ∃ final, LeadsCached program state final ∧ Returned final ∧ final.touched = state.touched

theorem closes_behind {instr : CacheInstr}
    (idle : ∀ state, execCache instr state = some state.next) (later : ClosesAt program code) :
    ClosesAt program (instr :: code) := by
  intro front state shape here running
  have behind : state.next.cpu.pc = (front ++ [instr]).length := by
    rw [List.length_append]
    exact congrArg (· + 1) here
  rcases later (shape.trans (List.append_cons ..)) behind running with
    ⟨final, path, stopped, same⟩
  have waited := cached_leads_at running shape here (idle state)
  exact ⟨final, reaches_trans waited path, stopped, same⟩

theorem closing_leads (leaves : Leaves code) : ClosesAt program code := by
  induction leaves with
  | blr =>
      intro front state shape here running
      refine ⟨{ state with returned := true }, ?_, rfl, rfl⟩
      exact cached_leads_at running shape here rfl
  | isync _ ih => exact closes_behind (fun _ => rfl) ih
  | sync _ ih => exact closes_behind (fun _ => rfl) ih

def countDown (left : Nat) : Nat := (left + (addressSpace - cacheSize)) % addressSpace

def stepOn (state : CacheCpu) : CacheCpu :=
  { (state.write 5 ((state.cpu.gpr 5 + cacheSize) % addressSpace)).write 4
      (countDown (state.cpu.gpr 4)) with
    negative := decide (0x8000000000000000 ≤ countDown (state.cpu.gpr 4)) }

theorem step_on_pointer :
    (stepOn state).cpu.gpr 5 = (state.cpu.gpr 5 + cacheSize) % addressSpace := by
  simp only [stepOn, CacheCpu.write, Cpu.set, Cpu.next, Nat.reduceEqDiff, if_true, if_false]

theorem step_on_left : (stepOn state).cpu.gpr 4 = countDown (state.cpu.gpr 4) := by
  simp only [stepOn, CacheCpu.write, Cpu.set, Cpu.next, if_true]

theorem step_on_negative : (stepOn state).negative =
    decide (0x8000000000000000 ≤ countDown (state.cpu.gpr 4)) := by
  simp only [stepOn]

theorem loop_end_leads (here : state.cpu.pc = (maskStart ++ routine.body).length)
    (running : state.returned = false) :
    LeadsCached routine.program state (stepOn state) := by
  have shape : routine.program = (maskStart ++ routine.body) ++
      .addic 5 5 cacheSize :: .subicRecord 4 4 cacheSize :: .bge 5 :: routine.closing := by
    rw [CacheRoutine.program, List.append_assoc]
    rfl
  have forward : execCache (.addic 5 5 cacheSize) state =
      some (state.write 5 ((state.cpu.gpr 5 + cacheSize) % addressSpace)) := rfl
  have counted : LeadsCached routine.program
      (state.write 5 ((state.cpu.gpr 5 + cacheSize) % addressSpace)) (stepOn state) := by
    apply cached_leads_at (by exact running) (shape.trans (List.append_cons ..))
    · rw [List.length_append]
      exact congrArg (· + 1) here
    · rfl
  exact reaches_trans (cached_leads_at running shape here forward) counted

/-- Everything in front of the branch. -/
def CacheRoutine.round (routine : CacheRoutine) : List CacheInstr :=
  maskStart ++ routine.body ++ [.addic 5 5 cacheSize, .subicRecord 4 4 cacheSize]

theorem branch_shape : routine.program = routine.round ++ .bge 5 :: routine.closing := by
  rw [CacheRoutine.program, CacheRoutine.round]
  simp only [List.append_assoc]
  rfl

theorem round_length : routine.round.length = (maskStart ++ routine.body).length + 2 := by
  rw [CacheRoutine.round, List.length_append]
  rfl

theorem round_leads (at_ : AtRound pointer left touched state) (small : pointer < addressSpace) :
    ∃ state', LeadsCached routine.program state state' ∧
      state'.cpu.pc = routine.round.length ∧
      state'.cpu.gpr 5 = (pointer + cacheSize) % addressSpace ∧
      state'.cpu.gpr 4 = countDown left ∧
      state'.touched = touched ++ routine.ops.map (fun op => (op, pointer)) ∧
      state'.negative = decide (0x8000000000000000 ≤ countDown left) ∧
      state'.returned = false := by
  rcases at_ with ⟨pc, rfl, rfl, rfl, running⟩
  have body := body_leads routine.onPointer (rfl : routine.program = _) pc running small
  rw [← List.length_append] at body
  have behind := reaches_trans body (loop_end_leads rfl running)
  exact ⟨_, behind, round_length.symm, step_on_pointer, step_on_left, rfl, step_on_negative,
    running⟩

end Round

/-! ## The sweep -/

def sweepTouches (ops : List BlockOp) : Nat → Nat → List (BlockOp × Nat)
  | 0, _ => []
  | count + 1, pointer =>
      ops.map (fun op => (op, pointer)) ++
        sweepTouches ops count ((pointer + cacheSize) % addressSpace)

/-- The rounds behind the first. The counter is signed: from half the address space on
it is negative already. -/
def roundsAfter (left : Nat) : Nat :=
  if left < 0x8000000000000000 + cacheSize then left / cacheSize else 0

theorem mem_sweep_touches {ops : List BlockOp} {op : BlockOp} {count pointer address : Nat}
    (small : pointer < addressSpace) :
    (op, address) ∈ sweepTouches ops count pointer ↔
      op ∈ ops ∧ Swept cacheSize addressSpace pointer count address := by
  induction count generalizing pointer with
  | zero =>
      constructor
      · intro member
        cases member
      · intro both
        rcases both.2 with ⟨_, within, _⟩
        cases within
  | succ count ih =>
      have here : (op, address) ∈ ops.map (fun op => (op, pointer)) ↔
          op ∈ ops ∧ address = pointer % addressSpace := by
        rw [List.mem_map, Nat.mod_eq_of_lt small]
        constructor
        · intro found
          rcases found with ⟨_, member, same⟩
          cases same
          exact ⟨member, rfl⟩
        · intro both
          exact ⟨op, both.1, by rw [both.2]⟩
      rw [sweepTouches, List.mem_append, here, ih (Nat.mod_lt _ (by decide)), swept_succ,
        and_or_left]

theorem count_down_again {left : Nat} (enough : cacheSize ≤ left)
    (positive : left < 0x8000000000000000 + cacheSize) : countDown left = left - cacheSize := by
  rw [cacheSize] at *
  rw [countDown, addressSpace, cacheSize]
  omega

theorem count_down_negative {left : Nat} (small : left < addressSpace)
    (last : ¬ (cacheSize ≤ left ∧ left < 0x8000000000000000 + cacheSize)) :
    0x8000000000000000 ≤ countDown left := by
  rw [cacheSize, addressSpace] at *
  rw [countDown, addressSpace, cacheSize]
  omega

theorem rounds_after_again {left : Nat} (enough : cacheSize ≤ left)
    (positive : left < 0x8000000000000000 + cacheSize) :
    roundsAfter left = roundsAfter (left - cacheSize) + 1 := by
  rw [roundsAfter, roundsAfter, if_pos positive, if_pos (by omega)]
  exact Nat.div_eq_sub_div (by decide) enough

theorem rounds_after_last {left : Nat}
    (last : ¬ (cacheSize ≤ left ∧ left < 0x8000000000000000 + cacheSize)) :
    roundsAfter left = 0 := by
  rw [roundsAfter]
  split
  · next positive => exact Nat.div_eq_of_lt (by omega)
  · rfl

section Sweep

variable {routine : CacheRoutine} {state : CacheCpu} {pointer left address length : Nat}
variable {touched : List (BlockOp × Nat)}

/-- Induction on the counter: a round that leaves it positive is followed by the sweep
from the next pointer. -/
theorem sweep_leads (at_ : AtRound pointer left touched state) (small : pointer < addressSpace)
    (counter : left < addressSpace) :
    ∃ final, LeadsCached routine.program state final ∧ Returned final ∧
      final.touched = touched ++ sweepTouches routine.ops (roundsAfter left + 1) pointer := by
  induction left using Nat.strongRecOn generalizing pointer touched state with
  | ind left ih =>
      rcases @round_leads _ routine _ _ _ at_ small with
        ⟨state', path, pc, next, down, same, sign, running⟩
      by_cases more : cacheSize ≤ left ∧ left < 0x8000000000000000 + cacheSize
      · have again := count_down_again more.1 more.2
        have positive : state'.negative = false := by
          rw [sign, again, decide_eq_false_iff_not]
          omega
        have branch : execCache (.bge 5) state' =
            some { state' with cpu := state'.cpu.goto 5 } := by
          rw [execCache, positive]
          rfl
        have head := cached_leads_at running branch_shape pc branch
        have fewer : left - cacheSize < left := Nat.sub_lt_of_pos_le (by decide) more.1
        have atNext : AtRound ((pointer + cacheSize) % addressSpace) (left - cacheSize)
            (touched ++ routine.ops.map fun op => (op, pointer))
            { state' with cpu := state'.cpu.goto 5 } :=
          ⟨rfl, next, down.trans again, same, running⟩
        rcases ih (left - cacheSize) fewer atNext (Nat.mod_lt _ (by decide)) (by omega) with
          ⟨final, rest, stopped, all⟩
        refine ⟨final, reaches_trans (reaches_trans path head) rest, stopped, ?_⟩
        rw [all, rounds_after_again more.1 more.2, List.append_assoc]
        rfl
      · have negative : state'.negative = true := by
          rw [sign, decide_eq_true_iff]
          exact count_down_negative counter more
        have branch : execCache (.bge 5) state' = some state'.next := by
          rw [execCache, negative]
          rfl
        have behind := cached_leads_at running branch_shape pc branch
        have place : state'.next.cpu.pc = (routine.round ++ [CacheInstr.bge 5]).length := by
          rw [List.length_append]
          exact congrArg (· + 1) pc
        rcases closing_leads routine.leaves (branch_shape.trans (List.append_cons ..)) place
          running with ⟨final, rest, stopped, kept⟩
        refine ⟨final, reaches_trans (reaches_trans path behind) rest, stopped, ?_⟩
        rw [kept, rounds_after_last more]
        exact same.trans (by rw [sweepTouches, sweepTouches, List.append_nil])

end Sweep

/-! ## The range -/

def clearedBits (address : Nat) : Nat := address &&& 0xE

/-- The sweep comes to the line of the last byte: its first address and the counter
leave residues of a line that fit in one line together. The counter is positive as a
signed number after one step, which every `int len` is. -/
def LastLineReached (address length : Nat) : Prop :=
  length + clearedBits address < 0x8000000000000000 + cacheSize ∧
    (address - clearedBits address) % cacheSize + (length + clearedBits address) % cacheSize ≤
      cacheSize

instance (address length : Nat) : Decidable (LastLineReached address length) :=
  inferInstanceAs (Decidable (_ ∧ _))

theorem nibble_split : ∀ nibble < 16, (nibble &&& 1) + (nibble &&& 0xE) = nibble := by decide

theorem nibble_even : ∀ nibble < 16, (nibble &&& 1) = nibble % 2 := by decide

theorem cleared_bits_eq (address : Nat) :
    clearedBits address = address % 16 - address % 2 := by
  have high : (address &&& 0xE) / 2 ^ 4 = 0 := by
    rw [Nat.and_div_two_pow]
    exact Nat.and_zero _
  have low : (address &&& 0xE) % 2 ^ 4 = address % 16 &&& 0xE := Nat.and_mod_two_pow ..
  have nibble : address % 16 < 16 := Nat.mod_lt _ (by decide)
  have split := nibble_split (address % 16) nibble
  have even := nibble_even (address % 16) nibble
  rw [clearedBits]
  omega

theorem masked_address {address : Nat} (small : address < addressSpace) :
    0xFFFFFFFFFFFFFFF1 &&& address = address - clearedBits address := by
  have high : (0xFFFFFFFFFFFFFFF1 &&& address) / 2 ^ 4 = address / 16 := by
    have ones : address / 16 < 2 ^ 60 := Nat.div_lt_of_lt_mul small
    rw [Nat.and_div_two_pow, Nat.and_comm]
    exact Nat.and_two_pow_sub_one_of_lt_two_pow ones
  have low : (0xFFFFFFFFFFFFFFF1 &&& address) % 2 ^ 4 = 1 &&& address % 16 :=
    Nat.and_mod_two_pow ..
  have nibble : address % 16 < 16 := Nat.mod_lt _ (by decide)
  have even := nibble_even (address % 16) nibble
  rw [Nat.and_comm] at even
  have cleared := cleared_bits_eq address
  omega

/-- `place_jump` at an exception vector calls the routines with ranges they cover. -/
theorem place_jump_lines_reached {vector : Nat} (aligned : vector % 0x20 = 0)
    (behind : 0x80 ≤ vector) :
    LastLineReached (vector - 0x80) 0x100 ∧ LastLineReached (vector - 0x18) 0x18 ∧
      LastLineReached vector 0x80 := by
  have first := cleared_bits_eq (vector - 0x80)
  have jump := cleared_bits_eq (vector - 0x18)
  have last := cleared_bits_eq vector
  simp only [LastLineReached, cacheSize]
  omega

section Range

variable {routine : CacheRoutine} {state : CacheCpu} {address length : Nat}

def maskLoaded (state : CacheCpu) : CacheCpu :=
  (state.write 5 0xFFFFFFFFFFFF0000).write 5 0xFFFFFFFFFFFFFFF1

theorem mask_leads (called : Called address length state) :
    Running routine.program state 2 (maskLoaded state) := by
  have entry : Running routine.program state 0 state :=
    ⟨⟨0, fun _ => rfl⟩, called.pc, called.running⟩
  have upper := running_write entry rfl rfl (rfl : _ = 0xFFFFFFFFFFFF0000)
  apply running_write upper rfl rfl
  rw [write_gpr, if_pos rfl]
  rfl

def addressMasked (state : CacheCpu) (address : Nat) : CacheCpu :=
  ((maskLoaded state).write 5 (address - clearedBits address)).write 3 (clearedBits address)

theorem masked_leads (called : Called address length state) (small : address < addressSpace) :
    Running routine.program state 4 (addressMasked state address) := by
  have within : clearedBits address ≤ address := Nat.and_le_left
  have given : (maskLoaded state).cpu.gpr 3 = address := called.address
  have masked : Running routine.program state 3
      ((maskLoaded state).write 5 (address - clearedBits address)) := by
    apply running_write (mask_leads called) rfl rfl
    rw [given, ← masked_address small]
    rfl
  apply running_write masked rfl rfl
  rw [write_gpr, write_gpr, if_pos rfl, if_neg (by decide), given]
  have bound : address < 0x10000000000000000 := small
  rw [addressSpace]
  omega

theorem entry_leads (called : Called address length state) (small : address < addressSpace) :
    ∃ state', LeadsCached routine.program state state' ∧
      AtRound (address - clearedBits address)
        ((length + clearedBits address) % addressSpace) [] state' := by
  have counted : Running routine.program state 5
      ((addressMasked state address).write 4 ((length + clearedBits address) % addressSpace)) := by
    apply running_write (masked_leads called small) rfl rfl
    rw [← called.length]
    rfl
  exact ⟨_, counted.path, counted.pc, rfl, rfl, called.touched, counted.running⟩

/-- The routine returns, and its block instructions were given the addresses of the sweep. -/
theorem routine_touches (called : Called address length state) (small : address < addressSpace) :
    ∃ fuel final, runCached routine.program fuel state = some final ∧
      final.touched = sweepTouches routine.ops
        (roundsAfter ((length + clearedBits address) % addressSpace) + 1)
        (address - clearedBits address) := by
  rcases @entry_leads routine _ _ _ called small with ⟨state', entry, at_⟩
  rcases @sweep_leads routine _ _ _ _ at_ (Nat.lt_of_le_of_lt (Nat.sub_le _ _) small)
    (Nat.mod_lt _ (by decide)) with ⟨final, sweep, stopped, same⟩
  rcases run_of_reaches (reaches_trans entry sweep) stopped with ⟨fuel, done⟩
  exact ⟨fuel, final, done, same⟩

theorem swept_covers_range_iff (some : 1 ≤ length) (inside : address + length ≤ addressSpace) :
    Covered cacheSize (Swept cacheSize addressSpace (address - clearedBits address)
        (roundsAfter ((length + clearedBits address) % addressSpace) + 1)) address length ↔
      LastLineReached address length := by
  have cleared := cleared_bits_eq address
  have sameLine : (address - clearedBits address) / cacheSize = address / cacheSize := by
    rw [cacheSize]
    omega
  rw [swept_covers_iff (by decide) (by decide) sameLine some inside, LastLineReached]
  by_cases positive : length + clearedBits address < 0x8000000000000000 + cacheSize
  · have fits : length + clearedBits address < addressSpace :=
      Nat.lt_trans positive (by decide)
    have last : address + length - 1 =
        address - clearedBits address + (length + clearedBits address) - 1 := by omega
    rw [Nat.mod_eq_of_lt fits, roundsAfter, if_pos positive, last,
      last_line_iff (by decide) (by omega)]
    exact (and_iff_right positive).symm
  · have oneRound : roundsAfter ((length + clearedBits address) % addressSpace) = 0 := by
      apply rounds_after_last
      rw [cacheSize, addressSpace] at *
      omega
    rw [oneRound]
    constructor
    · intro reached
      rw [cacheSize] at *
      omega
    · intro both
      exact absurd both.1 positive

theorem covers_range_iff (acts : routine.ops ≠ []) (called : Called address length state)
    (some : 1 ≤ length) (inside : address + length ≤ addressSpace) :
    CoversRange routine state address length ↔ LastLineReached address length := by
  have small : address < addressSpace := by omega
  have below : address - clearedBits address < addressSpace :=
    Nat.lt_of_le_of_lt (Nat.sub_le _ _) small
  rcases @routine_touches routine _ _ _ called small with ⟨fuel, final, done, same⟩
  rw [← swept_covers_range_iff some inside]
  constructor
  · intro covers
    rcases covers with ⟨fuel', final', done', each⟩
    rcases List.exists_mem_of_ne_nil _ acts with ⟨op, member⟩
    intro offset within
    rcases each op member offset within with ⟨touched, recorded, line⟩
    rw [← run_result_unique done done', same, mem_sweep_touches below] at recorded
    exact ⟨touched, recorded.2, line⟩
  · intro covered
    refine ⟨fuel, final, done, ?_⟩
    intro op member offset within
    rcases covered offset within with ⟨touched, given, line⟩
    have recorded : (op, touched) ∈ final.touched := by
      rw [same, mem_sweep_touches below]
      exact ⟨member, given⟩
    exact ⟨touched, recorded, line⟩

theorem routines_act (one : routine ∈ [dcacheFlush, dcacheInv, flushCode]) :
    routine.ops ≠ [] := by
  rcases List.mem_cons.mp one with rfl | one
  · exact List.cons_ne_nil _ _
  rcases List.mem_cons.mp one with rfl | one
  · exact List.cons_ne_nil _ _
  · rw [List.mem_singleton.mp one]
    exact List.cons_ne_nil _ _

/-- Each of the three routines returns. It acted on all lines of the range exactly
when the residues let the last step come to the last of them. -/
theorem cache_routines_cover_iff (one : routine ∈ [dcacheFlush, dcacheInv, flushCode])
    (called : Called address length state) (some : 1 ≤ length)
    (inside : address + length ≤ addressSpace) :
    (∃ fuel final, runCached routine.program fuel state = .some final) ∧
      (CoversRange routine state address length ↔ LastLineReached address length) := by
  constructor
  · have small : address < addressSpace := by omega
    rcases @routine_touches routine _ _ _ called small with ⟨fuel, final, done, _⟩
    exact ⟨fuel, final, done⟩
  · exact covers_range_iff (routines_act one) called some inside

end Range

def atCall (address length : Nat) : CacheCpu where
  cpu :=
    { gpr := fun register => if register = 3 then address else if register = 4 then length else 0
      ctr := 0
      eq := false
      msr := 0
      pc := 0
      memory := fun _ => none }
  negative := false
  touched := []
  returned := false

theorem at_call_called (address length : Nat) : Called address length (atCall address length) :=
  ⟨rfl, rfl, rfl, rfl, rfl⟩

/-- The second call of `place_jump` at the vector 0x100. -/
theorem misaligned_call_covered :
    (∃ fuel final, runCached flushCode.program fuel (atCall 0xE8 0x18) = some final) ∧
      CoversRange flushCode (atCall 0xE8 0x18) 0xE8 0x18 := by
  have covers := cache_routines_cover_iff (.tail _ (.tail _ (.head _))) (at_call_called 0xE8 0x18)
    (by decide) (by decide)
  have reached : LastLineReached 0xE8 0x18 := by decide
  exact ⟨covers.1, covers.2.mpr reached⟩

/-- The jump in front of an address that is 0x10 behind a line: the code crosses into
that line, and only the line in front is acted on. -/
theorem flush_code_misses_line : ∃ fuel final,
    runCached flushCode.program fuel (atCall 0x8000000000000078 0x18) = some final ∧
      final.touched = [(.dcbst, 0x8000000000000070), (.icbi, 0x8000000000000070)] ∧
        ¬ CoversRange flushCode (atCall 0x8000000000000078 0x18) 0x8000000000000078 0x18 := by
  have called := at_call_called 0x8000000000000078 0x18
  rcases @routine_touches flushCode _ _ _ called (by decide) with ⟨fuel, final, done, same⟩
  refine ⟨fuel, final, done, same.trans (by decide), ?_⟩
  rw [covers_range_iff (List.cons_ne_nil _ _) called (by decide) (by decide)]
  decide

end XeBuild.RebootCore
