import XeBuild.Lib.PowerPc
import XeBuild.RebootCore.PatchEngine

/-!
# `CopyPatches` of the 1BL, CB and CD patches

The three engines as they are assembled, with their labels as indices. Pointers
run four bytes behind, the end of the list is a comparison with -1, and the data
words are counted down in `CTR`. What the proofs use of an engine is the same
for all of them: the state in front of a record, the state in front of a data
word, and the ways between.
-/

namespace XeBuild.Patches

open WordMemory Runs PowerPc RebootCore

set_option autoImplicit false

/-! ## The programs -/

/-- `copyPatchLoop` of the 1BL and `copyPatchIter` of the CB, behind nine
instructions that load the pointers. -/
def baseLoop : List Instr :=
  [ .lwzu 5 4 3
  , .cmpwi 5 (-1)
  , .beq 19
  , .add 5 4 5
  , .lwzu 6 4 3
  , .mtctr 6
  , .lwzu 6 4 3
  , .stwu 6 4 5
  , .bdnz 15
  , .b 9 ]

/-- `ca_1BL_all.S`; `copyFuses` follows. -/
def copyPatches1BL : List Instr :=
  [ .lis 3 0x8000
  , .rldicr 3 3 32 31
  , .oris 3 3 0x100
  , .lis 4 0x8000
  , .ori 4 4 0x200
  , .rldicr 4 4 32 31
  , .oris 4 4 1
  , .addi 3 3 (-4)
  , .addi 4 4 (-4) ] ++ baseLoop

/-- `cb_1940_xenon.S`; `return` follows. -/
def copyPatchesCB : List Instr :=
  [ .lis 3 0x8000
  , .sldi 3 3 32
  , .oris 3 3 0x100
  , .ori 3 3 0x1000
  , .lis 4 0x8000
  , .sldi 4 4 32
  , .oris 4 4 0x400
  , .addi 3 3 (-4)
  , .addi 4 4 (-4) ] ++ baseLoop

/-- `cd_8453_all.S`; `exit` follows. -/
def copyPatchesCD : List Instr :=
  [ .mfmsr 7
  , .li 8 0x10
  , .andc 8 7 8
  , .lis 3 0x8000
  , .rldicr 3 3 32 31
  , .oris 3 3 0x100
  , .ori 3 3 0x2000
  , .addi 3 3 (-4)
  , .mtmsrd 8
  , .isync
  , .lwzu 4 4 3
  , .cmpwi 4 (-1)
  , .beq 26
  , .addi 4 4 (-4)
  , .lwzu 6 4 3
  , .mtctr 6
  , .mtmsrd 8
  , .isync
  , .lwzu 6 4 3
  , .mtmsrd 7
  , .isync
  , .stwu 6 4 4
  , .dcbst 0 4
  , .icbi 0 4
  , .bdnz 16
  , .b 8 ]

/-! ## The common shape -/

/-- What an engine does from the state in front of a record and from the state in
front of a data word. `list` and `target` are the addresses of the next load and
of the next store. -/
structure CopyLoop (program : List Instr) (base : Nat) (AtRecord : Nat → Memory → Cpu → Prop)
    (AtWord : Nat → Nat → Nat → Memory → Cpu → Prop) : Prop where
  closing : ∀ {list memory cpu}, AtRecord list memory cpu → loadWord memory list = some endWord →
    ∃ cpu', Leads program cpu cpu' ∧ Halted program cpu' ∧ cpu'.memory = memory
  opening : ∀ {list memory cpu address count}, AtRecord list memory cpu →
    loadWord memory list = some address → address ≠ endWord →
      loadWord memory (list + 4) = some count →
    ∃ cpu', Leads program cpu cpu' ∧
      AtWord (list + 4 + 4) (base + address.toNat) count.toNat memory cpu'
  again : ∀ {list target ctr left memory memory' cpu word}, AtWord list target ctr memory cpu →
    loadWord memory list = some word → storeWord memory target word = some memory' →
    (ctr + (addressSpace - 1)) % addressSpace = left → left ≠ 0 →
    ∃ cpu', Leads program cpu cpu' ∧ AtWord (list + 4) (target + 4) left memory' cpu'
  last : ∀ {list target ctr memory memory' cpu word}, AtWord list target ctr memory cpu →
    loadWord memory list = some word → storeWord memory target word = some memory' →
    (ctr + (addressSpace - 1)) % addressSpace = 0 →
    ∃ cpu', Leads program cpu cpu' ∧ AtRecord (list + 4) memory' cpu'
  unloaded : ∀ {list target ctr memory cpu}, AtWord list target ctr memory cpu →
    loadWord memory list = none → Hangs program cpu
  unstored : ∀ {list target ctr memory cpu word}, AtWord list target ctr memory cpu →
    loadWord memory list = some word → storeWord memory target word = none → Hangs program cpu

/-! ## The 1BL and the CB engine -/

section BaseLoop

variable {program : List Instr} {base list target ctr : Nat} {memory memory' : Memory} {cpu : Cpu}

/-- At `lwzu %r5, 4(%r3)`. -/
structure BaseAtRecord (base list : Nat) (memory : Memory) (cpu : Cpu) : Prop where
  pc : cpu.pc = 9
  list : (cpu.gpr 3 + 4) % addressSpace = list % addressSpace
  base : (cpu.gpr 4 + 4) % addressSpace = base % addressSpace
  memory : cpu.memory = memory

/-- At `lwzu %r6, 4(%r3)` in front of the store. -/
structure BaseAtWord (base list target ctr : Nat) (memory : Memory) (cpu : Cpu) : Prop where
  pc : cpu.pc = 15
  list : (cpu.gpr 3 + 4) % addressSpace = list % addressSpace
  base : (cpu.gpr 4 + 4) % addressSpace = base % addressSpace
  target : (cpu.gpr 5 + 4) % addressSpace = target % addressSpace
  ctr : cpu.ctr = ctr
  memory : cpu.memory = memory

theorem pointer_moved (address : Nat) :
    (address % addressSpace + 4) % addressSpace = (address + 4) % addressSpace := by
  rw [addressSpace]
  omega

theorem target_pointer {register base : Nat}
    (baseAt : (register + 4) % addressSpace = base % addressSpace)
    (offset : Nat) :
    ((register + offset) % addressSpace + 4) % addressSpace = (base + offset) % addressSpace := by
  rw [addressSpace] at *
  omega

theorem base_fetch (code : program.drop 9 = baseLoop) (index : Nat) {pc : Nat} {instr : Instr}
    (place : pc = 9 + index) (here : baseLoop[index]? = some instr) :
    program[pc]? = some instr := by
  rw [place, ← List.getElem?_drop, code, here]

theorem base_word (code : program.drop 9 = baseLoop) {word : UInt32}
    (here : BaseAtWord base list target ctr memory cpu) (loaded : loadWord memory list = some word)
    (stored : storeWord memory target word = some memory') :
    ∃ cpu', Leads program cpu cpu' ∧ cpu'.pc = 17 ∧ cpu'.ctr = ctr ∧ cpu'.memory = memory' ∧
      (cpu'.gpr 3 + 4) % addressSpace = (list + 4) % addressSpace ∧
      (cpu'.gpr 4 + 4) % addressSpace = base % addressSpace ∧
      (cpu'.gpr 5 + 4) % addressSpace = (target + 4) % addressSpace := by
  obtain ⟨pc, listAt, baseAt, targetAt, rfl, rfl⟩ := here
  have load := lwzu_leads (base_fetch code 6 pc rfl) listAt loaded
  have path := reaches_trans load
    (stwu_leads (base_fetch code 7 (congrArg Nat.succ pc) rfl) targetAt rfl stored)
  refine ⟨_, path, ?_, rfl, rfl, pointer_moved list, baseAt, pointer_moved target⟩
  simp [pc]

theorem base_opening (code : program.drop 9 = baseLoop) {address count : UInt32}
    (here : BaseAtRecord base list memory cpu) (first : loadWord memory list = some address)
    (more : address ≠ endWord) (second : loadWord memory (list + 4) = some count) :
    ∃ cpu', Leads program cpu cpu' ∧
      BaseAtWord base (list + 4 + 4) (base + address.toNat) count.toNat memory cpu' := by
  obtain ⟨pc, listAt, baseAt, rfl⟩ := here
  have compared := reaches_trans (lwzu_leads (base_fetch code 0 pc rfl) listAt first)
    (cmpwi_leads (base_fetch code 1 (congrArg (· + 1) pc) rfl) rfl)
  have added := reaches_trans compared (reaches_trans
    (beq_passed (base_fetch code 2 (congrArg (· + 2) pc) rfl) (decide_eq_false more))
    (exec_leads (base_fetch code 3 (congrArg (· + 3) pc) rfl) rfl))
  have counted := reaches_trans added (reaches_trans
    (lwzu_leads (base_fetch code 4 (congrArg (· + 4) pc) rfl) (pointer_moved list) second)
    (mtctr_leads (base_fetch code 5 (congrArg (· + 5) pc) rfl)))
  refine ⟨_, counted, ?_, pointer_moved (list + 4), baseAt, target_pointer baseAt _, rfl, rfl⟩
  simp [pc]

theorem base_closing (code : program.drop 9 = baseLoop) (size : program.length = 19)
    (here : BaseAtRecord base list memory cpu) (first : loadWord memory list = some endWord) :
    ∃ cpu', Leads program cpu cpu' ∧ Halted program cpu' ∧ cpu'.memory = memory := by
  obtain ⟨pc, listAt, baseAt, rfl⟩ := here
  have compared := reaches_trans (lwzu_leads (base_fetch code 0 pc rfl) listAt first)
    (cmpwi_leads (base_fetch code 1 (congrArg (· + 1) pc) rfl) rfl)
  have path := reaches_trans compared
    (beq_taken (base_fetch code 2 (congrArg (· + 2) pc) rfl) rfl)
  exact ⟨_, path, size.symm, rfl⟩

theorem base_loop (code : program.drop 9 = baseLoop) (size : program.length = 19) (base : Nat) :
    CopyLoop program base (BaseAtRecord base) (BaseAtWord base) := by
  constructor
  · intro list memory cpu here first
    exact base_closing code size here first
  · intro list memory cpu address count here first more second
    exact base_opening code here first more second
  · intro list target ctr left memory memory' cpu word here loaded stored down more
    obtain ⟨cpu', path, pc, rfl, memoryAt, listAt, baseAt, targetAt⟩ :=
        base_word code here loaded stored
    have back := reaches_trans path (bdnz_taken (base_fetch code 8 pc rfl) down more)
    exact ⟨_, back, rfl, listAt, baseAt, targetAt, rfl, memoryAt⟩
  · intro list target ctr memory memory' cpu word here loaded stored down
    obtain ⟨cpu', path, pc, rfl, memoryAt, listAt, baseAt, _⟩ := base_word code here loaded stored
    have out := reaches_trans path (reaches_trans (bdnz_passed (base_fetch code 8 pc rfl) down)
      (b_leads (base_fetch code 9 (congrArg (· + 1) pc) rfl)))
    exact ⟨_, out, rfl, listAt, baseAt, memoryAt⟩
  · intro list target ctr memory cpu here missing
    rcases here with ⟨pc, listAt, _, _, _, rfl⟩
    exact lwzu_hangs (base_fetch code 6 pc rfl) listAt missing
  · intro list target ctr memory cpu word here loaded missing
    rcases here with ⟨pc, listAt, _, targetAt, _, rfl⟩
    have path := lwzu_leads (base_fetch code 6 pc rfl) listAt loaded
    exact stuck_of_reaches path
      (stwu_hangs (base_fetch code 7 (congrArg (· + 1) pc) rfl) targetAt rfl missing)

end BaseLoop

/-! ## The CD engine -/

section CdLoop

variable {list target ctr : Nat} {memory memory' : Memory} {cpu : Cpu}

/-- At `mtmsrd %r8, 0` of `iterLoop`. -/
structure CdAtRecord (list : Nat) (memory : Memory) (cpu : Cpu) : Prop where
  pc : cpu.pc = 8
  list : (cpu.gpr 3 + 4) % addressSpace = list % addressSpace
  memory : cpu.memory = memory

/-- At `mtmsrd %r8, 0` of `patchLoop`. -/
structure CdAtWord (list target ctr : Nat) (memory : Memory) (cpu : Cpu) : Prop where
  pc : cpu.pc = 16
  list : (cpu.gpr 3 + 4) % addressSpace = list % addressSpace
  target : (cpu.gpr 4 + 4) % addressSpace = target % addressSpace
  ctr : cpu.ctr = ctr
  memory : cpu.memory = memory

theorem cd_switch {rs : Nat} (fetch : copyPatchesCD[cpu.pc]? = some (.mtmsrd rs))
    (sync : copyPatchesCD[cpu.pc + 1]? = some .isync) :
    Leads copyPatchesCD cpu { cpu with msr := cpu.gpr rs }.next.next :=
  reaches_trans (exec_leads fetch rfl) (exec_leads sync rfl)

theorem cd_compared {word : UInt32} (here : CdAtRecord list memory cpu)
    (first : loadWord memory list = some word) :
    ∃ cpu', Leads copyPatchesCD cpu cpu' ∧ cpu'.pc = 12 ∧ cpu'.eq = decide (word = 0xFFFFFFFF) ∧
      cpu'.gpr 3 = list % addressSpace ∧ cpu'.gpr 4 = word.toNat ∧ cpu'.memory = memory := by
  obtain ⟨pc, listAt, rfl⟩ := here
  have loaded := reaches_trans
    (cd_switch (fetch_at copyPatchesCD 8 pc rfl)
      (fetch_at copyPatchesCD 9 (congrArg (· + 1) pc) rfl))
    (lwzu_leads (fetch_at copyPatchesCD 10 (congrArg (· + 2) pc) rfl) listAt first)
  have compared := reaches_trans loaded
    (cmpwi_leads (fetch_at copyPatchesCD 11 (congrArg (· + 3) pc) rfl) rfl)
  exact ⟨_, compared, congrArg (· + 4) pc, rfl, rfl, rfl, rfl⟩

theorem cd_closing (here : CdAtRecord list memory cpu)
    (first : loadWord memory list = some endWord) :
    ∃ cpu', Leads copyPatchesCD cpu cpu' ∧ Halted copyPatchesCD cpu' ∧ cpu'.memory = memory := by
  obtain ⟨cpu', path, pc, equal, _, _, memoryAt⟩ := cd_compared here first
  exact ⟨_, reaches_trans path (beq_taken (fetch_at copyPatchesCD 12 pc rfl) equal), rfl, memoryAt⟩

/-- The base of the CD engine is zero: the address word less four is the pointer. -/
theorem zero_pointer (address : UInt32) :
    ((address.toNat + pattern (-4)) % addressSpace + 4) % addressSpace =
      (0 + address.toNat) % addressSpace := by
  have four : pattern (-4) = 0xFFFFFFFFFFFFFFFC := by decide
  rw [four, addressSpace]
  omega

theorem cd_opening {address count : UInt32} (here : CdAtRecord list memory cpu)
    (first : loadWord memory list = some address) (more : address ≠ endWord)
    (second : loadWord memory (list + 4) = some count) :
    ∃ cpu', Leads copyPatchesCD cpu cpu' ∧
      CdAtWord (list + 4 + 4) (0 + address.toNat) count.toNat memory cpu' := by
  obtain ⟨cpu', path, pc, equal, listAt, addressAt, rfl⟩ := cd_compared here first
  obtain ⟨pointer, sum⟩ : ∃ pointer, (cpu'.gpr 4 + pattern (-4)) % addressSpace = pointer :=
      ⟨_, rfl⟩
  have biased := reaches_trans (beq_passed (fetch_at copyPatchesCD 12 pc rfl)
      (equal.trans (decide_eq_false more)))
    (addi_leads (fetch_at copyPatchesCD 13 (congrArg (· + 1) pc) rfl) (by decide) rfl sum)
  have listNext : (cpu'.gpr 3 + 4) % addressSpace = (list + 4) % addressSpace := by
    rw [listAt]
    exact pointer_moved list
  have counted := reaches_trans biased (reaches_trans
    (lwzu_leads (fetch_at copyPatchesCD 14 (congrArg (· + 2) pc) rfl) listNext second)
    (mtctr_leads (fetch_at copyPatchesCD 15 (congrArg (· + 3) pc) rfl)))
  have target : (pointer + 4) % addressSpace = (0 + address.toNat) % addressSpace := by
    rw [← sum, addressAt]
    exact zero_pointer address
  exact ⟨_, reaches_trans path counted, congrArg (· + 4) pc, pointer_moved (list + 4), target,
    rfl, rfl⟩

theorem cd_word {word : UInt32} (here : CdAtWord list target ctr memory cpu)
    (loaded : loadWord memory list = some word)
    (stored : storeWord memory target word = some memory') :
    ∃ cpu', Leads copyPatchesCD cpu cpu' ∧ cpu'.pc = 24 ∧ cpu'.ctr = ctr ∧ cpu'.memory = memory' ∧
      (cpu'.gpr 3 + 4) % addressSpace = (list + 4) % addressSpace ∧
      (cpu'.gpr 4 + 4) % addressSpace = (target + 4) % addressSpace := by
  obtain ⟨pc, listAt, targetAt, rfl, rfl⟩ := here
  have load := reaches_trans
    (cd_switch (fetch_at copyPatchesCD 16 pc rfl)
      (fetch_at copyPatchesCD 17 (congrArg (· + 1) pc) rfl))
    (lwzu_leads (fetch_at copyPatchesCD 18 (congrArg (· + 2) pc) rfl) listAt loaded)
  have stores := reaches_trans load (reaches_trans
    (cd_switch (fetch_at copyPatchesCD 19 (congrArg (· + 3) pc) rfl)
      (fetch_at copyPatchesCD 20 (congrArg (· + 4) pc) rfl))
    (stwu_leads (fetch_at copyPatchesCD 21 (congrArg (· + 5) pc) rfl) targetAt rfl stored))
  have flushed := reaches_trans stores (reaches_trans
    (exec_leads (fetch_at copyPatchesCD 22 (congrArg (· + 6) pc) rfl) rfl)
    (exec_leads (fetch_at copyPatchesCD 23 (congrArg (· + 7) pc) rfl) rfl))
  exact ⟨_, flushed, congrArg (· + 8) pc, rfl, rfl, pointer_moved list, pointer_moved target⟩

theorem cd_loop : CopyLoop copyPatchesCD 0 CdAtRecord CdAtWord := by
  constructor
  · intro list memory cpu here first
    exact cd_closing here first
  · intro list memory cpu address count here first more second
    exact cd_opening here first more second
  · intro list target ctr left memory memory' cpu word here loaded stored down more
    obtain ⟨cpu', path, pc, rfl, memoryAt, listAt, targetAt⟩ := cd_word here loaded stored
    have back := reaches_trans path (bdnz_taken (fetch_at copyPatchesCD 24 pc rfl) down more)
    exact ⟨_, back, rfl, listAt, targetAt, rfl, memoryAt⟩
  · intro list target ctr memory memory' cpu word here loaded stored down
    obtain ⟨cpu', path, pc, rfl, memoryAt, listAt, _⟩ := cd_word here loaded stored
    have out := reaches_trans path (reaches_trans
        (bdnz_passed (fetch_at copyPatchesCD 24 pc rfl) down)
      (b_leads (fetch_at copyPatchesCD 25 (congrArg (· + 1) pc) rfl)))
    exact ⟨_, out, rfl, listAt, memoryAt⟩
  · intro list target ctr memory cpu here missing
    rcases here with ⟨pc, listAt, _, _, rfl⟩
    exact stuck_of_reaches (cd_switch (fetch_at copyPatchesCD 16 pc rfl)
      (fetch_at copyPatchesCD 17 (congrArg (· + 1) pc) rfl))
      (lwzu_hangs (fetch_at copyPatchesCD 18 (congrArg (· + 2) pc) rfl) listAt missing)
  · intro list target ctr memory cpu word here loaded missing
    rcases here with ⟨pc, listAt, targetAt, _, rfl⟩
    have load := reaches_trans
      (cd_switch (fetch_at copyPatchesCD 16 pc rfl)
        (fetch_at copyPatchesCD 17 (congrArg (· + 1) pc) rfl))
      (lwzu_leads (fetch_at copyPatchesCD 18 (congrArg (· + 2) pc) rfl) listAt loaded)
    have switched := reaches_trans load
      (cd_switch (fetch_at copyPatchesCD 19 (congrArg (· + 3) pc) rfl)
        (fetch_at copyPatchesCD 20 (congrArg (· + 4) pc) rfl))
    exact stuck_of_reaches switched
      (stwu_hangs (fetch_at copyPatchesCD 21 (congrArg (· + 5) pc) rfl) targetAt rfl missing)

end CdLoop

/-! ## The pointers -/

section Pointers

variable {cpu : Cpu}

theorem upper_half : pattern (extend16 0x8000 * 0x10000) = 0xFFFFFFFF80000000 ∧
    rotateLeft 0xFFFFFFFF80000000 32 / 2 ^ (63 - 31) * 2 ^ (63 - 31) = 0x8000000000000000 := by
  decide

theorem entry_1BL (entry : cpu.pc = 0) : ∃ cpu', Leads copyPatches1BL cpu cpu' ∧
    BaseAtRecord 0x8000020000010000 0x8000000001000000 cpu.memory cpu' := by
  obtain ⟨sign, shift⟩ := upper_half
  have list : 0x8000000000000000 ||| 0x100 * 0x10000 = 0x8000000001000000 := by decide
  have ored : 0xFFFFFFFF80000000 ||| 0x200 = 0xFFFFFFFF80000200 := by decide
  have shift' : rotateLeft 0xFFFFFFFF80000200 32 / 2 ^ (63 - 31) * 2 ^ (63 - 31) =
      0x8000020000000000 := by
    decide
  have base : 0x8000020000000000 ||| 1 * 0x10000 = 0x8000020000010000 := by decide
  have listBias : (0x8000000001000000 + pattern (-4)) % addressSpace = 0x8000000000FFFFFC := by
    decide
  have baseBias : (0x8000020000010000 + pattern (-4)) % addressSpace = 0x800002000000FFFC := by
    decide
  have first := reaches_trans (lis_leads (fetch_at copyPatches1BL 0 entry rfl) sign)
    (reaches_trans (rldicr_leads (fetch_at copyPatches1BL 1 (congrArg (· + 1) entry) rfl) rfl shift)
      (oris_leads (fetch_at copyPatches1BL 2 (congrArg (· + 2) entry) rfl) rfl list))
  have second := reaches_trans first
    (reaches_trans (lis_leads (fetch_at copyPatches1BL 3 (congrArg (· + 3) entry) rfl) sign)
      (reaches_trans (ori_leads (fetch_at copyPatches1BL 4 (congrArg (· + 4) entry) rfl) rfl ored)
        (reaches_trans
          (rldicr_leads (fetch_at copyPatches1BL 5 (congrArg (· + 5) entry) rfl) rfl shift')
          (oris_leads (fetch_at copyPatches1BL 6 (congrArg (· + 6) entry) rfl) rfl base))))
  have biased := reaches_trans second (reaches_trans
    (addi_leads (fetch_at copyPatches1BL 7 (congrArg (· + 7) entry) rfl) (by decide) rfl listBias)
    (addi_leads (fetch_at copyPatches1BL 8 (congrArg (· + 8) entry) rfl) (by decide) rfl baseBias))
  have listAt : (0x8000000000FFFFFC + 4) % addressSpace = 0x8000000001000000 % addressSpace := by
    decide
  have baseAt : (0x800002000000FFFC + 4) % addressSpace = 0x8000020000010000 % addressSpace := by
    decide
  exact ⟨_, biased, congrArg (· + 9) entry, listAt, baseAt, rfl⟩

theorem entry_CB (entry : cpu.pc = 0) : ∃ cpu', Leads copyPatchesCB cpu cpu' ∧
    BaseAtRecord 0x8000000004000000 0x8000000001001000 cpu.memory cpu' := by
  obtain ⟨sign, shift⟩ := upper_half
  have page : 0x8000000000000000 ||| 0x100 * 0x10000 = 0x8000000001000000 := by decide
  have list : 0x8000000001000000 ||| 0x1000 = 0x8000000001001000 := by decide
  have base : 0x8000000000000000 ||| 0x400 * 0x10000 = 0x8000000004000000 := by decide
  have listBias : (0x8000000001001000 + pattern (-4)) % addressSpace = 0x8000000001000FFC := by
    decide
  have baseBias : (0x8000000004000000 + pattern (-4)) % addressSpace = 0x8000000003FFFFFC := by
    decide
  have first := reaches_trans (lis_leads (fetch_at copyPatchesCB 0 entry rfl) sign) (reaches_trans
    (rldicr_leads (fetch_at copyPatchesCB 1 (congrArg (· + 1) entry) rfl) rfl shift)
    (reaches_trans
      (oris_leads (fetch_at copyPatchesCB 2 (congrArg (· + 2) entry) rfl) rfl page)
      (ori_leads (fetch_at copyPatchesCB 3 (congrArg (· + 3) entry) rfl) rfl list)))
  have second := reaches_trans first
    (reaches_trans (lis_leads (fetch_at copyPatchesCB 4 (congrArg (· + 4) entry) rfl) sign)
      (reaches_trans (rldicr_leads (fetch_at copyPatchesCB 5
        (congrArg (· + 5) entry) rfl) rfl shift)
        (oris_leads (fetch_at copyPatchesCB 6 (congrArg (· + 6) entry) rfl) rfl base)))
  have biased := reaches_trans second (reaches_trans
    (addi_leads (fetch_at copyPatchesCB 7 (congrArg (· + 7) entry) rfl) (by decide) rfl listBias)
    (addi_leads (fetch_at copyPatchesCB 8 (congrArg (· + 8) entry) rfl) (by decide) rfl baseBias))
  have listAt : (0x8000000001000FFC + 4) % addressSpace = 0x8000000001001000 % addressSpace := by
    decide
  have baseAt : (0x8000000003FFFFFC + 4) % addressSpace = 0x8000000004000000 % addressSpace := by
    decide
  exact ⟨_, biased, congrArg (· + 9) entry, listAt, baseAt, rfl⟩

theorem entry_CD (entry : cpu.pc = 0) : ∃ cpu', Leads copyPatchesCD cpu cpu' ∧
    CdAtRecord 0x8000000001002000 cpu.memory cpu' := by
  obtain ⟨sign, shift⟩ := upper_half
  have page : 0x8000000000000000 ||| 0x100 * 0x10000 = 0x8000000001000000 := by decide
  have list : 0x8000000001000000 ||| 0x2000 = 0x8000000001002000 := by decide
  have listBias : (0x8000000001002000 + pattern (-4)) % addressSpace = 0x8000000001001FFC := by
    decide
  have masks := reaches_trans (exec_leads (fetch_at copyPatchesCD 0 entry rfl) rfl) (reaches_trans
    (exec_leads (fetch_at copyPatchesCD 1 (congrArg (· + 1) entry) rfl) rfl)
    (exec_leads (fetch_at copyPatchesCD 2 (congrArg (· + 2) entry) rfl) rfl))
  have first := reaches_trans masks
    (reaches_trans (lis_leads (fetch_at copyPatchesCD 3 (congrArg (· + 3) entry) rfl) sign)
      (rldicr_leads (fetch_at copyPatchesCD 4 (congrArg (· + 4) entry) rfl) rfl shift))
  have second := reaches_trans first (reaches_trans
    (oris_leads (fetch_at copyPatchesCD 5 (congrArg (· + 5) entry) rfl) rfl page)
    (ori_leads (fetch_at copyPatchesCD 6 (congrArg (· + 6) entry) rfl) rfl list))
  have biased := reaches_trans second
    (addi_leads (fetch_at copyPatchesCD 7 (congrArg (· + 7) entry) rfl) (by decide) rfl listBias)
  have listAt : (0x8000000001001FFC + 4) % addressSpace = 0x8000000001002000 % addressSpace := by
    decide
  exact ⟨_, biased, congrArg (· + 8) entry, listAt, rfl⟩

end Pointers

end XeBuild.Patches
