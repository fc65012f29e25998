import CS2200.Interrupts.Program
import CS2200.Library.Leads
import Mathlib.Algebra.Ring.Nat
import Mathlib.Data.Nat.Factorial.Basic

/-!
# The factorial routine

Where no interrupt is taken, the routine returns to its caller with the factorial of its argument.
Every level of the recursion has a frame of four words on the stack, and the routine changes no
other word and no register but `$at` and `$v0`.
-/

namespace CS2200.Interrupts

/-! ## The words below the stack pointer -/

/-- A word below the stack pointer. -/
def below (sp : Word) (word : Nat) : Address := address (sp - BitVec.ofNat 32 (word + 1))

section Below

variable (sp : Word)

theorem below_sub (count word : Nat) :
    below (sp - BitVec.ofNat 32 count) word = below sp (word + count) := by
  unfold below
  congr 1
  bv_omega

theorem below_toNat (word : Nat) :
    (below sp word).toNat = (sp.toNat + (2 ^ 32 - (word + 1) % 2 ^ 32)) % 2 ^ 24 := by
  simp only [below, address, BitVec.toNat_setWidth, BitVec.toNat_sub, BitVec.toNat_ofNat]
  omega

/-- Fewer words than the memory has are different cells. -/
theorem below_eq_iff {word other : Nat} (inside : word < 2 ^ 24) (otherInside : other < 2 ^ 24) :
    below sp word = below sp other ↔ word = other := by
  refine ⟨fun same => ?_, congrArg (below sp)⟩
  have values := congrArg BitVec.toNat same
  rw [below_toNat, below_toNat] at values
  omega

private theorem exists_below (cell : Address) : ∃ word < 2 ^ 24, below sp word = cell := by
  refine ⟨(sp.toNat % 2 ^ 24 + 2 ^ 25 - 1 - cell.toNat) % 2 ^ 24, by omega, ?_⟩
  refine BitVec.eq_of_toNat_eq ?_
  rw [below_toNat]
  have inside := cell.isLt
  omega

end Below

/-! ## The routine in memory -/

/-- The program counter at a line of the routine. -/
def line (index : Nat) : Word := BitVec.ofNat 32 (Label.factorial + index)

/-- The routine is in its place. -/
def Loaded (memory : Memory) : Prop :=
  ∀ index < factorial.length, decode (memory (address (line index))) = factorial[index]?

instance (memory : Memory) : Decidable (Loaded memory) :=
  inferInstanceAs (Decidable (∀ index < factorial.length,
    decode (memory (address (line index))) = factorial[index]?))

/-- The number of words that the frames of a call take. -/
def depth (n : Nat) : Nat := 4 * max n 1

/-- The words that a call takes overlap no instruction of the routine. -/
def Spared (sp : Word) (n : Nat) : Prop :=
  ∀ word < depth n, ∀ index < factorial.length, below sp word ≠ address (line index)

instance (sp : Word) (n : Nat) : Decidable (Spared sp n) :=
  inferInstanceAs (Decidable (∀ word < depth n, ∀ index < factorial.length,
    below sp word ≠ address (line index)))

theorem four_le_depth (n : Nat) : 4 ≤ depth n := by
  rw [depth]
  omega

theorem Spared.depth_lt {sp : Word} {n : Nat} (spared : Spared sp n) : depth n < 2 ^ 24 := by
  by_contra large
  obtain ⟨word, inside, overlaps⟩ := exists_below sp (address (line 0))
  exact spared word (Nat.lt_of_lt_of_le inside (Nat.le_of_not_lt large)) 0 (by decide) overlaps

/-- The routine stays in its place while only words of the stack change. -/
theorem Loaded.congr {memory changed : Memory} {sp : Word} {n : Nat} (loaded : Loaded memory)
    (spared : Spared sp n)
    (same : ∀ cell, (∀ word < depth n, cell ≠ below sp word) → changed cell = memory cell) :
    Loaded changed := by
  intro index inside
  rw [same _ fun word isWord => (spared word isWord index inside).symm, loaded index inside]

private theorem Loaded.update {memory : Memory} {sp : Word} {n word : Nat} (loaded : Loaded memory)
    (spared : Spared sp n) (inside : word < depth n) (value : Word) :
    Loaded (Function.update memory (below sp word) value) :=
  loaded.congr spared fun _ outside => Function.update_of_ne (outside word inside) _ _

/-! ## One instruction -/

/-- One instruction without an interrupt, whatever the keyboard has. -/
def Executes (before after : Machine) : Prop := ∀ key, before.step key = some after

/-- The machine has these values in its registers and its memory. -/
structure Shows (pc : Word) (values : Register → Word) (memory : Memory) (machine : Machine) :
    Prop where
  /-- Program counter. -/
  pc : machine.context.pc = pc
  /-- What the registers read as. -/
  values : machine.context.read = values
  /-- Memory. -/
  memory : machine.memory = memory

section Instructions

variable (index : Nat) {values : Register → Word} {memory : Memory} {rx ry rz : Register}
  {offset : BitVec 20}

theorem line_succ : line index + 1 = line (index + 1) :=
  (BitVec.ofNat_add (Label.factorial + index) 1).symm

theorem Context.read_write_eq {context : Context} {register : Register} (stored : register ≠ .zero)
    (value : Word) :
    (context.write register value).read = Function.update context.read register value := by
  funext other
  rw [Context.read_write, Function.update_apply]
  simp [stored]

theorem Shows.executes {instruction : Instruction} {machine next : Machine} (loaded : Loaded memory)
    (present : factorial[index]? = some instruction)
    (shows : Shows (line index) values memory machine)
    (executes : ∀ key, instruction.execute machine key = some next) : Executes machine next := by
  intro key
  obtain ⟨inside, -⟩ := List.getElem?_eq_some_iff.mp present
  have fetch : machine.fetch = some instruction := by
    rw [Machine.fetch, shows.pc, shows.memory, loaded index inside, present]
  rw [Machine.step, fetch]
  exact executes key

theorem leads_write {instruction : Instruction} {value : Word} (loaded : Loaded memory)
    (present : factorial[index]? = some instruction) (stored : rx ≠ .zero)
    (executes : ∀ machine key, Shows (line index) values memory machine →
      instruction.execute machine key =
        some { machine with context := machine.context.next.write rx value }) :
    Leads Executes (Shows (line index) values memory)
      (Shows (line (index + 1)) (Function.update values rx value) memory) := by
  refine .single fun machine shows => ?_
  refine ⟨_, shows.executes index loaded present fun key => executes machine key shows, ?_, ?_, ?_⟩
  · exact (congrArg (· + 1) shows.pc).trans (line_succ index)
  · rw [Context.read_write_eq stored]
    exact congrArg (Function.update · rx value) shows.values
  · exact shows.memory

theorem leads_add (loaded : Loaded memory) (present : factorial[index]? = some (.add rx ry rz))
    (stored : rx ≠ .zero) :
    Leads Executes (Shows (line index) values memory)
      (Shows (line (index + 1)) (Function.update values rx (values ry + values rz)) memory) :=
  leads_write index loaded present stored fun machine key shows => by
    rw [← shows.values]
    rfl

theorem leads_addi (loaded : Loaded memory)
    (present : factorial[index]? = some (.addi rx ry offset)) (stored : rx ≠ .zero) :
    Leads Executes (Shows (line index) values memory)
      (Shows (line (index + 1)) (Function.update values rx (values ry + offset.signExtend 32))
        memory) :=
  leads_write index loaded present stored fun machine key shows => by
    rw [← shows.values]
    rfl

private theorem leads_lw (loaded : Loaded memory)
    (present : factorial[index]? = some (.lw rx offset ry)) (stored : rx ≠ .zero) :
    Leads Executes (Shows (line index) values memory)
      (Shows (line (index + 1))
        (Function.update values rx (memory (address (values ry + offset.signExtend 32)))) memory) :=
  leads_write index loaded present stored fun machine key shows => by
    rw [← shows.values, ← shows.memory]
    rfl

private theorem leads_sw (loaded : Loaded memory)
    (present : factorial[index]? = some (.sw rx offset ry)) :
    Leads Executes (Shows (line index) values memory)
      (Shows (line (index + 1)) values
        (Function.update memory (address (values ry + offset.signExtend 32)) (values rx))) := by
  refine .single fun machine shows => ?_
  refine ⟨_, shows.executes index loaded present fun key => rfl, ?_, ?_, ?_⟩
  · exact (congrArg (· + 1) shows.pc).trans (line_succ index)
  · exact shows.values
  · rw [← shows.values, ← shows.memory]

theorem leads_taken (target : Nat) (loaded : Loaded memory)
    (present : factorial[index]? = some (.beq rx ry offset)) (equal : values rx = values ry)
    (there : line (index + 1) + offset.signExtend 32 = line target) :
    Leads Executes (Shows (line index) values memory) (Shows (line target) values memory) := by
  refine .single fun machine shows => ?_
  have same : machine.context.read rx = machine.context.read ry := by rw [shows.values, equal]
  refine ⟨_, shows.executes index loaded present fun key => if_pos same, ?_, shows.values,
    shows.memory⟩
  rw [← there, ← line_succ, ← shows.pc]
  rfl

theorem leads_notTaken (loaded : Loaded memory)
    (present : factorial[index]? = some (.beq rx ry offset)) (different : values rx ≠ values ry) :
    Leads Executes (Shows (line index) values memory) (Shows (line (index + 1)) values memory) := by
  refine .single fun machine shows => ?_
  have other : machine.context.read rx ≠ machine.context.read ry := by rwa [shows.values]
  refine ⟨_, shows.executes index loaded present fun key => if_neg other, ?_, shows.values,
    shows.memory⟩
  exact (congrArg (· + 1) shows.pc).trans (line_succ index)

/-- A call leaves its own address behind. -/
theorem leads_call (loaded : Loaded memory) (present : factorial[index]? = some (.jalr rx ry))
    (stored : ry ≠ .zero) (different : rx ≠ ry) :
    Leads Executes (Shows (line index) values memory)
      (Shows (values rx) (Function.update values ry (line (index + 1))) memory) := by
  refine .single fun machine shows => ?_
  have linked : (machine.context.next.write ry machine.context.next.pc).read =
      Function.update values ry (line (index + 1)) := by
    rw [Context.read_write_eq stored, ← line_succ, ← shows.pc, ← shows.values]
    rfl
  refine ⟨_, shows.executes index loaded present fun key => rfl, ?_, linked, shows.memory⟩
  exact (congrFun linked rx).trans (Function.update_of_ne different _ _)

/-- A return leaves nothing behind. -/
theorem leads_return (loaded : Loaded memory)
    (present : factorial[index]? = some (.jalr rx .zero)) :
    Leads Executes (Shows (line index) values memory) (Shows (values rx) values memory) := by
  refine .single fun machine shows => ?_
  have linked : (machine.context.next.write .zero machine.context.next.pc).read = values := by
    funext other
    rw [Context.read_write, if_neg fun both => both.2 rfl, ← shows.values]
    rfl
  refine ⟨_, shows.executes index loaded present fun key => rfl, ?_, linked, shows.memory⟩
  exact congrFun linked rx

end Instructions

/-! ## The multiplication -/

section Multiplication

variable {values : Register → Word} {memory : Memory}

/-- The values while the loop multiplies: the counter, and the sum of the rounds so far. -/
def multiplying (values : Register → Word) (rounds counter : Nat) : Register → Word :=
  Function.update
    (Function.update values .v0 (values .v0 + BitVec.ofNat 32 rounds * values .s0)) .s1
    (BitVec.ofNat 32 counter)

theorem ofNat_inj_of_lt {left right : Nat} (leftFits : left < 2 ^ 32) (rightFits : right < 2 ^ 32)
    (same : BitVec.ofNat 32 left = BitVec.ofNat 32 right) : left = right := by
  have values := congrArg BitVec.toNat same
  rwa [BitVec.toNat_ofNat, BitVec.toNat_ofNat, Nat.mod_eq_of_lt leftFits,
    Nat.mod_eq_of_lt rightFits] at values

theorem ofNat_succ_sub (counter : Nat) :
    BitVec.ofNat 32 (counter + 1) + (-1 : BitVec 20).signExtend 32 = BitVec.ofNat 32 counter := by
  rw [show (-1 : BitVec 20).signExtend 32 = 4294967295#32 by decide]
  bv_omega

private theorem leads_round (loaded : Loaded memory) (zero : values .zero = 0) (rounds : Nat)
    {counter : Nat} (counts : counter + 1 < 2 ^ 32) :
    Leads Executes (Shows (line 22) (multiplying values rounds (counter + 1)) memory)
      (Shows (line 22) (multiplying values (rounds + 1) counter) memory) := by
  have goesOn : multiplying values rounds (counter + 1) .s1 ≠
      multiplying values rounds (counter + 1) .zero := by
    have positive : BitVec.ofNat 32 (counter + 1) ≠ 0 := fun isZero =>
      absurd (ofNat_inj_of_lt counts (by decide : 0 < 2 ^ 32) isZero) (Nat.succ_ne_zero counter)
    simpa [multiplying, zero] using positive
  have sum : Function.update
      (Function.update (multiplying values rounds (counter + 1)) .v0
        (multiplying values rounds (counter + 1) .v0 + multiplying values rounds (counter + 1) .s0))
      .s1 (BitVec.ofNat 32 (counter + 1) + (-1 : BitVec 20).signExtend 32) =
      multiplying values (rounds + 1) counter := by
    have added : values .v0 + BitVec.ofNat 32 rounds * values .s0 + values .s0 =
        values .v0 + BitVec.ofNat 32 (rounds + 1) * values .s0 := by
      rw [BitVec.ofNat_add, BitVec.add_mul, BitVec.one_mul, BitVec.add_assoc]
    funext register
    by_cases isCounter : register = .s1
    · rw [isCounter, Function.update_self, ofNat_succ_sub, multiplying, Function.update_self]
    · by_cases isSum : register = .v0
      · simp [isSum, added, multiplying]
      · simp [isCounter, isSum, multiplying]
  have test := leads_notTaken 22 loaded rfl goesOn
  have adds := test.trans (leads_add 23 loaded rfl (by decide))
  have counts := adds.trans (leads_addi 24 loaded rfl (by decide))
  have jumps := counts.trans (leads_taken 25 22 loaded rfl rfl (by decide))
  rw [← sum]
  exact jumps

/-- The loop multiplies `$s0` by the counter in `$s1`. -/
theorem leads_mul (loaded : Loaded memory) (zero : values .zero = 0) {count : Nat}
    (counter : values .s1 = BitVec.ofNat 32 count) (small : count < 2 ^ 32) :
    Leads Executes (Shows (line 22) values memory)
      (Shows (line 26) (multiplying values count 0) memory) := by
  have start : values = multiplying values 0 count := by
    rw [multiplying, BitVec.zero_mul, BitVec.add_zero, Function.update_eq_self, ← counter,
      Function.update_eq_self]
  let counted (counter : Nat) : Machine → Prop :=
    Shows (line 22) (multiplying values (count - counter) counter) memory
  have rounds : Leads Executes (counted count) (counted 0) := by
    refine Leads.countdown fun counter below => ?_
    have next := leads_round loaded zero (count - (counter + 1)) (Nat.lt_of_le_of_lt below small)
    rwa [show count - (counter + 1) + 1 = count - counter by omega] at next
  have stops := leads_taken 22 26 loaded rfl
    (show multiplying values count 0 .s1 = multiplying values count 0 .zero from zero.symm)
    (by decide)
  simp only [counted, Nat.sub_self, ← start] at rounds
  exact rounds.trans stops

end Multiplication

/-! ## The frame of a call -/

section Frame

variable {values : Register → Word} {memory : Memory} {rx : Register}

/-- The values with the stack pointer a number of words lower. -/
def lowered (values : Register → Word) (sp : Word) (count : Nat) : Register → Word :=
  Function.update values .sp (sp - BitVec.ofNat 32 count)

/-- The registers that a call saves, in the order in which it pushes them. -/
def frame : List Register := [.ra, .a0, .s0, .s1]

/-- The registers that a caller does not get back. -/
def clobbered : List Register := [.at, .v0]

/-- The memory after a call has pushed its registers. -/
def framed (values : Register → Word) (memory : Memory) : Memory :=
  frame.zipIdx.foldl (fun memory (register, word) =>
    Function.update memory (below (values .sp) word) (values register)) memory

theorem address_lowered (sp : Word) (count : Nat) :
    address (lowered values sp (count + 1) .sp + (0 : BitVec 20).signExtend 32) =
      below sp count := by
  rw [lowered, Function.update_self, below, show (0 : BitVec 20).signExtend 32 = 0#32 by decide,
    BitVec.add_zero]

private theorem leads_push (index : Nat) {sp : Word} {count : Nat} (loaded : Loaded memory)
    (adjusts : factorial[index]? = some (.addi .sp .sp (-1)))
    (stores : factorial[index + 1]? = some (.sw rx 0 .sp)) (other : rx ≠ .sp) :
    Leads Executes (Shows (line index) (lowered values sp count) memory)
      (Shows (line (index + 2)) (lowered values sp (count + 1))
        (Function.update memory (below sp count) (values rx))) := by
  have lower : Function.update (lowered values sp count) .sp
      (lowered values sp count .sp + (-1 : BitVec 20).signExtend 32) =
        lowered values sp (count + 1) := by
    have pointer : sp - BitVec.ofNat 32 count + (-1 : BitVec 20).signExtend 32 =
        sp - BitVec.ofNat 32 (count + 1) := by
      rw [show (-1 : BitVec 20).signExtend 32 = 4294967295#32 by decide]
      bv_omega
    rw [lowered, Function.update_self, pointer, Function.update_idem, lowered]
  have stored : lowered values sp (count + 1) rx = values rx := Function.update_of_ne other _ _
  have moves : Leads Executes (Shows (line index) (lowered values sp count) memory) _ :=
    leads_addi index loaded adjusts (by decide)
  rw [lower] at moves
  have writes : Leads Executes
      (Shows (line (index + 1)) (lowered values sp (count + 1)) memory) _ :=
    leads_sw (index + 1) loaded stores
  rw [address_lowered, stored] at writes
  exact moves.trans writes

private theorem leads_pop (index : Nat) {sp : Word} {count : Nat} (loaded : Loaded memory)
    (loads : factorial[index]? = some (.lw rx 0 .sp))
    (adjusts : factorial[index + 1]? = some (.addi .sp .sp 1)) (stored : rx ≠ .zero)
    (other : rx ≠ .sp) :
    Leads Executes (Shows (line index) (lowered values sp (count + 1)) memory)
      (Shows (line (index + 2))
        (lowered (Function.update values rx (memory (below sp count))) sp count) memory) := by
  have raise : Function.update
      (Function.update (lowered values sp (count + 1)) rx (memory (below sp count))) .sp
      (lowered values sp (count + 1) .sp + (1 : BitVec 20).signExtend 32) =
        lowered (Function.update values rx (memory (below sp count))) sp count := by
    have pointer : sp - BitVec.ofNat 32 (count + 1) + (1 : BitVec 20).signExtend 32 =
        sp - BitVec.ofNat 32 count := by
      rw [show (1 : BitVec 20).signExtend 32 = 1#32 by decide]
      bv_omega
    rw [lowered, Function.update_self, pointer, Function.update_comm other.symm,
      Function.update_idem, lowered]
  have kept : Function.update (lowered values sp (count + 1)) rx (memory (below sp count)) .sp =
      lowered values sp (count + 1) .sp := Function.update_of_ne other.symm _ _
  have reads : Leads Executes (Shows (line index) (lowered values sp (count + 1)) memory) _ :=
    leads_lw index loaded loads stored
  rw [address_lowered] at reads
  have moves : Leads Executes (Shows (line (index + 1))
      (Function.update (lowered values sp (count + 1)) rx (memory (below sp count))) memory) _ :=
    leads_addi (index + 1) loaded adjusts (by decide)
  rw [kept, raise] at moves
  exact reads.trans moves

/-- A word of the frame holds the register that was pushed there. -/
theorem framed_below {register : Register} {word : Nat} (saved : frame[word]? = some register) :
    framed values memory (below (values .sp) word) = values register := by
  obtain ⟨inside, isRegister⟩ := List.getElem?_eq_some_iff.mp saved
  have size : frame.length = 4 := rfl
  rw [← isRegister]
  have cases : word = 0 ∨ word = 1 ∨ word = 2 ∨ word = 3 := by omega
  rcases cases with rfl | rfl | rfl | rfl <;>
    simp [framed, frame, below_eq_iff]

theorem framed_of_ne {cell : Address}
    (outside : ∀ word < frame.length, cell ≠ below (values .sp) word) :
    framed values memory cell = memory cell := by
  have zero := outside 0 (by decide)
  have one := outside 1 (by decide)
  have two := outside 2 (by decide)
  have three := outside 3 (by decide)
  simp [framed, frame, Function.update_of_ne, zero, one, two, three]

private theorem leads_enter {n : Nat} (loaded : Loaded memory) (spared : Spared (values .sp) n) :
    Leads Executes (Shows (line 0) values memory)
      (Shows (line 8) (lowered values (values .sp) 4) (framed values memory)) := by
  have start : values = lowered values (values .sp) 0 := by
    rw [lowered, BitVec.sub_zero, Function.update_eq_self]
  have inside {word : Nat} (isFrame : word < 4) : word < depth n :=
    Nat.lt_of_lt_of_le isFrame (four_le_depth n)
  have first := loaded.update spared (inside (by decide : 0 < 4)) (values .ra)
  have second := first.update spared (inside (by decide : 1 < 4)) (values .a0)
  have third := second.update spared (inside (by decide : 2 < 4)) (values .s0)
  have pushes := (leads_push 0 loaded rfl rfl (by decide)).trans
    ((leads_push 2 first rfl rfl (by decide)).trans
      ((leads_push 4 second rfl rfl (by decide)).trans
        (leads_push 6 third rfl rfl (by decide))))
  nth_rewrite 1 [start]
  exact pushes

/-- The values after a call has popped its registers. -/
def restored (values : Register → Word) (sp : Word) (memory : Memory) : Register → Word :=
  lowered
    (frame.zipIdx.foldr (fun (register, word) values =>
      Function.update values register (memory (below sp word))) values)
    sp 0

private theorem leads_pops {sp : Word} (loaded : Loaded memory) :
    Leads Executes (Shows (line 26) (lowered values sp 4) memory)
      (Shows (memory (below sp 0)) (restored values sp memory) memory) :=
  (leads_pop 26 loaded rfl rfl (by decide) (by decide)).trans
    ((leads_pop 28 loaded rfl rfl (by decide) (by decide)).trans
      ((leads_pop 30 loaded rfl rfl (by decide) (by decide)).trans
        ((leads_pop 32 loaded rfl rfl (by decide) (by decide)).trans
          (leads_return 34 loaded rfl))))

private theorem restored_eq {original : Register → Word}
    (saved : ∀ {word register}, frame[word]? = some register →
      memory (below (original .sp) word) = original register)
    (others : ∀ register ∉ clobbered ++ frame, register ≠ .sp →
      values register = original register) {register : Register} (kept : register ∉ clobbered) :
    restored values (original .sp) memory register = original register := by
  by_cases pointer : register = .sp
  · rw [pointer, restored, lowered, Function.update_self, BitVec.sub_zero]
  · rw [restored, lowered, Function.update_of_ne pointer]
    by_cases isFrame : register ∈ frame
    · simp only [frame, List.mem_cons, List.not_mem_nil, or_false] at isFrame
      rcases isFrame with rfl | rfl | rfl | rfl
      · exact @saved 0 .ra rfl
      · exact @saved 1 .a0 rfl
      · exact @saved 2 .s0 rfl
      · exact @saved 3 .s1 rfl
    · have other := others register (by simp [kept, isFrame]) pointer
      simp only [frame, List.mem_cons, List.not_mem_nil, or_false, not_or] at isFrame
      obtain ⟨ra, a0, s0, s1⟩ := isFrame
      simp [frame, ra, a0, s0, s1, other]

/-- The factorial is computed. Registers that are no scratch registers have the values from before,
and so has the memory but for some words below the stack pointer. -/
structure Computed (n : Nat) (pc : Word) (values : Register → Word) (memory : Memory)
    (scratch : List Register) (free : Nat) (machine : Machine) : Prop where
  /-- Program counter. -/
  pc : machine.context.pc = pc
  /-- The factorial. -/
  result : machine.context.read .v0 = BitVec.ofNat 32 n.factorial
  /-- Other registers. -/
  kept : ∀ register ∉ scratch, machine.context.read register = values register
  /-- Other words. -/
  memory : ∀ cell, (∀ word < free, cell ≠ below (values .sp) word) →
    machine.memory cell = memory cell

private theorem leads_leave {n : Nat} (loaded : Loaded memory) (spared : Spared (values .sp) n) :
    Leads Executes
      (Computed n (line 26) (lowered values (values .sp) 4) (framed values memory)
        (clobbered ++ frame) (depth n - 4))
      (Computed n (values .ra) values memory clobbered (depth n)) := by
  intro machine computed
  have pointer : machine.context.read .sp = values .sp - BitVec.ofNat 32 4 :=
    computed.kept .sp (by decide)
  have framedWords : ∀ cell, (∀ word < depth n - 4, cell ≠ below (values .sp) (word + 4)) →
      machine.memory cell = framed values memory cell := by
    intro cell outside
    refine computed.memory cell fun word inside => ?_
    rw [lowered, Function.update_self, below_sub]
    exact outside word inside
  have otherWords : ∀ cell, (∀ word < depth n, cell ≠ below (values .sp) word) →
      machine.memory cell = memory cell := by
    intro cell outside
    have least := four_le_depth n
    rw [framedWords cell fun word inside => outside (word + 4) (by omega)]
    exact framed_of_ne fun word inside => outside word (Nat.lt_of_lt_of_le inside least)
  have saved {word : Nat} {register : Register} (isFrame : frame[word]? = some register) :
      machine.memory (below (values .sp) word) = values register := by
    have small := spared.depth_lt
    have inside : word < 4 := (List.getElem?_eq_some_iff.mp isFrame).1
    rw [framedWords, framed_below isFrame]
    intro other isOther same
    have := (below_eq_iff _ (by omega) (by omega)).mp same
    omega
  have loadedNow : Loaded machine.memory := loaded.congr spared otherWords
  have start : machine.context.read = lowered machine.context.read (values .sp) 4 := by
    rw [lowered, ← pointer, Function.update_eq_self]
  obtain ⟨final, path, shows⟩ := leads_pops loadedNow machine ⟨computed.pc, start, rfl⟩
  refine ⟨final, path, ?_, ?_, ?_, ?_⟩
  · rw [shows.pc]
    exact @saved 0 .ra rfl
  · rw [shows.values, ← computed.result]
    rfl
  · intro register kept
    rw [shows.values]
    refine restored_eq saved (fun other isOther apart => ?_) kept
    rw [computed.kept other isOther, lowered, Function.update_of_ne apart]
  · intro cell outside
    rw [shows.memory, otherWords cell outside]

end Frame

/-! ## The recursion -/

section Recursion

variable {values : Register → Word} {memory : Memory}

private theorem leads_zero (loaded : Loaded memory) (zero : values .zero = 0)
    (argument : values .a0 = 0) : Leads Executes (Shows (line 8) values memory)
      (Shows (line 26) (Function.update values .v0 1) memory) := by
  have sets : Leads Executes (Shows (line 12) values memory) _ :=
    leads_addi 12 loaded rfl (by decide)
  rw [zero] at sets
  have branch := leads_taken 8 12 loaded rfl (argument.trans zero.symm) (by decide)
  exact branch.trans (sets.trans (leads_taken 13 26 loaded rfl rfl (by decide)))

theorem leads_compare (loaded : Loaded memory) (zero : values .zero = 0)
    (argument : values .a0 ≠ 0) :
    Leads Executes (Shows (line 8) values memory)
      (Shows (line 10) (Function.update values .s1 1) memory) := by
  have sets : Leads Executes (Shows (line 9) values memory) _ :=
    leads_addi 9 loaded rfl (by decide)
  rw [zero] at sets
  have branch : values .a0 ≠ values .zero := by rwa [zero]
  exact (leads_notTaken 8 loaded rfl branch).trans sets

private theorem leads_one (loaded : Loaded memory) (zero : values .zero = 0)
    (argument : values .a0 = 1) : Leads Executes (Shows (line 8) values memory)
      (Shows (line 26) (Function.update (Function.update values .s1 1) .v0 1) memory) := by
  have compares := leads_compare loaded zero (by rw [argument]; decide)
  have sets : Leads Executes (Shows (line 14) (Function.update values .s1 1) memory) _ :=
    leads_addi 14 loaded rfl (by decide)
  rw [show Function.update values Register.s1 1 .zero = 0 from zero] at sets
  have branch := leads_taken 10 14 loaded rfl
    (show Function.update values Register.s1 1 .a0 = Function.update values Register.s1 1 .s1 from
      argument) (by decide)
  exact compares.trans (branch.trans (sets.trans (leads_taken 15 26 loaded rfl rfl (by decide))))

/-- The values with which the routine calls itself, before the call. -/
def reduced (values : Register → Word) : Register → Word :=
  Function.update (Function.update values .s1 (values .a0)) .a0
    (values .a0 + (-1 : BitVec 20).signExtend 32)

/-- The values with which the routine calls itself. -/
def calling (values : Register → Word) : Register → Word :=
  Function.update (Function.update (reduced values) .at (line 0)) .ra (line 20)

/-- The call changes only registers that the routine clobbers or saves. -/
theorem calling_eq {register : Register} (kept : register ∉ clobbered ++ frame) :
    calling values register = values register := by
  simp only [clobbered, frame, List.mem_append, List.mem_cons, List.not_mem_nil, or_false,
    not_or] at kept
  simp [calling, reduced, kept]

private theorem leads_recurse (loaded : Loaded memory) (zero : values .zero = 0)
    (notZero : values .a0 ≠ 0) (notOne : values .a0 ≠ 1) :
    Leads Executes (Shows (line 8) values memory) (Shows (line 0) (calling values) memory) := by
  have compares := leads_compare loaded zero notZero
  have notBase := leads_notTaken 10 loaded rfl
    (show Function.update values Register.s1 1 .a0 ≠ Function.update values Register.s1 1 .s1 from
      notOne)
  have jumps : Leads Executes (Shows (line 11) (Function.update values .s1 1) memory) _ :=
    leads_taken 11 16 loaded rfl rfl (by decide)
  have copies : Leads Executes (Shows (line 16) (Function.update values .s1 1) memory)
      (Shows (line 17) (Function.update values .s1 (values .a0)) memory) := by
    have adds : Leads Executes (Shows (line 16) (Function.update values .s1 1) memory) _ :=
      leads_add 16 loaded rfl (by decide)
    rwa [Function.update_idem, show Function.update values Register.s1 1 .a0 +
      Function.update values Register.s1 1 .zero = values .a0 by simp [zero]] at adds
  have decreases : Leads Executes
      (Shows (line 17) (Function.update values .s1 (values .a0)) memory)
      (Shows (line 18) (reduced values) memory) := by
    have adds : Leads Executes
        (Shows (line 17) (Function.update values .s1 (values .a0)) memory) _ :=
      leads_addi 17 loaded rfl (by decide)
    rwa [show Function.update values Register.s1 (values .a0) .a0 = values .a0 from rfl] at adds
  have loads : Leads Executes (Shows (line 18) (reduced values) memory)
      (Shows (line 19) (Function.update (reduced values) .at (line 0)) memory) := by
    have adds : Leads Executes (Shows (line 18) (reduced values) memory) _ :=
      leads_addi 18 loaded rfl (by decide)
    rwa [show reduced values .zero = 0 from zero,
      show (0 : Word) + (BitVec.ofNat 20 Label.factorial).signExtend 32 = line 0 by decide] at adds
  have calls : Leads Executes
      (Shows (line 19) (Function.update (reduced values) .at (line 0)) memory)
      (Shows (line 0) (calling values) memory) :=
    leads_call 19 loaded rfl (by decide) (by decide)
  exact compares.trans (notBase.trans (jumps.trans (copies.trans (decreases.trans
    (loads.trans calls)))))

/-- After the call, the result of the callee is multiplied by the argument. -/
theorem leads_multiply (loaded : Loaded memory) (zero : values .zero = 0) {count : Nat}
    (counter : values .s1 = BitVec.ofNat 32 count) (small : count < 2 ^ 32) :
    Leads Executes (Shows (line 20) values memory)
      (Shows (line 26)
        (multiplying (Function.update (Function.update values .s0 (values .v0)) .v0 0) count 0)
        memory) := by
  have copies : Leads Executes (Shows (line 20) values memory) _ :=
    leads_add 20 loaded rfl (by decide)
  rw [zero, show values .v0 + (0 : Word) = values .v0 from BitVec.add_zero _] at copies
  have clears : Leads Executes
      (Shows (line 21) (Function.update values .s0 (values .v0)) memory) _ :=
    leads_add 21 loaded rfl (by decide)
  rw [show Function.update values Register.s0 (values .v0) .zero = 0 from zero,
    show (0 : Word) + 0 = 0 from rfl] at clears
  have multiplies :=
    @leads_mul (Function.update (Function.update values .s0 (values .v0)) .v0 0) memory loaded zero
      count counter small
  exact copies.trans (clears.trans multiplies)

/-- A base case computes the factorial. -/
theorem Shows.computed {changed : Register → Word} {machine : Machine} {n : Nat}
    (shows : Shows (line 26) changed memory machine)
    (result : changed .v0 = BitVec.ofNat 32 n.factorial)
    (kept : ∀ register ∉ clobbered ++ frame, changed register = values register) (free : Nat) :
    Computed n (line 26) values memory (clobbered ++ frame) free machine where
  pc := shows.pc
  result := by rw [shows.values, result]
  kept register isKept := by rw [shows.values, kept register isKept]
  memory cell _ := by rw [shows.memory]

private theorem computed_zero (loaded : Loaded memory) (zero : values .zero = 0)
    (argument : values .a0 = 0) (free : Nat) :
    Leads Executes (Shows (line 8) values memory)
      (Computed 0 (line 26) values memory (clobbered ++ frame) free) := by
  refine (leads_zero loaded zero argument).weaken fun machine shows => shows.computed rfl ?_ free
  intro register kept
  exact Function.update_of_ne (ne_of_mem_of_not_mem (by decide) kept).symm _ _

private theorem computed_one (loaded : Loaded memory) (zero : values .zero = 0)
    (argument : values .a0 = 1) (free : Nat) :
    Leads Executes (Shows (line 8) values memory)
      (Computed 1 (line 26) values memory (clobbered ++ frame) free) := by
  refine (leads_one loaded zero argument).weaken fun machine shows => shows.computed rfl ?_ free
  intro register kept
  rw [Function.update_of_ne (ne_of_mem_of_not_mem (by decide) kept).symm,
    Function.update_of_ne (ne_of_mem_of_not_mem (by decide) kept).symm]

/-- Where the routine computes the factorial of one less, its body computes the next one. -/
theorem computed_succ {k : Nat} (loaded : Loaded memory) (zero : values .zero = 0)
    (argument : values .a0 = BitVec.ofNat 32 (k + 2)) (small : k + 2 < 2 ^ 32)
    (spared : Spared (values .sp) (k + 1))
    (call : Leads Executes (Shows (line 0) (calling values) memory)
      (Computed (k + 1) (line 20) (calling values) memory clobbered (depth (k + 1)))) :
    Leads Executes (Shows (line 8) values memory)
      (Computed (k + 2) (line 26) values memory (clobbered ++ frame) (depth (k + 1))) := by
  have noBase {base : Nat} (isBase : base < 2) : values .a0 ≠ BitVec.ofNat 32 base := by
    rw [argument]
    intro same
    have equal := ofNat_inj_of_lt small (Nat.lt_trans isBase (by decide)) same
    omega
  have recurses := leads_recurse loaded zero (noBase Nat.zero_lt_two) (noBase Nat.one_lt_two)
  refine (recurses.trans call).trans fun machine computed => ?_
  have loadedNow : Loaded machine.memory := loaded.congr spared computed.memory
  have zeroNow : machine.context.read .zero = 0 := by
    rw [computed.kept .zero (by decide)]
    exact zero
  have counter : machine.context.read .s1 = BitVec.ofNat 32 (k + 2) := by
    rw [computed.kept .s1 (by decide), ← argument]
    rfl
  obtain ⟨final, path, shows⟩ :=
    leads_multiply loadedNow zeroNow counter small machine ⟨computed.pc, rfl, rfl⟩
  refine ⟨final, path, shows.pc, ?_, ?_, ?_⟩
  · rw [shows.values, Nat.factorial_succ, BitVec.ofNat_mul, ← computed.result]
    exact BitVec.zero_add _
  · intro register kept
    have unclobbered : register ∉ clobbered := fun member => kept (List.mem_append_left _ member)
    have same : machine.context.read register = values register :=
      (computed.kept register unclobbered).trans (calling_eq kept)
    rw [shows.values, ← same]
    simp only [clobbered, frame, List.mem_append, List.mem_cons, List.not_mem_nil, or_false,
      not_or] at kept
    simp [multiplying, kept]
  · intro cell outside
    rw [shows.memory]
    exact computed.memory cell outside

/-- The routine computes the factorial and returns to its caller. -/
theorem leads_factorial (n : Nat) (loaded : Loaded memory) (zero : values .zero = 0)
    (argument : values .a0 = BitVec.ofNat 32 n) (spared : Spared (values .sp) n) :
    Leads Executes (Shows (line 0) values memory)
      (Computed n (values .ra) values memory clobbered (depth n)) := by
  induction n using Nat.strong_induction_on generalizing values memory with
  | _ n ih =>
      have loadedFrame : Loaded (framed values memory) :=
        loaded.congr spared fun cell outside => framed_of_ne fun word inside =>
          outside word (Nat.lt_of_lt_of_le inside (four_le_depth n))
      have zeroFrame : lowered values (values .sp) 4 .zero = 0 := zero
      have argumentFrame : lowered values (values .sp) 4 .a0 = BitVec.ofNat 32 n := argument
      suffices body : Leads Executes
          (Shows (line 8) (lowered values (values .sp) 4) (framed values memory))
          (Computed n (line 26) (lowered values (values .sp) 4) (framed values memory)
            (clobbered ++ frame) (depth n - 4)) from
        (leads_enter loaded spared).trans (body.trans (leads_leave loaded spared))
      match n with
      | 0 => exact computed_zero loadedFrame zeroFrame argumentFrame _
      | 1 => exact computed_one loadedFrame zeroFrame argumentFrame _
      | k + 2 =>
          have small : k + 2 < 2 ^ 24 := by
            have bound := spared.depth_lt
            rw [depth] at bound
            omega
          have pointer : calling (lowered values (values .sp) 4) .sp =
              values .sp - BitVec.ofNat 32 4 := rfl
          have below : Spared (values .sp - BitVec.ofNat 32 4) (k + 1) := by
            intro word inside index isLine
            rw [below_sub]
            refine spared _ ?_ index isLine
            simp only [depth] at inside ⊢
            omega
          have reduces : calling (lowered values (values .sp) 4) .a0 = BitVec.ofNat 32 (k + 1) := by
            rw [← ofNat_succ_sub, ← argument]
            rfl
          have zeroCall : calling (lowered values (values .sp) 4) .zero = 0 := zero
          have call := ih (k + 1) (Nat.lt_succ_self _) loadedFrame zeroCall reduces
            (by rwa [pointer])
          have levels : depth (k + 2) - 4 = depth (k + 1) := by
            simp only [depth]
            omega
          rw [levels]
          exact computed_succ loadedFrame zeroFrame argumentFrame (by omega) below call

end Recursion

/-- Called with `n`, where the words below the stack pointer that it needs overlap no instruction of
its own, the routine returns to the address in `$ra` with `n!` in `$v0`. Other registers but `$at`
and other words are unchanged. -/
theorem factorial_correct {machine : Machine} {n : Nat} (loaded : Loaded machine.memory)
    (here : machine.context.pc = line 0) (argument : machine.context.read .a0 = BitVec.ofNat 32 n)
    (spared : Spared (machine.context.read .sp) n) :
    ∃ final, Relation.ReflTransGen Executes machine final ∧
      final.context.pc = machine.context.read .ra ∧
      (final.context.read .v0).toNat = n.factorial % 2 ^ 32 ∧
      (∀ register, register ≠ .at → register ≠ .v0 →
        final.context.read register = machine.context.read register) ∧
      ∀ cell, (∀ word < 4 * max n 1, cell ≠ below (machine.context.read .sp) word) →
        final.memory cell = machine.memory cell := by
  obtain ⟨final, path, computed⟩ :=
    leads_factorial n loaded rfl argument spared machine ⟨here, rfl, rfl⟩
  refine ⟨final, path, computed.pc, ?_, ?_, computed.memory⟩
  · rw [computed.result, BitVec.toNat_ofNat]
  · intro register notAt notV0
    exact computed.kept register (by simp [clobbered, notAt, notV0])

/-- The program of Project 2 calls the routine. -/
def called : Machine where
  context :=
    { pc := line 0
      registers := fun
        | .sp => 0xa00000
        | .a0 => 5
        | .ra => 26
        | _ => 0
      enabled := true }
  memory cell := image.getD cell.toNat 0

theorem factorial_correct_five : ∃ final, Relation.ReflTransGen Executes called final ∧
    final.context.pc = 26 ∧ (final.context.read .v0).toNat = 120 := by
  obtain ⟨final, path, returns, result, -⟩ :=
    @factorial_correct called 5 (by decide +kernel) rfl rfl (by decide +kernel)
  exact ⟨final, path, returns, result⟩

end CS2200.Interrupts
