import Mathlib.Algebra.Order.Ring.Nat
import Mathlib.Data.UInt
import Mathlib.Tactic.Positivity

/-!
# Data model of the virtual-memory simulator

The globals of `simulator-src` as one state record, the command-line settings of `sim_setoptions`,
and the page-splitting macros. The part of the state which the TLB does not own is the separate
record `Os`: the page tables, the reverse lookup table, physical memory, the swap list and the
counters that the page-fault path maintains.
-/

namespace CS2200.VirtualMemory

/-- Data words: this machine is byte addressed. -/
abbrev Word := UInt8

/-- Virtual addresses are 16 bits. -/
abbrev VAddr := UInt16

/-- Virtual page numbers, `vpn_t`. -/
abbrev Vpn := UInt16

/-- Physical frame numbers, `pfn_t`. -/
abbrev Pfn := UInt16

/-- The settings `page_size`, `mem_size`, `tlb_size` and `max_jobs`. -/
structure Config where
  /-- Bytes in a page. -/
  pageSize : Nat
  /-- Bytes of physical memory. -/
  memSize : Nat
  /-- Entries in the TLB. -/
  tlbSize : Nat
  /-- Bound on process identifiers. -/
  maxJobs : Nat
  deriving DecidableEq, Repr

namespace Config

/-- The initial values in `global.c` and `process.c`. -/
def defaults : Config := { pageSize := 2, memSize := 16, tlbSize := 4, maxJobs := 8 }

/-- `CPU_NUM_PTE`: entries in a page table. -/
def numPte (config : Config) : Nat := 2 ^ 16 / config.pageSize

/-- `CPU_NUM_FRAMES`: frames in memory. -/
def numFrames (config : Config) : Nat := config.memSize / config.pageSize

/-- `VADDR_PAGENUM`. -/
def vaddrPagenum (config : Config) (va : VAddr) : Vpn := .ofNat (va.toNat / config.pageSize)

/-- `VADDR_OFFSET`. -/
def vaddrOffset (config : Config) (va : VAddr) : Nat := va.toNat % config.pageSize

end Config

/-- One option of the command line, its argument already read by `atoi`. -/
inductive SimOption where
  /-- `-p <page_size>`. -/
  | pageSize (argument : Int)
  /-- `-m <memory_size>`. -/
  | memSize (argument : Int)
  /-- `-t <TLB_size>`. -/
  | tlbSize (argument : Int)
  /-- `-j <num_jobs>`. -/
  | jobs (argument : Int)
  /-- `-h` or an option that `getopt` does not know. -/
  | help
  deriving DecidableEq, Repr

/-- The option loop of `sim_setoptions`. -/
def setOption (config : Config) : SimOption → Except String Config
  | .pageSize argument =>
      if argument > 16 ∨ argument < 1 then
        .error "invalid page size -- must be between 1 and 16!"
      else .ok { config with pageSize := 2 ^ argument.toNat }
  | .memSize argument =>
      if argument > 20 ∨ argument < 1 then
        .error "invalid memory size -- must be between 1 and 20!"
      else .ok { config with memSize := 2 ^ argument.toNat }
  | .tlbSize argument =>
      if argument > 255 ∨ argument < 0 then
        .error "invalid TLB size -- must be between 0 and 65536!"
      else .ok { config with tlbSize := argument.toNat }
  | .jobs argument =>
      if argument > 32 ∨ argument < 0 then
        .error "invalid max number of jobs -- must be between 0 and 32!"
      else .ok { config with maxJobs := argument.toNat }
  | .help => .error "Usage"

/-- `sim_setoptions`: read the options, then require a references file and a page that fits. -/
def simSetoptions (options : List SimOption) (filename : Option String) :
    Except String Config := do
  let config ← options.foldlM setOption Config.defaults
  if filename = none then .error "no references filename specified"
  else if config.pageSize > config.memSize then
    .error "page size cannot be larger than physical memory!"
  else .ok config

/-- A configuration which some command line makes `sim_setoptions` accept. -/
def Config.Accepted (config : Config) : Prop :=
  ∃ options filename, simSetoptions options filename = .ok config

/-- What the checks of `sim_setoptions` leave possible. -/
structure Config.Checked (config : Config) : Prop where
  /-- Pages have 2 to 65536 bytes. -/
  page : ∃ exponent, 1 ≤ exponent ∧ exponent ≤ 16 ∧ config.pageSize = 2 ^ exponent
  /-- Memory has 2 to 2 ^ 20 bytes. -/
  mem : ∃ exponent, 1 ≤ exponent ∧ exponent ≤ 20 ∧ config.memSize = 2 ^ exponent
  /-- The TLB has at most 255 entries. -/
  tlb : config.tlbSize ≤ 255
  /-- There are at most 32 jobs. -/
  jobs : config.maxJobs ≤ 32

private theorem setOption_checked {before after : Config} {option : SimOption}
    (checked : before.Checked) (step : setOption before option = .ok after) : after.Checked := by
  obtain ⟨page, mem, tlb, jobs⟩ := checked
  cases option with
  | help => cases step
  | _ argument =>
      simp only [setOption] at step
      split at step
      · cases step
      · obtain rfl := Except.ok.inj step
        constructor <;> first | assumption | (simp only; omega) |
          exact ⟨argument.toNat, by omega, by omega, rfl⟩

private theorem foldlM_setOption_checked {before after : Config} {options : List SimOption}
    (checked : before.Checked) (step : options.foldlM setOption before = .ok after) :
    after.Checked := by
  induction options generalizing before with
  | nil => exact Except.ok.inj step ▸ checked
  | cons option options ih =>
      rw [List.foldlM_cons] at step
      cases first : setOption before option with
      | error message =>
          rw [first] at step
          cases step
      | ok middle =>
          rw [first] at step
          exact ih (setOption_checked checked first) step

private theorem Config.defaults_checked : Config.defaults.Checked :=
  ⟨⟨1, by decide⟩, ⟨4, by decide⟩, by decide, by decide⟩

/-- `sim_setoptions` accepts only checked settings whose page fits in memory. -/
theorem Config.Accepted.checked {config : Config} (accepted : config.Accepted) :
    config.Checked ∧ config.pageSize ≤ config.memSize := by
  obtain ⟨options, filename, accepts⟩ := accepted
  simp only [simSetoptions, bind, Except.bind] at accepts
  cases folded : options.foldlM setOption Config.defaults with
  | error message => simp [folded] at accepts
  | ok final =>
      simp only [folded] at accepts
      split at accepts
      · cases accepts
      · split at accepts
        · cases accepts
        · obtain rfl := Except.ok.inj accepts
          exact ⟨foldlM_setOption_checked defaults_checked folded, by omega⟩

namespace Config

variable {config : Config}

theorem Accepted.pageSize_pos (accepted : config.Accepted) : 0 < config.pageSize := by
  obtain ⟨⟨exponent, -, -, equal⟩, -⟩ := accepted.checked.1
  rw [equal]
  positivity

theorem Accepted.numFrames_mul (accepted : config.Accepted) :
    config.numFrames * config.pageSize = config.memSize := by
  obtain ⟨⟨⟨page, -, -, pageEqual⟩, ⟨mem, -, -, memEqual⟩, -, -⟩, fits⟩ := accepted.checked
  rw [pageEqual, memEqual] at fits
  have order := (Nat.pow_le_pow_iff_right (by decide)).mp fits
  rw [numFrames, pageEqual, memEqual]
  exact Nat.div_mul_cancel (pow_dvd_pow 2 order)

theorem Accepted.numFrames_pos (accepted : config.Accepted) : 0 < config.numFrames :=
  Nat.div_pos accepted.checked.2 accepted.pageSize_pos

theorem Accepted.numPte_mul (accepted : config.Accepted) :
    config.numPte * config.pageSize = 2 ^ 16 := by
  obtain ⟨⟨page, -, upper, equal⟩, -⟩ := accepted.checked.1
  rw [numPte, equal]
  exact Nat.div_mul_cancel (pow_dvd_pow 2 upper)

theorem vaddrPagenum_toNat (config : Config) (va : VAddr) :
    (config.vaddrPagenum va).toNat = va.toNat / config.pageSize := by
  rw [vaddrPagenum, UInt16.toNat_ofNat']
  exact Nat.mod_eq_of_lt ((Nat.div_le_self _ _).trans_lt va.toNat_lt)

theorem Accepted.vaddrPagenum_lt (accepted : config.Accepted) (va : VAddr) :
    (config.vaddrPagenum va).toNat < config.numPte := by
  rw [vaddrPagenum_toNat, Nat.div_lt_iff_lt_mul accepted.pageSize_pos, accepted.numPte_mul]
  exact va.toNat_lt

theorem Accepted.vaddrOffset_lt (accepted : config.Accepted) (va : VAddr) :
    config.vaddrOffset va < config.pageSize :=
  Nat.mod_lt _ accepted.pageSize_pos

theorem vaddr_ext {first second : VAddr}
    (page : config.vaddrPagenum first = config.vaddrPagenum second)
    (offset : config.vaddrOffset first = config.vaddrOffset second) : first = second := by
  have quotient := congrArg UInt16.toNat page
  rw [vaddrPagenum_toNat, vaddrPagenum_toNat] at quotient
  have remainder : first.toNat % config.pageSize = second.toNat % config.pageSize := offset
  rw [← UInt16.toNat_inj, ← Nat.div_add_mod first.toNat config.pageSize, quotient, remainder,
    Nat.div_add_mod]

theorem Accepted.exists_vaddr (accepted : config.Accepted) {vpn : Vpn} {k : Nat}
    (inTable : vpn.toNat < config.numPte) (inside : k < config.pageSize) :
    ∃ va, config.vaddrPagenum va = vpn ∧ config.vaddrOffset va = k := by
  have bound : vpn.toNat * config.pageSize + k < 2 ^ 16 := by
    calc vpn.toNat * config.pageSize + k
        < vpn.toNat * config.pageSize + config.pageSize := Nat.add_lt_add_left inside _
      _ = (vpn.toNat + 1) * config.pageSize := (Nat.succ_mul _ _).symm
      _ ≤ config.numPte * config.pageSize := Nat.mul_le_mul_right _ inTable
      _ = 2 ^ 16 := accepted.numPte_mul
  have toNat : (UInt16.ofNat (vpn.toNat * config.pageSize + k)).toNat =
      vpn.toNat * config.pageSize + k := by
    rw [UInt16.toNat_ofNat', Nat.mod_eq_of_lt bound]
  refine ⟨.ofNat (vpn.toNat * config.pageSize + k), ?_, ?_⟩
  · rw [← UInt16.toNat_inj, vaddrPagenum_toNat, toNat, Nat.mul_comm,
      Nat.mul_add_div accepted.pageSize_pos, Nat.div_eq_of_lt inside, Nat.add_zero]
  · rw [vaddrOffset, toNat, Nat.mul_comm, Nat.mul_add_mod, Nat.mod_eq_of_lt inside]

end Config

/-- Page table entry. -/
structure Pte where
  /-- Physical frame number. -/
  pfn : Pfn
  /-- Valid bit. -/
  valid : Bool
  /-- Dirty bit. -/
  dirty : Bool
  /-- Recently accessed bit. -/
  used : Bool
  deriving DecidableEq, Repr

/-- An entry of a page table allocated by `calloc`. -/
def Pte.zero : Pte := { pfn := 0, valid := false, dirty := false, used := false }

/-- TLB entry. -/
structure Tlbe where
  /-- Virtual page number. -/
  vpn : Vpn
  /-- Physical frame number. -/
  pfn : Pfn
  /-- Valid bit. -/
  valid : Bool
  /-- Dirty bit. -/
  dirty : Bool
  /-- Recently accessed bit. -/
  used : Bool
  deriving DecidableEq, Repr

/-- An entry of the TLB allocated by `calloc`. -/
def Tlbe.zero : Tlbe := { vpn := 0, pfn := 0, valid := false, dirty := false, used := false }

/-- Process control block: its identifier and a pointer to its page table, if it has one. -/
structure Pcb where
  /-- Process identifier. -/
  pid : UInt32
  /-- Page table, an index among all tables ever allocated. -/
  pagetable : Option Nat
  deriving DecidableEq, Repr

/-- Entry in the reverse lookup table; the owner is an index into the process list. -/
structure Rlte where
  /-- Owning process. -/
  pcb : Option Nat
  /-- Virtual page number that the frame holds. -/
  vpn : Vpn
  deriving DecidableEq, Repr

/-- Saved page in the swap file. -/
structure SwapPage where
  /-- Process identifier. -/
  pid : UInt32
  /-- Virtual page number. -/
  vpn : Vpn
  /-- Saved page data. -/
  data : List Word
  deriving DecidableEq, Repr

/-- Everything but the TLB. Page tables live in a heap, since `proc_fork` replaces the pointer of
a process without touching the table that the page table register may still designate. -/
structure Os where
  /-- Main memory. -/
  memory : Nat → Word
  /-- All allocated page tables. -/
  tables : Nat → Vpn → Pte
  /-- Number of page tables allocated so far. -/
  allocated : Nat
  /-- `proc_list`. -/
  procList : Nat → Pcb
  /-- Process running on the CPU. -/
  current : Option Nat
  /-- Page table register. -/
  currentPagetable : Option Nat
  /-- Reverse lookup table. -/
  rlt : Nat → Rlte
  /-- Swap list, most recently saved page first. -/
  swapfile : List SwapPage
  /-- Number of page faults. -/
  countPagefaults : UInt64
  /-- Number of disk accesses. -/
  countDiskaccesses : UInt64
  /-- Number of stores. -/
  countWrites : UInt64
  /-- Number of loads. -/
  countReads : UInt64

/-- The whole simulator. -/
structure State extends Os where
  /-- The TLB. -/
  tlb : Nat → Tlbe
  /-- Number of TLB hits. -/
  countTlbhits : UInt64

/-- The state after `sim_init`. -/
def simInit : State where
  memory _ := 0
  tables _ _ := .zero
  allocated := 0
  procList _ := { pid := 0, pagetable := none }
  current := none
  currentPagetable := none
  rlt _ := { pcb := none, vpn := 0 }
  swapfile := []
  countPagefaults := 0
  countDiskaccesses := 0
  countWrites := 0
  countReads := 0
  tlb _ := .zero
  countTlbhits := 0

end CS2200.VirtualMemory
