import CS2200.VirtualMemory.Types

/-!
# The simulator's functions

Each definition follows the C function of the same name. `none` stands for a failed assertion or a
dereference of `NULL`, both of which abort the program.
-/

namespace CS2200.VirtualMemory

/-! ## Page tables and the swap list -/

namespace Os

/-- Overwrite one entry of one page table. -/
def modifyPte (os : Os) (table : Nat) (vpn : Vpn) (change : Pte → Pte) : Os :=
  { os with
    tables := fun t v => if t = table ∧ v = vpn then change (os.tables t v) else os.tables t v }

/-- The `page_size` bytes at the start of a frame. -/
def page (config : Config) (os : Os) (pfn : Pfn) : List Word :=
  (List.range config.pageSize).map fun k => os.memory (pfn.toNat * config.pageSize + k)

/-- `memcpy` or `memset` of a whole frame. -/
def writePage (config : Config) (os : Os) (pfn : Pfn) (data : Nat → Word) : Os :=
  let base := pfn.toNat * config.pageSize
  { os with
    memory := fun address =>
      if base ≤ address ∧ address < base + config.pageSize then data (address - base)
      else os.memory address }

end Os

/-- The key test of `page_from_disk`. -/
def SwapPage.holds (pid : UInt32) (vpn : Vpn) (saved : SwapPage) : Bool :=
  saved.pid == pid && saved.vpn == vpn

/-- Save a frame at the head of the swap list. -/
def pageToDisk (config : Config) (os : Os) (pfn : Pfn) (vpn : Vpn) (pid : UInt32) : Os :=
  { os with
    countDiskaccesses := os.countDiskaccesses + 1
    swapfile := { pid, vpn, data := os.page config pfn } :: os.swapfile }

/-- Restore a page from the first matching entry, which is unlinked, or provide a zeroed page. -/
def pageFromDisk (config : Config) (os : Os) (pfn : Pfn) (vpn : Vpn) (pid : UInt32) : Os :=
  match os.swapfile.find? (SwapPage.holds pid vpn) with
  | none => os.writePage config pfn fun _ => 0
  | some saved =>
      { os.writePage config pfn fun k => saved.data.getD k 0 with
        countDiskaccesses := os.countDiskaccesses + 1
        swapfile := os.swapfile.eraseP (SwapPage.holds pid vpn) }

/-! ## Frame replacement -/

/-- The clock sweep over the given frames: clear `used` until a frame without it is found. -/
def clockSweep (os : Os) : List Nat → Option (Os × Pfn)
  | [] => some (os, 0)
  | frame :: frames => do
      let pcb ← (os.rlt frame).pcb
      let table ← (os.procList pcb).pagetable
      let vpn := (os.rlt frame).vpn
      if (os.tables table vpn).used then
        clockSweep (os.modifyPte table vpn fun pte => { pte with used := false }) frames
      else
        some (os, .ofNat frame)

/-- A free frame, or one found by the sweep. The frame number is truncated to 16 bits. -/
def getFreeFrame (config : Config) (os : Os) : Option (Os × Pfn) :=
  match (List.range config.numFrames).find? fun frame => (os.rlt frame).pcb = none with
  | some frame => some (os, .ofNat frame)
  | none => clockSweep os (List.range config.numFrames)

/-! ## The TLB -/

/-- Invalidate one TLB entry. -/
def Tlbe.clear (entry : Tlbe) : Tlbe := { entry with valid := false, dirty := false, used := false }

/-- Clear every TLB entry. -/
def tlbClearall (config : Config) (state : State) : State :=
  { state with
    tlb := fun i => if i < config.tlbSize then (state.tlb i).clear else state.tlb i }

/-- Clear the TLB entries of one virtual page, whichever process they belong to. -/
def tlbClearone (config : Config) (state : State) (vpn : Vpn) : State :=
  { state with
    tlb := fun i =>
      if i < config.tlbSize ∧ (state.tlb i).vpn = vpn then (state.tlb i).clear else state.tlb i }

/-! ## Page faults -/

/-- The branch of `pagefault_handler` for an occupied frame: save the page if it is dirty, then
invalidate it in its owner's page table and in the TLB. -/
def evictVictim (config : Config) (state : State) (victimPfn : Pfn) : Option State :=
  let victimVpn := (state.rlt victimPfn.toNat).vpn
  match (state.rlt victimPfn.toNat).pcb with
  | none => some state
  | some victimPcb => do
      let table ← (state.procList victimPcb).pagetable
      if (state.tables table victimVpn).valid then
        let saved :=
          if (state.tables table victimVpn).dirty then
            pageToDisk config state.toOs victimPfn victimVpn (state.procList victimPcb).pid
          else state.toOs
        let os := saved.modifyPte table victimVpn fun pte => { pte with valid := false }
        some (tlbClearone config { state with toOs := os } victimVpn)
      else some state

/-- The part of `pagefault_handler` after the eviction: give the frame to the requested page. -/
def installPage (config : Config) (os : Os) (victimPfn : Pfn) (requestVpn : Vpn) (write : Bool) :
    Option Os := do
  let current ← os.current
  let table ← os.currentPagetable
  let os :=
    { os with
      rlt := Function.update os.rlt victimPfn.toNat { pcb := some current, vpn := requestVpn } }
  let os := os.modifyPte table requestVpn fun _ =>
    { pfn := victimPfn, valid := true, used := true, dirty := write }
  some (pageFromDisk config os victimPfn requestVpn (os.procList current).pid)

/-- `pagefault_handler`, with its two assertions. -/
def pagefaultHandler (config : Config) (state : State) (requestVpn : Vpn) (write : Bool) :
    Option (State × Pfn) := do
  let _ ← state.currentPagetable
  let (os, victimPfn) ← getFreeFrame config state.toOs
  if victimPfn.toNat < config.numFrames then
    let state ← evictVictim config { state with toOs := os } victimPfn
    let os ← installPage config state.toOs victimPfn requestVpn write
    some ({ state with toOs := os }, victimPfn)
  else none

/-- `pagetable_lookup`. -/
def pagetableLookup (config : Config) (state : State) (vpn : Vpn) (write : Bool) :
    Option (State × Pfn) := do
  let table ← state.currentPagetable
  if (state.tables table vpn).valid then
    some (state, (state.tables table vpn).pfn)
  else
    pagefaultHandler config
      { state with countPagefaults := state.countPagefaults + 1 } vpn write

/-! ## Translation -/

/-- First TLB entry below `tlb_size` with a given property. -/
def tlbFind (config : Config) (state : State) (property : Tlbe → Bool) : Option Nat :=
  (List.range config.tlbSize).find? fun i => property (state.tlb i)

/-- Write one TLB entry. -/
def tlbSet (state : State) (index : Nat) (entry : Tlbe) : State :=
  { state with tlb := Function.update state.tlb index entry }

/-- The last loop of `tlb_lookup`: replace the first entry without `used`, clearing it before. -/
def tlbSweep (state : State) (entry : Tlbe) : List Nat → State
  | [] => state
  | i :: rest =>
      if (state.tlb i).used then
        tlbSweep (tlbSet state i { state.tlb i with used := false }) entry rest
      else tlbSet state i entry

/-- The replacement part of `tlb_lookup`: invalid entries first, then the sweep. -/
def tlbInstall (config : Config) (state : State) (vpn : Vpn) (pfn : Pfn) (write : Bool) : State :=
  let entry : Tlbe := { vpn, pfn, dirty := write, valid := true, used := true }
  match tlbFind config state fun e => !e.valid with
  | some i => tlbSet state i entry
  | none => tlbSweep state entry (List.range config.tlbSize)

/-- `tlb_lookup`. -/
def tlbLookup (config : Config) (state : State) (vpn : Vpn) (write : Bool) :
    Option (State × Pfn) :=
  match tlbFind config state fun e => e.valid && e.vpn == vpn with
  | some i => some ({ state with countTlbhits := state.countTlbhits + 1 }, (state.tlb i).pfn)
  | none => do
      let (state, pfn) ← pagetableLookup config state vpn write
      some (tlbInstall config state vpn pfn write, pfn)

/-! ## Memory accesses -/

/-- The physical address `pfn * page_size + offset`. -/
def physicalAddress (config : Config) (pfn : Pfn) (va : VAddr) : Nat :=
  pfn.toNat * config.pageSize + config.vaddrOffset va

/-- `mem_load`. -/
def memLoad (config : Config) (state : State) (va : VAddr) : Option (State × Word) := do
  let (state, pfn) ← tlbLookup config state (config.vaddrPagenum va) false
  some ({ state with countReads := state.countReads + 1 },
    state.memory (physicalAddress config pfn va))

/-- `mem_store`. -/
def memStore (config : Config) (state : State) (va : VAddr) (data : Word) : Option State := do
  let (state, pfn) ← tlbLookup config state (config.vaddrPagenum va) true
  some { state with
    countWrites := state.countWrites + 1
    memory := Function.update state.memory (physicalAddress config pfn va) data }

/-! ## Processes and commands -/

/-- `proc_fork`: a new page table, whose pointer goes into the process control block. -/
def procFork (config : Config) (state : State) (pid : UInt32) : Option State :=
  if pid.toNat < config.maxJobs then
    some { state with
      tables := Function.update state.tables state.allocated fun _ => .zero
      allocated := state.allocated + 1
      procList := Function.update state.procList pid.toNat
        { pid, pagetable := some state.allocated } }
  else none

/-- `proc_switch`. -/
def procSwitch (config : Config) (state : State) (pid : UInt32) : Option State :=
  if pid.toNat < config.maxJobs then do
    let table ← (state.procList pid.toNat).pagetable
    some (tlbClearall config
      { state with current := some pid.toNat, currentPagetable := some table })
  else none

/-- A complete line of the references file. The `int pid` is compared as unsigned. -/
inductive Command where
  /-- `@ pid name`. -/
  | fork (pid : UInt32)
  /-- `l pid va`. -/
  | load (pid : UInt32) (va : VAddr)
  /-- `s pid va val`. -/
  | store (pid : UInt32) (va : VAddr) (val : Word)
  deriving DecidableEq, Repr

/-- The test of `sim_readdata` before an access: switch unless `pid` is already running. -/
def switchTo (config : Config) (state : State) (pid : UInt32) : Option State :=
  if state.current.map (fun index => (state.procList index).pid) = some pid then some state
  else procSwitch config state pid

/-- One line of `sim_readdata`, with the value that a load prints. -/
def simCommand (config : Config) (state : State) : Command → Option (State × Option Word)
  | .fork pid =>
      if pid.toNat < config.maxJobs then (procFork config state pid).map fun s => (s, none)
      else some (state, none)
  | .load pid va =>
      if pid.toNat ≥ config.maxJobs then some (state, none)
      else do
        let state ← switchTo config state pid
        let (state, val2) ← memLoad config state va
        some (state, some val2)
  | .store pid va val =>
      if pid.toNat ≥ config.maxJobs then some (state, none)
      else do
        let state ← switchTo config state pid
        let state ← memStore config state va val
        some (state, none)

/-- A references file: the final state and what each line loaded. -/
def run (config : Config) : State → List Command → Option (State × List (Option Word))
  | state, [] => some (state, [])
  | state, command :: commands => do
      let (state, output) ← simCommand config state command
      let (state, outputs) ← run config state commands
      some (state, output :: outputs)

end CS2200.VirtualMemory
