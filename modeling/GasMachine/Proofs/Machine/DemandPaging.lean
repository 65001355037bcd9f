import Mathlib
import GasMachine.Proofs.Bytes.Words
import GasMachine.Proofs.Machine.AtomicExits
import GasMachine.Proofs.Memory.SparseContents

/-!
# Demand paging

A host may map the pages of a program before it runs, or map each of them when
the program faults on it, pay back the gas of the instruction that failed and let
it run again.  A program cannot tell the one from the other.  The machine whose
pages are mapped late trails the other one: it takes the same steps, except that
it may fault on a page that is still missing, and such a fault changes nothing.
-/

namespace GasMachine

open AddressSpace

/-! ## Checks -/

/-- A check answers alike where some access is missing, unless it comes upon a
byte whose access is missing. -/
theorem AccessKind.verdict_of_missing {kind : AccessKind}
    {access full : UInt32 → Option PageAccess} {missing : UInt32 → Prop}
    [DecidablePred missing]
    (haccess : ∀ address, access address = if missing address then none else full address)
    (address : UInt32) (length : Nat) :
    kind.verdict access address length = kind.verdict full address length ∨
      ∃ fault, kind.verdict access address length = .error fault ∧ missing fault := by
  have hallowed : ∀ byte, kind.allowedBy (access byte) = true →
      kind.allowedBy (full byte) = true := by
    intro byte hbyte
    rw [haccess] at hbyte
    split at hbyte
    · simp [allowedBy] at hbyte
    · exact hbyte
  by_cases hlength : length ≤ size
  · rw [verdict_of_le hlength, verdict_of_le hlength]
    cases hrefused : kind.firstRefused access address length with
    | none =>
        have hnone : kind.firstRefused full address length = none := by
          rw [firstRefused_eq_none_iff] at hrefused ⊢
          exact fun offset hoffset => hallowed _ (hrefused offset hoffset)
        simp [hnone]
    | some fault =>
        obtain ⟨offset, hoffset, hfault, hdenied, hbefore⟩ :=
          exists_offset_of_firstRefused hrefused
        by_cases hmissing : missing fault
        · exact Or.inr ⟨fault, rfl, hmissing⟩
        · rw [haccess, if_neg hmissing, hfault] at hdenied
          have hsome := firstRefused_eq_some hoffset hdenied fun earlier hearlier =>
            hallowed _ (hbefore earlier hearlier)
          rw [hsome, ← hfault]
          exact Or.inl rfl
  · have hlong : size < length := Nat.lt_of_not_le hlength
    simp [verdict, hlong]

/-! ## Memories -/

/-- A memory in which, of `pages`, so far only those among `mapped` have access,
and one in which all of them can be written.  Apart from that the two are
alike. -/
structure FlatMemory.Trails (pages mapped : Finset Nat) (lazy eager : FlatMemory) : Prop where
  image : lazy.image = eager.image
  access : ∀ address, lazy.access address =
    if pageOf address ∈ pages \ mapped then none else eager.access address
  writable : ∀ address, pageOf address ∈ pages → eager.access address = some .readWrite

namespace FlatMemory.Trails

variable {pages mapped : Finset Nat} {lazy eager : FlatMemory}
variable (htrails : lazy.Trails pages mapped eager)
include htrails

theorem verdict_cases (kind : AccessKind) (address : UInt32) (length : Nat) :
    kind.verdict lazy.access address length = kind.verdict eager.access address length ∨
      ∃ fault, kind.verdict lazy.access address length = .error fault ∧
        pageOf fault ∈ pages \ mapped :=
  AccessKind.verdict_of_missing htrails.access address length

/-- The memory whose pages are all mapped refuses none of their bytes. -/
theorem not_mem_of_verdict {kind : AccessKind} {address fault : UInt32} {length : Nat}
    (hlength : length ≤ size)
    (hverdict : kind.verdict eager.access address length = .error fault) :
    pageOf fault ∉ pages := by
  intro hpage
  have hrefused := AccessKind.refused_of_verdict hlength hverdict
  rw [htrails.writable fault hpage] at hrefused
  cases kind <;> cases hrefused

theorem readInto (address : UInt32) (buffer : ByteArray) :
    lazy.readInto address buffer = eager.readInto address buffer ∨
      ∃ fault, (lazy.readInto address buffer).1 = .error (.refused (.notReadable fault)) ∧
        pageOf fault ∈ pages \ mapped := by
  simp only [FlatMemory.readInto]
  rcases htrails.verdict_cases .read address buffer.size with hsame | ⟨fault, hfault, hmissing⟩
  · rw [hsame, htrails.image]
    exact Or.inl rfl
  · rw [hfault]
    exact Or.inr ⟨fault, rfl, hmissing⟩

theorem write (address : UInt32) (bytes : ByteArray) :
    (lazy.write address bytes).1 = (eager.write address bytes).1 ∧
        (lazy.write address bytes).2.Trails pages mapped (eager.write address bytes).2 ∨
      ∃ fault, (lazy.write address bytes).1 = .error (.notWritable fault) ∧
        pageOf fault ∈ pages \ mapped := by
  simp only [FlatMemory.write]
  rcases htrails.verdict_cases .write address bytes.size with hsame | ⟨fault, hfault, hmissing⟩
  · rw [hsame]
    left
    cases AccessKind.write.verdict eager.access address bytes.size with
    | error fault => exact ⟨rfl, htrails⟩
    | ok allowed => exact ⟨rfl, by rw [htrails.image], htrails.access, htrails.writable⟩
  · rw [hfault]
    exact Or.inr ⟨fault, rfl, hmissing⟩

/-- Mapping one of the missing pages brings the memory closer. -/
theorem map {page : Nat} (hpage : page ∈ pages) :
    (lazy.assign page 1 (some .readWrite)).Trails pages (insert page mapped) eager where
  image := by rw [image_assign, htrails.image]
  access := by
    intro address
    have hinside : inPages page 1 address = true ↔ pageOf address = page := by
      rw [inPages_iff]
      omega
    dsimp only [assign]
    simp only [hinside, htrails.access, Finset.mem_sdiff, Finset.mem_insert]
    by_cases hsame : pageOf address = page
    · simp [hsame, htrails.writable address (hsame ▸ hpage)]
    · simp [hsame]
  writable := htrails.writable

end FlatMemory.Trails

namespace SparseMemory

structure Trails (pages mapped : Finset Nat) (lazy eager : SparseMemory) : Prop where
  lazyReachable : lazy.Reachable
  eagerReachable : eager.Reachable
  flat : lazy.flatten.Trails pages mapped eager.flatten

variable {pages mapped : Finset Nat} {lazy eager : SparseMemory}

theorem SameButCache.flatten_eq {memory after : SparseMemory}
    (hsame : memory.SameButCache after) : after.flatten = memory.flatten := by
  have himage : after.image = memory.image := by
    funext address
    simp only [image, contents, hsame.chunks]
  rw [flatten, flatten, himage, hsame.table]

namespace Trails

variable (htrails : lazy.Trails pages mapped eager)
include htrails

theorem readInto (address : UInt32) (buffer : ByteArray) :
    (∃ result filled lazyAfter eagerAfter,
        Memory.readInto lazy address buffer = ⟨result, filled, lazyAfter⟩ ∧
        Memory.readInto eager address buffer = ⟨result, filled, eagerAfter⟩ ∧
        lazyAfter.Trails pages mapped eagerAfter) ∨
      ∃ fault, (Memory.readInto lazy address buffer).result =
          .error (.refused (.notReadable fault)) ∧ pageOf fault ∈ pages \ mapped := by
  obtain ⟨lazyAfter, hlazy, hlazyAfter, hlazyFlat⟩ :=
    htrails.lazyReachable.readInto_eq address buffer
  obtain ⟨eagerAfter, heager, heagerAfter, heagerFlat⟩ :=
    htrails.eagerReachable.readInto_eq address buffer
  rcases htrails.flat.readInto address buffer with hsame | ⟨fault, hfault, hmissing⟩
  · rw [hsame] at hlazy
    refine Or.inl ⟨_, _, lazyAfter, eagerAfter, hlazy, heager, hlazyAfter, heagerAfter, ?_⟩
    rw [hlazyFlat, heagerFlat]
    exact htrails.flat
  · rw [hlazy]
    exact Or.inr ⟨fault, hfault, hmissing⟩

theorem write (address : UInt32) (bytes : ByteArray) :
    Alike (Trails pages mapped) (Memory.write lazy address bytes)
        (Memory.write eager address bytes) ∨
      ∃ fault, (Memory.write lazy address bytes).1 = .error (.notWritable fault) ∧
        pageOf fault ∈ pages \ mapped := by
  obtain ⟨hlazy, hlazyFlat⟩ := htrails.lazyReachable.write_eq address bytes
  obtain ⟨heager, heagerFlat⟩ := htrails.eagerReachable.write_eq address bytes
  rcases htrails.flat.write address bytes with ⟨hsame, hflat⟩ | ⟨fault, hfault, hmissing⟩
  · rw [← hlazyFlat, ← heagerFlat] at hflat
    exact Or.inl (.of_eq (hlazy.trans (hsame.trans heager.symm))
      ⟨htrails.lazyReachable.write address bytes, htrails.eagerReachable.write address bytes,
        hflat⟩)
  · exact Or.inr ⟨fault, hlazy.trans hfault, hmissing⟩

theorem map {page : Nat} (hpage : page ∈ pages) (hcount : page < pageCount) :
    (lazy.setPages page 1 .readWrite).Trails pages (insert page mapped) eager where
  lazyReachable := htrails.lazyReachable.setPages page 1 .readWrite
  eagerReachable := htrails.eagerReachable
  flat := by
    rw [htrails.lazyReachable.setPages_eq hcount]
    exact htrails.flat.map hpage

end Trails

end SparseMemory

/-! ## Faults -/

namespace FlatMemory

variable {flat : FlatMemory} {address : UInt32} {error : MemoryError}

theorem readInto_of_refused {buffer : ByteArray}
    (hread : (flat.readInto address buffer).1 = .error (.refused error)) :
    ∃ fault, error = .notReadable fault ∧
      AccessKind.read.verdict flat.access address buffer.size = .error fault := by
  rw [readInto] at hread
  split at hread
  · next fault hverdict =>
      cases hread
      exact ⟨fault, rfl, hverdict⟩
  · cases hread

theorem write_of_error {bytes : ByteArray} (hwrite : (flat.write address bytes).1 = .error error) :
    ∃ fault, error = .notWritable fault ∧
      AccessKind.write.verdict flat.access address bytes.size = .error fault := by
  rw [write] at hwrite
  split at hwrite
  · next fault hverdict =>
      cases hwrite
      exact ⟨fault, rfl, hverdict⟩
  · cases hwrite

end FlatMemory

/-! ## Steps -/

namespace Machine

variable {pages mapped : Finset Nat} {lazy eager : Machine SparseMemory}

open SparseMemory (Trails)

section Steps

variable (hrelated : Related (Trails pages mapped) lazy eager)
include hrelated

theorem load_trails (address : UInt32) (width : Nat) :
    Alike (Related (Trails pages mapped)) (lazy.load address width)
        (eager.load address width) ∨
      ∃ fault, (lazy.load address width).1 = .error (.refused (.notReadable fault)) ∧
        pageOf fault ∈ pages \ mapped := by
  cases haddress : isReserved address with
  | true => exact Or.inl (load_alike_of_readInto hrelated (by simp [haddress]))
  | false =>
      rcases hrelated.memory.readInto address (Bytes.zeros width) with
        hread | ⟨fault, hfault, hmissing⟩
      · exact Or.inl (load_alike_of_readInto hrelated fun _ => hread)
      · right
        simp only [load, haddress]
        exact ⟨fault, (Transfer.bytes_eq_error_iff _ _).mpr hfault, hmissing⟩

theorem store_trails (address : UInt32) (bytes : ByteArray) :
    Alike (Related (Trails pages mapped)) (lazy.store address bytes)
        (eager.store address bytes) ∨
      ∃ fault, (lazy.store address bytes).1 = .error (.notWritable fault) ∧
        pageOf fault ∈ pages \ mapped := by
  rcases hrelated.memory.write address bytes with hwrite | ⟨fault, hfault, hmissing⟩
  · exact Or.inl (store_alike_of_write hrelated hwrite)
  · simp only [store]
    cases isReserved address with
    | true => exact Or.inl ⟨_, _, _, rfl, rfl, hrelated⟩
    | false => exact Or.inr ⟨fault, hfault, hmissing⟩

theorem serve_trails {request : Request}
    (hrequest : ∀ target increment, request ≠ .grow target increment) :
    Alike (Related (Trails pages mapped)) (lazy.serve request) (eager.serve request) ∨
      ∃ fault, (lazy.serve request).1 = .exit (.pageFault fault) ∧
        pageOf fault ∈ pages \ mapped := by
  cases request with
  | finish effect registers =>
      exact Or.inl ⟨effect, _, _, rfl, rfl, hrelated.pc, rfl, hrelated.gas, hrelated.memory⟩
  | load target address width signed =>
      rcases load_trails hrelated address width with hload | ⟨fault, hfault, hmissing⟩
      · exact Or.inl (loadWord_alike hload target signed)
      · exact Or.inr ⟨fault, loadWord_of_refused hfault target signed, hmissing⟩
  | store address value width =>
      rcases store_trails hrelated address (LittleEndian.encode value width).toByteArray with
        hstore | ⟨fault, hfault, hmissing⟩
      · exact Or.inl (storeWord_alike hstore)
      · exact Or.inr ⟨fault, storeWord_of_error hfault, hmissing⟩
  | grow target increment => exact absurd rfl (hrequest target increment)

/-- The machine that trails takes the same step, or faults on a missing page. -/
theorem step_trails {program : Program} (hgrows : ¬ eager.GrowsHeap program) :
    Alike (Related (Trails pages mapped)) (lazy.step program) (eager.step program) ∨
      ∃ fault, (lazy.step program).1 = .stopped (.exit (.pageFault fault)) ∧
        pageOf fault ∈ pages \ mapped := by
  by_cases hfaults : ∃ instruction fault, lazy.gas.exhausted = false ∧
      program.instructionAt lazy.pc = .ok instruction ∧
      ((lazy.charge 1).serve (lazy.request program instruction)).1 = .exit (.pageFault fault) ∧
      pageOf fault ∈ pages \ mapped
  · obtain ⟨instruction, fault, hgas, hinstruction, hserve, hmissing⟩ := hfaults
    refine Or.inr ⟨fault, ?_, hmissing⟩
    rw [step_of_instruction hgas hinstruction]
    generalize (lazy.charge 1).serve (lazy.request program instruction) = served at hserve
    obtain ⟨effect, after⟩ := served
    obtain rfl : effect = .exit (.pageFault fault) := hserve
    rfl
  · left
    apply step_alike_of_serve hrelated
    intro instruction hgas hinstruction
    have hrequest : ∀ target increment,
        lazy.request program instruction ≠ .grow target increment := by
      intro target increment hgrow
      exact hgrows ⟨hrelated.gas ▸ hgas, instruction, hrelated.pc ▸ hinstruction,
        Request.opcode_eq_sbrk hgrow⟩
    rcases serve_trails hrelated.charge hrequest with hserve | ⟨fault, hfault, hmissing⟩
    · exact hserve
    · exact absurd ⟨instruction, fault, hgas, hinstruction, hfault, hmissing⟩ hfaults

end Steps

/-- The machine after its host has mapped the page of an address and paid back one
unit of gas. -/
def mapPage (machine : Machine SparseMemory) (address : UInt32) : Machine SparseMemory :=
  { machine with
    memory := machine.memory.setPages (pageOf address) 1 .readWrite
    gas := ⟨machine.gas.value + 1⟩ }

/-- Steps lead from memories that operations lead to, to others of that kind. -/
theorem reachable_step (program : Program) {machine : Machine SparseMemory}
    (hreachable : machine.memory.Reachable) : (machine.step program).2.memory.Reachable := by
  rcases machine.memory_step_cases program with hsame | ⟨address, buffer, hread⟩ |
    ⟨address, bytes, hwrite⟩ | ⟨-, increment, hgrow⟩
  · rwa [hsame]
  · rw [hread]
    exact hreachable.readInto address buffer
  · rw [hwrite]
    exact hreachable.write address bytes
  · rw [hgrow]
    exact hreachable.grow increment

/-- A fault has changed nothing, so once its page is mapped the machine trails as
before. -/
theorem Related.mapPage {program : Program} {fault : UInt32} {after : Machine SparseMemory}
    (hrelated : Related (Trails pages mapped) lazy eager)
    (hstep : lazy.step program = (.stopped (.exit (.pageFault fault)), after))
    (hpage : pageOf fault ∈ pages) :
    Related (Trails pages (insert (pageOf fault) mapped)) (after.mapPage fault) eager := by
  have hunchanged := (atomicExit_of_step lazy.memory.failsAtomically hstep).retry rfl
  have hgas := exhausted_eq_false_of_step hstep nofun
  have hreachable := reachable_step program hrelated.memory.lazyReachable
  rw [hstep] at hreachable
  have hflatten : after.memory.flatten = lazy.memory.flatten := hunchanged.memory.flatten_eq
  have htrails : after.memory.Trails pages mapped eager.memory :=
    ⟨hreachable, hrelated.memory.eagerReachable, hflatten ▸ hrelated.memory.flat⟩
  refine ⟨?_, ?_, ?_, htrails.map hpage (pageOf_lt fault)⟩
  · exact hunchanged.pc.symm.trans hrelated.pc
  · exact hunchanged.registers.symm.trans hrelated.registers
  · rw [← hrelated.gas, ← Gas.consume_one_add_one hgas, ← gas_of_step hstep nofun]
    rfl

theorem verdict_of_load {machine : Machine SparseMemory} (hreachable : machine.memory.Reachable)
    {address fault : UInt32} {width : Nat} {error : MemoryError}
    (hload : (machine.load address width).1 = .error (.refused error))
    (hfault : error.faultAddress = some fault) :
    AccessKind.read.verdict machine.memory.flatten.access address width = .error fault := by
  rw [load] at hload
  split at hload
  · cases hload
    cases hfault
  · have hresult := (Transfer.bytes_eq_error_iff _ _).mp hload
    obtain ⟨after, hread, -⟩ := hreachable.readInto_eq address (Bytes.zeros width)
    rw [hread] at hresult
    obtain ⟨found, rfl, hverdict⟩ := FlatMemory.readInto_of_refused hresult
    cases hfault
    rwa [Bytes.size_zeros] at hverdict

theorem verdict_of_store {machine : Machine SparseMemory}
    (hreachable : machine.memory.Reachable) {address fault : UInt32} {bytes : ByteArray}
    {error : MemoryError} (hstore : (machine.store address bytes).1 = .error error)
    (hfault : error.faultAddress = some fault) :
    AccessKind.write.verdict machine.memory.flatten.access address bytes.size =
      .error fault := by
  rw [store] at hstore
  split at hstore
  · cases hstore
    cases hfault
  · have hresult := (hreachable.write_eq address bytes).1.symm.trans hstore
    obtain ⟨found, rfl, hverdict⟩ := FlatMemory.write_of_error hresult
    cases hfault
    exact hverdict

/-- A page fault names a byte at which the check of an access failed. -/
theorem exists_verdict_of_fault {program : Program} {fault : UInt32}
    {machine : Machine SparseMemory} (hreachable : machine.memory.Reachable)
    (hstep : (machine.step program).1 = .stopped (.exit (.pageFault fault))) :
    ∃ (kind : AccessKind) (address : UInt32) (width : Nat), width ≤ size ∧
      kind.verdict machine.memory.flatten.access address width = .error fault := by
  rcases machine.step_cases program with ⟨-, heq⟩ | ⟨-, error, -, heq⟩ |
    ⟨-, instruction, effect, served, -, hserve, heq⟩
  · rw [heq] at hstep
    cases hstep
  · rw [heq] at hstep
    cases hstep
  · rw [heq] at hstep
    have heffect : effect = .exit (.pageFault fault) := by
      cases effect <;> simp_all [settle, Effect.exit]
    rw [heffect] at hserve
    rcases serve_exit_cases hserve with ⟨registers, hfinish, -⟩ | ⟨error, herror, hcases⟩
    · exact absurd rfl ((Request.leads_of_ofAction hfinish).ne_pageFault fault)
    · have hcharged : (machine.charge 1).memory.Reachable := hreachable
      have hfault := Exit.ofMemoryError_eq_pageFault_iff.mp herror.symm
      rcases hcases with ⟨target, address, width, signed, hrequest, hload⟩ |
        ⟨address, value, width, hrequest, hstore⟩ | ⟨target, increment, memory, -, hgrow, -⟩
      · have hrange : (machine.request program instruction).range? =
            some (.read, address, width) := by rw [hrequest, Request.range?]
        have hwidth : width ≤ size := (width_mem hrange).2.trans (by decide)
        exact ⟨.read, address, width, hwidth,
          verdict_of_load hcharged (congrArg Prod.fst hload) hfault⟩
      · have hwidth : (LittleEndian.encode value width).toByteArray.size ≤ size := by
          rw [LittleEndian.size_encode]
          exact (min_le_right _ _).trans (by decide)
        exact ⟨.write, address, _, hwidth,
          verdict_of_store hcharged (congrArg Prod.fst hstore) hfault⟩
      · have hresult : (machine.memory.grow increment).1 = .error error :=
          congrArg Prod.fst hgrow
        rw [SparseMemory.grow] at hresult
        split at hresult
        · cases hresult
          cases hfault
        · cases hresult

/-- A machine with all pages mapped faults on none of them. -/
theorem not_mem_of_fault {program : Program} {fault : UInt32}
    (hrelated : Related (Trails pages mapped) lazy eager)
    (hstep : (eager.step program).1 = .stopped (.exit (.pageFault fault))) :
    pageOf fault ∉ pages := by
  obtain ⟨kind, address, width, hwidth, hverdict⟩ :=
    exists_verdict_of_fault hrelated.memory.eagerReachable hstep
  exact hrelated.memory.flat.not_mem_of_verdict hwidth hverdict

/-! ## Runs -/

/-- Runs a machine whose host maps a page of `pages` when the machine faults on it,
and lets it run again.  There is no answer if this takes more than `runs` runs. -/
def runPaging (program : Program) (pages : Finset Nat) :
    (runs : Nat) → Machine SparseMemory → Option (Stop × Machine SparseMemory)
  | 0, _ => none
  | runs + 1, machine =>
    match machine.run program with
    | (.exit (.pageFault address), after) =>
      if pageOf address ∈ pages then runPaging program pages runs (after.mapPage address)
      else some (.exit (.pageFault address), after)
    | (stop, after) => some (stop, after)

theorem runPaging_of_running {program : Program} {machine after : Machine SparseMemory}
    (hstep : machine.step program = (.running, after)) (runs : Nat) :
    runPaging program pages runs machine = runPaging program pages runs after := by
  cases runs with
  | zero => rfl
  | succ runs => rw [runPaging, runPaging, run_of_running hstep]

theorem runPaging_of_fault {program : Program} {fault : UInt32}
    {machine after : Machine SparseMemory}
    (hstep : machine.step program = (.stopped (.exit (.pageFault fault)), after))
    (hpage : pageOf fault ∈ pages) (runs : Nat) :
    runPaging program pages (runs + 1) machine =
      runPaging program pages runs (after.mapPage fault) := by
  rw [runPaging, run_of_stopped hstep]
  exact if_pos hpage

theorem runPaging_of_stopped {program : Program} {stop : Stop}
    {machine after : Machine SparseMemory}
    (hstep : machine.step program = (.stopped stop, after))
    (hstop : ∀ fault, stop = .exit (.pageFault fault) → pageOf fault ∉ pages) (runs : Nat) :
    runPaging program pages (runs + 1) machine = some (stop, after) := by
  rw [runPaging, run_of_stopped hstep]
  split
  · next address machine hfault =>
      obtain ⟨hstop', rfl⟩ := Prod.mk.inj hfault
      rw [if_neg (hstop address hstop'), hstop']
  · next hsame => exact congrArg some hsame.symm

/-- A machine that trails catches up: it takes the step of the other one once it
has faulted on some of the missing pages. -/
theorem exists_caughtUp {program : Program} (hgrows : ¬ eager.GrowsHeap program)
    (hmapped : mapped ⊆ pages) (hrelated : Related (Trails pages mapped) lazy eager) :
    ∃ later current, mapped ⊆ later ∧ later ⊆ pages ∧
      Alike (Related (Trails pages later)) (current.step program) (eager.step program) ∧
      ∀ runs, (pages \ mapped).card < runs → ∃ rest, (pages \ later).card < rest ∧
        runPaging program pages runs lazy = runPaging program pages rest current := by
  induction hmissing : (pages \ mapped).card generalizing mapped lazy with
  | zero =>
      rcases step_trails hrelated hgrows with halike | ⟨fault, -, hfault⟩
      · exact ⟨mapped, lazy, subset_rfl, hmapped, halike,
          fun runs henough => ⟨runs, hmissing ▸ henough, rfl⟩⟩
      · simp [Finset.card_eq_zero.mp hmissing] at hfault
  | succ missing ih =>
      rcases step_trails hrelated hgrows with halike | ⟨fault, hstep, hfault⟩
      · exact ⟨mapped, lazy, subset_rfl, hmapped, halike,
          fun runs henough => ⟨runs, hmissing ▸ henough, rfl⟩⟩
      · have hpage := (Finset.mem_sdiff.mp hfault).1
        have hlazy : lazy.step program =
            (.stopped (.exit (.pageFault fault)), (lazy.step program).2) := by rw [← hstep]
        have hcard : (pages \ insert (pageOf fault) mapped).card = missing := by
          rw [Finset.sdiff_insert, Finset.card_erase_of_mem hfault, hmissing,
            Nat.add_sub_cancel]
        obtain ⟨later, current, hlater, hpages, halike, hruns⟩ :=
          ih (Finset.insert_subset hpage hmapped) (hrelated.mapPage hlazy hpage) hcard
        refine ⟨later, current, (Finset.subset_insert _ _).trans hlater, hpages, halike, ?_⟩
        intro runs henough
        obtain ⟨left, rfl⟩ := Nat.exists_eq_add_one_of_ne_zero (Nat.ne_zero_of_lt henough)
        rw [runPaging_of_fault hlazy hpage]
        exact hruns left (Nat.lt_of_succ_lt_succ henough)

/-- Paging and mapping in advance lead to the same end. -/
theorem exists_runPaging (program : Program) (eager : Machine SparseMemory) :
    ∀ (mapped : Finset Nat) (lazy : Machine SparseMemory), mapped ⊆ pages →
      Related (Trails pages mapped) lazy eager →
      (∀ attempt ∈ eager.attempts program, ¬ attempt.GrowsHeap program) →
        ∃ later after, mapped ⊆ later ∧ later ⊆ pages ∧
          Related (Trails pages later) after (eager.run program).2 ∧
          (∀ fault, (eager.run program).1 = .exit (.pageFault fault) → pageOf fault ∉ pages) ∧
          ∀ runs, (pages \ mapped).card < runs →
            runPaging program pages runs lazy = some ((eager.run program).1, after) := by
  induction eager using @run_induction SparseMemory _ program with
  | hstopped eager stop final hstep =>
      intro mapped lazy hmapped hrelated hgrows
      obtain ⟨later, current, hlater, hpages,
        ⟨outcome, after, eagerAfter, hcurrent, heager, hafter⟩, hruns⟩ :=
        exists_caughtUp (hgrows eager (by simp [attempts_of_stopped hstep])) hmapped hrelated
      obtain ⟨rfl, rfl⟩ := Prod.mk.inj (heager.symm.trans hstep)
      have hstop : ∀ fault, stop = .exit (.pageFault fault) → pageOf fault ∉ pages := by
        rintro fault rfl
        exact not_mem_of_fault hrelated (by rw [hstep])
      rw [run_of_stopped hstep]
      refine ⟨later, after, hlater, hpages, hafter, hstop, fun runs henough => ?_⟩
      obtain ⟨rest, hrest, hsame⟩ := hruns runs henough
      obtain ⟨left, rfl⟩ := Nat.exists_eq_add_one_of_ne_zero (Nat.ne_zero_of_lt hrest)
      rw [hsame]
      exact runPaging_of_stopped hcurrent hstop left
  | hrunning eager next hstep ih =>
      intro mapped lazy hmapped hrelated hgrows
      obtain ⟨later, current, hlater, hpages,
        ⟨outcome, after, eagerAfter, hcurrent, heager, hafter⟩, hruns⟩ :=
        exists_caughtUp (hgrows eager (by simp [attempts_of_running hstep])) hmapped hrelated
      obtain ⟨rfl, rfl⟩ := Prod.mk.inj (heager.symm.trans hstep)
      have hlaterGrows : ∀ attempt ∈ eagerAfter.attempts program,
          ¬ attempt.GrowsHeap program :=
        fun attempt hattempt => hgrows attempt (by simp [attempts_of_running hstep, hattempt])
      obtain ⟨newest, last, hnewest, hall, hend, hfault, hanswer⟩ :=
        ih later after hpages hafter hlaterGrows
      rw [run_of_running hstep]
      refine ⟨newest, last, hlater.trans hnewest, hall, hend, hfault, fun runs henough => ?_⟩
      obtain ⟨rest, hrest, hsame⟩ := hruns runs henough
      rw [hsame, runPaging_of_running hcurrent]
      exact hanswer rest hrest

end Machine

/-- What the memory that trails lets a host read, the other one lets it read too,
with the same bytes. -/
theorem SparseMemory.Trails.read_eq {pages mapped : Finset Nat} {lazy eager : SparseMemory}
    (htrails : lazy.Trails pages mapped eager) {address : UInt32} {length : UInt64}
    {bytes : ByteArray} (hread : (Memory.read lazy address length).1 = .ok bytes) :
    (Memory.read eager address length).1 = .ok bytes := by
  rw [(htrails.lazyReachable.represents.read address length).1] at hread
  rw [(htrails.eagerReachable.represents.read address length).1]
  rw [FlatMemory.read] at hread ⊢
  rcases htrails.flat.verdict_cases .read address length.toNat with hsame | ⟨fault, hfault, -⟩
  · rwa [← hsame, ← htrails.flat.image]
  · rw [hfault] at hread
    cases hread

/-- Demand paging cannot be noticed.  Take any set of pages, a machine in which all
of them can be written, and one in which so far only some of them are mapped and
which is otherwise the same.  If the run of the first one never grows the heap, then
the second one, whose host maps each of the pages when the machine faults on it and
pays back the gas, ends after no more runs than pages are missing and one: with the
same exit, program counter, registers and gas, the same byte at every address, and
the same answer to every read that it lets its host make.  A fault on a page outside
the set ends both, at the same address. -/
theorem demand_paging_unnoticed {program : Program} {pages mapped : Finset Nat}
    {lazy eager : Machine SparseMemory} (hmapped : mapped ⊆ pages)
    (hrelated : Machine.Related (SparseMemory.Trails pages mapped) lazy eager)
    (hgrows : ∀ attempt ∈ eager.attempts program, ¬ attempt.GrowsHeap program) :
    ∃ after : Machine SparseMemory,
      (∀ runs, (pages \ mapped).card < runs →
        Machine.runPaging program pages runs lazy = some ((eager.run program).1, after)) ∧
      after.pc = (eager.run program).2.pc ∧
      after.registers = (eager.run program).2.registers ∧
      after.gas = (eager.run program).2.gas ∧
      after.memory.image = (eager.run program).2.memory.image ∧
      (∀ address length bytes, (Memory.read after.memory address length).1 = .ok bytes →
        (Memory.read (eager.run program).2.memory address length).1 = .ok bytes) ∧
      ∀ fault, (eager.run program).1 = .exit (.pageFault fault) → pageOf fault ∉ pages := by
  obtain ⟨later, after, -, -, hend, hfault, hruns⟩ :=
    Machine.exists_runPaging program eager mapped lazy hmapped hrelated hgrows
  exact ⟨after, hruns, hend.pc, hend.registers, hend.gas, hend.memory.flat.image,
    fun _ _ _ hread => hend.memory.read_eq hread, hfault⟩

/-- A program that stores four bytes, two of them on the next page. -/
def straddlingStore : Program :=
  .ofImage ⟨ByteArray.empty, 0, 0, [32, 3, 0xFE, 0x0F, 1, 7].toByteArray, [1].toByteArray⟩

def straddlingLazy : Machine SparseMemory :=
  ⟨0, .zero, ⟨5⟩, ⟨.empty 8, []⟩⟩

def straddlingEager : Machine SparseMemory :=
  { straddlingLazy with memory := straddlingLazy.memory.setPages 16 2 .readWrite }

theorem straddlingStore_paging_unnoticed :
    Machine.Related (SparseMemory.Trails {16, 17} ∅) straddlingLazy straddlingEager ∧
      (∀ attempt ∈ straddlingEager.attempts straddlingStore,
        ¬ attempt.GrowsHeap straddlingStore) ∧
      ∃ after, Machine.runPaging straddlingStore {16, 17} 3 straddlingLazy =
        some (.exit (.panic .trap), after) ∧
        after.memory.image 0x10FFE = 7 := by
  have haccess : ∀ address, straddlingEager.memory.flatten.access address =
      if pageOf address ∈ ({16, 17} : Finset Nat) then some .readWrite else none := by
    intro address
    have hpages : FlatMemory.inPages 16 2 address = true ↔
        pageOf address ∈ ({16, 17} : Finset Nat) := by
      simp only [FlatMemory.inPages_iff, Finset.mem_insert, Finset.mem_singleton]
      omega
    have hfits : 16 + 2 ≤ pageCount := by decide
    have hassign := PageTable.empty.accessAt_assign hfits (some .readWrite) address
    simp only [hpages] at hassign
    exact hassign
  have hrelated : Machine.Related (SparseMemory.Trails {16, 17} ∅) straddlingLazy
      straddlingEager := by
    refine ⟨rfl, rfl, rfl, .start _, (SparseMemory.Reachable.start _).setPages _ _ _, rfl,
      fun address => ?_, fun address hpage => ?_⟩
    · rw [haccess, Finset.sdiff_empty]
      split <;> rfl
    · rw [haccess, if_pos hpage]
  have hgrows : ∀ attempt ∈ straddlingEager.attempts straddlingStore,
      ¬ attempt.GrowsHeap straddlingStore := by
    decide +kernel
  have hstop : (straddlingEager.run straddlingStore).1 = .exit (.panic .trap) := by cbv
  have hbyte : (straddlingEager.run straddlingStore).2.memory.image 0x10FFE = 7 := by cbv
  obtain ⟨after, hruns, -, -, -, himage, -⟩ :=
    demand_paging_unnoticed (Finset.empty_subset _) hrelated hgrows
  refine ⟨hrelated, hgrows, after, ?_, ?_⟩
  · rw [hruns 3 (by decide), hstop]
  · rw [himage, hbyte]

end GasMachine
