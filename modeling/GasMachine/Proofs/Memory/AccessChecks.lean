import GasMachine.Memory.PageMap
import GasMachine.Proofs.Memory.PageTable

/-!
# What a check of a range answers

A check goes over pages and may be answered from memory.  Neither shows: its
verdict is that of going over the bytes of the range, one by one and around the
top of the address space, and naming the first one that may not be used.  This
holds of remembered answers too, since each is the answer of the table.
-/

namespace GasMachine

namespace AddressSpace

theorem toNat_add_ofNat (address : UInt32) (offset : Nat) :
    (address + UInt32.ofNat offset).toNat = (address.toNat + offset) % size := by
  simp [UInt32.toNat_add, size]

theorem toNat_sub (target address : UInt32) :
    (target - address).toNat = (size - address.toNat + target.toNat) % size :=
  UInt32.toNat_sub target address

theorem pageOf_lt (address : UInt32) : pageOf address < pageCount := by
  have hlt := address.toNat_lt
  unfold pageOf pageSize pageCount
  omega

theorem pageOf_add_ofNat (address : UInt32) (offset : Nat) :
    pageOf (address + UInt32.ofNat offset) =
      (address.toNat + offset) / pageSize % pageCount := by
  rw [pageOf, toNat_add_ofNat]
  unfold size pageSize pageCount
  omega

end AddressSpace

open AddressSpace

namespace AccessKind

/-- The first of `length` bytes from `address` on that may not be used in the
given way, where `access` says how each byte may be used. -/
def firstRefused (kind : AccessKind) (access : UInt32 → Option PageAccess)
    (address : UInt32) (length : Nat) : Option UInt32 :=
  ((List.range length).map fun offset => address + UInt32.ofNat offset).find?
    fun byte => !kind.allowedBy (access byte)

/-- Whether a range may be used in the given way, or the byte at fault.  A range
longer than the address space is at fault from its start on. -/
def verdict (kind : AccessKind) (access : UInt32 → Option PageAccess)
    (address : UInt32) (length : Nat) : Except UInt32 Unit :=
  if size < length then .error address
  else
    match kind.firstRefused access address length with
    | none => .ok ()
    | some fault => .error fault

variable {kind : AccessKind} {access : UInt32 → Option PageAccess}
variable {address : UInt32} {length : Nat}

theorem allowedBy_write_iff {access : Option PageAccess} :
    AccessKind.write.allowedBy access = true ↔ access = some .readWrite := by
  rcases access with _ | (_ | _) <;> simp [allowedBy]

theorem firstRefused_eq_none_iff :
    kind.firstRefused access address length = none ↔
      ∀ offset < length,
        kind.allowedBy (access (address + UInt32.ofNat offset)) = true := by
  simp [firstRefused]

theorem firstRefused_eq_some {offset : Nat} (hoffset : offset < length)
    (hrefused : kind.allowedBy (access (address + UInt32.ofNat offset)) = false)
    (hbefore : ∀ earlier < offset,
      kind.allowedBy (access (address + UInt32.ofNat earlier)) = true) :
    kind.firstRefused access address length =
      some (address + UInt32.ofNat offset) := by
  rw [firstRefused, List.find?_map, Option.map_eq_some_iff]
  refine ⟨offset, ?_, rfl⟩
  rw [List.find?_range_eq_some]
  refine ⟨?_, List.mem_range.mpr hoffset, ?_⟩
  · simp [hrefused]
  · intro earlier hearlier
    simp [hbefore earlier hearlier]

theorem exists_offset_of_firstRefused {fault : UInt32}
    (hrefused : kind.firstRefused access address length = some fault) :
    ∃ offset < length, fault = address + UInt32.ofNat offset ∧
      kind.allowedBy (access fault) = false ∧
      ∀ earlier < offset,
        kind.allowedBy (access (address + UInt32.ofNat earlier)) = true := by
  rw [firstRefused, List.find?_map, Option.map_eq_some_iff] at hrefused
  obtain ⟨offset, hfind, rfl⟩ := hrefused
  rw [List.find?_range_eq_some] at hfind
  obtain ⟨hrefused, hmem, hbefore⟩ := hfind
  refine ⟨offset, List.mem_range.mp hmem, rfl, by simpa using hrefused, ?_⟩
  intro earlier hearlier
  simpa using hbefore earlier hearlier

theorem verdict_of_le (hlength : length ≤ size) :
    kind.verdict access address length =
      match kind.firstRefused access address length with
      | none => .ok ()
      | some fault => .error fault :=
  if_neg (Nat.not_lt.mpr hlength)

/-- A range that is no longer than the address space is refused at its first byte that may not be
used. -/
theorem verdict_eq_error_iff (hlength : length ≤ size) {fault : UInt32} :
    kind.verdict access address length = .error fault ↔
      ∃ offset < length, fault = address + UInt32.ofNat offset ∧
        kind.allowedBy (access fault) = false ∧
        ∀ earlier < offset,
          kind.allowedBy (access (address + UInt32.ofNat earlier)) = true := by
  rw [verdict_of_le hlength]
  constructor
  · intro hverdict
    cases hrefused : kind.firstRefused access address length with
    | none => simp [hrefused] at hverdict
    | some found =>
        simp only [hrefused, Except.error.injEq] at hverdict
        exact exists_offset_of_firstRefused (hverdict ▸ hrefused)
  · rintro ⟨offset, hoffset, rfl, hrefused, hbefore⟩
    rw [firstRefused_eq_some hoffset hrefused hbefore]

/-- The byte at fault is one of the range, and may not be used. -/
theorem refused_of_verdict (hlength : length ≤ size) {fault : UInt32}
    (hverdict : kind.verdict access address length = .error fault) :
    kind.allowedBy (access fault) = false := by
  obtain ⟨-, -, -, hrefused, -⟩ := (verdict_eq_error_iff hlength).mp hverdict
  exact hrefused

theorem verdict_eq_ok_iff :
    kind.verdict access address length = .ok () ↔
      length ≤ size ∧ ∀ offset < length,
        kind.allowedBy (access (address + UInt32.ofNat offset)) = true := by
  rw [← firstRefused_eq_none_iff, verdict]
  by_cases hlength : size < length
  · rw [if_pos hlength]
    constructor
    · intro himpossible
      cases himpossible
    · rintro ⟨hfits, -⟩
      omega
  · rw [if_neg hlength]
    cases kind.firstRefused access address length with
    | none => simpa using hlength
    | some fault => simp

end AccessKind

def PageTable.accessAt (table : PageTable) (address : UInt32) : Option PageAccess :=
  table.get (pageOf address)

namespace PageTable

/-- A scan goes over the pages of its span in their order. -/
theorem scan_eq_find? (table : PageTable) (kind : AccessKind) (page count : Nat) :
    table.scan kind page count =
      ((List.range count).map fun index => (page + index) % pageCount).find?
        fun current => !kind.allowedBy (table.get current) := by
  induction count generalizing page with
  | zero => rfl
  | succ count ih =>
      have hshift :
          ((fun index => (page + index) % pageCount) ∘ Nat.succ) =
            fun index => (page + 1 + index) % pageCount := by
        funext index
        rw [Function.comp_apply, Nat.succ_eq_add_one, Nat.add_assoc, Nat.add_comm 1 index]
      rw [scan, List.range_succ_eq_map, List.map_cons, List.map_map, hshift,
        List.find?_cons, Nat.add_zero, ih]
      cases kind.allowedBy (table.get (page % pageCount)) <;> simp

theorem scan_eq_none_iff {table : PageTable} {kind : AccessKind} {page count : Nat} :
    table.scan kind page count = none ↔
      ∀ index < count,
        kind.allowedBy (table.get ((page + index) % pageCount)) = true := by
  simp [scan_eq_find?]

theorem exists_index_of_scan {table : PageTable} {kind : AccessKind}
    {page count denied : Nat} (hscan : table.scan kind page count = some denied) :
    ∃ index < count, denied = (page + index) % pageCount ∧
      kind.allowedBy (table.get ((page + index) % pageCount)) = false ∧
      ∀ earlier < index,
        kind.allowedBy (table.get ((page + earlier) % pageCount)) = true := by
  rw [scan_eq_find?, List.find?_map, Option.map_eq_some_iff] at hscan
  obtain ⟨index, hfind, hdenied⟩ := hscan
  rw [List.find?_range_eq_some] at hfind
  obtain ⟨hrefused, hmem, hbefore⟩ := hfind
  refine ⟨index, List.mem_range.mp hmem, hdenied.symm, by simpa using hrefused, ?_⟩
  intro earlier hearlier
  simpa using hbefore earlier hearlier

end PageTable

theorem PageSpan.first_ofRange (address : UInt32) (length : Nat) :
    (ofRange address length).first = pageOf address := by
  unfold ofRange
  split <;> rfl

namespace PageMap

/-- The place of a byte's page among the pages of a range. -/
def pageIndex (address : UInt32) (offset : Nat) : Nat :=
  ((address.toNat + offset) / pageSize - pageOf address) % pageCount

theorem pageOf_eq_pageIndex (address : UInt32) (offset : Nat) :
    pageOf (address + UInt32.ofNat offset) =
      (pageOf address + pageIndex address offset) % pageCount := by
  have hle : pageOf address ≤ (address.toNat + offset) / pageSize :=
    Nat.div_le_div_right (Nat.le_add_right _ _)
  rw [pageOf_add_ofNat, pageIndex, Nat.add_mod_mod, Nat.add_sub_cancel' hle]

theorem pageIndex_lt_count {address : UInt32} {offset length : Nat}
    (hoffset : offset < length) :
    pageIndex address offset < (PageSpan.ofRange address length).count := by
  have hcount : (PageSpan.ofRange address length).count =
      min ((address.toNat + length - 1) / pageSize - pageOf address + 1) pageCount := by
    simp [PageSpan.ofRange, Nat.ne_of_gt (Nat.zero_lt_of_lt hoffset)]
  have hlast : (address.toNat + offset) / pageSize ≤
      (address.toNat + length - 1) / pageSize := Nat.div_le_div_right (by omega)
  have hmod := Nat.mod_le ((address.toNat + offset) / pageSize - pageOf address) pageCount
  have hlt : pageIndex address offset < pageCount := Nat.mod_lt _ (by decide)
  rw [hcount]
  unfold pageIndex at *
  omega

/-- The first byte of a range that lies in the page at `index`. -/
def pageOffset (address : UInt32) (index : Nat) : Nat :=
  (pageOf address + index) * pageSize - address.toNat

theorem pageIndex_pageOffset {address : UInt32} {index : Nat} (hindex : index < pageCount) :
    pageIndex address (pageOffset address index) = index := by
  unfold pageIndex pageOffset pageOf pageSize pageCount at *
  omega

theorem pageIndex_lt_of_lt_pageOffset {address : UInt32} {index offset : Nat}
    (hindex : index < pageCount) (hoffset : offset < pageOffset address index) :
    pageIndex address offset < index := by
  unfold pageIndex pageOffset pageOf pageSize pageCount at *
  omega

theorem pageOffset_lt {address : UInt32} {index length : Nat}
    (hindex : index < (PageSpan.ofRange address length).count) :
    index < pageCount ∧ pageOffset address index < length := by
  by_cases hempty : length = 0
  · simp [PageSpan.ofRange, hempty] at hindex
  · simp only [PageSpan.ofRange, hempty, if_false] at hindex
    unfold pageOffset pageOf pageSize pageCount at *
    omega

def answerOf (address : UInt32) : Option Nat → Except UInt32 Unit
  | none => .ok ()
  | some page =>
    if page = pageOf address then .error address
    else .error (UInt32.ofNat (page * pageSize))

theorem answerOf_page {address : UInt32} {index : Nat} (hindex : index < pageCount) :
    answerOf address (some ((pageOf address + index) % pageCount)) =
      .error (address + UInt32.ofNat (pageOffset address index)) := by
  have hpage := pageOf_lt address
  have haddress := address.toNat_lt
  rw [answerOf]
  by_cases hfirst : index = 0
  · have hoffset : pageOffset address index = 0 := by
      unfold pageOffset pageOf pageSize
      omega
    rw [hoffset, hfirst, Nat.add_zero, Nat.mod_eq_of_lt hpage, if_pos rfl]
    simp
  · rw [if_neg (by unfold pageCount at *; omega)]
    congr 1
    apply UInt32.toNat.inj
    rw [toNat_add_ofNat, UInt32.toNat_ofNat']
    unfold pageOffset pageOf pageSize pageCount size at *
    omega

/-- Going over pages finds the same first byte as going over bytes. -/
theorem answerOf_scan (table : PageTable) (kind : AccessKind) (address : UInt32)
    {length : Nat} (hlength : length ≤ size) :
    answerOf address (table.scan kind (pageOf address)
        (PageSpan.ofRange address length).count) =
      kind.verdict table.accessAt address length := by
  have hallowed : ∀ offset,
      kind.allowedBy (table.accessAt (address + UInt32.ofNat offset)) =
        kind.allowedBy
          (table.get ((pageOf address + pageIndex address offset) % pageCount)) := by
    intro offset
    rw [PageTable.accessAt, pageOf_eq_pageIndex]
  rw [AccessKind.verdict, if_neg (Nat.not_lt.mpr hlength)]
  cases hscan : table.scan kind (pageOf address)
      (PageSpan.ofRange address length).count with
  | none =>
      have hnone : kind.firstRefused table.accessAt address length = none := by
        apply AccessKind.firstRefused_eq_none_iff.mpr
        intro offset hoffset
        rw [hallowed]
        exact PageTable.scan_eq_none_iff.mp hscan _ (pageIndex_lt_count hoffset)
      rw [hnone, answerOf]
  | some denied =>
      obtain ⟨index, hcount, hdenied, hrefused, hbefore⟩ := PageTable.exists_index_of_scan hscan
      obtain ⟨hindex, hoffset⟩ := pageOffset_lt hcount
      have hsome : kind.firstRefused table.accessAt address length =
          some (address + UInt32.ofNat (pageOffset address index)) := by
        apply AccessKind.firstRefused_eq_some hoffset
        · rw [hallowed, pageIndex_pageOffset hindex]
          exact hrefused
        · intro earlier hearlier
          rw [hallowed]
          exact hbefore _ (pageIndex_lt_of_lt_pageOffset hindex hearlier)
      rw [hsome, hdenied, answerOf_page hindex]

theorem firstDenied_eq (map : PageMap) (span : PageSpan) (kind : AccessKind) :
    ∃ cache hsound, map.firstDenied span kind =
      (map.table.scan kind span.first span.count, ⟨map.table, cache, hsound⟩) := by
  unfold firstDenied
  dsimp only
  split
  · next answer cache hlookup =>
      obtain ⟨hanswer, hsound⟩ := map.sound.lookup? hlookup
      exact ⟨cache, hsound, congrArg (·, _) hanswer⟩
  · exact ⟨_, map.sound.remember ⟨span.first, span.count, kind⟩, rfl⟩

/-- A check answers for the bytes of its range, and changes nothing but what is
remembered. -/
theorem checkRange_eq (map : PageMap) (kind : AccessKind) (address : UInt32) (length : Nat) :
    ∃ cache hsound, map.checkRange kind address length =
      (kind.verdict map.table.accessAt address length, ⟨map.table, cache, hsound⟩) := by
  rw [checkRange]
  by_cases hlength : size < length
  · rw [if_pos hlength, AccessKind.verdict, if_pos hlength]
    exact ⟨map.cache, map.sound, rfl⟩
  · obtain ⟨cache, hsound, hdenied⟩ :=
      map.firstDenied_eq (PageSpan.ofRange address length) kind
    refine ⟨cache, hsound, ?_⟩
    rw [← answerOf_scan map.table kind address (Nat.not_lt.mp hlength), if_neg hlength]
    simp only [hdenied, PageSpan.first_ofRange]
    cases map.table.scan kind (pageOf address) (PageSpan.ofRange address length).count with
    | none => rfl
    | some page =>
        simp only [answerOf]
        split <;> rfl

/-- A check has no say in the verdict when it is made again. -/
theorem checkRange_checkRange (map : PageMap) (kind : AccessKind) (address : UInt32)
    (length : Nat) :
    ((map.checkRange kind address length).2.checkRange kind address length).1 =
      (map.checkRange kind address length).1 := by
  obtain ⟨cache, hsound, hfirst⟩ := map.checkRange_eq kind address length
  obtain ⟨later, hlater, hsecond⟩ :=
    checkRange_eq ⟨map.table, cache, hsound⟩ kind address length
  rw [hfirst, hsecond]

/-! ## The access of pages -/

theorem access_pageOf (map : PageMap) (address : UInt32) :
    map.access (pageOf address) = map.table.accessAt address := by
  rw [access, if_pos (pageOf_lt address), PageTable.accessAt]

theorem access_of_lt (map : PageMap) {page : Nat} (hpage : page < pageCount) :
    map.access page = map.table.accessAt (UInt32.ofNat (page * pageSize)) := by
  have hpageOf : pageOf (UInt32.ofNat (page * pageSize)) = page := by
    rw [pageOf, UInt32.toNat_ofNat']
    simp only [pageSize, pageCount] at *
    omega
  rw [← access_pageOf, hpageOf]

theorem access_of_le (map : PageMap) {page : Nat} (hpage : pageCount ≤ page) :
    map.access page = none :=
  if_neg (Nat.not_lt.mpr hpage)

end PageMap

end GasMachine
