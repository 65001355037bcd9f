import GasMachine.Proofs.Memory.AccessChecks

/-!
# What a page map makes of its history

Access is granted and revoked for spans of pages that go around the top of the
address space, and checks are made in between, some of them answered from memory.
In the end each page has the access that the last change covering it gave it, and
nothing else about the history matters: a check is answered byte by byte from the
access of the pages.
-/

namespace GasMachine

open AddressSpace

namespace PageSpan

/-- The page is one of those that the span counts off from its first one. -/
def Covers (span : PageSpan) (page : Nat) : Prop :=
  ∃ index < span.count, (span.first + index) % pageCount = page

theorem covers_iff {span : PageSpan} {page : Nat} :
    span.Covers page ↔
      page < pageCount ∧ PageTable.pagesAfter span.first page < span.count := by
  constructor
  · rintro ⟨index, hindex, rfl⟩
    have hlt : (span.first + index) % pageCount < pageCount := Nat.mod_lt _ (by decide)
    refine ⟨hlt, Nat.lt_of_le_of_lt ?_ hindex⟩
    have hafter : PageTable.pagesAfter span.first ((span.first + index) % pageCount) =
        index % pageCount := by
      unfold PageTable.pagesAfter pageCount
      omega
    rw [hafter]
    exact Nat.mod_le _ _
  · rintro ⟨hpage, hafter⟩
    refine ⟨PageTable.pagesAfter span.first page, hafter, ?_⟩
    unfold PageTable.pagesAfter pageCount at *
    omega

/-- Below the top of the address space the pages of a span are an interval. -/
theorem covers_iff_of_le {first count page : Nat} (hfits : first + count ≤ pageCount) :
    Covers ⟨first, count⟩ page ↔ first ≤ page ∧ page < first + count := by
  constructor
  · rintro ⟨index, hindex, rfl⟩
    dsimp only at hindex ⊢
    rw [Nat.mod_eq_of_lt (by omega)]
    omega
  · rintro ⟨hfirst, hlast⟩
    refine ⟨page - first, by dsimp only; omega, ?_⟩
    dsimp only
    rw [Nat.add_sub_cancel' hfirst, Nat.mod_eq_of_lt (by omega)]

instance (span : PageSpan) (page : Nat) : Decidable (span.Covers page) :=
  decidable_of_iff _ covers_iff.symm

end PageSpan

namespace PageMap

/-- Assigning access changes the pages that the span covers and no others. -/
theorem access_assign (map : PageMap) (first count : Nat) (access : Option PageAccess)
    (page : Nat) :
    (map.assign first count access).access page =
      if PageSpan.Covers ⟨first, count⟩ page then access else map.access page := by
  rcases Nat.lt_or_ge page pageCount with hpage | hpage
  · rw [PageMap.access, if_pos hpage, assign, PageTable.get_assign _ _ _ _ hpage, PageMap.access,
      if_pos hpage]
    simp only [PageSpan.covers_iff, hpage, true_and]
  · have houtside : ¬ PageSpan.Covers ⟨first, count⟩ page := by
      rw [PageSpan.covers_iff]
      omega
    rw [if_neg houtside, access_of_le _ hpage, access_of_le _ hpage]

theorem check_fst (map : PageMap) (kind : AccessKind) (address : UInt32) (length : UInt64) :
    (map.check kind address length).1 =
      kind.verdict (fun byte => map.access (pageOf byte)) address length.toNat := by
  obtain ⟨cache, hsound, hcheck⟩ := map.checkRange_eq kind address length.toNat
  rw [check, hcheck]
  exact congrArg (kind.verdict · address length.toNat)
    (funext fun byte => (map.access_pageOf byte).symm)

/-! ## Histories -/

inductive Operation where
  | grant (first count : UInt32) (access : PageAccess)
  | revoke (first count : UInt32)
  | check (kind : AccessKind) (address : UInt32) (length : UInt64)

namespace Operation

def apply (map : PageMap) : Operation → PageMap
  | .grant first count access => map.grantPages first.toNat count.toNat access
  | .revoke first count => map.revokePages first.toNat count.toNat
  | .check kind address length => (map.check kind address length).2

/-- The access, or lack of it, that an operation gives to a page, if it covers the page. -/
def assigns? (page : Nat) : Operation → Option (Option PageAccess)
  | .grant first count access =>
    if PageSpan.Covers ⟨first.toNat, count.toNat⟩ page then some (some access) else none
  | .revoke first count =>
    if PageSpan.Covers ⟨first.toNat, count.toNat⟩ page then some none else none
  | .check _ _ _ => none

/-- One operation decides about the pages that it covers. -/
theorem access_apply (map : PageMap) (operation : Operation) (page : Nat) :
    (operation.apply map).access page = (operation.assigns? page).getD (map.access page) := by
  cases operation with
  | grant first count access =>
      rw [apply, grantPages, access_assign, assigns?]
      split <;> rfl
  | revoke first count =>
      rw [apply, revokePages, access_assign, assigns?]
      split <;> rfl
  | check kind address length =>
      obtain ⟨cache, hsound, hcheck⟩ := map.checkRange_eq kind address length.toNat
      rw [apply, PageMap.check, hcheck]
      rfl

end Operation

def applyAll (map : PageMap) (operations : List Operation) : PageMap :=
  operations.foldl Operation.apply map

/-- What the last operation that covers a page gave to it, if there is one. -/
def lastAssigned? (operations : List Operation) (page : Nat) : Option (Option PageAccess) :=
  operations.reverse.findSome? (Operation.assigns? page)

/-- The last operation that covers a page decides about it. -/
theorem access_applyAll (map : PageMap) (operations : List Operation) (page : Nat) :
    (map.applyAll operations).access page =
      (lastAssigned? operations page).getD (map.access page) := by
  induction operations generalizing map with
  | nil => rfl
  | cons operation rest ih =>
      have hafter : map.applyAll (operation :: rest) = (operation.apply map).applyAll rest := rfl
      rw [hafter, ih, Operation.access_apply, lastAssigned?, lastAssigned?, List.reverse_cons,
        List.findSome?_append, List.findSome?_singleton]
      cases rest.reverse.findSome? (Operation.assigns? page) <;> rfl

def lastAccess (operations : List Operation) (page : Nat) : Option PageAccess :=
  (lastAssigned? operations page).getD none

/-- A page map tells for every page and every byte what `access` says of the pages. -/
structure AnswersFor (map : PageMap) (access : Nat → Option PageAccess) : Prop where
  page : ∀ page, map.access page = access page
  readable : ∀ page, map.isPageReadable page = true ↔ access page ≠ none
  writable : ∀ page, map.isPageWritable page = true ↔ access page = some .readWrite
  readable_of_writable : ∀ page, map.isPageWritable page = true → map.isPageReadable page = true
  allowed : ∀ kind address (length : UInt64),
    (map.check kind address length).1 = .ok () ↔
      length.toNat ≤ size ∧ ∀ offset < length.toNat,
        kind.allowedBy (access (pageOf (address + UInt32.ofNat offset))) = true
  refused : ∀ kind address (length : UInt64), length.toNat ≤ size → ∀ fault,
    (map.check kind address length).1 = .error fault ↔
      ∃ offset < length.toNat, fault = address + UInt32.ofNat offset ∧
        kind.allowedBy (access (pageOf fault)) = false ∧
        ∀ earlier < offset,
          kind.allowedBy (access (pageOf (address + UInt32.ofNat earlier))) = true

theorem answersFor_access (map : PageMap) : map.AnswersFor map.access where
  page _ := rfl
  readable page := by
    rw [isPageReadable]
    cases map.access page <;> simp [AccessKind.allowedBy]
  writable page := AccessKind.allowedBy_write_iff
  readable_of_writable page hwritable := by
    rw [isPageWritable, AccessKind.allowedBy_write_iff] at hwritable
    rw [isPageReadable, hwritable]
    rfl
  allowed kind address length := by
    rw [check_fst, AccessKind.verdict_eq_ok_iff]
  refused kind address length hlength fault := by
    rw [check_fst, AccessKind.verdict_eq_error_iff hlength]

theorem answersFor_of_access {map : PageMap} {access : Nat → Option PageAccess}
    (haccess : ∀ page, map.access page = access page) : map.AnswersFor access :=
  funext haccess ▸ answersFor_access map

/-- Checks are exact to the byte, whatever is remembered of earlier ones.  After any operations on
an empty map of whatever capacity, each page has the access that the last operation covering it
gave it, pages that can be written can be read, and the answer to any check follows from the
access of the pages of its bytes: the check passes if it is no longer than the address space and
every byte may be used, and otherwise names the first byte that may not. -/
theorem checks_follow_last_access (capacity : Nat) (operations : List Operation) :
    (applyAll (.empty capacity) operations).AnswersFor (lastAccess operations) := by
  have haccess : (applyAll (.empty capacity) operations).access = lastAccess operations := by
    funext page
    have hempty : (PageMap.empty capacity).access page = none := ite_self none
    rw [access_applyAll, hempty, lastAccess]
  rw [← haccess]
  exact answersFor_access _

/-- Four pages around the top are mapped; one of them is then closed for writing under a larger
number, and the next one is unmapped. -/
example :
    [0xFFFFE, 0xFFFFF, 0, 1, 2].map (lastAccess [.grant 0xFFFFE 4 .readWrite,
      .check .write 0xFFFFFFFF 2, .grant 0x1FFFFF 1 .readOnly, .revoke 0 1]) =
    [some .readWrite, some .readOnly, none, some .readWrite, none] := by decide

end PageMap

end GasMachine
