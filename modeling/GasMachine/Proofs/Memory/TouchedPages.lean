import Mathlib
import GasMachine.Proofs.Memory.PageHistories

/-!
# The pages that a range of bytes touches

Access is asked for by ranges of bytes and kept by pages.  A range becomes the
span of pages from that of its first byte to that of its last one.  These are just
the pages on which a byte of the range lies, even if the range goes around the
address space many times.  The end of the range is a sum of words, though, and a
range whose end is none stops the host before any access is granted.
-/

namespace GasMachine

open AddressSpace

namespace PageSpan

/-- One of `length` bytes from `address` on lies on the page. -/
def Touches (address : UInt32) (length page : Nat) : Prop :=
  ∃ offset < length, pageOf (address + UInt32.ofNat offset) = page

/-- The span of a range covers the pages on which its bytes lie. -/
theorem covers_ofRange_iff {address : UInt32} {length page : Nat} :
    (ofRange address length).Covers page ↔ Touches address length page := by
  rw [Covers, Touches, first_ofRange]
  constructor
  · rintro ⟨index, hcount, hpage⟩
    obtain ⟨hindex, hoffset⟩ := PageMap.pageOffset_lt hcount
    refine ⟨PageMap.pageOffset address index, hoffset, ?_⟩
    rw [PageMap.pageOf_eq_pageIndex, PageMap.pageIndex_pageOffset hindex, hpage]
  · rintro ⟨offset, hoffset, hpage⟩
    refine ⟨PageMap.pageIndex address offset, PageMap.pageIndex_lt_count hoffset, ?_⟩
    rw [← PageMap.pageOf_eq_pageIndex, hpage]

instance (address : UInt32) (length page : Nat) : Decidable (Touches address length page) :=
  decidable_of_iff _ covers_ofRange_iff

/-- A range as long as the address space touches every page. -/
theorem touches_of_size_le (address : UInt32) {length page : Nat} (hlength : size ≤ length)
    (hpage : page < pageCount) : Touches address length page := by
  have haddress := address.toNat_lt
  refine ⟨(page * pageSize + size - address.toNat) % size, ?_, ?_⟩
  · exact Nat.lt_of_lt_of_le (Nat.mod_lt _ (by decide)) hlength
  · rw [pageOf_add_ofNat]
    unfold size pageSize pageCount at *
    omega

/-- There is a span for each range whose end is a word. -/
theorem ofWordRange?_eq (address : UInt32) (length : UInt64) :
    ofWordRange? address length =
      if address.toNat + length.toNat < 2 ^ 64 then some (ofRange address length.toNat)
      else none := by
  have haddress := address.toNat_lt
  rw [ofWordRange?]
  by_cases hempty : length = 0
  · subst hempty
    have hfits : address.toNat + (0 : UInt64).toNat < 2 ^ 64 := by
      rw [UInt64.toNat_zero]
      omega
    rw [if_pos rfl, if_pos hfits, UInt64.toNat_zero]
  · have hword : word? (address.toNat + length.toNat) =
        if address.toNat + length.toNat < 2 ^ 64 then
          some (UInt64.ofNat (address.toNat + length.toNat))
        else none := rfl
    rw [if_neg hempty, hword, apply_ite (Option.map _)]
    rfl

end PageSpan

namespace PageMap

open PageSpan (Touches)

/-- Access is granted to the pages on which the bytes of the range lie, and the access of the
others stays. -/
theorem access_grant (map : PageMap) (address : UInt32) (length : Nat) (access : PageAccess)
    (page : Nat) :
    (map.grant address length access).access page =
      if Touches address length page then some access else map.access page := by
  rw [grant, grantSpan, grantPages, access_assign]
  exact ite_congr (propext PageSpan.covers_ofRange_iff) (fun _ => rfl) fun _ => rfl

/-- Access is granted for each range whose end is a word. -/
theorem grantWordRange?_eq (map : PageMap) (address : UInt32) (length : UInt64)
    (access : PageAccess) :
    map.grantWordRange? address length access =
      if address.toNat + length.toNat < 2 ^ 64 then some (map.grant address length.toNat access)
      else none := by
  rw [grantWordRange?, PageSpan.ofWordRange?_eq]
  split <;> rfl

/-- Granting access to a range grants it to exactly the pages that the range touches, if its end
is a word.  The pages on which no byte of the range lies keep their access, and every check made
from then on answers accordingly, whatever was remembered before.  If the end of the range is no
word the host stops, and no access is granted. -/
theorem granted_pages_are_touched_pages (map : PageMap) (address : UInt32) (length : UInt64)
    (access : PageAccess) :
    (map.grantWordRange? address length access = none ↔
      2 ^ 64 ≤ address.toNat + length.toNat) ∧
    ∀ after, map.grantWordRange? address length access = some after →
      after.AnswersFor fun page =>
        if Touches address length.toNat page then some access else map.access page := by
  rw [grantWordRange?_eq]
  constructor
  · rw [ite_eq_right_iff, ← Nat.not_lt]
    simp
  · intro after hafter
    split at hafter
    · obtain rfl := Option.some.inj hafter
      exact answersFor_of_access (map.access_grant address length.toNat access)
    · cases hafter

/-- Two bytes around the top touch the highest page and the lowest one. -/
theorem access_granted_around_the_top :
    ∃ after, (empty defaultCapacity).grantWordRange? 0xFFFFFFFF 2 .readOnly = some after ∧
      [0xFFFFE, 0xFFFFF, 0, 1].map after.access =
        [none, some .readOnly, some .readOnly, none] := by
  obtain ⟨-, hgranted⟩ :=
    granted_pages_are_touched_pages (empty defaultCapacity) 0xFFFFFFFF 2 .readOnly
  obtain ⟨after, hafter⟩ : ∃ after,
      (empty defaultCapacity).grantWordRange? 0xFFFFFFFF 2 .readOnly = some after := ⟨_, rfl⟩
  refine ⟨after, hafter, ?_⟩
  rw [funext (hgranted after hafter).page]
  decide

/-- The longest range that starts at the second byte touches every page, and none is granted. -/
theorem longest_range_is_not_granted :
    (∀ page < pageCount, Touches 1 (0xFFFFFFFFFFFFFFFF : UInt64).toNat page) ∧
      (empty defaultCapacity).grantWordRange? 1 0xFFFFFFFFFFFFFFFF .readOnly = none :=
  ⟨fun _ hpage => PageSpan.touches_of_size_le 1 (by decide) hpage, rfl⟩

end PageMap

end GasMachine
