import GasMachine.Proofs.Memory.PageTable
import GasMachine.Memory.PageMap

/-!
# The search for a gap

A gap is a run of unmapped pages that fits below the top of the address space.
The search finds the first one at or above its start, and finds none only if
there is none.
-/

namespace GasMachine.PageMap

open AddressSpace

/-- The `count` pages from `page` on are unmapped and fit below the top. -/
def IsGap (map : PageMap) (count page : Nat) : Prop :=
  page + count ≤ pageCount ∧
    ∀ inside, page ≤ inside → inside < page + count → map.table.get inside = none

/-- An answer that names the first gap at or above `start`, or says that there is
none. -/
def FirstGap (gap : Nat → Prop) (start : Nat) : Option Nat → Prop
  | some page =>
    start ≤ page ∧ gap page ∧ ∀ earlier, start ≤ earlier → earlier < page → ¬ gap earlier
  | none => ∀ page, start ≤ page → ¬ gap page

theorem FirstGap.eq {gap : Nat → Prop} {start : Nat} {answer other : Option Nat}
    (hanswer : FirstGap gap start answer) (hother : FirstGap gap start other) :
    answer = other := by
  cases answer with
  | none =>
      cases other with
      | none => rfl
      | some page => exact absurd hother.2.1 (hanswer page hother.1)
  | some page =>
      cases other with
      | none => exact absurd hanswer.2.1 (hother page hanswer.1)
      | some otherPage =>
          rcases Nat.lt_trichotomy page otherPage with hlt | rfl | hlt
          · exact absurd hanswer.2.1 (hother.2.2 page hanswer.1 hlt)
          · rfl
          · exact absurd hother.2.1 (hanswer.2.2 otherPage hother.1 hlt)

/-- Where no gap starts below `next`, the first gap from `next` on is the first
one altogether. -/
theorem FirstGap.of_none_below {gap : Nat → Prop} {start next : Nat} {answer : Option Nat}
    (hle : start ≤ next) (hbelow : ∀ page, start ≤ page → page < next → ¬ gap page)
    (hanswer : FirstGap gap next answer) : FirstGap gap start answer := by
  cases answer with
  | none =>
      intro page hpage
      rcases Nat.lt_or_ge page next with hlt | hge
      · exact hbelow page hpage hlt
      · exact hanswer page hge
  | some found =>
      obtain ⟨hfound, hgap, hfirst⟩ := hanswer
      refine ⟨Nat.le_trans hle hfound, hgap, ?_⟩
      intro page hpage hlt
      rcases Nat.lt_or_ge page next with hbefore | hge
      · exact hbelow page hpage hbefore
      · exact hfirst page hge hlt

theorem isPageReadable_eq_false_iff {map : PageMap} {page : Nat} (hpage : page < pageCount) :
    map.isPageReadable page = false ↔ map.table.get page = none := by
  rw [isPageReadable, access, if_pos hpage]
  cases map.table.get page <;> simp [AccessKind.allowedBy]

/-- The search goes on with the pages from `runStart` to `page` known to be
unmapped, and fewer than it looks for. -/
theorem firstGap_findGapFrom (map : PageMap) (count runStart page : Nat)
    (hstart : runStart ≤ page) (hcount : page ≤ runStart + count)
    (hrun : ∀ inside, runStart ≤ inside → inside < page → map.table.get inside = none) :
    FirstGap (map.IsGap count) runStart (map.findGapFrom count runStart page) := by
  fun_induction map.findGapFrom count runStart page with
  | case1 runStart hfits => exact ⟨Nat.le_refl _, ⟨hfits, hrun⟩, fun _ _ _ => by omega⟩
  | case2 runStart htop =>
      intro gap hgap hisGap
      have := hisGap.1
      omega
  | case3 runStart page hshort hpage hreadable ih =>
      apply (ih (Nat.le_refl _) (by omega) (fun _ _ _ => by omega)).of_none_below (by omega)
      -- Every run that starts at or below this page and is long enough has it inside.
      intro gap hgap hlt hisGap
      have hfree := hisGap.2 page (by omega) (by omega)
      rw [← isPageReadable_eq_false_iff hpage, hreadable] at hfree
      cases hfree
  | case4 runStart page hshort hpage hunmapped ih =>
      apply ih (by omega) (by omega)
      intro inside hinside hlt
      rcases Nat.lt_or_eq_of_le (Nat.le_of_lt_succ hlt) with hlt | rfl
      · exact hrun inside hinside hlt
      · exact (isPageReadable_eq_false_iff hpage).mp (by simpa using hunmapped)
  | case5 runStart page hshort hpage =>
      intro gap hgap hisGap
      have := hisGap.1
      omega

/-- The search finds the first gap at or above its start. -/
theorem firstGap_findGap (map : PageMap) (count start : Nat) :
    FirstGap (map.IsGap count) start (map.findGap count start) :=
  map.firstGap_findGapFrom count start start (Nat.le_refl _) (Nat.le_add_right _ _)
    fun _ _ _ => by omega

end GasMachine.PageMap
