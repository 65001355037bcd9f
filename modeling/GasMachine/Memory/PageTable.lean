import GasMachine.AddressSpace

/-!
# Page tables

A page table gives each page of the address space its access.  It is a binary tree over the page
numbers in which a uniform stretch is a single leaf, so that granting access to the whole address
space costs no more than granting it to one page.
-/

namespace GasMachine

inductive PageAccess where
  | readOnly
  | readWrite
  deriving DecidableEq, Repr

inductive AccessKind where
  | read
  | write
  deriving DecidableEq, Repr

/-- Whether a page with the given access, or none, may be used in the given way. -/
def AccessKind.allowedBy : AccessKind → Option PageAccess → Bool
  | _, none => false
  | .read, some _ => true
  | .write, some access => access == .readWrite

/-- The access of the `2 ^ depth` pages below a node. -/
inductive PageTree : Nat → Type where
  | uniform {depth : Nat} (access : Option PageAccess) : PageTree depth
  | split {depth : Nat} (lower upper : PageTree depth) : PageTree (depth + 1)

namespace PageTree

def lower {depth : Nat} : PageTree (depth + 1) → PageTree depth
  | uniform access => uniform access
  | split lower _ => lower

def upper {depth : Nat} : PageTree (depth + 1) → PageTree depth
  | uniform access => uniform access
  | split _ upper => upper

/-- The access of a page.  Its number is read bit by bit from the top of the tree on, and bits above
that do not count. -/
def get : {depth : Nat} → PageTree depth → (page : Nat) → Option PageAccess
  | _, uniform access, _ => access
  | depth + 1, split lower upper, page =>
    if page.testBit depth then upper.get page else lower.get page

/-- The tree in which the pages from `first` up to, not including, `last` have `access`. -/
def fill (access : Option PageAccess) :
    {depth : Nat} → PageTree depth → (first last : Nat) → PageTree depth
  | 0, tree, first, last => if first = 0 ∧ 0 < last then uniform access else tree
  | depth + 1, tree, first, last =>
    if last ≤ first then tree
    else if first = 0 ∧ 1 <<< (depth + 1) ≤ last then uniform access
    else
      split (tree.lower.fill access first (min last (1 <<< depth)))
        (tree.upper.fill access (first - 1 <<< depth) (last - 1 <<< depth))

end PageTree

abbrev PageTable := PageTree 20

namespace PageTable

def empty : PageTable := .uniform none

/-- The table in which `count` pages from `first` on have `access`.  The last page is followed by
the first one. -/
def assign (table : PageTable) (first count : Nat) (access : Option PageAccess) : PageTable :=
  if AddressSpace.pageCount ≤ count then .uniform access
  else
    let start := first % AddressSpace.pageCount
    (table.fill access start (start + count)).fill access 0 (start + count - AddressSpace.pageCount)

/-- The first of `count` pages from `page` on that refuses the given use. -/
def scan (table : PageTable) (kind : AccessKind) (page : Nat) : (count : Nat) → Option Nat
  | 0 => none
  | count + 1 =>
    let current := page % AddressSpace.pageCount
    if kind.allowedBy (table.get current) then table.scan kind (page + 1) count else some current

end PageTable

end GasMachine
