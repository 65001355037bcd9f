import GasMachine.Memory.AccessCache

/-!
# Page maps

A page map says which bytes of the address space may be read and written.  Ranges of bytes wrap
around the top of the address space, and a check that fails names the first byte at fault.  What is
remembered of earlier checks always agrees with the table.
-/

namespace GasMachine

/-- Consecutive pages; the last page of the address space is followed by the first one. -/
structure PageSpan where
  first : Nat
  count : Nat
  deriving DecidableEq

namespace PageSpan

/-- The pages that `length` bytes from `address` on touch, never more than there are. -/
def ofRange (address : UInt32) (length : Nat) : PageSpan :=
  let first := AddressSpace.pageOf address
  if length = 0 then ⟨first, 0⟩
  else
    let last := (address.toNat + length - 1) / AddressSpace.pageSize
    ⟨first, min (last - first + 1) AddressSpace.pageCount⟩

/-- The pages that a range touches whose length is a word.  A host that finds the end of the range
beyond the 64-bit words stops, so there are none then. -/
def ofWordRange? (address : UInt32) (length : UInt64) : Option PageSpan :=
  if length = 0 then some (ofRange address 0)
  else (AddressSpace.word? (address.toNat + length.toNat)).map fun _ =>
    ofRange address length.toNat

end PageSpan

/-- The access of every page, with the last checks remembered. -/
structure PageMap where
  table : PageTable
  cache : AccessCache
  sound : cache.Sound table

namespace PageMap

def defaultCapacity : Nat := 8

def empty (capacity : Nat) : PageMap :=
  ⟨.empty, .empty capacity, AccessCache.sound_empty capacity .empty⟩

/-- A map without mapped pages, for which a host sets aside the room to remember `capacity` checks.
A host that is asked for more than it can address stops, so there is no map then. -/
def allocate? (capacity : Nat) : Option PageMap :=
  if capacity ≤ AccessCache.capacityLimit then some (empty capacity) else none

/-- The access of a page; there is none past the top of the address space. -/
def access (map : PageMap) (page : Nat) : Option PageAccess :=
  if page < AddressSpace.pageCount then map.table.get page else none

def isPageReadable (map : PageMap) (page : Nat) : Bool :=
  AccessKind.read.allowedBy (map.access page)

def isPageWritable (map : PageMap) (page : Nat) : Bool :=
  AccessKind.write.allowedBy (map.access page)

def assign (map : PageMap) (first count : Nat) (access : Option PageAccess) : PageMap :=
  ⟨map.table.assign first count access, map.cache.forget, AccessCache.sound_forget _ _⟩

def grantPages (map : PageMap) (first count : Nat) (access : PageAccess) : PageMap :=
  map.assign first count (some access)

def revokePages (map : PageMap) (first count : Nat) : PageMap :=
  map.assign first count none

def grantSpan (map : PageMap) (span : PageSpan) (access : PageAccess) : PageMap :=
  map.grantPages span.first span.count access

/-- The map with `access` granted to every page that `length` bytes from `address` on touch. -/
def grant (map : PageMap) (address : UInt32) (length : Nat) (access : PageAccess) : PageMap :=
  map.grantSpan (.ofRange address length) access

/-- The map with `access` granted to every page of a range whose length is a word, unless the host
stops over the end of the range. -/
def grantWordRange? (map : PageMap) (address : UInt32) (length : UInt64) (access : PageAccess) :
    Option PageMap :=
  (PageSpan.ofWordRange? address length).map fun span => map.grantSpan span access

/-- The first page of a span that refuses the given use, from memory if the check was made
before. -/
def firstDenied (map : PageMap) (span : PageSpan) (kind : AccessKind) : Option Nat × PageMap :=
  let query : AccessQuery := ⟨span.first, span.count, kind⟩
  match hlookup : map.cache.lookup? query with
  | some (answer, cache) => (answer, ⟨map.table, cache, (map.sound.lookup? hlookup).2⟩)
  | none =>
    let answer := map.table.scan kind span.first span.count
    (answer, ⟨map.table, map.cache.remember query answer, map.sound.remember query⟩)

/-- Whether `length` bytes from `address` on may be used in the given way; if not, the address of
the first one that may not.  No range is longer than the address space. -/
def checkRange (map : PageMap) (kind : AccessKind) (address : UInt32) (length : Nat) :
    Except UInt32 Unit × PageMap :=
  if AddressSpace.size < length then (.error address, map)
  else
    let span := PageSpan.ofRange address length
    match map.firstDenied span kind with
    | (none, map) => (.ok (), map)
    | (some page, map) =>
      if page = span.first then (.error address, map)
      else (.error (UInt32.ofNat (page * AddressSpace.pageSize)), map)

def check (map : PageMap) (kind : AccessKind) (address : UInt32) (length : UInt64) :
    Except UInt32 Unit × PageMap :=
  map.checkRange kind address length.toNat

/-- The start of the first run of `count` unmapped pages, when the pages from `runStart` to `page`
are known to be unmapped. -/
def findGapFrom (map : PageMap) (count runStart page : Nat) : Option Nat :=
  if page = runStart + count then
    if runStart + count ≤ AddressSpace.pageCount then some runStart else none
  else if page < AddressSpace.pageCount then
    if map.isPageReadable page then findGapFrom map count (page + 1) (page + 1)
    else findGapFrom map count runStart (page + 1)
  else none
termination_by AddressSpace.pageCount - page

/-- The first page at or above `start` from which `count` consecutive pages are unmapped, if they
fit below the top of the address space. -/
def findGap (map : PageMap) (count start : Nat) : Option Nat :=
  map.findGapFrom count start start

/-- Whether every one of `count` pages from `page` on has some access.  Page numbers wrap at
32 bits, and none past the top of the address space has access. -/
def allMapped (map : PageMap) (page : Nat) : (count : Nat) → Bool
  | 0 => true
  | count + 1 => map.isPageReadable page && map.allMapped ((page + 1) % AddressSpace.size) count

end PageMap

end GasMachine
