/-
LibWrt.PageFrag.Cache — the page-fragment allocator of the simulator.

`PhysicalAllocator` hands out backing pages and counts frees;
`PageFragCache` carves fragments off its current page from the top down and
rolls over to another page when the offset would go below zero. Both are
the classes of `pagefrag_sim.py` under their own names, and every method is
a function from the state before to the state after.

Python shares `Page` objects by reference. Here a page lives in
`PhysicalAllocator.pages` alone, and a cache or a fragment names it by its
`page_id`; the objects are the same because `page_id` is never reused. An
exception is the `error` side of `Except`, with the text of the source.
-/
import LibWrt.Lib.Decimal
import LibWrt.Lib.Dict
import Mathlib.Data.Finset.Insert

namespace LibWrt.PageFrag

/-! ## Errors and constants -/

/-- The exceptions the simulator raises, by class and text. `timeout` is not
one of them: it marks a loop whose fuel ran out. -/
inductive PyError where
  | valueError (message : String)
  | assertionError (message : String)
  | memoryError (message : String)
  | overflowError (message : String)
  | keyError
  | indexError
  | attributeError
  | decimal (signal : Decimal.Signal)
  | timeout
  deriving DecidableEq, Repr

def pageSize : Int := 4096

def pageFragCacheMaxSize : Int := 32768

def pageFragCacheBias : Int := pageFragCacheMaxSize + 1

/-! ## Data -/

structure Page where
  pageId : Nat
  size : Int
  pfmemalloc : Bool
  refcount : Int := 1
  freed : Bool := false
  everRings : Finset String := ∅
  everLifetimes : Finset String := ∅

/-- A fragment reference returned by `PageFragCache.allocate`. -/
structure Fragment where
  fragmentId : Nat
  pageId : Nat
  offset : Int
  size : Int
  deriving DecidableEq, Repr

/-- Backing-page source: the refills that fall back to a small page and the
ones that come out of the memory reserve are fixed in advance. -/
structure PhysicalAllocator where
  fallbackRefills : Finset Nat := ∅
  pfmemallocRefills : Finset Nat := ∅
  refillAttempts : Nat := 0
  nextPageId : Nat := 1
  pages : Dict Nat Page := ∅
  frees : Nat := 0

structure PageFragCache where
  page : Option Nat := none
  offset : Int := 0
  pagecntBias : Int := 0
  pfmemalloc : Bool := false
  refills : Nat := 0
  reuses : Nat := 0
  nextFragmentId : Nat := 1
  live : Dict Nat Fragment := ∅

/-! ## `PhysicalAllocator` -/

namespace PhysicalAllocator

def allocate (a : PhysicalAllocator) : Page × PhysicalAllocator :=
  let attempts := a.refillAttempts + 1
  let page : Page :=
    { pageId := a.nextPageId
      size := if attempts ∈ a.fallbackRefills then pageSize else pageFragCacheMaxSize
      pfmemalloc := attempts ∈ a.pfmemallocRefills }
  (page, { a with
    refillAttempts := attempts
    nextPageId := a.nextPageId + 1
    pages := a.pages.set page.pageId page })

def freePage (a : PhysicalAllocator) (pid : Nat) : Except PyError PhysicalAllocator :=
  match a.pages.get? pid with
  | none => .error .keyError
  | some page =>
    if page.refcount ≠ 0 then
      .error (.assertionError "freeing a page with live references")
    else if page.freed then
      .error (.assertionError "double page free")
    else
      .ok { a with
        pages := a.pages.set pid { page with freed := true }
        frees := a.frees + 1 }

end PhysicalAllocator

/-! ## `PageFragCache` -/

namespace PageFragCache

def refill (c : PageFragCache) (a : PhysicalAllocator) :
    PhysicalAllocator × PageFragCache :=
  let (page, a) := a.allocate
  let page := { page with refcount := page.refcount + pageFragCacheMaxSize }
  ({ a with pages := a.pages.set page.pageId page },
   { c with
     page := some page.pageId
     offset := page.size
     pagecntBias := pageFragCacheBias
     pfmemalloc := page.pfmemalloc
     refills := c.refills + 1 })

/-- The `offset < 0` block of `allocate`: hand the bias back, then leave the
page to its remaining fragments, free it if it came from the reserve, or
take it again from the top. The first component is the block's new
`offset`. -/
def rollover (c : PageFragCache) (a : PhysicalAllocator) (size : Int) :
    Except PyError (Int × PhysicalAllocator × PageFragCache) :=
  match c.page with
  | none => .error (.assertionError "")
  | some pid =>
    match a.pages.get? pid with
    | none => .error .keyError
    | some oldPage =>
      let oldPage := { oldPage with refcount := oldPage.refcount - c.pagecntBias }
      let a := { a with pages := a.pages.set pid oldPage }
      if oldPage.refcount < 0 then
        .error (.assertionError "page bias exceeded refcount")
      else if oldPage.refcount ≠ 0 then
        let (a, c) := c.refill a
        .ok (c.offset - size, a, c)
      else if c.pfmemalloc then
        match a.freePage pid with
        | .error e => .error e
        | .ok a =>
          let (a, c) := c.refill a
          .ok (c.offset - size, a, c)
      else
        let oldPage := { oldPage with refcount := pageFragCacheBias }
        let a := { a with pages := a.pages.set pid oldPage }
        -- `self.offset` is not reset here: only a request that fits moves it
        .ok (oldPage.size - size, a,
          { c with pagecntBias := pageFragCacheBias, reuses := c.reuses + 1 })

/-- The tail of `allocate`, for a request that fits at `offset`. -/
def carve (c : PageFragCache) (pid : Nat) (offset size : Int) :
    Fragment × PageFragCache :=
  let fragment : Fragment :=
    { fragmentId := c.nextFragmentId, pageId := pid, offset := offset, size := size }
  (fragment, { c with
    pagecntBias := c.pagecntBias - 1
    offset := offset
    nextFragmentId := c.nextFragmentId + 1
    live := c.live.set fragment.fragmentId fragment })

def allocate (c : PageFragCache) (a : PhysicalAllocator) (size : Int) :
    Except PyError (Option Fragment × PhysicalAllocator × PageFragCache) :=
  if size ≤ 0 then
    .error (.valueError "fragment size must be positive")
  else
    let (a, c) := if c.page.isNone then c.refill a else (a, c)
    let fits := fun (offset : Int) (a : PhysicalAllocator) (c : PageFragCache) =>
      match c.page with
      | none => .error (.assertionError "")
      | some pid =>
        let (fragment, c) := c.carve pid offset size
        .ok (some fragment, a, c)
    if c.offset - size < 0 then
      match c.rollover a size with
      | .error e => .error e
      | .ok (offset, a, c) =>
        -- the kernel keeps an undersized page as the cache page and returns NULL
        if offset < 0 then .ok (none, a, c) else fits offset a c
    else
      fits (c.offset - size) a c

def free (c : PageFragCache) (a : PhysicalAllocator) (fragment : Fragment) :
    Except PyError (PhysicalAllocator × PageFragCache) :=
  if c.live.get? fragment.fragmentId ≠ some fragment then
    .error (.assertionError "unknown or already-freed fragment")
  else
    let c := { c with live := c.live.del fragment.fragmentId }
    match a.pages.get? fragment.pageId with
    | none => .error .keyError
    | some page =>
      let page := { page with refcount := page.refcount - 1 }
      let a := { a with pages := a.pages.set fragment.pageId page }
      if page.refcount < 0 then
        .error (.assertionError "negative page refcount")
      else if page.refcount = 0 then
        match a.freePage fragment.pageId with
        | .error e => .error e
        | .ok a => .ok (a, c)
      else
        .ok (a, c)

def drain (c : PageFragCache) (a : PhysicalAllocator) :
    Except PyError (PhysicalAllocator × PageFragCache) :=
  match c.page with
  | none => .ok (a, c)
  | some pid =>
    match a.pages.get? pid with
    | none => .error .keyError
    | some page =>
      let page := { page with refcount := page.refcount - c.pagecntBias }
      let a := { a with pages := a.pages.set pid page }
      let idle := { c with page := none, offset := 0, pagecntBias := 0, pfmemalloc := false }
      if page.refcount < 0 then
        .error (.assertionError "page bias exceeded refcount")
      else if page.refcount = 0 then
        match a.freePage pid with
        | .error e => .error e
        | .ok a => .ok (a, idle)
      else
        .ok (a, idle)

end PageFragCache

end LibWrt.PageFrag
