import Cdroid.Lib.SearchTree
import Cdroid.Lib.Tiling
import Mathlib.Algebra.GroupWithZero.Nat

/-! The buffers of a process in the driver: `binder_alloc_buf`, `binder_free_buf` and the
pages under them. Addresses are the kernel's. What the code must never do is a `Bug`; of the
assertions, those on the flag `free` of each buffer that a search in a tree goes past are left
out, and the one that a buffer that is freed has no transaction. -/

namespace Cdroid.Driver
open Cdroid.Lib.SearchTree Cdroid.Lib.Tiling

/-! ## Sizes -/

def PAGE_SIZE : Nat := 4096

/-- `sizeof(struct binder_buffer)`, which is also the offset of `data`. -/
def sizeof_binder_buffer : Nat := 80

/-- `sizeof(void *)` of the kernel, and `sizeof(binder_ptr)` of a 32-bit process. -/
def sizeof_pointer : Nat := 8
def sizeof_binder_ptr : Nat := 4

/-- `ALIGN(x, a)` of a `size_t` -/
def ALIGN (x a : Nat) : Nat := (x + (a - 1)) % 2 ^ 64 / a * a

/-- `addr & PAGE_MASK` -/
def pageMask (addr : Nat) : Nat := addr / PAGE_SIZE * PAGE_SIZE

/-- `PAGE_ALIGN(addr)` -/
def pageAlign (addr : Nat) : Nat := (addr + (PAGE_SIZE - 1)) / PAGE_SIZE * PAGE_SIZE

/-! ## The process -/

/-- `struct binder_buffer`, without its links. -/
structure binder_buffer where
  free : Bool
  async_transaction : Bool
  data_size : Nat
  offsets_size : Nat
  deriving DecidableEq

/-- A page that is there already is mapped, or one that is not there freed; a header is
written where no page is; an assertion fails. -/
inductive Bug
  | pageMapped
  | pageNotMapped
  | headerNotMapped
  | assertion
  deriving DecidableEq

/-- `struct binder_proc`. A buffer is named by its address, where `header` has it; `pages`
tells the page addresses that have a page. -/
structure binder_proc where
  buffer : Nat
  buffer_size : Nat
  buffers : List Nat
  header : Nat → binder_buffer
  free_buffers : BinTree Nat
  allocated_buffers : BinTree Nat
  free_async_space : Nat
  pages : Nat → Bool

/-- `buffer->data` -/
def data (buffer : Nat) : Nat := buffer + sizeof_binder_buffer

namespace binder_proc

/-- The end of the mapped region. -/
def bound (proc : binder_proc) : Nat := proc.buffer + proc.buffer_size

/-- `binder_buffer_size` -/
def bufferSize (proc : binder_proc) (buffer : Nat) : Nat :=
  match next? buffer proc.buffers with
  | none => proc.bound - data buffer
  | some next => next - data buffer

def isFree (proc : binder_proc) (buffer : Nat) : Bool := (proc.header buffer).free

end binder_proc

/-! ## Pages -/

abbrev Pages := Nat → Bool

def Pages.set (pages : Pages) (page_addr : Nat) (v : Bool) : Pages :=
  fun p => if p = page_addr then v else pages p

/-- What becomes of a page: `alloc_page`, `map_vm_area` or `vm_insert_page` may fail. -/
inductive PageResult
  | ok
  | noPage
  | notInKernel
  | notInUser
  deriving DecidableEq

/-- The loop behind `free_range`: the `n` pages from `start` on, the last one first. -/
def freePages (start : Nat) : Nat → Pages → Except Bug Pages
  | 0, pages => .ok pages
  | n + 1, pages =>
    if pages (start + n * PAGE_SIZE) then
      freePages start n (pages.set (start + n * PAGE_SIZE) false)
    else .error .pageNotMapped

/-- The loop that allocates: `n` pages to go, `k` are there. A page that fails is not there
afterwards, and the loop behind `free_range` goes on with those before it. -/
def allocatePages (start : Nat) : Nat → Nat → Pages → List PageResult → Except Bug (Bool × Pages)
  | 0, _, pages, _ => .ok (true, pages)
  | n + 1, k, pages, results =>
    if pages (start + k * PAGE_SIZE) then .error .pageMapped
    else match results.headD .ok with
      | .ok =>
        allocatePages start n (k + 1) (pages.set (start + k * PAGE_SIZE) true) results.tail
      | .noPage | .notInKernel | .notInUser =>
        (freePages start k pages).map fun pages => (false, pages)

/-- `vma` and `mm` say whether the process still has them. -/
structure Env where
  vma : Bool
  mm : Bool
  results : List PageResult
  deriving DecidableEq

/-- `binder_update_page_range` to allocate, and whether it succeeds. -/
def allocateRange (pages : Pages) (start last : Nat) (env : Env) : Except Bug (Bool × Pages) :=
  if last ≤ start then .ok (true, pages)
  else if !(env.mm && env.vma) then .ok (false, pages)
  else allocatePages start ((last - start) / PAGE_SIZE) 0 pages env.results

/-- `binder_update_page_range` to free -/
def freeRange (pages : Pages) (start last : Nat) : Except Bug Pages :=
  if last ≤ start then .ok pages else freePages start ((last - start) / PAGE_SIZE) pages

def buffer_start_page (buffer : Nat) : Nat := pageMask buffer

def buffer_end_page (buffer : Nat) : Nat := pageMask (buffer + sizeof_binder_buffer - 1)

namespace binder_proc

/-- These headers are written. -/
def touch (proc : binder_proc) (buffers : List Nat) : Except Bug Unit :=
  if buffers.all fun b => proc.pages (buffer_start_page b) && proc.pages (buffer_end_page b) then
    .ok ()
  else .error .headerNotMapped

/-! ## Lists and trees -/

variable (rb : Balance Nat)

/-- A change of the header. -/
def setHeader (proc : binder_proc) (buffer : Nat) (f : binder_buffer → binder_buffer) :
    binder_proc :=
  { proc with header := fun b => if b = buffer then f (proc.header b) else proc.header b }

def setFree (proc : binder_proc) (buffer : Nat) (free : Bool) : Except Bug binder_proc := do
  proc.touch [buffer]
  pure (proc.setHeader buffer fun h => { h with free })

/-- `rb_erase(&buffer->rb_node, &proc->free_buffers)`, which may write to every node. -/
def eraseFree (proc : binder_proc) (buffer : Nat) : Except Bug binder_proc := do
  proc.touch proc.free_buffers.inorder
  pure { proc with free_buffers := rb.erase buffer proc.free_buffers }

def eraseAllocated (proc : binder_proc) (buffer : Nat) : Except Bug binder_proc := do
  proc.touch proc.allocated_buffers.inorder
  pure { proc with allocated_buffers := rb.erase buffer proc.allocated_buffers }

/-- `binder_insert_free_buffer`: an equal size goes to the right. -/
def insertFreeBuffer (proc : binder_proc) (new_buffer : Nat) : Except Bug binder_proc := do
  if !proc.isFree new_buffer then .error .assertion
  proc.touch (new_buffer :: proc.free_buffers.inorder)
  match proc.free_buffers.insert (fun buffer =>
      if proc.bufferSize new_buffer < proc.bufferSize buffer then .lt else .gt) new_buffer with
  | some t => pure { proc with free_buffers := rb.insertColor t }
  | none => .error .assertion

/-- `binder_insert_allocated_buffer` -/
def insertAllocatedBuffer (proc : binder_proc) (new_buffer : Nat) : Except Bug binder_proc := do
  if proc.isFree new_buffer then .error .assertion
  proc.touch (new_buffer :: proc.allocated_buffers.inorder)
  match proc.allocated_buffers.insert (fun buffer => compare new_buffer buffer) new_buffer with
  | some t => pure { proc with allocated_buffers := rb.insertColor t }
  | none => .error .assertion

/-- `binder_buffer_lookup`, of the address of the data. -/
def bufferLookup (proc : binder_proc) (kern_data : Nat) : Option Nat :=
  proc.allocated_buffers.find fun buffer => compare kern_data (data buffer)

/-- `list_add(&new_buffer->entry, &buffer->entry)` -/
def listAdd (proc : binder_proc) (new_buffer buffer : Nat) : Except Bug binder_proc := do
  proc.touch (new_buffer :: buffer :: (next? buffer proc.buffers).toList)
  pure { proc with buffers := insertAfter buffer new_buffer proc.buffers }

/-- `list_del(&buffer->entry)` -/
def listDel (proc : binder_proc) (buffer : Nat) : Except Bug binder_proc := do
  proc.touch ((prev? buffer proc.buffers).toList ++ buffer :: (next? buffer proc.buffers).toList)
  pure { proc with buffers := proc.buffers.erase buffer }

/-! ## `binder_alloc_buf` -/

/-- The size of the data of a request, both areas aligned; `none` if it is not valid. -/
def requestSize (data_size offsets_size : Nat) : Option Nat :=
  let size := (ALIGN data_size sizeof_pointer + ALIGN offsets_size sizeof_pointer) % 2 ^ 64
  if size < data_size ∨ size < offsets_size then none else some size

/-- The buffer that is cut off behind the data. -/
def splitBuffer (proc : binder_proc) (buffer new_buffer : Nat) : Except Bug binder_proc := do
  let proc ← proc.listAdd new_buffer buffer
  let proc ← proc.setFree new_buffer true
  proc.insertFreeBuffer rb new_buffer

/-- What is done when the pages are there. -/
def takeBuffer (proc : binder_proc) (buffer size buffer_size data_size offsets_size : Nat)
    (is_async : Bool) : Except Bug binder_proc := do
  let proc ← proc.eraseFree rb buffer
  let proc ← proc.setFree buffer false
  let proc ← proc.insertAllocatedBuffer rb buffer
  let proc ← if buffer_size ≠ size then proc.splitBuffer rb buffer (data buffer + size)
    else pure proc
  proc.touch [buffer]
  let proc := proc.setHeader buffer fun h =>
    { h with data_size, offsets_size, async_transaction := is_async }
  pure (if is_async then
    { proc with free_async_space := proc.free_async_space - (size + sizeof_binder_buffer) }
    else proc)

/-- The size of what is taken from a buffer, with the header of a new one if there is room. -/
def takenSize (size buffer_size : Nat) (isExact : Bool) : Nat :=
  if isExact then buffer_size
  else if buffer_size ≤ size + sizeof_binder_buffer + 4 then size
  else size + sizeof_binder_buffer

/-- `binder_alloc_buf`: the buffer, or null. -/
def allocBuf (proc : binder_proc) (data_size offsets_size : BitVec 64) (is_async : Bool)
    (env : Env) : Except Bug (Option Nat × binder_proc) :=
  if !env.vma then .ok (none, proc)
  else match requestSize data_size.toNat offsets_size.toNat with
    | none => .ok (none, proc)
    | some size =>
      if is_async && decide (proc.free_async_space < (size + sizeof_binder_buffer) % 2 ^ 64) then
        .ok (none, proc)
      else match proc.free_buffers.bestFit (fun b => compare size (proc.bufferSize b)) none with
        | (none, _) => .ok (none, proc)
        | (some buffer, isExact) => do
          let buffer_size := takenSize size (proc.bufferSize buffer) isExact
          let has_page_addr := pageMask (data buffer + proc.bufferSize buffer)
          let end_page_addr := min (pageAlign (data buffer + buffer_size)) has_page_addr
          let (ok, pages) ← allocateRange proc.pages (pageAlign (data buffer)) end_page_addr env
          let proc := { proc with pages }
          if ok then
            let proc ← proc.takeBuffer rb buffer size buffer_size data_size.toNat
              offsets_size.toNat is_async
            pure (some buffer, proc)
          else pure (none, proc)

/-! ## `binder_free_buf` -/

/-- The pages that only the header of `buffer` is on: the first and the last, and whether
there are any. -/
def headerPages (prev buffer : Nat) (next : Option Nat) : Bool × Bool :=
  let (free_page_start, free_page_end) :=
    if buffer_end_page prev = buffer_start_page buffer then
      (false, decide (buffer_end_page prev ≠ buffer_end_page buffer))
    else (true, true)
  match next with
  | none => (free_page_start, free_page_end)
  | some next =>
    if buffer_start_page next = buffer_end_page buffer then
      (free_page_start && decide (buffer_start_page next ≠ buffer_start_page buffer), false)
    else (free_page_start, free_page_end)

/-- `binder_delete_free_buffer` -/
def deleteFreeBuffer (proc : binder_proc) (buffer : Nat) : Except Bug binder_proc :=
  match prev? buffer proc.buffers with
  | none => .error .assertion
  | some prev => do
    if !proc.isFree prev then .error .assertion
    let (free_page_start, free_page_end) := headerPages prev buffer (next? buffer proc.buffers)
    let proc ← proc.listDel buffer
    if free_page_start || free_page_end then
      let pages ← freeRange proc.pages
        (if free_page_start then buffer_start_page buffer else buffer_end_page buffer)
        ((if free_page_end then buffer_end_page buffer else buffer_start_page buffer) + PAGE_SIZE)
      pure { proc with pages }
    else pure proc

/-- The buffer behind, if it is free, is merged in. -/
def mergeNext (proc : binder_proc) (buffer : Nat) : Except Bug binder_proc :=
  match next? buffer proc.buffers with
  | some next =>
    if proc.isFree next then do
      let proc ← proc.eraseFree rb next
      proc.deleteFreeBuffer next
    else pure proc
  | none => pure proc

/-- The buffer is merged into the one in front, if that is free; and the free one that comes
of it is entered. -/
def mergePrev (proc : binder_proc) (buffer : Nat) : Except Bug binder_proc :=
  match prev? buffer proc.buffers with
  | some prev =>
    if proc.isFree prev then do
      let proc ← proc.deleteFreeBuffer buffer
      let proc ← proc.eraseFree rb prev
      proc.insertFreeBuffer rb prev
    else proc.insertFreeBuffer rb buffer
  | none => proc.insertFreeBuffer rb buffer

/-- What a buffer is said to have used, when it is freed. -/
def freedSize (h : binder_buffer) : Nat :=
  (ALIGN h.data_size sizeof_binder_ptr + ALIGN h.offsets_size sizeof_binder_ptr) % 2 ^ 64

/-- `binder_free_buf` -/
def freeBuf (proc : binder_proc) (buffer : Nat) : Except Bug binder_proc := do
  let buffer_size := proc.bufferSize buffer
  let size := freedSize (proc.header buffer)
  if proc.isFree buffer ∨ buffer_size < size ∨ buffer < proc.buffer ∨ proc.bound < buffer then
    .error .assertion
  let proc := if (proc.header buffer).async_transaction then
    { proc with free_async_space := proc.free_async_space + (size + sizeof_binder_buffer) }
    else proc
  let pages ← freeRange proc.pages (pageAlign (data buffer)) (pageMask (data buffer + buffer_size))
  let proc := { proc with pages }
  let proc ← proc.eraseAllocated rb buffer
  let proc ← proc.setFree buffer true
  let proc ← proc.mergeNext rb buffer
  proc.mergePrev rb buffer

end binder_proc

/-! ## Runs -/

def SZ_4M : Nat := 4194304

/-- What `binder_mmap` maps: whole pages, one at least and 4 MiB at most, where no address
wraps. -/
structure Vma where
  start : Nat
  size : Nat
  start_whole : start % PAGE_SIZE = 0
  size_whole : size % PAGE_SIZE = 0
  size_pos : 0 < size
  size_le : size ≤ SZ_4M
  in_memory : start + size + PAGE_SIZE ≤ 2 ^ 64

/-- What `binder_mmap` leaves. -/
def binderMmap (rb : Balance Nat) (vma : Vma) : binder_proc where
  buffer := vma.start
  buffer_size := vma.size
  buffers := [vma.start]
  header := fun _ => ⟨true, false, 0, 0⟩
  free_buffers := rb.insertColor (.node .leaf vma.start .leaf)
  allocated_buffers := .leaf
  free_async_space := vma.size / 2
  pages := fun p => p = vma.start

inductive Op
  | alloc (data_size offsets_size : BitVec 64) (is_async : Bool) (env : Env)
  | free (buffer : Nat)

/-- A buffer that is freed is live. -/
def next (rb : Balance Nat) (proc : binder_proc) : Op → Option binder_proc
  | .alloc data_size offsets_size is_async env =>
    match proc.allocBuf rb data_size offsets_size is_async env with
    | .ok (_, proc) => some proc
    | .error _ => none
  | .free buffer =>
    if proc.bufferLookup (data buffer) = some buffer then (proc.freeBuf rb buffer).toOption
    else none

end Cdroid.Driver
