import Mathlib.Algebra.GroupWithZero.Nat
import Mathlib.Data.Fin.VecNotation
import WinDOS.Lib.FreeList

/-!
# The slab allocator (`desk/memory.h`)

Seven slabs of blocks of 16 to 1024 bytes take memory from one array, 64 blocks at a time. The
free blocks of a slab are a list threaded through the blocks. A slab keeps one address range,
that of the blocks it has got last.
-/

set_option autoImplicit false

namespace WinDOS

open Bytes FreeList

def HEAP_SIZE : Nat := 2 * 1024 * 1024
def NUM_SLABS : Nat := 7

structure Slab where
  blockSize : Nat
  start : Nat
  end_ : Nat
  freeList : Nat
  total : Nat
  free : Nat

instance : NeZero NUM_SLABS := ⟨by decide⟩

def slabSizes : Fin NUM_SLABS → Nat := ![16, 32, 64, 128, 256, 512, 1024]

/-- Where the linker puts `heap[HEAP_SIZE]`. -/
structure HeapPlace where
  heap : Nat
  pos : 0 < heap
  fits : heap + HEAP_SIZE < 2 ^ 64

structure KHeap where
  place : HeapPlace
  mem : Buf
  heapPtr : Nat
  slabs : Fin NUM_SLABS → Slab

namespace KHeap

/-- The static variables before any code has run. -/
def static (place : HeapPlace) (mem : Buf) : KHeap :=
  ⟨place, mem, place.heap, fun _ => ⟨0, 0, 0, 0, 0, 0⟩⟩

def memInit (h : KHeap) : KHeap :=
  { h with slabs := fun i => { h.slabs i with blockSize := slabSizes i, total := 0, free := 0 } }

def setSlab (h : KHeap) (i : Fin NUM_SLABS) (s : Slab) : KHeap :=
  { h with slabs := Function.update h.slabs i s }

def slabIndex (size : Nat) : Option (Fin NUM_SLABS) :=
  (List.finRange NUM_SLABS).find? fun i => size ≤ slabSizes i

/-- The number of blocks that `slab_grow` adds. -/
def growCount : Nat := 64

def slabGrow (h : KHeap) (i : Fin NUM_SLABS) : KHeap :=
  let s := h.slabs i
  let bs := s.blockSize
  let count := growCount
  let needed := bs * count
  if h.heapPtr + needed > h.place.heap + HEAP_SIZE then h
  else
    let blk := h.heapPtr
    { h.setSlab i { s with start := blk, end_ := blk + needed, total := s.total + count
                           free := s.free + count, freeList := blk } with
      heapPtr := h.heapPtr + needed
      mem := link h.mem blk bs count count }

def kmalloc (h : KHeap) (size : Nat) : Nat × KHeap :=
  match slabIndex size with
  | none => (0, h)
  | some i =>
    let h := if (h.slabs i).freeList = 0 then h.slabGrow i else h
    let s := h.slabs i
    if s.freeList = 0 then (0, h)
    else
      let blk := s.freeList
      (blk, h.setSlab i { s with freeList := load64 h.mem blk, free := s.free - 1 })

/-- The slab in whose range the pointer lies. -/
def ownerOf (h : KHeap) (ptr : Nat) : Option (Fin NUM_SLABS) :=
  (List.finRange NUM_SLABS).find? fun i => (h.slabs i).start ≤ ptr ∧ ptr < (h.slabs i).end_

def kfree (h : KHeap) (ptr : Nat) : KHeap :=
  if ptr = 0 then h
  else
    match h.ownerOf ptr with
    | none => h
    | some i =>
      let s := h.slabs i
      if (ptr - s.start) % s.blockSize ≠ 0 then h
      else
        { h.setSlab i { s with freeList := ptr, free := s.free + 1 } with
          mem := store64 h.mem ptr s.freeList }

end KHeap

open KHeap

/-! ### Runs -/

/-- A block as it was handed out: its address and the size that was asked for. -/
structure HeapBlock where
  ptr : Nat
  size : Nat
deriving DecidableEq

/-- The heap and the blocks that are in use. -/
structure HeapUse where
  h : KHeap
  live : List HeapBlock

/-- A call of the allocator, or a write of its client. -/
inductive HeapOp where
  | malloc (size : Nat)
  | free (b : HeapBlock)
  | write (addr : Nat) (v : Byte)

namespace HeapUse

/-- Only live blocks are freed and written to. -/
def Allowed (u : HeapUse) : HeapOp → Prop
  | .malloc _ => True
  | .free b => b ∈ u.live
  | .write addr _ => ∃ b ∈ u.live, b.ptr ≤ addr ∧ addr < b.ptr + b.size

def step (u : HeapUse) : HeapOp → HeapUse
  | .malloc size =>
    let (ptr, h) := u.h.kmalloc size
    ⟨h, if ptr = 0 then u.live else ⟨ptr, size⟩ :: u.live⟩
  | .free b => ⟨u.h.kfree b.ptr, u.live.erase b⟩
  | .write addr v => { u with h := { u.h with mem := Function.update u.h.mem addr v } }

/-- The use of the heap from `mem_init` on. -/
def init (place : HeapPlace) (mem : Buf) : HeapUse := ⟨(static place mem).memInit, []⟩

def AllAllowed : HeapUse → List HeapOp → Prop
  | _, [] => True
  | u, op :: ops => u.Allowed op ∧ AllAllowed (u.step op) ops

/-- The states of a run, the first one included. -/
def states : HeapUse → List HeapOp → List HeapUse
  | u, [] => [u]
  | u, op :: ops => u :: states (u.step op) ops

/-- The state after a run. -/
def after (u : HeapUse) (ops : List HeapOp) : HeapUse := ops.foldl step u

theorem mem_states_append {u v : HeapUse} {ops ops' : List HeapOp}
    (h : v ∈ (u.after ops).states ops') : v ∈ u.states (ops ++ ops') := by
  induction ops generalizing u with
  | nil => exact h
  | cons op ops ih => exact List.mem_cons_of_mem _ (ih h)

theorem allAllowed_append {u : HeapUse} {ops ops' : List HeapOp} :
    u.AllAllowed (ops ++ ops') ↔ u.AllAllowed ops ∧ (u.after ops).AllAllowed ops' := by
  induction ops generalizing u with
  | nil => exact (iff_of_eq (true_and _)).symm
  | cons op ops ih => exact (and_congr_right fun _ => ih).trans and_assoc.symm

theorem allAllowed_mallocs (u : HeapUse) (n size : Nat) :
    u.AllAllowed (List.replicate n (.malloc size)) := by
  induction n generalizing u with
  | zero => trivial
  | succ n ih => exact ⟨trivial, ih _⟩

/-- The blocks in use that come from slab `i`. -/
def liveOf (u : HeapUse) (i : Fin NUM_SLABS) : List HeapBlock :=
  u.live.filter fun b => slabIndex b.size = some i

/-- `l` is the free list of slab `i`. -/
def FreeListIs (u : HeapUse) (i : Fin NUM_SLABS) (l : List Nat) : Prop :=
  Chain (load64 u.h.mem) (u.h.slabs i).freeList l

end HeapUse

end WinDOS
