import Mathlib.Data.List.Pairwise
import WinDOS.Desk.Memory

/-!
# The blocks of the slab allocator

A cell is a block of a slab, on its free list or in use. Cells are disjoint and lie below
`heap_ptr`, and the address range of a slab meets cells of that slab only.
-/

set_option autoImplicit false

namespace WinDOS

open Bytes FreeList KHeap

/-- Blocks of `m` bytes at `p` and of `n` bytes at `q` have no byte in common. -/
def ApartBlocks (p m q n : Nat) : Prop := p + m ≤ q ∨ q + n ≤ p

/-! ### Cells -/

/-- The blocks `C` are cut from the heap. -/
structure Carved (h : KHeap) (C : Fin NUM_SLABS → Nat → Prop) : Prop where
  low : h.place.heap ≤ h.heapPtr
  high : h.heapPtr ≤ h.place.heap + HEAP_SIZE
  inside : ∀ i p, C i p → h.place.heap ≤ p ∧ p + slabSizes i ≤ h.heapPtr
  apart : ∀ i j p q, C i p → C j q → (i = j → p ≠ q) → ApartBlocks p (slabSizes i) q (slabSizes j)
  ranges : ∀ i, (h.slabs i).end_ ≤ h.heapPtr
  within : ∀ i j p, C j p → (h.slabs i).start ≤ p → p < (h.slabs i).end_ →
    j = i ∧ (p - (h.slabs i).start) % slabSizes i = 0

theorem le_slabSizes (i : Fin NUM_SLABS) : 16 ≤ slabSizes i := by
  revert i
  decide

theorem slabIndex_le {size : Nat} {i : Fin NUM_SLABS} (h : slabIndex size = some i) :
    size ≤ slabSizes i := by
  simpa using List.find?_some h

section Carved

variable {h h' : KHeap} {C C' : Fin NUM_SLABS → Nat → Prop}

theorem Carved.mono (hc : Carved h C) (hsub : ∀ i p, C' i p → C i p) (hplace : h'.place = h.place)
    (hptr : h'.heapPtr = h.heapPtr) (hstart : ∀ i, (h'.slabs i).start = (h.slabs i).start)
    (hend : ∀ i, (h'.slabs i).end_ = (h.slabs i).end_) : Carved h' C' where
  low := by rw [hplace, hptr]; exact hc.low
  high := by rw [hplace, hptr]; exact hc.high
  inside i p hp := by rw [hplace, hptr]; exact hc.inside i p (hsub i p hp)
  apart i j p q hp hq := hc.apart i j p q (hsub i p hp) (hsub j q hq)
  ranges i := by rw [hptr, hend]; exact hc.ranges i
  within i j p hp := by rw [hstart, hend]; exact hc.within i j p (hsub j p hp)

/-- Blocks of another chunk, from `heap_ptr` on, become the range of their slab. -/
theorem Carved.grow (hc : Carved h C) {i : Fin NUM_SLABS} {count : Nat}
    (hroom : h.heapPtr + slabSizes i * count ≤ h.place.heap + HEAP_SIZE)
    (hsub : ∀ j p, C' j p → C j p ∨ j = i ∧ p ∈ blocks h.heapPtr (slabSizes i) count)
    (hplace : h'.place = h.place) (hptr : h'.heapPtr = h.heapPtr + slabSizes i * count)
    (hrange : (h'.slabs i).start = h.heapPtr ∧ (h'.slabs i).end_ = h'.heapPtr)
    (hother : ∀ j, j ≠ i → (h'.slabs j).start = (h.slabs j).start ∧
      (h'.slabs j).end_ = (h.slabs j).end_) : Carved h' C' := by
  have hpos := le_slabSizes i
  -- a block of the new chunk
  have hnew : ∀ p, p ∈ blocks h.heapPtr (slabSizes i) count →
      h.heapPtr ≤ p ∧ p + slabSizes i ≤ h'.heapPtr ∧ (p - h.heapPtr) % slabSizes i = 0 := by
    intro p hp
    obtain ⟨k, hk, rfl⟩ := mem_blocks.mp hp
    have hmul : (k + 1) * slabSizes i ≤ count * slabSizes i := Nat.mul_le_mul_right _ hk
    rw [Nat.add_mul, Nat.one_mul, Nat.mul_comm count] at hmul
    refine ⟨Nat.le_add_right _ _, by omega, ?_⟩
    rw [Nat.add_sub_cancel_left, Nat.mul_mod_left]
  refine ⟨?_, ?_, fun j p hp => ?_, fun j k p q hp hq hne => ?_, fun j => ?_,
    fun j k p hp hlo hhi => ?_⟩
  · rw [hplace, hptr]
    exact hc.low.trans (Nat.le_add_right _ _)
  · rw [hplace, hptr]
    exact hroom
  · rw [hplace]
    rcases hsub j p hp with hold | ⟨rfl, hp⟩
    · have hin := hc.inside j p hold
      omega
    · have hin := hnew p hp
      have hlow := hc.low
      omega
  · unfold ApartBlocks
    rcases hsub j p hp with hold | ⟨rfl, hp⟩ <;> rcases hsub k q hq with hold' | ⟨rfl, hq⟩
    · exact hc.apart j k p q hold hold' hne
    · have hin := hc.inside j p hold
      have hin' := hnew q hq
      omega
    · have hin := hnew p hp
      have hin' := hc.inside k q hold'
      omega
    · obtain ⟨a, -, rfl⟩ := mem_blocks.mp hp
      obtain ⟨b, -, rfl⟩ := mem_blocks.mp hq
      rcases Nat.lt_trichotomy a b with hab | rfl | hab
      · have hmul : (a + 1) * slabSizes k ≤ b * slabSizes k := Nat.mul_le_mul_right _ hab
        rw [Nat.add_mul, Nat.one_mul] at hmul
        omega
      · exact absurd rfl (hne rfl)
      · have hmul : (b + 1) * slabSizes k ≤ a * slabSizes k := Nat.mul_le_mul_right _ hab
        rw [Nat.add_mul, Nat.one_mul] at hmul
        omega
  · by_cases hj : j = i
    · rw [hj, hrange.2]
    · have hle := hc.ranges j
      rw [(hother j hj).2]
      omega
  · by_cases hj : j = i
    · rw [hj, hrange.1] at hlo ⊢
      rcases hsub k p hp with hold | ⟨rfl, hp⟩
      · have hin := hc.inside k p hold
        have hpos' := le_slabSizes k
        omega
      · exact ⟨rfl, (hnew p hp).2.2⟩
    · obtain ⟨hs, he⟩ := hother j hj
      rw [hs] at hlo ⊢
      rw [he] at hhi
      rcases hsub k p hp with hold | ⟨rfl, hp⟩
      · exact hc.within j k p hold hlo hhi
      · have hin := hnew p hp
        have hle := hc.ranges j
        omega

end Carved

/-! ### The invariant -/

namespace HeapUse

/-- A block of slab `i`, free or in use; `F` are the free lists. -/
def Cell (F : Fin NUM_SLABS → List Nat) (u : HeapUse) (i : Fin NUM_SLABS) (p : Nat) : Prop :=
  p ∈ F i ∨ ∃ b ∈ u.live, slabIndex b.size = some i ∧ b.ptr = p

end HeapUse

structure HeapInv (F : Fin NUM_SLABS → List Nat) (u : HeapUse) : Prop where
  sizes : ∀ i, (u.h.slabs i).blockSize = slabSizes i
  lists : ∀ i, u.FreeListIs i (F i)
  count : ∀ i, (u.h.slabs i).free = (F i).length
  carved : Carved u.h (HeapUse.Cell F u)
  owned : ∀ b ∈ u.live, ∃ i, slabIndex b.size = some i
  ptrs : u.live.Pairwise fun b c => b.ptr ≠ c.ptr
  taken : ∀ i, ∀ p ∈ F i, ∀ b ∈ u.live, b.ptr ≠ p

/-- Between two states no slab has lost a block: what it has got more is free or in use. -/
def SameBalance (F : Fin NUM_SLABS → List Nat) (u : HeapUse) (F' : Fin NUM_SLABS → List Nat)
    (u' : HeapUse) : Prop :=
  ∀ i, (u'.h.slabs i).total + ((u.liveOf i).length + (F i).length) =
    (u.h.slabs i).total + ((u'.liveOf i).length + (F' i).length)

theorem heapInv_init (place : HeapPlace) (mem : Buf) :
    HeapInv (fun _ => []) (HeapUse.init place mem) := by
  have hnone : ∀ i p, ¬ HeapUse.Cell (fun _ => []) (HeapUse.init place mem) i p := by
    rintro i p (hp | ⟨b, hb, -⟩)
    · exact List.not_mem_nil hp
    · exact List.not_mem_nil hb
  refine ⟨fun i => rfl, fun i => rfl, fun i => rfl, ⟨Nat.le_refl _, Nat.le_add_right _ _,
    fun i p hp => absurd hp (hnone i p), fun i _ p _ hp => absurd hp (hnone i p),
    fun i => Nat.zero_le _, fun _ j p hp => absurd hp (hnone j p)⟩, fun b hb => ?_,
    List.Pairwise.nil, fun i p hp => absurd hp List.not_mem_nil⟩
  exact absurd hb List.not_mem_nil

/-- A growth with room; nothing else of the slabs changes. -/
theorem slabGrow_room {h h' : KHeap} {i : Fin NUM_SLABS}
    (hbs : (h.slabs i).blockSize = slabSizes i)
    (hroom : h.heapPtr + slabSizes i * growCount ≤ h.place.heap + HEAP_SIZE)
    (hgrow : h.slabGrow i = h') :
    h'.place = h.place ∧ h'.heapPtr = h.heapPtr + slabSizes i * growCount ∧
    h'.mem = link h.mem h.heapPtr (slabSizes i) growCount growCount ∧
    h'.slabs = Function.update h.slabs i
      ⟨slabSizes i, h.heapPtr, h.heapPtr + slabSizes i * growCount, h.heapPtr,
        (h.slabs i).total + growCount, (h.slabs i).free + growCount⟩ := by
  rw [slabGrow] at hgrow
  dsimp only at hgrow
  rw [hbs, if_neg (not_lt.mpr hroom)] at hgrow
  subst hgrow
  exact ⟨rfl, rfl, rfl, rfl⟩

theorem blocks_cons (blk bs : Nat) : ∃ l, blocks blk bs growCount = blk :: l := by
  refine ⟨(List.range' 1 63).map (blk + · * bs), ?_⟩
  rw [blocks, List.range_eq_range', growCount, List.range'_succ, List.map_cons, Nat.zero_mul,
    Nat.add_zero]

theorem slabGrow_full {h : KHeap} {i : Fin NUM_SLABS} (hbs : (h.slabs i).blockSize = slabSizes i)
    (hfull : ¬ h.heapPtr + slabSizes i * growCount ≤ h.place.heap + HEAP_SIZE) :
    h.slabGrow i = h := by
  rw [slabGrow]
  dsimp only
  rw [hbs, if_pos (not_le.mp hfull)]

theorem liveOf_erase {u : HeapUse} (h' : KHeap) {b : HeapBlock} (hb : b ∈ u.live)
    {i : Fin NUM_SLABS} (hi : slabIndex b.size = some i) (j : Fin NUM_SLABS) :
    (u.liveOf j).length =
      (HeapUse.liveOf ⟨h', u.live.erase b⟩ j).length + if j = i then 1 else 0 := by
  have hperm := (List.perm_cons_erase hb).filter fun c => slabIndex c.size = some j
  have hlen := hperm.length_eq
  unfold HeapUse.liveOf
  rw [hlen]
  by_cases hj : j = i
  · rw [if_pos hj, List.filter_cons_of_pos (by simpa [hj] using hi), List.length_cons]
  · have hne : slabIndex b.size ≠ some j := fun h => hj (Option.some.inj (h.symm.trans hi))
    rw [if_neg hj, List.filter_cons_of_neg (by simpa using hne), Nat.add_zero]

theorem step_malloc {u : HeapUse} {h' : KHeap} {size p : Nat} (h : u.h.kmalloc size = (p, h')) :
    u.step (.malloc size) = ⟨h', if p = 0 then u.live else ⟨p, size⟩ :: u.live⟩ := by
  change (⟨(u.h.kmalloc size).2, if (u.h.kmalloc size).1 = 0 then u.live
    else ⟨(u.h.kmalloc size).1, size⟩ :: u.live⟩ : HeapUse) = _
  rw [h]

theorem kmalloc_none {h : KHeap} {size : Nat} (hi : slabIndex size = none) :
    h.kmalloc size = (0, h) := by
  unfold kmalloc
  rw [hi]

/-- `h'` is the heap after an attempt to grow an empty slab. -/
theorem kmalloc_some {h h' : KHeap} {size : Nat} {i : Fin NUM_SLABS} (hi : slabIndex size = some i)
    (hgrow : (if (h.slabs i).freeList = 0 then h.slabGrow i else h) = h') :
    h.kmalloc size = if (h'.slabs i).freeList = 0 then (0, h')
      else ((h'.slabs i).freeList, h'.setSlab i { h'.slabs i with
        freeList := load64 h'.mem (h'.slabs i).freeList, free := (h'.slabs i).free - 1 }) := by
  subst hgrow
  unfold kmalloc
  rw [hi]

/-- A slab and its free list in `mem`. -/
structure SlabHas (mem : Buf) (i : Fin NUM_SLABS) (s : Slab) (l : List Nat) : Prop where
  size : s.blockSize = slabSizes i
  list : Chain (load64 mem) s.freeList l
  count : s.free = l.length

theorem slabHas_update {mem : Buf} {slabs : Fin NUM_SLABS → Slab} {F : Fin NUM_SLABS → List Nat}
    {i : Fin NUM_SLABS} {s : Slab} {l : List Nat} (hi : SlabHas mem i s l)
    (hother : ∀ j, j ≠ i → SlabHas mem j (slabs j) (F j)) (j : Fin NUM_SLABS) :
    SlabHas mem j (Function.update slabs i s j) (Function.update F i l j) := by
  by_cases hj : j = i
  · rw [hj, Function.update_self, Function.update_self]
    exact hi
  · rw [Function.update_of_ne hj, Function.update_of_ne hj]
    exact hother j hj

/-- A node of the lists of which one has got `p` in front. -/
theorem mem_update_cons {F : Fin NUM_SLABS → List Nat} {i j : Fin NUM_SLABS} {p q : Nat}
    (h : q ∈ Function.update F i (p :: F i) j) : (j = i ∧ q = p) ∨ q ∈ F j := by
  by_cases hj : j = i
  · rw [hj, Function.update_self] at h
    rw [hj]
    exact (List.mem_cons.mp h).imp_left fun hq => ⟨rfl, hq⟩
  · rw [Function.update_of_ne hj] at h
    exact .inr h

theorem slab_range_update {slabs : Fin NUM_SLABS → Slab} {i : Fin NUM_SLABS} {s : Slab}
    (hstart : s.start = (slabs i).start) (hend : s.end_ = (slabs i).end_) (j : Fin NUM_SLABS) :
    (Function.update slabs i s j).start = (slabs j).start ∧
      (Function.update slabs i s j).end_ = (slabs j).end_ := by
  by_cases hj : j = i
  · rw [hj, Function.update_self]
    exact ⟨hstart, hend⟩
  · rw [Function.update_of_ne hj]
    exact ⟨rfl, rfl⟩

section Step

variable {F : Fin NUM_SLABS → List Nat} {u : HeapUse} (hu : HeapInv F u)
include hu

theorem HeapInv.erased {b c : HeapBlock} (hb : b ∈ u.live) (hc : c ∈ u.live.erase b) :
    c ∈ u.live ∧ c.ptr ≠ b.ptr := by
  have hnodup : u.live.Nodup := hu.ptrs.imp fun hne heq => hne (congrArg HeapBlock.ptr heq)
  obtain ⟨hne, hc⟩ := hnodup.mem_erase_iff.mp hc
  have : Std.Symm fun c d : HeapBlock => c.ptr ≠ d.ptr := ⟨fun _ _ h => h.symm⟩
  exact ⟨hc, hu.ptrs.forall hc hb hne⟩

theorem HeapInv.freeList_lt (i : Fin NUM_SLABS) : (u.h.slabs i).freeList < 2 ^ 64 := by
  have hfits := u.h.place.fits
  have hhigh := hu.carved.high
  cases hF : F i with
  | nil =>
    rw [(hu.lists i).null_iff.mpr hF]
    decide
  | cons p l =>
    have hp : p ∈ F i := hF ▸ List.mem_cons_self
    have hpin := hu.carved.inside i p (.inl hp)
    have hpeq : (u.h.slabs i).freeList = p := (hF ▸ hu.lists i : Chain _ _ (p :: l)).1
    omega

/-- Two different cells are disjoint, so their links are. -/
theorem HeapInv.links_apart {i j : Fin NUM_SLABS} {p q : Nat} (hp : HeapUse.Cell F u i p)
    (hq : HeapUse.Cell F u j q) (hne : i = j → p ≠ q) : p + 8 ≤ q ∨ q + 8 ≤ p := by
  have hapart := hu.carved.apart i j p q hp hq hne
  have hi := le_slabSizes i
  have hj := le_slabSizes j
  unfold ApartBlocks at hapart
  omega

/-- `h'` is the heap in which the empty slab `i` has got 64 blocks. -/
theorem HeapInv.enlarge {i : Fin NUM_SLABS} (hempty : F i = [])
    (hroom : u.h.heapPtr + slabSizes i * growCount ≤ u.h.place.heap + HEAP_SIZE) {h' : KHeap}
    (hplace : h'.place = u.h.place) (hptr : h'.heapPtr = u.h.heapPtr + slabSizes i * growCount)
    (hmem : h'.mem = link u.h.mem u.h.heapPtr (slabSizes i) growCount growCount)
    (hslabs : h'.slabs = Function.update u.h.slabs i
      ⟨slabSizes i, u.h.heapPtr, u.h.heapPtr + slabSizes i * growCount, u.h.heapPtr,
        (u.h.slabs i).total + growCount, (u.h.slabs i).free + growCount⟩) :
    HeapInv (Function.update F i (blocks u.h.heapPtr (slabSizes i) growCount)) ⟨h', u.live⟩ ∧
    SameBalance F u (Function.update F i (blocks u.h.heapPtr (slabSizes i) growCount))
      ⟨h', u.live⟩ := by
  have hpos := le_slabSizes i
  have hlow := hu.carved.low
  have hheap := u.h.place.pos
  have hfits := u.h.place.fits
  set new := blocks u.h.heapPtr (slabSizes i) growCount with hnew
  have hlen : new.length = growCount := by rw [hnew, blocks, List.length_map, List.length_range]
  have hin : ∀ p ∈ new, u.h.heapPtr ≤ p := by
    intro p hp
    obtain ⟨k, -, rfl⟩ := mem_blocks.mp hp
    exact Nat.le_add_right _ _
  have hall : ∀ j, SlabHas h'.mem j (h'.slabs j) (Function.update F i new j) := by
    rw [hslabs, hmem]
    refine slabHas_update ⟨rfl, ?_, ?_⟩ fun j _ => ⟨hu.sizes j, ?_, hu.count j⟩
    · refine chain_link (by omega) ?_ (by omega) (by decide)
      rw [Nat.mul_comm]
      omega
    · rw [hlen, hu.count i, hempty]
      exact Nat.zero_add _
    · refine (hu.lists j).congr fun q hq => load_link_out (by omega) (.inl ?_)
      have hq := hu.carved.inside j q (.inl hq)
      have hpos' := le_slabSizes j
      omega
  refine ⟨⟨fun j => (hall j).size, fun j => (hall j).list, fun j => (hall j).count, ?_, hu.owned,
    hu.ptrs, fun j p hp b hb => ?_⟩, fun j => ?_⟩
  · refine hu.carved.grow hroom (fun j p hp => ?_) hplace hptr ?_ fun j hj => ?_
    · rcases hp with hp | hb
      · by_cases hj : j = i
        · rw [hj, Function.update_self] at hp
          exact .inr ⟨hj, hp⟩
        · rw [Function.update_of_ne hj] at hp
          exact .inl (.inl hp)
      · exact .inl (.inr hb)
    · dsimp only
      rw [hslabs, Function.update_self]
      exact ⟨rfl, hptr.symm⟩
    · dsimp only
      rw [hslabs, Function.update_of_ne hj]
      exact ⟨rfl, rfl⟩
  · obtain ⟨k, hk⟩ := hu.owned b hb
    by_cases hj : j = i
    · rw [hj, Function.update_self] at hp
      have hold := hu.carved.inside k b.ptr (.inr ⟨b, hb, hk, rfl⟩)
      have hpos' := le_slabSizes k
      have hge := hin p hp
      omega
    · rw [Function.update_of_ne hj] at hp
      exact hu.taken j p hp b hb
  · change (h'.slabs j).total + ((u.liveOf j).length + (F j).length) =
      (u.h.slabs j).total + ((u.liveOf j).length + (Function.update F i new j).length)
    rw [hslabs]
    by_cases hj : j = i
    · rw [hj, Function.update_self, Function.update_self, hlen, hempty, List.length_nil]
      dsimp only
      omega
    · rw [Function.update_of_ne hj, Function.update_of_ne hj]

theorem HeapInv.pop {size : Nat} {i : Fin NUM_SLABS} (hi : slabIndex size = some i) {p : Nat}
    {l : List Nat} (hF : F i = p :: l) (h' : KHeap)
    (hpop : h' = u.h.setSlab i { u.h.slabs i with
      freeList := load64 u.h.mem p, free := (u.h.slabs i).free - 1 }) :
    HeapInv (Function.update F i l) ⟨h', ⟨p, size⟩ :: u.live⟩ ∧
      SameBalance F u (Function.update F i l) ⟨h', ⟨p, size⟩ :: u.live⟩ := by
  have hchain : Chain (load64 u.h.mem) (u.h.slabs i).freeList (p :: l) := hF ▸ hu.lists i
  have hnodup := List.nodup_cons.mp hchain.nodup
  have hp : p ∈ F i := hF ▸ List.mem_cons_self
  have hslabs : h'.slabs = Function.update u.h.slabs i { u.h.slabs i with
      freeList := load64 u.h.mem p, free := (u.h.slabs i).free - 1 } := by rw [hpop]; rfl
  have hmem : h'.mem = u.h.mem := by rw [hpop]; rfl
  -- the free lists get shorter
  have hsub : ∀ j q, q ∈ Function.update F i l j → q ∈ F j ∧ q ≠ p := by
    intro j q hq
    by_cases hj : j = i
    · rw [hj, Function.update_self] at hq
      rw [hj, hF]
      exact ⟨List.mem_cons_of_mem _ hq, fun heq => hnodup.1 (heq ▸ hq)⟩
    · rw [Function.update_of_ne hj] at hq
      refine ⟨hq, fun heq => ?_⟩
      have hapart := hu.links_apart (.inl hq) (.inl hp) fun h => absurd h hj
      omega
  have hall : ∀ j, SlabHas h'.mem j (h'.slabs j) (Function.update F i l j) := by
    rw [hslabs, hmem]
    refine slabHas_update ⟨hu.sizes i, hchain.2.2, ?_⟩ fun j _ =>
      ⟨hu.sizes j, hu.lists j, hu.count j⟩
    rw [hu.count i, hF, List.length_cons]
    exact Nat.add_sub_cancel _ _
  refine ⟨⟨fun j => (hall j).size, fun j => (hall j).list, fun j => (hall j).count, ?_, ?_, ?_,
    fun j q hq => ?_⟩, fun j => ?_⟩
  · have hrange : ∀ j, (h'.slabs j).start = (u.h.slabs j).start ∧
        (h'.slabs j).end_ = (u.h.slabs j).end_ := by
      rw [hslabs]
      exact slab_range_update rfl rfl
    refine hu.carved.mono (fun j q hq => ?_) (by rw [hpop]; rfl) (by rw [hpop]; rfl)
      (fun j => (hrange j).1) fun j => (hrange j).2
    rcases hq with hq | ⟨b, hb, hj, rfl⟩
    · exact .inl (hsub j q hq).1
    · rcases List.mem_cons.mp hb with rfl | hb
      · obtain rfl : i = j := Option.some.inj (hi.symm.trans hj)
        exact .inl hp
      · exact .inr ⟨b, hb, hj, rfl⟩
  · exact List.forall_mem_cons.mpr ⟨⟨i, hi⟩, hu.owned⟩
  · exact List.pairwise_cons.mpr ⟨fun b hb => (hu.taken i p hp b hb).symm, hu.ptrs⟩
  · obtain ⟨hq, hne⟩ := hsub j q hq
    exact List.forall_mem_cons.mpr ⟨hne.symm, hu.taken j q hq⟩
  · unfold HeapUse.liveOf
    dsimp only
    rw [hslabs]
    by_cases hj : j = i
    · rw [hj, Function.update_self, Function.update_self,
        List.filter_cons_of_pos (by simpa using hi), hF, List.length_cons, List.length_cons]
      dsimp only
      omega
    · have hne : slabIndex size ≠ some j := fun h => hj (Option.some.inj (h.symm.trans hi))
      rw [Function.update_of_ne hj, Function.update_of_ne hj,
        List.filter_cons_of_neg (by simpa using hne)]

theorem HeapInv.step_pop {size : Nat} {i : Fin NUM_SLABS} (hi : slabIndex size = some i) {p : Nat}
    {l : List Nat} (hF : F i = p :: l) :
    HeapInv (Function.update F i l) (u.step (.malloc size)) ∧
      SameBalance F u (Function.update F i l) (u.step (.malloc size)) ∧
      (u.step (.malloc size)).live = ⟨p, size⟩ :: u.live ∧
      (u.step (.malloc size)).h.heapPtr = u.h.heapPtr ∧
      (u.step (.malloc size)).h.place = u.h.place ∧
      ((u.step (.malloc size)).h.slabs i).start = (u.h.slabs i).start := by
  have hchain : Chain (load64 u.h.mem) (u.h.slabs i).freeList (p :: l) := hF ▸ hu.lists i
  have hne : (u.h.slabs i).freeList ≠ 0 := fun h0 => by cases hchain.null_iff.mp h0
  obtain ⟨hinv, hbal⟩ := hu.pop hi hF _ rfl
  have hstep : u.step (.malloc size) = ⟨u.h.setSlab i { u.h.slabs i with
      freeList := load64 u.h.mem p, free := (u.h.slabs i).free - 1 }, ⟨p, size⟩ :: u.live⟩ := by
    rw [step_malloc ((kmalloc_some hi (if_neg hne)).trans (if_neg hne)), if_neg hne, hchain.1]
  rw [hstep]
  refine ⟨hinv, hbal, rfl, rfl, rfl, ?_⟩
  unfold setSlab
  dsimp only
  rw [Function.update_self]

/-- An allocation from an empty slab is one from the slab with 64 blocks more. -/
theorem HeapInv.grow {size : Nat} {i : Fin NUM_SLABS} (hi : slabIndex size = some i)
    (hempty : F i = []) (hroom : u.h.heapPtr + slabSizes i * growCount ≤ u.h.place.heap + HEAP_SIZE) :
    ∃ v : HeapUse, u.step (.malloc size) = v.step (.malloc size) ∧
      HeapInv (Function.update F i (blocks u.h.heapPtr (slabSizes i) growCount)) v ∧
      SameBalance F u (Function.update F i (blocks u.h.heapPtr (slabSizes i) growCount)) v ∧
      v.live = u.live ∧ v.h.place = u.h.place ∧
      v.h.heapPtr = u.h.heapPtr + slabSizes i * growCount ∧
      (v.h.slabs i).start = u.h.heapPtr := by
  have hnull := (hu.lists i).null_iff.mpr hempty
  obtain ⟨h', hh'⟩ : ∃ h', u.h.slabGrow i = h' := ⟨_, rfl⟩
  obtain ⟨hplace, hptr, hmem, hslabs⟩ := slabGrow_room (hu.sizes i) hroom hh'
  obtain ⟨hinv, hbal⟩ := hu.enlarge hempty hroom hplace hptr hmem hslabs
  have hgrown : (h'.slabs i).freeList ≠ 0 := by
    have hpos := u.h.place.pos
    have hlow := hu.carved.low
    rw [hslabs, Function.update_self]
    dsimp only
    omega
  have hsame := (kmalloc_some hi ((if_pos hnull).trans hh')).trans
    (kmalloc_some hi (if_neg hgrown)).symm
  refine ⟨⟨h', u.live⟩, ?_, hinv, hbal, rfl, hplace, hptr, ?_⟩
  · rw [step_malloc (Prod.mk.eta.symm : u.h.kmalloc size = _), hsame]
    rfl
  · dsimp only
    rw [hslabs, Function.update_self]

/-- What `kmalloc` returns is null or a block that was free; no slab loses a block. -/
theorem HeapInv.malloc (size : Nat) :
    ∃ F', HeapInv F' (u.step (.malloc size)) ∧ SameBalance F u F' (u.step (.malloc size)) := by
  cases hi : slabIndex size with
  | none =>
    rw [step_malloc (kmalloc_none hi)]
    exact ⟨F, hu, fun _ => rfl⟩
  | some i =>
    cases hF : F i with
    | cons p l =>
      obtain ⟨hinv, hbal, -⟩ := hu.step_pop hi hF
      exact ⟨_, hinv, hbal⟩
    | nil =>
      by_cases hroom : u.h.heapPtr + slabSizes i * growCount ≤ u.h.place.heap + HEAP_SIZE
      · obtain ⟨v, hstep, hgrown, hbal, -⟩ := hu.grow hi hF hroom
        obtain ⟨l, hnew⟩ := blocks_cons u.h.heapPtr (slabSizes i)
        obtain ⟨hinv, hbal', -⟩ := hgrown.step_pop (l := l) hi (by rw [Function.update_self, hnew])
        rw [hstep]
        refine ⟨_, hinv, fun j => ?_⟩
        have hj := hbal j
        have hj' := hbal' j
        omega
      · have hnull := (hu.lists i).null_iff.mpr hF
        have hsame := kmalloc_some hi ((if_pos hnull).trans (slabGrow_full (hu.sizes i) hroom))
        rw [step_malloc (hsame.trans (if_pos hnull))]
        exact ⟨F, hu, fun _ => rfl⟩

theorem HeapInv.push {b : HeapBlock} (hb : b ∈ u.live) {i : Fin NUM_SLABS}
    (hi : slabIndex b.size = some i) (h' : KHeap)
    (hpush : h' = { u.h.setSlab i { u.h.slabs i with
        freeList := b.ptr, free := (u.h.slabs i).free + 1 } with
      mem := store64 u.h.mem b.ptr (u.h.slabs i).freeList }) :
    HeapInv (Function.update F i (b.ptr :: F i)) ⟨h', u.live.erase b⟩ ∧
      SameBalance F u (Function.update F i (b.ptr :: F i)) ⟨h', u.live.erase b⟩ := by
  have hcell : HeapUse.Cell F u i b.ptr := .inr ⟨b, hb, hi, rfl⟩
  have hin := hu.carved.inside i b.ptr hcell
  have hheap := u.h.place.pos
  have hslabs : h'.slabs = Function.update u.h.slabs i { u.h.slabs i with
      freeList := b.ptr, free := (u.h.slabs i).free + 1 } := by rw [hpush]; rfl
  have hmem : h'.mem = store64 u.h.mem b.ptr (u.h.slabs i).freeList := by rw [hpush]
  -- the links of the nodes on the free lists
  have hlinks : ∀ j, Chain (load64 h'.mem) (u.h.slabs j).freeList (F j) := by
    intro j
    refine (hu.lists j).congr fun q hq => ?_
    rw [hmem]
    exact load_store_of_apart (hu.links_apart hcell (.inl hq) fun _ => hu.taken j q hq b hb)
  have hall : ∀ j, SlabHas h'.mem j (h'.slabs j) (Function.update F i (b.ptr :: F i) j) := by
    rw [hslabs]
    refine slabHas_update ⟨hu.sizes i, ⟨rfl, by omega, ?_⟩, ?_⟩ fun j _ =>
      ⟨hu.sizes j, hlinks j, hu.count j⟩
    · rw [hmem, load_store_self (hu.freeList_lt i), ← hmem]
      exact hlinks i
    · rw [List.length_cons, ← hu.count i]
  refine ⟨⟨fun j => (hall j).size, fun j => (hall j).list, fun j => (hall j).count, ?_,
    fun c hc => hu.owned c (hu.erased hb hc).1, hu.ptrs.sublist List.erase_sublist,
    fun j q hq c hc => ?_⟩, fun j => ?_⟩
  · have hrange : ∀ j, (h'.slabs j).start = (u.h.slabs j).start ∧
        (h'.slabs j).end_ = (u.h.slabs j).end_ := by
      rw [hslabs]
      exact slab_range_update rfl rfl
    refine hu.carved.mono (fun j q hq => ?_) (by rw [hpush]; rfl) (by rw [hpush]; rfl)
      (fun j => (hrange j).1) fun j => (hrange j).2
    rcases hq with hq | ⟨c, hc, hj, rfl⟩
    · rcases mem_update_cons hq with ⟨rfl, rfl⟩ | hq
      · exact hcell
      · exact .inl hq
    · exact .inr ⟨c, (hu.erased hb hc).1, hj, rfl⟩
  · obtain ⟨hc, hne⟩ := hu.erased hb hc
    rcases mem_update_cons hq with ⟨-, rfl⟩ | hq
    · exact hne
    · exact hu.taken j q hq c hc
  · have hlive := liveOf_erase h' hb hi j
    change (h'.slabs j).total + ((u.liveOf j).length + (F j).length) = (u.h.slabs j).total +
      ((HeapUse.liveOf ⟨h', u.live.erase b⟩ j).length +
        (Function.update F i (b.ptr :: F i) j).length)
    rw [hslabs]
    by_cases hj : j = i
    · rw [hj] at hlive ⊢
      rw [if_pos rfl] at hlive
      rw [Function.update_self, Function.update_self, List.length_cons]
      change _ = (HeapUse.liveOf ⟨h', u.live.erase b⟩ i).length + 1 at hlive
      dsimp only
      omega
    · rw [if_neg hj] at hlive
      rw [Function.update_of_ne hj, Function.update_of_ne hj]
      change _ = (HeapUse.liveOf ⟨h', u.live.erase b⟩ j).length + 0 at hlive
      omega

/-- `kfree` finds the slab of a block in use by its range, and no other slab. -/
theorem HeapInv.kfree_found {b : HeapBlock} (hb : b ∈ u.live) {i : Fin NUM_SLABS}
    (hi : slabIndex b.size = some i) (hlo : (u.h.slabs i).start ≤ b.ptr)
    (hhi : b.ptr < (u.h.slabs i).end_) :
    u.h.kfree b.ptr = { u.h.setSlab i { u.h.slabs i with
        freeList := b.ptr, free := (u.h.slabs i).free + 1 } with
      mem := store64 u.h.mem b.ptr (u.h.slabs i).freeList } := by
  have hcell : HeapUse.Cell F u i b.ptr := .inr ⟨b, hb, hi, rfl⟩
  have hne : b.ptr ≠ 0 := by
    have hpos := u.h.place.pos
    have hin := hu.carved.inside i b.ptr hcell
    omega
  have howner : u.h.ownerOf b.ptr = some i := by
    cases ho : u.h.ownerOf b.ptr with
    | none =>
      have hnone := List.find?_eq_none.mp ho i (List.mem_finRange i)
      simp only [decide_eq_true_eq, not_and, not_lt] at hnone
      exact absurd hhi (not_lt.mpr (hnone hlo))
    | some j =>
      have hj := List.find?_some ho
      simp only [decide_eq_true_eq] at hj
      rw [(hu.carved.within j i b.ptr hcell hj.1 hj.2).1]
  have haligned := (hu.carved.within i i b.ptr hcell hlo hhi).2
  unfold kfree
  rw [if_neg hne, howner]
  dsimp only
  rw [hu.sizes i, if_neg (not_not.mpr haligned)]

theorem HeapInv.kfree_lost {b : HeapBlock} (hb : b ∈ u.live) {i : Fin NUM_SLABS}
    (hi : slabIndex b.size = some i)
    (hout : ¬ ((u.h.slabs i).start ≤ b.ptr ∧ b.ptr < (u.h.slabs i).end_)) :
    u.h.kfree b.ptr = u.h := by
  have hcell : HeapUse.Cell F u i b.ptr := .inr ⟨b, hb, hi, rfl⟩
  have howner : u.h.ownerOf b.ptr = none := by
    refine List.find?_eq_none.mpr fun j _ => ?_
    simp only [decide_eq_true_eq]
    intro hj
    obtain ⟨rfl, -⟩ := hu.carved.within j i b.ptr hcell hj.1 hj.2
    exact hout hj
  unfold kfree
  rw [howner, ite_self]

theorem HeapInv.drop (b : HeapBlock) : HeapInv F ⟨u.h, u.live.erase b⟩ := by
  have hmem : ∀ c ∈ u.live.erase b, c ∈ u.live := fun c => List.mem_of_mem_erase
  refine ⟨hu.sizes, hu.lists, hu.count, hu.carved.mono (fun j q hq => ?_) rfl rfl (fun _ => rfl)
    fun _ => rfl, fun c hc => hu.owned c (hmem c hc), hu.ptrs.sublist List.erase_sublist,
    fun j q hq c hc => hu.taken j q hq c (hmem c hc)⟩
  rcases hq with hq | ⟨c, hc, hj, rfl⟩
  · exact .inl hq
  · exact .inr ⟨c, hmem c hc, hj, rfl⟩

/-- The client writes its own blocks only, no link of a free list. -/
theorem HeapInv.write {addr : Nat} {v : Byte} (hop : u.Allowed (.write addr v)) :
    HeapInv F (u.step (.write addr v)) := by
  obtain ⟨b, hb, hlo, hhi⟩ := hop
  obtain ⟨i, hi⟩ := hu.owned b hb
  have hle := slabIndex_le hi
  refine ⟨hu.sizes, fun j => (hu.lists j).congr fun q hq => ?_, hu.count,
    hu.carved.mono (fun _ _ h => h) rfl rfl (fun _ => rfl) fun _ => rfl, hu.owned, hu.ptrs,
    hu.taken⟩
  have hapart := hu.carved.apart i j b.ptr q (.inr ⟨b, hb, hi, rfl⟩) (.inl hq)
    fun _ => hu.taken j q hq b hb
  have hpos := le_slabSizes j
  unfold ApartBlocks at hapart
  refine le_congr fun k h0 h1 => ?_
  exact Function.update_of_ne (by omega) _ _

end Step

/-! ### Runs -/

namespace HeapUse

/-- The block is one of those its slab has got last. -/
def AmongLast (u : HeapUse) (b : HeapBlock) : Prop :=
  ∃ i, slabIndex b.size = some i ∧ (u.h.slabs i).start ≤ b.ptr ∧ b.ptr < (u.h.slabs i).end_

/-- A call of `kfree` with such a block, or anything else. -/
def Returns (u : HeapUse) : HeapOp → Prop
  | .free b => u.AmongLast b
  | _ => True

def AllReturn : HeapUse → List HeapOp → Prop
  | _, [] => True
  | u, op :: ops => u.Returns op ∧ AllReturn (u.step op) ops

/-- The counters of the slab are the numbers of its blocks. -/
def NoLoss (u : HeapUse) : Prop :=
  ∀ i, ∃ l, u.FreeListIs i l ∧ (u.h.slabs i).total = (u.liveOf i).length + l.length ∧
    (u.h.slabs i).free = l.length

end HeapUse

section Run

variable {F F' : Fin NUM_SLABS → List Nat} {u u' : HeapUse}

theorem HeapInv.noLoss_iff (hu : HeapInv F u) :
    u.NoLoss ↔ ∀ i, (u.h.slabs i).total = (u.liveOf i).length + (F i).length := by
  refine forall_congr' fun i => ⟨?_, fun h => ⟨F i, hu.lists i, h, hu.count i⟩⟩
  rintro ⟨l, hl, htotal, -⟩
  rw [hl.unique (hu.lists i)] at htotal
  exact htotal

theorem HeapInv.noLoss_of_same (hu : HeapInv F u) (hu' : HeapInv F' u')
    (hbal : SameBalance F u F' u') (h : u.NoLoss) : u'.NoLoss := by
  rw [hu.noLoss_iff] at h
  rw [hu'.noLoss_iff]
  intro i
  have hi := h i
  have hsame := hbal i
  omega

/-- One operation: the invariant is kept, and no slab loses a block exactly if the freed block is
among the last of its slab. -/
theorem HeapInv.step (hu : HeapInv F u) {op : HeapOp} (hop : u.Allowed op) :
    ∃ F', HeapInv F' (u.step op) ∧ (u.NoLoss → ((u.step op).NoLoss ↔ u.Returns op)) := by
  cases op with
  | malloc size =>
    obtain ⟨F', hinv, hbal⟩ := hu.malloc size
    exact ⟨F', hinv, fun h => iff_of_true (hu.noLoss_of_same hinv hbal h) trivial⟩
  | free b =>
    obtain ⟨i, hi⟩ := hu.owned b hop
    have hstep : u.step (.free b) = ⟨u.h.kfree b.ptr, u.live.erase b⟩ := rfl
    rw [hstep]
    by_cases hin : (u.h.slabs i).start ≤ b.ptr ∧ b.ptr < (u.h.slabs i).end_
    · obtain ⟨hinv, hbal⟩ := hu.push hop hi _ (hu.kfree_found hop hi hin.1 hin.2)
      exact ⟨_, hinv, fun h => iff_of_true (hu.noLoss_of_same hinv hbal h) ⟨i, hi, hin⟩⟩
    · rw [hu.kfree_lost hop hi hin]
      have hinv := hu.drop b
      refine ⟨F, hinv, fun h => iff_of_false (fun h' => ?_) ?_⟩
      · have hbefore := hu.noLoss_iff.mp h i
        have hafter := hinv.noLoss_iff.mp h' i
        have hlive := liveOf_erase u.h hop hi i
        rw [if_pos rfl] at hlive
        dsimp only at hafter
        omega
      · rintro ⟨j, hj, hrange⟩
        obtain rfl : i = j := Option.some.inj (hi.symm.trans hj)
        exact hin hrange
  | write addr v =>
    have hinv := hu.write hop
    have hbal : SameBalance F u F (u.step (.write addr v)) := fun _ => rfl
    exact ⟨F, hinv, fun h => iff_of_true (hu.noLoss_of_same hinv hbal h) trivial⟩

theorem HeapInv.run (hu : HeapInv F u) {ops : List HeapOp} (hops : u.AllAllowed ops) :
    ∀ v ∈ u.states ops, ∃ F', HeapInv F' v := by
  induction ops generalizing F u with
  | nil => exact List.forall_mem_singleton.mpr ⟨F, hu⟩
  | cons op ops ih =>
    obtain ⟨F', hinv, -⟩ := hu.step hops.1
    exact List.forall_mem_cons.mpr ⟨⟨F, hu⟩, ih hinv hops.2⟩

theorem HeapInv.run_noLoss_iff (hu : HeapInv F u) (h0 : u.NoLoss) {ops : List HeapOp}
    (hops : u.AllAllowed ops) : (∀ v ∈ u.states ops, v.NoLoss) ↔ u.AllReturn ops := by
  induction ops generalizing F u with
  | nil => exact iff_of_true (List.forall_mem_singleton.mpr h0) trivial
  | cons op ops ih =>
    obtain ⟨F', hinv, hiff⟩ := hu.step hops.1
    have hhead : u.step op ∈ (u.step op).states ops := by
      cases ops <;> exact List.mem_cons_self
    rw [HeapUse.states, List.forall_mem_cons]
    constructor
    · rintro ⟨-, hall⟩
      have hnext := hall _ hhead
      exact ⟨(hiff h0).mp hnext, (ih hinv hnext hops.2).mp hall⟩
    · rintro ⟨hop, hrest⟩
      exact ⟨h0, (ih hinv ((hiff h0).mpr hop) hops.2).mpr hrest⟩

end Run

theorem HeapInv.mallocs {F : Fin NUM_SLABS → List Nat} {u : HeapUse} (hu : HeapInv F u)
    {size : Nat} {i : Fin NUM_SLABS} (hi : slabIndex size = some i) {l l' : List Nat}
    (hF : F i = l ++ l') :
    ∃ F', HeapInv F' (u.after (List.replicate l.length (.malloc size))) ∧ F' i = l' ∧
      (∀ p ∈ l, ⟨p, size⟩ ∈ (u.after (List.replicate l.length (.malloc size))).live) ∧
      u.live ⊆ (u.after (List.replicate l.length (.malloc size))).live ∧
      (u.after (List.replicate l.length (.malloc size))).h.heapPtr = u.h.heapPtr ∧
      (u.after (List.replicate l.length (.malloc size))).h.place = u.h.place := by
  induction l generalizing F u with
  | nil => exact ⟨F, hu, hF, fun p hp => absurd hp List.not_mem_nil, fun _ h => h, rfl, rfl⟩
  | cons p l ih =>
    obtain ⟨hinv, -, hlive, hptr, hplace, -⟩ := hu.step_pop (l := l ++ l') hi hF
    obtain ⟨F', hinv', hF', hmem, hsub, hptr', hplace'⟩ := ih hinv (Function.update_self i _ F)
    have hhead : u.live ⊆ (u.step (.malloc size)).live := by
      rw [hlive]
      exact List.subset_cons_self _ _
    refine ⟨F', hinv', hF', List.forall_mem_cons.mpr ⟨hsub ?_, hmem⟩, fun _ hb => hsub (hhead hb),
      hptr'.trans hptr, hplace'.trans hplace⟩
    rw [hlive]
    exact List.mem_cons_self

theorem HeapInv.mallocs_chunk {F : Fin NUM_SLABS → List Nat} {u : HeapUse} (hu : HeapInv F u)
    {size : Nat} {i : Fin NUM_SLABS} (hi : slabIndex size = some i) (hempty : F i = [])
    (hroom : u.h.heapPtr + slabSizes i * growCount ≤ u.h.place.heap + HEAP_SIZE) :
    ∃ F', HeapInv F' (u.after (List.replicate growCount (.malloc size))) ∧ F' i = [] ∧
      (∀ p ∈ blocks u.h.heapPtr (slabSizes i) growCount,
        ⟨p, size⟩ ∈ (u.after (List.replicate growCount (.malloc size))).live) ∧
      (u.after (List.replicate growCount (.malloc size))).h.heapPtr =
        u.h.heapPtr + slabSizes i * growCount ∧
      (u.after (List.replicate growCount (.malloc size))).h.place = u.h.place := by
  obtain ⟨v, hstep, hgrown, -, -, hplace, hptr, -⟩ := hu.grow hi hempty hroom
  have hlen : (blocks u.h.heapPtr (slabSizes i) growCount).length = growCount := by
    rw [blocks, List.length_map, List.length_range]
  obtain ⟨F', hinv, hF', hmem, -, hptr', hplace'⟩ := @HeapInv.mallocs _ _ hgrown size i hi _ []
    (by rw [Function.update_self, List.append_nil])
  -- the first of them makes the slab grow
  have hfirst : u.after (List.replicate growCount (.malloc size)) =
      v.after (List.replicate growCount (.malloc size)) := by
    unfold HeapUse.after growCount
    rw [List.replicate_succ, List.foldl_cons, List.foldl_cons, hstep]
  rw [hlen] at hinv hmem hptr' hplace'
  rw [hfirst]
  exact ⟨F', hinv, hF', hmem, hptr'.trans hptr, hplace'.trans hplace⟩

/-- One allocation from an empty slab moves its range to the new blocks. -/
theorem HeapInv.malloc_chunk {F : Fin NUM_SLABS → List Nat} {u : HeapUse} (hu : HeapInv F u)
    {size : Nat} {i : Fin NUM_SLABS} (hi : slabIndex size = some i) (hempty : F i = [])
    (hroom : u.h.heapPtr + slabSizes i * growCount ≤ u.h.place.heap + HEAP_SIZE) :
    ∃ F', HeapInv F' (u.step (.malloc size)) ∧
      (u.step (.malloc size)).live = ⟨u.h.heapPtr, size⟩ :: u.live ∧
      ((u.step (.malloc size)).h.slabs i).start = u.h.heapPtr := by
  obtain ⟨v, hstep, hgrown, -, hlive, -, -, hstart⟩ := hu.grow hi hempty hroom
  obtain ⟨l, hnew⟩ := blocks_cons u.h.heapPtr (slabSizes i)
  obtain ⟨hinv, -, hpop, -, -, hstart'⟩ := hgrown.step_pop (l := l) hi
    (by rw [Function.update_self, hnew])
  rw [hstep]
  refine ⟨_, hinv, ?_, hstart'.trans hstart⟩
  rw [hpop, hlive]

/-- The size of the block that a live block occupies. -/
def HeapBlock.bytes (b : HeapBlock) : Nat := ((slabIndex b.size).map slabSizes).getD 0

/-- Blocks in use are large enough, lie in the heap and are disjoint, and the free lists are
finite, without a cycle and disjoint from them. -/
structure HeapRight (u : HeapUse) : Prop where
  inside : ∀ b ∈ u.live, b.size ≤ b.bytes ∧ u.h.place.heap ≤ b.ptr ∧
    b.ptr + b.bytes ≤ u.h.place.heap + HEAP_SIZE
  disjoint : u.live.Pairwise fun b c => ApartBlocks b.ptr b.bytes c.ptr c.bytes
  lists : ∀ i, ∃ l, u.FreeListIs i l ∧ l.Nodup ∧
    ∀ p ∈ l, ∀ b ∈ u.live, ApartBlocks p (slabSizes i) b.ptr b.bytes

theorem HeapInv.right {F : Fin NUM_SLABS → List Nat} {u : HeapUse} (hu : HeapInv F u) :
    HeapRight u := by
  have hbytes : ∀ b : HeapBlock, ∀ i, slabIndex b.size = some i → b.bytes = slabSizes i := by
    intro b i hi
    rw [HeapBlock.bytes, hi]
    rfl
  refine ⟨fun b hb => ?_, hu.ptrs.imp_of_mem fun {b c} hb hc hne => ?_,
    fun i => ⟨F i, hu.lists i, (hu.lists i).nodup, fun p hp b hb => ?_⟩⟩
  · obtain ⟨i, hi⟩ := hu.owned b hb
    obtain ⟨hlo, hhi⟩ := hu.carved.inside i b.ptr (.inr ⟨b, hb, hi, rfl⟩)
    rw [hbytes b i hi]
    exact ⟨slabIndex_le hi, hlo, hhi.trans hu.carved.high⟩
  · obtain ⟨i, hi⟩ := hu.owned b hb
    obtain ⟨j, hj⟩ := hu.owned c hc
    rw [hbytes b i hi, hbytes c j hj]
    exact hu.carved.apart i j b.ptr c.ptr (.inr ⟨b, hb, hi, rfl⟩) (.inr ⟨c, hc, hj, rfl⟩)
      fun _ => hne
  · obtain ⟨j, hj⟩ := hu.owned b hb
    rw [hbytes b j hj]
    exact hu.carved.apart i j p b.ptr (.inl hp) (.inr ⟨b, hb, hj, rfl⟩)
      fun _ => (hu.taken i p hp b hb).symm

/-- After every run of the allocator, and after a further allocation that returns a block. -/
theorem heap_right (place : HeapPlace) (mem : Buf) {ops : List HeapOp}
    (hops : (HeapUse.init place mem).AllAllowed ops) :
    ∀ u ∈ (HeapUse.init place mem).states ops, HeapRight u ∧
      ∀ size, (u.h.kmalloc size).1 ≠ 0 →
        HeapRight ⟨(u.h.kmalloc size).2, ⟨(u.h.kmalloc size).1, size⟩ :: u.live⟩ := by
  intro u hmem
  obtain ⟨F, hu⟩ := (heapInv_init place mem).run hops u hmem
  refine ⟨hu.right, fun size hne => ?_⟩
  obtain ⟨F', hinv, -⟩ := hu.malloc size
  have hright := hinv.right
  have hstep : u.step (.malloc size) = ⟨(u.h.kmalloc size).2,
    if (u.h.kmalloc size).1 = 0 then u.live else ⟨(u.h.kmalloc size).1, size⟩ :: u.live⟩ := rfl
  rw [hstep, if_neg hne] at hright
  exact hright

theorem heapPlace_pos : 0 < 0x200000 := by decide

theorem heapPlace_fits : 0x200000 + HEAP_SIZE < 2 ^ 64 := by decide

/-- The heap at 2 MB. -/
def heapPlace : HeapPlace := ⟨0x200000, heapPlace_pos, heapPlace_fits⟩

theorem first_malloc {size : Nat} {i : Fin NUM_SLABS} (hi : slabIndex size = some i) :
    ((HeapUse.init heapPlace fun _ => 0).step (.malloc size)).live = [⟨0x200000, size⟩] := by
  have hroom : ∀ j, 0x200000 + slabSizes j * growCount ≤ 0x200000 + HEAP_SIZE := by decide
  obtain ⟨F, -, hlive, -⟩ := (heapInv_init heapPlace fun _ => 0).malloc_chunk hi rfl (hroom i)
  exact hlive

theorem heap_right_one :
    HeapRight ((((HeapUse.init heapPlace fun _ => 0).step (.malloc 20)).step
      (.write 0x200013 0xFF)).step (.free ⟨0x200000, 20⟩)) := by
  have hlive := @first_malloc 20 1 rfl
  have hmem : (⟨0x200000, 20⟩ : HeapBlock) ∈
      ((HeapUse.init heapPlace fun _ => 0).step (.malloc 20)).live := by
    rw [hlive]
    exact List.mem_singleton_self _
  exact (@heap_right heapPlace (fun _ => 0)
    [.malloc 20, .write 0x200013 0xFF, .free ⟨0x200000, 20⟩]
    ⟨trivial, ⟨_, hmem, by decide, by decide⟩, hmem, trivial⟩ _
    (List.mem_cons_of_mem _ (List.mem_cons_of_mem _ (List.mem_cons_of_mem _ List.mem_cons_self)))).1

/-- No block is lost in a run exactly if every block that is freed is one of those its slab has
got last. -/
theorem no_loss_iff (place : HeapPlace) (mem : Buf) {ops : List HeapOp}
    (hops : (HeapUse.init place mem).AllAllowed ops) :
    (∀ u ∈ (HeapUse.init place mem).states ops, u.NoLoss) ↔
      (HeapUse.init place mem).AllReturn ops :=
  (heapInv_init place mem).run_noLoss_iff (fun _ => ⟨[], rfl, rfl, rfl⟩) hops

theorem no_loss_iff_one :
    (∀ u ∈ (HeapUse.init heapPlace fun _ => 0).states [.malloc 20], u.NoLoss) ↔
      (HeapUse.init heapPlace fun _ => 0).AllReturn [.malloc 20] :=
  @no_loss_iff heapPlace (fun _ => 0) [.malloc 20] ⟨trivial, trivial⟩

/-- 65 blocks of 16 bytes are taken, and the first is freed. -/
def freeFirst : List HeapOp := List.replicate 65 (.malloc 16) ++ [.free ⟨0x200000, 16⟩]

/-- The first block lies in the first chunk; the slab has forgotten its range. -/
theorem first_block_lost :
    (HeapUse.init heapPlace fun _ => 0).AllAllowed freeFirst ∧
      ¬ ∀ u ∈ (HeapUse.init heapPlace fun _ => 0).states freeFirst, u.NoLoss := by
  have hsize : slabIndex 16 = some 0 := rfl
  have hinit := heapInv_init heapPlace fun _ => 0
  have hroom : 0x200000 + slabSizes 0 * growCount ≤ 0x200000 + HEAP_SIZE := by decide
  obtain ⟨F₁, hu₁, hF₁, hlive₁, hptr₁, hplace₁⟩ := hinit.mallocs_chunk hsize rfl hroom
  set u₁ := (HeapUse.init heapPlace fun _ => 0).after (List.replicate growCount (.malloc 16))
  have hroom₁ : u₁.h.heapPtr + slabSizes 0 * growCount ≤ u₁.h.place.heap + HEAP_SIZE := by
    rw [hptr₁, hplace₁]
    exact (show 0x200000 + slabSizes 0 * growCount + slabSizes 0 * growCount ≤
      0x200000 + HEAP_SIZE by decide)
  obtain ⟨F₂, hu₂, hlive₂, hstart₂⟩ := hu₁.malloc_chunk hsize hF₁ hroom₁
  have hfirst : (⟨0x200000, 16⟩ : HeapBlock) ∈ (u₁.step (.malloc 16)).live := by
    rw [hlive₂]
    exact List.mem_cons_of_mem _ (hlive₁ _ (mem_blocks.mpr ⟨0, by decide, rfl⟩))
  have hops : freeFirst = List.replicate growCount (.malloc 16) ++
      ([.malloc 16] ++ [.free ⟨0x200000, 16⟩]) := rfl
  rw [hops]
  refine ⟨HeapUse.allAllowed_append.mpr ⟨HeapUse.allAllowed_mallocs _ _ _, trivial, hfirst,
    trivial⟩, fun hall => ?_⟩
  have hrest := fun v hv => hall v (HeapUse.mem_states_append hv)
  have h₂ := hrest (u₁.step (.malloc 16)) (List.mem_cons_of_mem _ List.mem_cons_self)
  have h₃ := hrest ((u₁.step (.malloc 16)).step (.free ⟨0x200000, 16⟩))
    (List.mem_cons_of_mem _ (List.mem_cons_of_mem _ List.mem_cons_self))
  obtain ⟨F₃, -, hiff⟩ := @HeapInv.step _ _ hu₂ (.free ⟨0x200000, 16⟩) hfirst
  obtain ⟨i, hi, hlo, -⟩ := (hiff h₂).mp h₃
  obtain rfl : 0 = i := Option.some.inj (hsize.symm.trans hi)
  rw [hstart₂, hptr₁] at hlo
  exact absurd hlo (show ¬ 0x200000 + slabSizes 0 * growCount ≤ 0x200000 by decide)

end WinDOS
