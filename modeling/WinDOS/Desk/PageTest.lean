import WinDOS.Desk.Page

/-!
# The self-test of the page allocator (`page_selftest`)

The kernel runs it once at start; here it runs in any state that the allocator can be in.
-/

set_option autoImplicit false

namespace WinDOS

open Bytes Bitmap PagePool

/-- The step at which the test fails, or 0; `mem` is the memory. -/
def pageSelftest (p : PagePool) (mem : Buf) : Int × PagePool × Buf :=
  let before := p.freeCnt
  if before < 40 then (1, p, mem)
  else
    let (a, p) := p.pageAlloc 1
    if a = 0 then (2, p, mem)
    else if a &&& 0xFFF ≠ 0 then (3, p, mem)
    else
      let (b, p) := p.pageAlloc 32
      if b = 0 then (4, p, mem)
      else if b &&& 0xFFF ≠ 0 then (5, p, mem)
      else if b ≠ (a + PAGE_SIZE) % 2 ^ 64 then (6, p, mem)
      else
        let mem := blit mem (b + 31 * PAGE_SIZE) (BitVec.ofNat 8) PAGE_SIZE
        if mem (b + 31 * PAGE_SIZE + 100) ≠ 100 then (7, p, mem)
        else
          let p := p.pageFree a 1
          let p := p.pageFree b 32
          if p.freeCnt ≠ before then (8, p, mem)
          else
            let (c, p) := p.pageAlloc 1
            if c ≠ a then (9, p, mem)
            else
              let p := p.pageFree c 1
              if p.freeCnt ≠ before then (10, p, mem) else (0, p, mem)

/-! ### Equal live blocks, equal pools -/

/-- The pool and the live blocks determine the bitmap and the counter. -/
theorem PageRun.same {p q : PagePool} {live : List PageBlock} (hp : PageRun p live)
    (hq : PageRun q live) (hpool : q.pool = p.pool) (hpages : q.pages = p.pages) :
    (∀ i < PAGE_MAX, q.pageIsUsed i = p.pageIsUsed i) ∧ q.freeCnt = p.freeCnt := by
  have hbits : ∀ i < PAGE_MAX, q.pageIsUsed i = p.pageIsUsed i := by
    intro i hi
    rw [Bool.eq_iff_iff, hp.inv.bits i hi, hq.inv.bits i hi]
    unfold inBlock
    rw [hpool]
  refine ⟨hbits, ?_⟩
  rw [hp.inv.count, hq.inv.count, hpages]
  exact freeCount_congr fun i hi => hbits i (lt_of_lt_of_le hi hp.inv.pages.2)

/-- The first run of free pages is one page. -/
theorem PagePool.firstRun.unique {p : PagePool} {n b c : Nat} (hb : p.firstRun n b)
    (hc : p.firstRun n c) : b = c := by
  rcases Nat.lt_trichotomy b c with h | h | h
  · exact absurd hb.2.1 (hc.2.2 b h)
  · exact h
  · exact absurd hc.2.1 (hb.2.2 c h)

theorem pageFree_pool (p : PagePool) (ptr n : Nat) :
    (p.pageFree ptr n).pool = p.pool ∧ (p.pageFree ptr n).pages = p.pages := by
  unfold pageFree
  split <;> exact ⟨rfl, rfl⟩

theorem aligned {a : Nat} (h : a % PAGE_SIZE = 0) : a &&& 0xFFF = 0 :=
  (Nat.and_two_pow_sub_one_eq_mod a 12).trans h

theorem PagePool.firstRun.congr {p q : PagePool} (hpages : q.pages = p.pages)
    (hmax : p.pages ≤ PAGE_MAX) (hbits : ∀ i < PAGE_MAX, q.pageIsUsed i = p.pageIsUsed i) {n b : Nat}
    (hb : q.firstRun n b) : p.firstRun n b := by
  obtain ⟨hin, hfree, hlow⟩ := hb
  rw [hpages] at hin
  refine ⟨hin, fun j h0 h1 => ?_, fun c hc hrun => hlow c hc fun j h0 h1 => ?_⟩
  · rw [← hbits j (by omega)]
    exact hfree j h0 h1
  · rw [hbits j (by omega)]
    exact hrun j h0 h1

/-- With page `k` taken, a run of free pages begins behind it. -/
theorem freeRun_taken {p : PagePool} {k n b : Nat} (hk : p.firstRun 1 k) (hn : 0 < n) :
    FreeRun (bit (setRun 1 k p.bmp)) n b ↔ k < b ∧ FreeRun p.pageIsUsed n b := by
  have hbit := bit_setRun 1 k p.bmp
  constructor
  · intro hrun
    have hfree : ∀ j, b ≤ j → j < b + n → p.pageIsUsed j = false ∧ j ≠ k := by
      intro j h0 h1
      have := hrun j h0 h1
      rw [hbit, Bool.or_eq_false_iff, decide_eq_false_iff_not] at this
      exact ⟨this.1, fun heq => this.2 (by omega)⟩
    obtain ⟨hb, hbk⟩ := hfree b (Nat.le_refl b) (by omega)
    refine ⟨?_, fun j h0 h1 => (hfree j h0 h1).1⟩
    by_contra hlt
    refine hk.2.2 b (by omega) fun j h0 h1 => ?_
    rwa [show j = b by omega]
  · rintro ⟨hlt, hrun⟩ j h0 h1
    rw [hbit, Bool.or_eq_false_iff, decide_eq_false_iff_not]
    exact ⟨hrun j h0 h1, by omega⟩

/-! ### The test -/

section Test

variable {p : PagePool} {live : List PageBlock} (h : PageRun p live)
include h

/-- One page, when there are some: where it lies and what is left. -/
theorem PageRun.takeOne (hfree : 1 ≤ p.freeCnt) : ∃ k, p.firstRun 1 k ∧
    p.pageAlloc 1 = (p.pool + k * PAGE_SIZE,
      { p with bmp := setRun 1 k p.bmp, freeCnt := p.freeCnt - 1 }) ∧
    PageRun { p with bmp := setRun 1 k p.bmp, freeCnt := p.freeCnt - 1 }
      ((p.pool + k * PAGE_SIZE, 1) :: live) := by
  rcases pageAlloc_one h.inv.counts with ⟨hzero, -⟩ | ⟨k, hk, -, hrun⟩
  · omega
  · have hnext := PageRun.alloc h (show 1 < 2 ^ 32 by decide)
    have hne : p.pool + k * PAGE_SIZE ≠ 0 := fun h0 => h.inv.base.1 (by omega)
    rw [hrun, handOut, if_neg hne] at hnext
    exact ⟨k, hk, hrun, hnext⟩

/-- Pages that are taken and released again leave the allocator as it was. -/
theorem PageRun.restored {q : PagePool} {a b n m : Nat} (hne : (b, m) ≠ (a, n))
    (hq : PageRun q ((b, m) :: (a, n) :: live)) (hpool : q.pool = p.pool)
    (hpages : q.pages = p.pages) :
    PageRun ((q.pageFree a n).pageFree b m) live ∧
      (∀ i < PAGE_MAX, ((q.pageFree a n).pageFree b m).pageIsUsed i = p.pageIsUsed i) ∧
      ((q.pageFree a n).pageFree b m).freeCnt = p.freeCnt := by
  have hfree := hq.free (b := (a, n)) (List.mem_cons_of_mem _ List.mem_cons_self)
  rw [List.erase_cons_tail (by simpa using hne), List.erase_cons_head] at hfree
  have hfree' := hfree.free (b := (b, m)) List.mem_cons_self
  rw [List.erase_cons_head] at hfree'
  refine ⟨hfree', h.same hfree' ?_ ?_⟩
  · rw [(pageFree_pool _ b m).1, (pageFree_pool q a n).1, hpool]
  · rw [(pageFree_pool _ b m).2, (pageFree_pool q a n).2, hpages]

/-- The test takes a page again: it is the same one, and what is left is as before. -/
theorem PageRun.retake {q : PagePool} (hq : PageRun q live) (hpool : q.pool = p.pool)
    (hpages : q.pages = p.pages) (hfree : 1 ≤ p.freeCnt) {k : Nat} (hk : p.firstRun 1 k) :
    (q.pageAlloc 1).1 = p.pool + k * PAGE_SIZE ∧
      PageRun ((q.pageAlloc 1).2.pageFree (p.pool + k * PAGE_SIZE) 1) live ∧
      (∀ i < PAGE_MAX, ((q.pageAlloc 1).2.pageFree (p.pool + k * PAGE_SIZE) 1).pageIsUsed i =
        p.pageIsUsed i) ∧
      ((q.pageAlloc 1).2.pageFree (p.pool + k * PAGE_SIZE) 1).freeCnt = p.freeCnt := by
  obtain ⟨hbits, hcnt⟩ := h.same hq hpool hpages
  obtain ⟨c, hc, hrun, hnext⟩ := hq.takeOne (by omega)
  obtain rfl : c = k := (hc.congr hpages h.inv.pages.2 hbits).unique hk
  rw [hpool] at hrun hnext
  have hback := hnext.free List.mem_cons_self
  rw [List.erase_cons_head] at hback
  rw [hrun]
  refine ⟨rfl, hback, h.same hback ?_ ?_⟩
  · exact (pageFree_pool _ _ _).1.trans rfl
  · exact (pageFree_pool _ _ _).2.trans hpages

end Test

/-- The test leaves the blocks of others alone. Of its ten ways to fail it can take three: the
pool is small, there are no 32 free pages behind the first free one, or the first such run does
not begin right behind it. It passes exactly if 33 pages are free from the first free one on; then
the allocator is as before, and else the pages are lost. -/
structure SelftestRight (p : PagePool) (live : List PageBlock) (mem : Buf)
    (r : Int × PagePool × Buf) : Prop where
  spares : ∀ b ∈ live, ∀ x, b.1 ≤ x → x < b.1 + b.2 * PAGE_SIZE → r.2.2 x = mem x
  outcome : (r.1 = 1 ∧ p.freeCnt < 40 ∧ r.2.1 = p) ∨ 40 ≤ p.freeCnt ∧ ∃ k, p.firstRun 1 k ∧
    ((r.1 = 0 ∧ k + 33 ≤ p.pages ∧ FreeRun p.pageIsUsed 33 k ∧ PageRun r.2.1 live ∧
        (∀ i < PAGE_MAX, r.2.1.pageIsUsed i = p.pageIsUsed i) ∧ r.2.1.freeCnt = p.freeCnt) ∨
      (r.1 = 4 ∧ (∀ b, k < b → b + 32 ≤ p.pages → ¬ FreeRun p.pageIsUsed 32 b) ∧
        PageRun r.2.1 ((p.pool + k * PAGE_SIZE, 1) :: live)) ∨
      (r.1 = 6 ∧ ¬ (k + 33 ≤ p.pages ∧ FreeRun p.pageIsUsed 33 k) ∧ ∃ b, k + 1 < b ∧
        PageRun r.2.1 ((p.pool + b * PAGE_SIZE, 32) :: (p.pool + k * PAGE_SIZE, 1) :: live)))

theorem page_selftest_right {p : PagePool} {live : List PageBlock} (h : PageRun p live) (mem : Buf) :
    SelftestRight p live mem (pageSelftest p mem) := by
  by_cases hsmall : p.freeCnt < 40
  · unfold pageSelftest
    rw [if_pos hsmall]
    exact ⟨fun _ _ _ _ _ => rfl, .inl ⟨rfl, hsmall, rfl⟩⟩
  · obtain ⟨k, hk, hrun, hnext⟩ := h.takeOne (by omega)
    have hbase := h.inv.base
    have hfits := h.inv.fits
    have hkin := hk.1
    unfold pageSelftest
    dsimp only
    rw [if_neg hsmall, hrun]
    dsimp only
    rw [if_neg (fun h0 => hbase.1 (by omega)), if_neg (not_not.mpr (aligned (by
      unfold PAGE_SIZE at *; omega)))]
    rcases pageAlloc_cases hnext.inv.counts 32 with ⟨hnone, hall⟩ | ⟨b, -, ⟨hin, hfree, hlow⟩, hrun'⟩
    · rw [hnone]
      refine ⟨fun _ _ _ _ _ => rfl, .inr ⟨by omega, k, hk, .inr (.inl ⟨rfl, fun b hb hin hfree => ?_,
        hnext⟩)⟩⟩
      exact hall.resolve_left (by decide) b hin ((freeRun_taken hk (by decide)).mpr ⟨hb, hfree⟩)
    · have hnext' := hnext.alloc (show 32 < 2 ^ 32 by decide)
      have hbne : p.pool + b * PAGE_SIZE ≠ 0 := fun h0 => hbase.1 (by omega)
      rw [hrun', handOut, if_neg hbne] at hnext'
      obtain ⟨hkb, hfree⟩ := (freeRun_taken hk (by decide)).mp hfree
      rw [hrun']
      dsimp only at hin hnext' ⊢
      rw [if_neg hbne, if_neg (not_not.mpr (aligned (by unfold PAGE_SIZE at *; omega)))]
      by_cases hnear : b = k + 1
      · rw [if_neg (by unfold PAGE_SIZE at *; omega)]
        have hbyte : blit mem (p.pool + b * PAGE_SIZE + 31 * PAGE_SIZE) (BitVec.ofNat 8) PAGE_SIZE
            (p.pool + b * PAGE_SIZE + 31 * PAGE_SIZE + 100) = 100 := by
          rw [blit_in (Nat.le_add_right _ _) (by unfold PAGE_SIZE; omega), Nat.add_sub_cancel_left]
          rfl
        have hne : (p.pool + b * PAGE_SIZE, 32) ≠ (p.pool + k * PAGE_SIZE, 1) := fun heq =>
          absurd (Prod.mk.inj heq).2 (by decide)
        obtain ⟨hback, -, hcnt⟩ := h.restored hne hnext' rfl rfl
        obtain ⟨hagain, hend, hbits, hcnt'⟩ := h.retake hback
          (((pageFree_pool _ _ _).1.trans (pageFree_pool _ _ _).1).trans rfl)
          (((pageFree_pool _ _ _).2.trans (pageFree_pool _ _ _).2).trans rfl) (by omega) hk
        rw [if_neg (not_not.mpr hbyte), if_neg (not_not.mpr hcnt), if_neg (not_not.mpr hagain),
          hagain, if_neg (not_not.mpr hcnt')]
        refine ⟨fun c hc x h0 h1 => ?_, .inr ⟨by omega, k, hk, .inl ⟨rfl, by omega, ?_, hend, hbits,
          hcnt'⟩⟩⟩
        · have hdis := (List.pairwise_cons.mp hnext'.inv.disjoint).1 c (List.mem_cons_of_mem _ hc)
          unfold disjointBlocks at hdis
          dsimp only at hdis
          rcases hdis with hdis | hdis
          · exact blit_above (by unfold PAGE_SIZE at *; omega)
          · exact blit_below (by unfold PAGE_SIZE at *; omega)
        · intro j h0 h1
          by_cases hj : j = k
          · rw [hj]
            exact hk.2.1 k (Nat.le_refl k) (by omega)
          · exact hfree j (by omega) (by omega)
      · rw [if_pos (by unfold PAGE_SIZE at *; omega)]
        refine ⟨fun _ _ _ _ _ => rfl, .inr ⟨by omega, k, hk, .inr (.inr ⟨rfl, ?_, b, by omega,
          hnext'⟩)⟩⟩
        rintro ⟨hin33, hfree33⟩
        refine hlow (k + 1) (by omega) ((freeRun_taken hk (by decide)).mpr ⟨by omega, ?_⟩)
        exact fun j h0 h1 => hfree33 j (by omega) (by omega)

/-- A pool of 64 pages, of which one is taken. -/
theorem page_selftest_right_two : ∃ p live, PageRun p live ∧ live ≠ [] ∧
    ∀ mem, SelftestRight p live mem (pageSelftest p mem) := by
  have hinit : PageRun _ [] := @PageRun.init ⟨0, 8, fun _ => 0, 8⟩ _ 0x100000 0x40000 rfl
    (by decide) (by decide)
  have hrun := hinit.alloc (n := 1) (by decide)
  exact ⟨_, _, hrun, by decide, fun mem => page_selftest_right hrun mem⟩

end WinDOS
