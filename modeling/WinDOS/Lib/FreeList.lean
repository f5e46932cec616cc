import Mathlib.Data.List.Basic
import WinDOS.Lib.Bytes

/-!
# Linked lists in memory

A list is threaded through the nodes it consists of: the first eight bytes of a node hold the
address of the next one, the last holds the null pointer. `link` threads a list through `n`
neighbouring blocks.
-/

set_option autoImplicit false

namespace FreeList

open Bytes

def load64 (mem : Buf) (a : Nat) : Nat := le mem a 8

def store64 (mem : Buf) (a v : Nat) : Buf := blit mem a (leBytes v) 8

theorem load_store_self {mem : Buf} {a v : Nat} (hv : v < 2 ^ 64) :
    load64 (store64 mem a v) a = v := le_blit_leBytes hv

theorem load_store_of_apart {mem : Buf} {a b v : Nat} (h : a + 8 ≤ b ∨ b + 8 ≤ a) :
    load64 (store64 mem a v) b = load64 mem b := by
  refine le_congr fun i h0 h1 => ?_
  rcases h with h | h
  · exact blit_above (by omega)
  · exact blit_below (by omega)

/-- `l` are the nodes from `p` on to the null pointer. -/
def Chain (next : Nat → Nat) : Nat → List Nat → Prop
  | p, [] => p = 0
  | p, a :: l => p = a ∧ a ≠ 0 ∧ Chain next (next a) l

section Chain

variable {next next' : Nat → Nat} {p : Nat} {l l' : List Nat}

theorem Chain.congr (h : Chain next p l) (heq : ∀ a ∈ l, next' a = next a) : Chain next' p l := by
  induction l generalizing p with
  | nil => exact h
  | cons a l ih =>
    obtain ⟨hp, ha, hl⟩ := h
    refine ⟨hp, ha, ?_⟩
    rw [heq a List.mem_cons_self]
    exact ih hl fun b hb => heq b (List.mem_cons_of_mem _ hb)

theorem Chain.null_iff (h : Chain next p l) : p = 0 ↔ l = [] := by
  cases l with
  | nil => exact iff_of_true h rfl
  | cons a l => exact iff_of_false (h.1 ▸ h.2.1) (List.cons_ne_nil a l)

theorem Chain.unique (h : Chain next p l) (h' : Chain next p l') : l = l' := by
  induction l generalizing p l' with
  | nil => exact ((h'.null_iff).mp h).symm
  | cons a l ih =>
    cases l' with
    | nil => exact absurd h' (h.1 ▸ h.2.1)
    | cons b l' =>
      obtain ⟨rfl, -, hl⟩ := h
      obtain ⟨rfl, -, hl'⟩ := h'
      rw [ih hl hl']

theorem Chain.suffix {a : Nat} (h : Chain next p (l ++ a :: l')) : Chain next a (a :: l') := by
  induction l generalizing p with
  | nil =>
    obtain ⟨-, ha, hl⟩ := h
    exact ⟨rfl, ha, hl⟩
  | cons b l ih => exact ih h.2.2

theorem Chain.nodup (h : Chain next p l) : l.Nodup := by
  induction l generalizing p with
  | nil => exact List.nodup_nil
  | cons a l ih =>
    refine List.nodup_cons.mpr ⟨fun hmem => ?_, ih h.2.2⟩
    obtain ⟨s, t, hsplit⟩ := List.append_of_mem hmem
    have hshort : Chain next a (a :: t) := (hsplit ▸ h.2.2 : Chain next (next a) (s ++ a :: t)).suffix
    have hlong : Chain next a (a :: l) := h.1 ▸ h
    have hlen := congrArg List.length (hlong.unique hshort)
    rw [hsplit, List.length_cons, List.length_append, List.length_cons] at hlen
    omega

theorem Chain.ne_zero (h : Chain next p l) {a : Nat} (ha : a ∈ l) : a ≠ 0 := by
  obtain ⟨s, t, rfl⟩ := List.append_of_mem ha
  exact h.suffix.2.1

end Chain

/-! ### Threading a list through blocks -/

/-- The loop over the first `n` of `count` blocks of `bs` bytes from `blk` on. -/
def link (mem : Buf) (blk bs count : Nat) (n : Nat) : Buf :=
  (List.range n).foldl (fun mem i =>
    store64 mem (blk + i * bs) (if i < count - 1 then blk + i * bs + bs else 0)) mem

def blocks (blk bs count : Nat) : List Nat := (List.range count).map (blk + · * bs)

theorem mem_blocks {blk bs count a : Nat} :
    a ∈ blocks blk bs count ↔ ∃ i < count, blk + i * bs = a := by
  simp [blocks]

section Link

variable {mem : Buf} {blk bs count n : Nat}

theorem link_succ : link mem blk bs count (n + 1) =
    store64 (link mem blk bs count n) (blk + n * bs)
      (if n < count - 1 then blk + n * bs + bs else 0) := by
  unfold link
  rw [List.range_succ, List.foldl_append, List.foldl_cons, List.foldl_nil]

theorem load_link_out (hbs : 8 ≤ bs) {a : Nat} (ha : a + 8 ≤ blk ∨ blk + n * bs ≤ a) :
    load64 (link mem blk bs count n) a = load64 mem a := by
  induction n with
  | zero => rfl
  | succ n ih =>
    rw [Nat.add_mul, Nat.one_mul] at ha
    rw [link_succ, load_store_of_apart (by omega)]
    exact ih (by omega)

theorem load_link_in (hbs : 8 ≤ bs) (hfits : blk + count * bs < 2 ^ 64) (hn : n ≤ count) {i : Nat}
    (hi : i < n) : load64 (link mem blk bs count n) (blk + i * bs) =
      if i < count - 1 then blk + i * bs + bs else 0 := by
  induction n with
  | zero => exact absurd hi (Nat.not_lt_zero i)
  | succ n ih =>
    rw [link_succ]
    rcases Nat.lt_succ_iff_lt_or_eq.mp hi with hlt | rfl
    · have hmul : (i + 1) * bs ≤ n * bs := Nat.mul_le_mul_right bs hlt
      rw [Nat.add_mul, Nat.one_mul] at hmul
      rw [load_store_of_apart (by omega)]
      exact ih (Nat.le_of_succ_le hn) hlt
    · have hmul : (i + 1) * bs ≤ count * bs := Nat.mul_le_mul_right bs hn
      rw [Nat.add_mul, Nat.one_mul] at hmul
      refine load_store_self ?_
      split <;> omega

theorem chain_link (hbs : 8 ≤ bs) (hfits : blk + count * bs < 2 ^ 64) (hblk : 0 < blk)
    (hcount : 0 < count) :
    Chain (load64 (link mem blk bs count count)) blk (blocks blk bs count) := by
  have htail : ∀ m i, i + m = count → 0 < m →
      Chain (load64 (link mem blk bs count count)) (blk + i * bs)
        ((List.range' i m).map (blk + · * bs)) := by
    intro m
    induction m with
    | zero => exact fun _ _ h => absurd h (Nat.lt_irrefl 0)
    | succ m ih =>
      intro i him _
      rw [List.range'_succ, List.map_cons]
      refine ⟨rfl, by omega, ?_⟩
      rw [load_link_in hbs hfits (Nat.le_refl _) (by omega)]
      rcases Nat.eq_zero_or_pos m with rfl | hm
      · rw [if_neg (by omega)]
        rfl
      · have hnext := ih (i + 1) (by omega) hm
        rw [Nat.add_mul, Nat.one_mul, ← Nat.add_assoc] at hnext
        rw [if_pos (by omega)]
        exact hnext
  have hall := htail count 0 (Nat.zero_add _) hcount
  rw [Nat.zero_mul, Nat.add_zero] at hall
  rw [blocks, List.range_eq_range']
  exact hall

end Link

end FreeList
