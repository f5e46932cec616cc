import WinDOS.Lib.BoundedQueue
import WinDOS.Lib.Bytes

/-!
# The keyboard FIFO (`sys/ps2.h`)

The keyboard interrupt puts scancodes into a ring of 32 bytes with `fp`, the main loop gets them out
with `fg`. The loop calls `fg` behind an `io_cli`, so no call runs in the middle of another. Indices
and counter are integers without a width: no value gets beyond 32.
-/

set_option autoImplicit false

namespace WinDOS

open Bytes BoundedQueue

def FS : Int := 32

structure Fifo where
  buf : Int → Byte
  r : Int
  w : Int
  n : Int

def fp (f : Fifo) (d : Byte) : Fifo :=
  if f.n < FS then
    { f with buf := Function.update f.buf f.w d, w := (f.w + 1).tmod FS, n := f.n + 1 }
  else f

/-- The result, `*d` behind the call, and the FIFO. -/
def fg (f : Fifo) (d : Byte) : Int × Byte × Fifo :=
  if f.n = 0 then (0, d, f)
  else (1, f.buf f.r, { f with r := (f.r + 1).tmod FS, n := f.n - 1 })

/-- A call of `fp` with a byte, or of `fg` with the byte that `*d` holds before. -/
inductive FifoCall where
  | fp (d : Byte)
  | fg (d : Byte)

/-- `fp` accepts its byte if it counts it, `fg` gives out `*d` if it does not return 0. -/
def fifo : Machine Fifo FifoCall Byte where
  next f
    | .fp d => fp f d
    | .fg d => (fg f d).2.2
  takes f
    | .fp d => if (fp f d).n = f.n then [] else [d]
    | .fg _ => []
  gives f
    | .fp _ => []
    | .fg d => if (fg f d).1 = 0 then [] else [(fg f d).2.1]

def FifoCall.op : FifoCall → Op Byte
  | fp d => .put d
  | fg _ => .get

namespace Fifo

/-- Nothing is pending, and the next byte goes where it will be read. -/
structure Empty (f : Fifo) : Prop where
  r : 0 ≤ f.r ∧ f.r < 32
  w : f.w = f.r
  n : f.n = 0

/-- The static `kfifo`. -/
def zero : Fifo := ⟨fun _ => 0, 0, 0, 0⟩

/-- The FIFO with the bytes of `pending`, the oldest first: what its next call does, and its
indices. -/
structure Right (f : Fifo) (pending : List Byte) : Prop where
  rejects : ∀ d, fp f d = f ↔ pending.length = 32
  returns : ∀ d, (fg f d).1 = 0 ↔ pending = []
  keeps : ∀ d, pending = [] → fg f d = (0, d, f)
  gives : ∀ d a rest, pending = a :: rest → (fg f d).1 = 1 ∧ (fg f d).2.1 = a
  r : 0 ≤ f.r ∧ f.r < 32
  w : 0 ≤ f.w ∧ f.w < 32
  n : 0 ≤ f.n ∧ f.n ≤ 32
  count : f.n = pending.length
  indices : (f.r + f.n) % 32 = f.w

/-! ### The ring holds the queue -/

/-- The bytes of `q` are in the ring from `r` on, and `w` is behind them. -/
structure Holds (f : Fifo) (q : List Byte) : Prop where
  r : 0 ≤ f.r ∧ f.r < 32
  w : f.w = (f.r + q.length) % 32
  n : f.n = q.length
  ring : BoundedQueue.Holds 32 (fun k => f.buf k) f.r.toNat q

section Holds

variable {f : Fifo} {q : List Byte}

theorem Empty.holds (h : f.Empty) : f.Holds [] where
  r := h.r
  w := by
    rw [h.w, List.length_nil, Int.natCast_zero, Int.add_zero]
    exact (Int.emod_eq_of_lt h.r.1 h.r.2).symm
  n := h.n
  ring := .nil 32 _ _

theorem Holds.w_range (h : f.Holds q) : 0 ≤ f.w ∧ f.w < 32 := by
  rw [h.w]
  exact ⟨Int.emod_nonneg _ (by decide), Int.emod_lt_of_pos _ (by decide)⟩

theorem Holds.room_or_full (h : f.Holds q) : q.length < 32 ∨ q.length = 32 :=
  Nat.lt_or_eq_of_le h.ring.room

theorem tmod_FS {i : Int} (h : 0 ≤ i) : i.tmod FS = i % 32 := Int.tmod_eq_emod_of_nonneg h

theorem Holds.fp_full (h : f.Holds q) (hfull : q.length = 32) (d : Byte) : fp f d = f := by
  have hn : ¬ f.n < FS := by
    rw [h.n, hfull]
    decide
  exact if_neg hn

theorem Holds.fp_room (h : f.Holds q) (hroom : q.length < 32) (d : Byte) :
    (fp f d).n = f.n + 1 ∧ (fp f d).Holds (q ++ [d]) := by
  have hn : f.n < FS := by
    rw [h.n]
    exact Int.ofNat_lt.mpr hroom
  have hw := h.w_range
  have hslot : f.w = ((f.r.toNat + q.length) % 32 : Nat) := by
    rw [h.w, Int.natCast_emod, Int.natCast_add, Int.toNat_of_nonneg h.r.1]
    rfl
  rw [show fp f d = { f with
    buf := Function.update f.buf f.w d, w := (f.w + 1).tmod FS, n := f.n + 1 } from if_pos hn]
  refine ⟨rfl, h.r, ?_, ?_, ?_⟩
  · rw [tmod_FS (by omega), h.w, Int.emod_add_emod, Int.add_assoc, List.length_append]
    rfl
  · rw [h.n, List.length_append]
    rfl
  · have hring := h.ring.put hroom d
    have hbuf : (fun k : Nat => Function.update f.buf f.w d k) =
        Function.update (fun k : Nat => f.buf k) ((f.r.toNat + q.length) % 32) d := by
      rw [hslot]
      exact Function.update_comp_eq_of_injective f.buf (fun _ _ h => Int.ofNat.inj h) _ d
    rw [← hbuf] at hring
    exact hring

theorem Holds.fg_empty (h : f.Holds []) (d : Byte) : fg f d = (0, d, f) := if_pos h.n

theorem Holds.fg_first {a : Byte} (h : f.Holds (a :: q)) (d : Byte) :
    (fg f d).1 = 1 ∧ (fg f d).2.1 = a ∧ (fg f d).2.2.Holds q := by
  have hlen : f.n = q.length + 1 := by
    rw [h.n, List.length_cons]
    rfl
  have hn : f.n ≠ 0 := by omega
  obtain ⟨k, hk⟩ := Int.eq_ofNat_of_zero_le h.r.1
  have hlt : k < 32 := by have := h.r.2; omega
  have hring := h.ring
  rw [hk, Int.toNat_natCast] at hring
  rw [show fg f d = (1, f.buf f.r, { f with r := (f.r + 1).tmod FS, n := f.n - 1 }) from if_neg hn]
  have hnext : (f.r + 1).tmod FS = ((k + 1) % 32 : Nat) := by
    rw [tmod_FS (by omega), hk]
    rfl
  refine ⟨rfl, ?_, ?_, ?_, ?_, ?_⟩
  · change f.buf f.r = a
    rw [hk]
    exact hring.first hlt
  · change 0 ≤ (f.r + 1).tmod FS ∧ (f.r + 1).tmod FS < 32
    rw [hnext]
    omega
  · change f.w = ((f.r + 1).tmod FS + q.length) % 32
    rw [h.w, tmod_FS (by omega), Int.emod_add_emod, List.length_cons, Int.natCast_succ]
    congr 1
    omega
  · change f.n - 1 = q.length
    omega
  · change BoundedQueue.Holds 32 _ ((f.r + 1).tmod FS).toNat q
    rw [hnext, Int.toNat_natCast]
    exact hring.get

theorem Holds.right (h : f.Holds q) : f.Right q where
  rejects d := by
    refine ⟨fun hsame => ?_, fun hfull => h.fp_full hfull d⟩
    rcases h.room_or_full with hroom | hfull
    · have hn := (h.fp_room hroom d).1
      rw [hsame] at hn
      omega
    · exact hfull
  returns d := by
    cases q with
    | nil => exact iff_of_true (congrArg Prod.fst (h.fg_empty d)) rfl
    | cons a q =>
      refine iff_of_false ?_ (List.cons_ne_nil a q)
      rw [(h.fg_first d).1]
      decide
  keeps d hq := by
    subst hq
    exact h.fg_empty d
  gives d a rest hq := by
    subst hq
    exact ⟨(h.fg_first d).1, (h.fg_first d).2.1⟩
  r := h.r
  w := h.w_range
  n := by
    have hroom := h.ring.room
    rw [h.n]
    omega
  count := h.n
  indices := by rw [h.n, h.w]

end Holds

/-! ### The queue behind the calls -/

theorem fifo_simulates : Machine.Simulates fifo (queue 32) FifoCall.op Holds where
  next := by
    intro f q h c
    cases c with
    | fp d =>
      change Holds (fp f d) (if q.length < 32 then q ++ [d] else q)
      rcases h.room_or_full with hroom | hfull
      · rw [if_pos hroom]
        exact (h.fp_room hroom d).2
      · rw [if_neg (by omega), h.fp_full hfull d]
        exact h
    | fg d =>
      cases q with
      | nil =>
        change Holds (fg f d).2.2 []
        rw [h.fg_empty d]
        exact h
      | cons a q => exact (h.fg_first d).2.2
  takes := by
    intro f q h c
    cases c with
    | fp d =>
      change (if (fp f d).n = f.n then [] else [d]) = if q.length < 32 then [d] else []
      rcases h.room_or_full with hroom | hfull
      · have hn : (fp f d).n ≠ f.n := by
          rw [(h.fp_room hroom d).1]
          omega
        rw [if_pos hroom, if_neg hn]
      · have hno : ¬ q.length < 32 := by omega
        rw [if_neg hno, if_pos (congrArg Fifo.n (h.fp_full hfull d))]
    | fg d => rfl
  gives := by
    intro f q h c
    cases c with
    | fp d => rfl
    | fg d =>
      change (if (fg f d).1 = 0 then [] else [(fg f d).2.1]) = q.head?.toList
      cases q with
      | nil =>
        rw [h.fg_empty d]
        rfl
      | cons a q =>
        obtain ⟨hcode, hbyte, -⟩ := h.fg_first d
        rw [hcode, hbyte]
        rfl

theorem Empty.pending {f : Fifo} (h : f.Empty) (calls : List FifoCall) :
    ∃ pending, fifo.taken f calls = fifo.given f calls ++ pending ∧
      (fifo.run f calls).Right pending := by
  refine ⟨(queue 32).run [] (calls.map FifoCall.op), ?_, (fifo_simulates.run h.holds calls).right⟩
  have hqueue : (queue 32).given [] (calls.map FifoCall.op) ++
      (queue 32).run [] (calls.map FifoCall.op) = (queue 32).taken [] (calls.map FifoCall.op) :=
    queue_run (calls.map FifoCall.op)
  rw [fifo_simulates.taken h.holds, fifo_simulates.given h.holds, hqueue]

end Fifo

open Fifo

/-- The FIFO accepts and gives out what a queue of 32 bytes does, and what it has accepted and not
given out is what it works with. -/
theorem fifo_is_queue {f : Fifo} (h : f.Empty) (calls : List FifoCall) :
    fifo.taken f calls = (queue 32).taken [] (calls.map FifoCall.op) ∧
      fifo.given f calls = (queue 32).given [] (calls.map FifoCall.op) ∧
      ∃ pending, fifo.taken f calls = fifo.given f calls ++ pending ∧
        (fifo.run f calls).Right pending :=
  ⟨fifo_simulates.taken h.holds calls, fifo_simulates.given h.holds calls, h.pending calls⟩

/-- A byte, a call that gives it out, and one that finds nothing. -/
theorem fifo_is_queue_one : fifo.given zero [.fp 0x1E, .fg 0, .fg 0x55] = [0x1E] ∧
    ∃ pending, fifo.taken zero [.fp 0x1E, .fg 0, .fg 0x55] =
      fifo.given zero [.fp 0x1E, .fg 0, .fg 0x55] ++ pending ∧
        (fifo.run zero [.fp 0x1E, .fg 0, .fg 0x55]).Right pending :=
  ⟨by decide, (fifo_is_queue ⟨by decide, rfl, rfl⟩ _).2.2⟩

end WinDOS
