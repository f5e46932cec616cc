import WinDOS.Gui.Fifo
import WinDOS.Gui.Login

/-!
# From the keyboard interrupt to the login input

The interrupt puts the keyboard's bytes into the FIFO, each iteration of the main loop gets one out.
However interrupts and iterations follow one another, the login input is that of the bytes accepted,
but for those still pending.
-/

set_option autoImplicit false

namespace WinDOS

open Bytes BoundedQueue

/-- The calls of `isr21_handler`: the status byte says that there is a byte, and not the mouse's. -/
def isr21Calls (s d : Byte) : List FifoCall :=
  if s &&& 0x01 ≠ 0 ∧ s &&& 0x20 = 0 then [.fp d] else []

/-- What an iteration finds that calls `fg` with `d`. -/
def fgPoll (f : Fifo) (ticks : Nat) (d : Byte) : Poll :=
  ⟨ticks, if (fg f d).1 = 0 then none else some (fg f d).2.1.toNat⟩

/-- Interrupts and iterations: the calls on the FIFO, what the loop has found and done, the FIFO and
the loop. An interrupt in the middle of an iteration comes behind its `fg`. -/
inductive KeyRun (desk : Desk) (st0 : LoopState) (f0 : Fifo) :
    List FifoCall → List Poll → List Op → Fifo → Option LoopState → Prop
  | enter : KeyRun desk st0 f0 [] [] [] f0 (some st0)
  | isr21 {calls : List FifoCall} {polls : List Poll} {ops : List Op} {f : Fifo}
      {r : Option LoopState} (h : KeyRun desk st0 f0 calls polls ops f r) (s d : Byte) :
      KeyRun desk st0 f0 (calls ++ isr21Calls s d) polls ops (fifo.run f (isr21Calls s d)) r
  | iterate {calls : List FifoCall} {polls : List Poll} {ops : List Op} {f : Fifo} {st : LoopState}
      (h : KeyRun desk st0 f0 calls polls ops f (some st)) (ticks : Nat) (d : Byte) :
      KeyRun desk st0 f0 (calls ++ [.fg d]) (polls ++ [fgPoll f ticks d])
        (ops ++ (iteration desk st (fgPoll f ticks d)).1) (fg f d).2.2
        (iteration desk st (fgPoll f ticks d)).2

/-- The scancodes that the polls have found. -/
def keys (polls : List Poll) : List Nat := polls.flatMap fun p => p.key.toList

theorem keys_concat (polls : List Poll) (p : Poll) :
    keys (polls ++ [p]) = keys polls ++ p.key.toList := by
  unfold keys
  rw [List.flatMap_append, List.flatMap_singleton]

theorem fgPoll_key (f : Fifo) (ticks : Nat) (d : Byte) :
    (fgPoll f ticks d).key.toList = (fifo.given f [.fg d]).map BitVec.toNat := by
  change (if (fg f d).1 = 0 then none else some (fg f d).2.1.toNat).toList =
    ((if (fg f d).1 = 0 then [] else [(fg f d).2.1]) ++ []).map BitVec.toNat
  split <;> rfl

theorem isr21_given (f : Fifo) (s d : Byte) : fifo.given f (isr21Calls s d) = [] := by
  unfold isr21Calls
  split <;> rfl

section KeyRun

variable {desk : Desk} {st0 : LoopState} {f0 f : Fifo} {calls : List FifoCall} {polls : List Poll}
  {ops : List Op} {r : Option LoopState}

theorem KeyRun.fifo_eq (h : KeyRun desk st0 f0 calls polls ops f r) : f = fifo.run f0 calls := by
  induction h with
  | enter => rfl
  | isr21 h s d ih => rw [Machine.run_append, ← ih]
  | iterate h ticks d ih =>
    rw [Machine.run_append, ← ih]
    rfl

/-- The loop finds the bytes that the FIFO gives out. -/
theorem KeyRun.keys_eq (h : KeyRun desk st0 f0 calls polls ops f r) :
    keys polls = (fifo.given f0 calls).map BitVec.toNat := by
  induction h with
  | enter => rfl
  | isr21 h s d ih => rw [Machine.given_append, isr21_given, List.append_nil, ih]
  | iterate h ticks d ih =>
    rw [keys_concat, Machine.given_append, List.map_append, ih, fgPoll_key, h.fifo_eq]

theorem KeyRun.loopRun (h : KeyRun desk st0 f0 calls polls ops f r) :
    LoopRun desk st0 polls ops r := by
  induction h with
  | enter => exact .enter
  | isr21 h s d ih => exact ih
  | iterate h ticks d ih => exact ih.iterate _

/-- The input is that of the bytes given out, the first of those accepted. -/
theorem KeyRun.shows_given {buf : Nat → Nat} {st : LoopState}
    (h : KeyRun desk { loopStart with loginBuf := buf } f0 calls polls ops f (some st))
    (h0 : f0.Empty) :
    Shows (((fifo.given f0 calls).map BitVec.toNat).foldl Editor.press .start) st ∧
      ∃ pending, fifo.taken f0 calls = fifo.given f0 calls ++ pending ∧ f.Right pending := by
  constructor
  · rw [← h.keys_eq]
    exact h.loopRun.shows
  · obtain ⟨pending, horder, hright⟩ := h0.pending calls
    rw [← h.fifo_eq] at hright
    exact ⟨pending, horder, hright⟩

/-- With nothing pending every byte accepted has reached the input. -/
theorem KeyRun.shows_taken {buf : Nat → Nat} {st : LoopState}
    (h : KeyRun desk { loopStart with loginBuf := buf } f0 calls polls ops f (some st))
    (h0 : f0.Empty) (hn : f.n = 0) :
    Shows (((fifo.taken f0 calls).map BitVec.toNat).foldl Editor.press .start) st := by
  obtain ⟨hshows, pending, horder, hright⟩ := h.shows_given h0
  have hnone : pending = [] := by
    rw [hright.count] at hn
    exact List.length_eq_zero_iff.mp (Int.ofNat_eq_zero.mp hn)
  rw [hnone, List.append_nil] at horder
  rw [horder]
  exact hshows

end KeyRun

end WinDOS
