import Mathlib.Algebra.Group.Int.Defs
import Mathlib.Algebra.Group.Nat.Defs
import Mathlib.Logic.Function.Basic

/-!
# Rings whose entries carry the phase of their lap

A producer writes entry number `k` to slot `k % N` with a tag that is 1 on the first lap and
flips on every further one. A consumer that has read all entries finds the other tag at its
slot, and the new one as soon as the next entry is there.
-/

set_option autoImplicit false

namespace PhaseRing

/-- The tag of entry number `k` of a ring of `N` slots. -/
def phase (N k : Nat) : Nat := (k / N + 1) % 2

section Phase

variable {N k : Nat}

theorem phase_lt (N k : Nat) : phase N k < 2 := Nat.mod_lt _ Nat.two_pos

theorem phase_of_lt (h : k < N) : phase N k = 1 := by
  rw [phase, Nat.div_eq_of_lt h]

theorem phase_add (hN : 0 < N) (k : Nat) : phase N (k + N) = 1 - phase N k := by
  rw [phase, phase, Nat.add_div_right k hN]
  omega

theorem next_mod (N k : Nat) : (k % N + 1) % N = (k + 1) % N := Nat.mod_add_mod k N 1

theorem phase_succ_wrap (h : (k + 1) % N = 0) : phase N (k + 1) = 1 - phase N k := by
  rw [phase, phase, Nat.succ_div_of_mod_eq_zero h]
  omega

theorem phase_succ_same (h : (k + 1) % N ≠ 0) : phase N (k + 1) = phase N k := by
  rw [phase, phase, Nat.succ_div_of_mod_ne_zero h]

/-- Fewer than `N` entries apart, two entries have different slots. -/
theorem slot_ne {n : Nat} (hk : k < n) (hn : n < k + N) : k % N ≠ n % N := by
  intro heq
  have hzero := Nat.sub_mod_eq_zero_of_mod_eq heq.symm
  rw [Nat.mod_eq_of_lt (by omega)] at hzero
  omega

end Phase

section Ring

variable {α : Type} {N : Nat} {tag : α → Nat} {slots : Nat → α} {log : List α}

/-- The ring after the entries of `log`: the last `N` of them are in their slots, the slots of
the first lap that were never written have tag 0, and every entry has the tag of its lap. -/
structure Holds (N : Nat) (tag : α → Nat) (slots : Nat → α) (log : List α) : Prop where
  recent : ∀ k (h : k < log.length), log.length ≤ k + N → slots (k % N) = log[k]
  fresh : ∀ j < N, log.length ≤ j → tag (slots j) = 0
  tagged : ∀ k (h : k < log.length), tag log[k] = phase N k

theorem Holds.init (h : ∀ j < N, tag (slots j) = 0) : Holds N tag slots [] :=
  ⟨fun _ hk => absurd hk (Nat.not_lt_zero _), fun j hj _ => h j hj,
    fun _ hk => absurd hk (Nat.not_lt_zero _)⟩

/-- The slot of the next entry has the other tag. -/
theorem Holds.head_stale (h : Holds N tag slots log) (hN : 0 < N) :
    tag (slots (log.length % N)) = 1 - phase N log.length := by
  by_cases hlt : log.length < N
  · rw [Nat.mod_eq_of_lt hlt, h.fresh _ hlt (Nat.le_refl _), phase_of_lt hlt]
  · have hslot := h.recent (log.length - N) (by omega) (by omega)
    have htag := h.tagged (log.length - N) (by omega)
    obtain ⟨k, hk⟩ : ∃ k, log.length = k + N := ⟨log.length - N, by omega⟩
    have hmod : log.length % N = (log.length - N) % N := by
      rw [hk, Nat.add_mod_right, Nat.add_sub_cancel]
    rw [hmod, hslot, htag, hk, Nat.add_sub_cancel, phase_add hN]
    have := phase_lt N k
    omega

theorem Holds.push (h : Holds N tag slots log) {a : α} (ha : tag a = phase N log.length) :
    Holds N tag (Function.update slots (log.length % N) a) (log ++ [a]) := by
  refine ⟨fun k hk hN => ?_, fun j hj hle => ?_, fun k hk => ?_⟩
  · rw [List.length_append, List.length_singleton] at hk hN
    by_cases heq : k = log.length
    · subst heq
      rw [Function.update_self, List.getElem_concat_length rfl]
    · rw [Function.update_of_ne (slot_ne (by omega) (by omega)),
        List.getElem_append_left (by omega)]
      exact h.recent k (by omega) (by omega)
  · rw [List.length_append, List.length_singleton] at hle
    rw [Nat.mod_eq_of_lt (by omega), Function.update_of_ne (by omega)]
    exact h.fresh j hj (by omega)
  · rw [List.length_append, List.length_singleton] at hk
    by_cases heq : k = log.length
    · subst heq
      rw [List.getElem_concat_length rfl]
      exact ha
    · rw [List.getElem_append_left (by omega)]
      exact h.tagged k (by omega)

end Ring

end PhaseRing
