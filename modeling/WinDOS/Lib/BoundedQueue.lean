import Mathlib.Algebra.Group.Int.Defs
import Mathlib.Algebra.Group.Nat.Defs
import WinDOS.Lib.PhaseRing

/-!
# Bounded queues

A machine takes items in and gives items out. The queue of a capacity is one; a machine that it
simulates takes and gives the same items. A ring of slots holds a queue from the slot of its first
item on.
-/

set_option autoImplicit false

namespace BoundedQueue

variable {σ τ ι κ α : Type}

/-- `takes` and `gives` are what a step has taken in and given out. -/
structure Machine (σ ι α : Type) where
  next : σ → ι → σ
  takes : σ → ι → List α
  gives : σ → ι → List α

namespace Machine

variable (M : Machine σ ι α)

def run (s : σ) (is : List ι) : σ := is.foldl M.next s

def taken : σ → List ι → List α
  | _, [] => []
  | s, i :: is => M.takes s i ++ taken (M.next s i) is

def given : σ → List ι → List α
  | _, [] => []
  | s, i :: is => M.gives s i ++ given (M.next s i) is

theorem run_append (s : σ) (is js : List ι) : M.run s (is ++ js) = M.run (M.run s is) js :=
  List.foldl_append

theorem given_append (s : σ) (is js : List ι) :
    M.given s (is ++ js) = M.given s is ++ M.given (M.run s is) js := by
  induction is generalizing s with
  | nil => rfl
  | cons i is ih =>
    rw [List.cons_append, Machine.given, Machine.given, ih, List.append_assoc]
    rfl

/-- `R` relates the states, and a step of `M` takes and gives what that of `A` does. -/
structure Simulates (M : Machine σ ι α) (A : Machine τ κ α) (op : ι → κ) (R : σ → τ → Prop) :
    Prop where
  next : ∀ {s t}, R s t → ∀ i, R (M.next s i) (A.next t (op i))
  takes : ∀ {s t}, R s t → ∀ i, M.takes s i = A.takes t (op i)
  gives : ∀ {s t}, R s t → ∀ i, M.gives s i = A.gives t (op i)

section Simulation

variable {M} {A : Machine τ κ α} {op : ι → κ} {R : σ → τ → Prop} {s : σ} {t : τ}

theorem Simulates.run (h : Simulates M A op R) (hR : R s t) (is : List ι) :
    R (M.run s is) (A.run t (is.map op)) := by
  induction is generalizing s t with
  | nil => exact hR
  | cons i is ih => exact ih (h.next hR i)

theorem Simulates.taken (h : Simulates M A op R) (hR : R s t) (is : List ι) :
    M.taken s is = A.taken t (is.map op) := by
  induction is generalizing s t with
  | nil => rfl
  | cons i is ih =>
    rw [List.map_cons, Machine.taken, Machine.taken, h.takes hR i, ih (h.next hR i)]

theorem Simulates.given (h : Simulates M A op R) (hR : R s t) (is : List ι) :
    M.given s is = A.given t (is.map op) := by
  induction is generalizing s t with
  | nil => rfl
  | cons i is ih =>
    rw [List.map_cons, Machine.given, Machine.given, h.gives hR i, ih (h.next hR i)]

end Simulation

end Machine

/-! ### The queue -/

inductive Op (α : Type) where
  | put (a : α)
  | get

/-- The queue of capacity `N`: a full one does not take the item. -/
def queue (N : Nat) : Machine (List α) (Op α) α where
  next q
    | .put a => if q.length < N then q ++ [a] else q
    | .get => q.tail
  takes q
    | .put a => if q.length < N then [a] else []
    | .get => []
  gives q
    | .put _ => []
    | .get => q.head?.toList

section Queue

variable {N : Nat} {q : List α}

theorem queue_step (op : Op α) :
    (queue N).gives q op ++ (queue N).next q op = q ++ (queue N).takes q op := by
  cases op with
  | put a =>
    change [] ++ (if q.length < N then q ++ [a] else q) = q ++ if q.length < N then [a] else []
    split
    · rfl
    · exact (List.append_nil q).symm
  | get =>
    cases q with
    | nil => rfl
    | cons a q => exact (List.append_nil (a :: q)).symm

/-- First in, first out. -/
theorem queue_run (ops : List (Op α)) :
    (queue N).given q ops ++ (queue N).run q ops = q ++ (queue N).taken q ops := by
  induction ops generalizing q with
  | nil => exact (List.append_nil q).symm
  | cons op ops ih =>
    calc (queue N).gives q op ++ (queue N).given ((queue N).next q op) ops ++
          (queue N).run ((queue N).next q op) ops
        = (queue N).gives q op ++ ((queue N).next q op ++
            (queue N).taken ((queue N).next q op) ops) := by rw [List.append_assoc, ih]
      _ = q ++ ((queue N).takes q op ++ (queue N).taken ((queue N).next q op) ops) := by
          rw [← List.append_assoc, queue_step, List.append_assoc]

end Queue

/-! ### The ring -/

/-- Item `k` of the queue is in slot `r + k`, around the end of the ring. -/
structure Holds (N : Nat) (slots : Nat → α) (r : Nat) (q : List α) : Prop where
  room : q.length ≤ N
  slot : ∀ k (h : k < q.length), slots ((r + k) % N) = q[k]

section Ring

variable {N r : Nat} {slots : Nat → α} {q : List α} {a : α}

theorem Holds.nil (N : Nat) (slots : Nat → α) (r : Nat) : Holds N slots r [] :=
  ⟨Nat.zero_le N, fun _ h => absurd h (Nat.not_lt_zero _)⟩

theorem Holds.put (h : Holds N slots r q) (hroom : q.length < N) (a : α) :
    Holds N (Function.update slots ((r + q.length) % N) a) r (q ++ [a]) := by
  refine ⟨by rw [List.length_append]; exact hroom, fun k hk => ?_⟩
  rw [List.length_append, List.length_singleton] at hk
  rcases Nat.lt_succ_iff_lt_or_eq.mp hk with hlt | heq
  · have hne : (r + k) % N ≠ (r + q.length) % N := PhaseRing.slot_ne (by omega) (by omega)
    rw [Function.update_of_ne hne, h.slot k hlt, List.getElem_append_left hlt]
  · subst heq
    rw [Function.update_self, List.getElem_concat_length rfl]

theorem Holds.first (h : Holds N slots r (a :: q)) (hr : r < N) : slots r = a := by
  have hslot := h.slot 0 (Nat.succ_pos _)
  rw [Nat.add_zero, Nat.mod_eq_of_lt hr] at hslot
  exact hslot

theorem Holds.get (h : Holds N slots r (a :: q)) : Holds N slots ((r + 1) % N) q := by
  refine ⟨Nat.le_of_succ_le h.room, fun k hk => ?_⟩
  have hslot := h.slot (k + 1) (Nat.succ_lt_succ hk)
  rw [Nat.mod_add_mod, Nat.add_assoc, Nat.add_comm 1 k]
  exact hslot

end Ring

end BoundedQueue
