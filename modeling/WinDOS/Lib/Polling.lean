import Mathlib.Data.List.Basic

/-!
# Bounded polling

A loop asks until an answer stops it, at most so many times. An answer may depend on everything
that was logged before it.
-/

set_option autoImplicit false

namespace Polling

variable {E A : Type}

/-- Ask at most `n` times: the log, and the answer that stopped the loop. -/
def poll (ask : List E → A) (entry : A → E) (stop : A → Bool) : Nat → List E → List E × Option A
  | 0, log => (log, none)
  | n + 1, log =>
    let a := ask log
    if stop a then (log ++ [entry a], some a) else poll ask entry stop n (log ++ [entry a])

/-- The answers of a loop of at most `n` questions: only the last may stop it, and with fewer
than `n` answers it does. -/
inductive Answers (stop : A → Bool) : Nat → List A → Prop where
  | limit : Answers stop 0 []
  | stopped {n : Nat} {a : A} (h : stop a = true) : Answers stop (n + 1) [a]
  | again {n : Nat} {a : A} {as : List A} (h : stop a = false) (w : Answers stop n as) :
    Answers stop (n + 1) (a :: as)

variable {stop : A → Bool} {n : Nat} {as : List A}

theorem Answers.length_le (h : Answers stop n as) : as.length ≤ n := by
  induction h with
  | limit => exact Nat.le_refl 0
  | stopped => exact Nat.succ_le_succ (Nat.zero_le _)
  | again _ _ ih => exact Nat.succ_le_succ ih

/-- No answer has stopped the loop exactly if it has come to its limit. -/
theorem Answers.find_eq_none (h : Answers stop n as) :
    as.find? stop = none → as.length = n := by
  induction h with
  | limit => exact fun _ => rfl
  | stopped hstop => exact fun hnone => absurd (List.find?_cons_of_pos hstop) (by rw [hnone]; simp)
  | again hgo _ ih =>
    rw [List.find?_cons_of_neg (by rw [hgo]; exact Bool.false_ne_true), List.length_cons]
    exact fun hnone => congrArg _ (ih hnone)

/-- An answer that stops the loop is the last. -/
theorem Answers.find_eq_some (h : Answers stop n as) {a : A} :
    as.find? stop = some a → as.getLast? = some a := by
  induction h with
  | limit => exact fun hs => absurd hs (by simp)
  | stopped hstop =>
    rw [List.find?_cons_of_pos hstop]
    exact id
  | @again _ b bs hgo _ ih =>
    rw [List.find?_cons_of_neg (by rw [hgo]; exact Bool.false_ne_true)]
    intro hs
    rw [List.getLast?_cons, ih hs]
    rfl

/-- Some answer stops the loop exactly if the last does. -/
theorem Answers.last_stops (h : Answers stop (n + 1) as) :
    ∃ a, as.getLast? = some a ∧ (stop a = true ↔ ∃ b ∈ as, stop b = true) := by
  have hne : as ≠ [] := by
    cases h <;> exact List.cons_ne_nil _ _
  refine ⟨as.getLast hne, List.getLast?_eq_some_getLast hne, fun hs => ⟨_, List.getLast_mem hne, hs⟩,
    fun ⟨b, hb, hs⟩ => ?_⟩
  cases hfind : as.find? stop with
  | none => exact absurd hs (List.find?_eq_none.mp hfind b hb)
  | some a =>
    have hlast := h.find_eq_some hfind
    rw [List.getLast?_eq_some_getLast hne] at hlast
    rw [Option.some.inj hlast]
    exact List.find?_some hfind

theorem poll_answers (ask : List E → A) (entry : A → E) (stop : A → Bool) (n : Nat) (log : List E) :
    ∃ as, Answers stop n as ∧ poll ask entry stop n log = (log ++ as.map entry, as.find? stop) := by
  induction n generalizing log with
  | zero => exact ⟨[], .limit, by rw [List.map_nil, List.append_nil]; rfl⟩
  | succ n ih =>
    rw [poll]
    cases hstop : stop (ask log) with
    | true => exact ⟨[ask log], .stopped hstop, by rw [List.find?_cons_of_pos hstop]; rfl⟩
    | false =>
      obtain ⟨as, hw, heq⟩ := ih (log ++ [entry (ask log)])
      refine ⟨ask log :: as, .again hstop hw, ?_⟩
      rw [if_neg Bool.false_ne_true, heq, List.map_cons, List.append_assoc, List.singleton_append,
        List.find?_cons_of_neg (by rw [hstop]; exact Bool.false_ne_true)]

/-- Any answers that a loop may have are those of the loop with a respondent that follows a script
in which they stand. -/
theorem poll_of_answers {ask : List E → A} {entry : A → E} {script rest : List E}
    (hask : ∀ past a later, script = past ++ entry a :: later → ask past = a)
    (h : Answers stop n as) {log : List E} (hscript : script = log ++ (as.map entry ++ rest)) :
    poll ask entry stop n log = (log ++ as.map entry, as.find? stop) := by
  induction h generalizing log with
  | limit => rw [List.map_nil, List.append_nil]; rfl
  | @stopped n a hstop =>
    rw [poll, hask log a rest hscript, if_pos hstop, List.find?_cons_of_pos hstop]
    rfl
  | @again n a as hgo hw ih =>
    rw [List.map_cons, List.cons_append] at hscript
    rw [poll, hask log a _ hscript, if_neg (by rw [hgo]; exact Bool.false_ne_true),
      ih (by rw [hscript, List.append_assoc, List.singleton_append]),
      List.find?_cons_of_neg (by rw [hgo]; exact Bool.false_ne_true), List.map_cons,
      List.append_assoc, List.singleton_append]

end Polling
