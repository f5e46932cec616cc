import Mathlib.Algebra.Group.Int.Defs
import Mathlib.Algebra.Group.Nat.Defs
import Mathlib.Data.List.Basic
import Mathlib.Data.List.Infix

/-!
# Traces under a monitor

A trace is a list of events, the oldest first. A monitor says which event is allowed after
which past.

In a store that is written once, the entry of a value under a key that has one changes nothing:
after a list of entries a key has its old value, or else that of the first entry for it.
-/

set_option autoImplicit false

namespace Trace

variable {E : Type} {Allowed : List E → E → Prop} {tr : List E}

/-- Every event of the trace is allowed after the events before it. -/
def Always (Allowed : List E → E → Prop) (tr : List E) : Prop :=
  ∀ past e, past ++ [e] <+: tr → Allowed past e

theorem always_nil : Always Allowed [] := by
  intro past e h
  exact absurd (List.prefix_nil.mp h) (by simp)

theorem always_concat {e : E} : Always Allowed (tr ++ [e]) ↔ Always Allowed tr ∧ Allowed tr e := by
  constructor
  · intro h
    exact ⟨fun past a hp => h past a (hp.trans (List.prefix_append tr [e])),
      h tr e (List.prefix_refl _)⟩
  · rintro ⟨htr, he⟩ past a hp
    rcases List.prefix_concat_iff.mp hp with heq | hp
    · obtain ⟨rfl, hae⟩ := List.append_inj' heq rfl
      obtain rfl : a = e := by simpa using hae
      exact he
    · exact htr past a hp

/-! ### Monitors that run along -/

section Automaton

variable {S : Type} {next : S → E → S} {ok : S → E → Prop}

/-- Every event is allowed in the state the events before it have led to. -/
def Checked (next : S → E → S) (ok : S → E → Prop) : S → List E → Prop
  | _, [] => True
  | s, e :: es => ok s e ∧ Checked next ok (next s e) es

theorem checked_append {s : S} {l l' : List E} : Checked next ok s (l ++ l') ↔
    Checked next ok s l ∧ Checked next ok (l.foldl next s) l' := by
  induction l generalizing s with
  | nil => simp [Checked]
  | cons e es ih =>
    rw [List.cons_append, Checked, Checked, ih, List.foldl_cons, and_assoc]

theorem always_iff_checked {s : S} : Always (fun past e => ok (past.foldl next s) e) tr ↔
    Checked next ok s tr := by
  induction tr using List.reverseRecOn with
  | nil => exact iff_of_true always_nil trivial
  | append_singleton tr e ih =>
    rw [always_concat, checked_append, ih]
    exact and_congr_right fun _ => (and_iff_left trivial).symm

end Automaton

/-! ### What a run adds -/

section Adds

/-- A run that turns the trace `l` into `l'` adds events with `ok` only if `P` holds, and when it
is `full`, that is, when nothing stops it early, then exactly if `P` holds. -/
def Adds (ok : E → Prop) (full : Prop) (l l' : List E) (P : Prop) : Prop :=
  ∃ new, l' = l ++ new ∧ (P → ∀ e ∈ new, ok e) ∧ (full → (∀ e ∈ new, ok e) → P)

variable {ok : E → Prop} {full P Q : Prop} {l l' l'' : List E}

theorem Adds.nil (h : P) : Adds ok full l l P :=
  ⟨[], (List.append_nil l).symm, fun _ _ he => absurd he List.not_mem_nil, fun _ _ => h⟩

theorem Adds.one (e : E) : Adds ok full l (l ++ [e]) (ok e) :=
  ⟨[e], rfl, fun he _ ha => List.mem_singleton.mp ha ▸ he, fun _ h => h e (List.mem_singleton_self e)⟩

theorem Adds.trans (h : Adds ok full l l' P) (h' : Adds ok full l' l'' Q) :
    Adds ok full l l'' (P ∧ Q) := by
  obtain ⟨new, rfl, hof, hto⟩ := h
  obtain ⟨new', rfl, hof', hto'⟩ := h'
  refine ⟨new ++ new', List.append_assoc .., ?_, fun hfull hall => ?_⟩
  · rintro ⟨hP, hQ⟩ e he
    rcases List.mem_append.mp he with he | he
    · exact hof hP e he
    · exact hof' hQ e he
  · exact ⟨hto hfull fun e he => hall e (List.mem_append_left new' he),
      hto' hfull fun e he => hall e (List.mem_append_right new he)⟩

theorem Adds.congr (h : Adds ok full l l' P) (heq : Q ↔ P) : Adds ok full l l' Q := by
  obtain ⟨new, hl, hof, hto⟩ := h
  exact ⟨new, hl, fun hQ => hof (heq.mp hQ), fun hfull hall => heq.mpr (hto hfull hall)⟩

theorem Adds.stopped (h : Adds ok full l l' P) (hstop : ¬ full) (himp : Q → P) :
    Adds ok full l l' Q := by
  obtain ⟨new, hl, hof, -⟩ := h
  exact ⟨new, hl, fun hQ => hof (himp hQ), fun hfull => absurd hfull hstop⟩

end Adds

end Trace

namespace WriteOnce

variable {K V : Type*} [DecidableEq K]

def put (s : K → Option V) (k : K) (v : V) : K → Option V :=
  fun k' => (s k').or (if k' = k then some v else none)

def putAll (s : K → Option V) (entries : List (K × V)) : K → Option V :=
  entries.foldl (fun s e => put s e.1 e.2) s

/-- The value of the first entry for a key. -/
def first : List (K × V) → K → Option V
  | [], _ => none
  | e :: entries, k => (if k = e.1 then some e.2 else none).or (first entries k)

theorem putAll_eq (s : K → Option V) (entries : List (K × V)) (k : K) :
    putAll s entries k = (s k).or (first entries k) := by
  induction entries generalizing s with
  | nil => exact Option.or_none.symm
  | cons e entries ih =>
    refine (ih (put s e.1 e.2)).trans ?_
    rw [put, Option.or_assoc, first]

end WriteOnce
