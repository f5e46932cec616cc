import Mathlib.Algebra.GroupWithZero.Nat
import WinDOS.Fs.NvmeQueue

/-!
# Runs of the NVMe driver and its controller

Whose completion a call takes: its own as long as no call is made after one that has given up,
and so always with a controller that is in time; an older one otherwise.
-/

set_option autoImplicit false

namespace WinDOS

namespace Nvme

open PhaseRing

/-! ### The whole device -/

/-- The command of the call that polls on the queue. -/
def Dev.callOf (s : Dev) (q : Qid) : Option Nat :=
  s.call.bind fun c => if c.qid = q then some c.cmd else none

/-- A call that returned a status returned that of its own command. -/
def ResultRight (s : Dev) (x : Result) : Prop :=
  0 ≤ x.code → ∃ e, x.entry = some e ∧ e ∈ (s.queue x.qid).posted ∧ e.cmd = x.cmd ∧
    x.code = e.status.code

structure Inv (s : Dev) : Prop where
  live : ∀ q, ¬ s.timedOut q → Live (s.queue q) (s.resultsOf q) (s.callOf q)
  calling : ∀ c ∈ s.call, ¬ s.timedOut c.qid
  right : ∀ x ∈ s.results, ResultRight s x
  created : s.created = false → (∀ x ∈ s.results, x.qid ≠ .io) ∧ ∀ c ∈ s.call, c.qid ≠ .io

theorem Inv.init : Inv nvmeInit := by
  refine ⟨fun q _ => Live.init, fun c hc => ?_, fun x hx => ?_, fun _ => ⟨fun x hx => ?_,
    fun c hc => ?_⟩⟩
  · cases hc
  · cases hx
  · cases hx
  · cases hc

section Step

variable {s s' : Dev} {q : Qid}

theorem ResultRight.mono {x : Result} (h : ResultRight s x)
    (hsub : (s.queue x.qid).posted ⊆ (s'.queue x.qid).posted) : ResultRight s' x := fun hx => by
  obtain ⟨e, he, hmem, hcmd, hcode⟩ := h hx
  exact ⟨e, he, hsub hmem, hcmd, hcode⟩

theorem resultsOf_append (l : List Result) (x : Result) (q : Qid) :
    (l ++ [x]).filter (fun y => y.qid = q) =
      l.filter (fun y => y.qid = q) ++ if x.qid = q then [x] else [] := by
  rw [List.filter_append]
  by_cases h : x.qid = q
  · rw [if_pos h, List.filter_cons_of_pos (by simpa using h), List.filter_nil]
  · rw [if_neg h, List.filter_cons_of_neg (by simpa using h), List.filter_nil]

theorem timedOut_append {l : List Result} {x : Result} (hx : x.code ≠ -2) (q : Qid) :
    (∃ y ∈ l ++ [x], y.qid = q ∧ y.code = -2) ↔ ∃ y ∈ l, y.qid = q ∧ y.code = -2 := by
  constructor
  · rintro ⟨y, hy, hq, hcode⟩
    rcases List.mem_append.mp hy with hy | hy
    · exact ⟨y, hy, hq, hcode⟩
    · rw [List.mem_singleton.mp hy] at hcode
      exact absurd hcode hx
  · rintro ⟨y, hy, h⟩
    exact ⟨y, List.mem_append_left _ hy, h⟩

theorem Inv.create (h : Inv s) (hcall : s.call = none) (hcr : s.created = false) :
    Inv s.createIoQueues := by
  obtain ⟨hres, -⟩ := h.created hcr
  refine ⟨fun q hq => ?_, h.calling, fun x hx => ?_, fun hc => by cases hc⟩
  · cases q with
    | admin => exact h.live .admin hq
    | io =>
      have hnone : s.resultsOf .io = [] :=
        List.filter_eq_nil_iff.mpr fun x hx => by simpa using hres x hx
      have hcallOf : s.callOf .io = none := by
        rw [Dev.callOf, hcall]
        rfl
      change Live (Function.update s.queue .io emptyQueue .io) (s.resultsOf .io) (s.callOf .io)
      rw [Function.update_self, hnone, hcallOf]
      exact Live.init
  · refine (h.right x hx).mono fun e he => ?_
    change e ∈ (Function.update s.queue .io emptyQueue x.qid).posted
    rw [Function.update_of_ne (hres x hx)]
    exact he

theorem Inv.submit (h : Inv s) (hcall : s.call = none) (hq : ¬ s.timedOut q) (dw : Nat → Nat) :
    Inv (s.submit q dw) := by
  by_cases hacc : s.accepts q = true
  · obtain ⟨cid, dw', heq⟩ := submit_eq hacc dw
    have hnone : ∀ q, s.callOf q = none := fun q => by
      rw [Dev.callOf, hcall]
      rfl
    rw [heq]
    refine ⟨fun q' hq' => ?_, fun c hc => ?_, fun x hx => ?_, fun hcr => ⟨(h.created hcr).1,
      fun c hc => ?_⟩⟩
    · have hlive := h.live q' hq'
      rw [hnone] at hlive
      change Live (Function.update s.queue q _ q') (s.resultsOf q')
        (if q = q' then some (s.queue q).issued else none)
      by_cases hqq : q' = q
      · subst hqq
        rw [Function.update_self, if_pos rfl]
        exact hlive.submitted dw'
      · rw [Function.update_of_ne hqq, if_neg (Ne.symm hqq)]
        exact hlive
    · obtain rfl := Option.mem_some.mp hc
      exact hq
    · refine (h.right x hx).mono fun e he => ?_
      by_cases hqq : x.qid = q
      · dsimp only
        rw [hqq, Function.update_self]
        rwa [hqq] at he
      · dsimp only
        rwa [Function.update_of_ne hqq]
    · obtain rfl := Option.mem_some.mp hc
      rintro rfl
      change s.created = false at hcr
      rw [Dev.accepts, hcr, Bool.and_false] at hacc
      cases hacc
  · rw [Dev.submit, if_neg hacc]
    exact h

theorem Inv.withQueue (h : Inv s) {r : Option Queue} (hs : s.withQueue q r = some s')
    (hlive : ∀ r' ∈ r, ∀ res cmd, Live (s.queue q) res cmd → Live r' res cmd)
    (hsub : ∀ r' ∈ r, (s.queue q).posted ⊆ r'.posted) : Inv s' := by
  obtain ⟨r', hr', rfl⟩ := Option.map_eq_some_iff.mp hs
  refine ⟨fun q' hq' => ?_, h.calling, fun x hx => ?_, h.created⟩
  · have hl := h.live q' hq'
    change Live (Function.update s.queue q r' q') (s.resultsOf q') (s.callOf q')
    by_cases hqq : q' = q
    · subst hqq
      rw [Function.update_self]
      exact hlive r' hr' _ _ hl
    · rwa [Function.update_of_ne hqq]
  · refine (h.right x hx).mono fun e he => ?_
    dsimp only
    by_cases hqq : x.qid = q
    · rw [hqq, Function.update_self]
      rw [hqq] at he
      exact hsub r' hr' he
    · rwa [Function.update_of_ne hqq]

theorem callOf_self {c : Call} (hc : s.call = some c) : s.callOf c.qid = some c.cmd := by
  rw [Dev.callOf, hc]
  exact if_pos rfl

theorem callOf_ne {c : Call} (hc : s.call = some c) (hq : q ≠ c.qid) : s.callOf q = none := by
  rw [Dev.callOf, hc]
  exact if_neg (Ne.symm hq)

theorem Inv.take (h : Inv s) {c : Call} (hc : s.call = some c)
    (hphase : ((s.queue c.qid).cq (s.queue c.qid).cqHead).phase = (s.queue c.qid).cqPhase) :
    Inv (s.take c) := by
  have hlive := h.live c.qid (h.calling c hc)
  rw [callOf_self hc] at hlive
  obtain ⟨hnew, hmem, hcmd, hcode⟩ := hlive.taken (q := c.qid) hphase
  have hneg : ∀ k : Nat, (k : Int) ≠ -2 := fun k => by omega
  rw [take_eq]
  refine ⟨fun q hq => ?_, fun c hc => ?_, fun x hx => ?_, fun hcr => ⟨fun x hx => ?_,
    fun c hc => ?_⟩⟩
  · have hq : ¬ s.timedOut q := fun ht => hq ((timedOut_append (hneg _) q).mpr ht)
    change Live (Function.update s.queue c.qid _ q) (List.filter _ (s.results ++ [_])) none
    rw [resultsOf_append]
    dsimp only
    by_cases hqq : q = c.qid
    · subst hqq
      rw [Function.update_self, if_pos rfl]
      exact hnew
    · have hl := h.live q hq
      rw [callOf_ne hc hqq] at hl
      rw [Function.update_of_ne hqq, if_neg (Ne.symm hqq), List.append_nil]
      exact hl
  · cases hc
  · rcases List.mem_append.mp hx with hx | hx
    · refine (h.right x hx).mono fun e he => ?_
      dsimp only
      by_cases hqq : x.qid = c.qid
      · rw [hqq, Function.update_self]
        rwa [hqq] at he
      · rwa [Function.update_of_ne hqq]
    · obtain rfl := List.mem_singleton.mp hx
      refine fun _ => ⟨_, rfl, ?_, hcmd, congrArg _ hcode⟩
      dsimp only
      rw [Function.update_self]
      exact hmem
  · rcases List.mem_append.mp hx with hx | hx
    · exact (h.created hcr).1 x hx
    · rw [List.mem_singleton.mp hx]
      exact (h.created hcr).2 c hc
  · cases hc

theorem Inv.poll (h : Inv s) {c : Call} (hc : s.call = some c) : Inv (s.poll c) := by
  unfold Dev.poll
  dsimp only
  split
  · split
    · rename_i hphase
      exact h.take hc hphase
    · refine ⟨fun q hq => ?_, fun c' hc' => ?_, h.right, fun hcr => ⟨(h.created hcr).1,
        fun c' hc' => ?_⟩⟩
      · have hl := h.live q hq
        rw [Dev.callOf, hc] at hl
        exact hl
      · obtain rfl := Option.mem_some.mp hc'
        exact h.calling c hc
      · obtain rfl := Option.mem_some.mp hc'
        exact (h.created hcr).2 c hc
  · refine ⟨fun q hq => ?_, fun c hc => ?_, fun x hx => ?_, fun hcr => ⟨fun x hx => ?_,
      fun c hc => ?_⟩⟩
    · have hqq : q ≠ c.qid := by
        rintro rfl
        exact hq ⟨_, List.mem_append_right _ (List.mem_singleton_self _), rfl, rfl⟩
      have hq : ¬ s.timedOut q := by
        rintro ⟨x, hx, hxq⟩
        exact hq ⟨x, List.mem_append_left _ hx, hxq⟩
      have hl := h.live q hq
      rw [callOf_ne hc hqq] at hl
      change Live (s.queue q) (List.filter _ (s.results ++ [_])) none
      rw [resultsOf_append, if_neg (Ne.symm hqq), List.append_nil]
      exact hl
    · cases hc
    · rcases List.mem_append.mp hx with hx | hx
      · exact h.right x hx
      · rw [List.mem_singleton.mp hx]
        intro hneg
        change (0 : Int) ≤ -2 at hneg
        omega
    · rcases List.mem_append.mp hx with hx | hx
      · exact (h.created hcr).1 x hx
      · rw [List.mem_singleton.mp hx]
        exact (h.created hcr).2 c hc
    · cases hc

theorem fetch_posted {r r' : Queue} {n : Nat} (h : r.fetch n = some r') : r'.posted = r.posted := by
  unfold Queue.fetch at h
  split at h
  · cases h
  · rw [← Option.some.inj h]

theorem post_posted {r r' : Queue} {n i dw0 : Nat} {st : Status}
    (h : r.post n i dw0 st = some r') : r.posted ⊆ r'.posted := by
  unfold Queue.post at h
  split at h
  · cases h
  · split at h
    · cases h
    · rw [← Option.some.inj h]
      exact List.subset_append_left _ _

theorem Inv.step (h : Inv s) {l : Label} (hok : noCallAfterTimeout s l)
    (hs : step s l = some s') : Inv s' := by
  cases l with
  | create =>
    obtain ⟨⟨hcall, hcreated⟩, rfl⟩ := step_create hs
    exact h.create hcall hcreated
  | call q dw =>
    obtain ⟨hcall, rfl⟩ := step_call hs
    exact h.submit hcall hok dw
  | poll =>
    obtain ⟨c, hc, rfl⟩ := Option.map_eq_some_iff.mp hs
    exact h.poll hc
  | fetch q =>
    refine h.withQueue hs (fun r' hr' res cmd hl => ?_) fun r' hr' => ?_
    · rw [entries_eq] at hr'
      exact hl.fetch hr'
    · rw [fetch_posted hr']
      exact List.Subset.refl _
  | post q i dw0 st =>
    refine h.withQueue hs (fun r' hr' res cmd hl => ?_) fun r' hr' => post_posted hr'
    rw [entries_eq] at hr'
    exact hl.post hr'

end Step

theorem Run.inv {s : Dev} (h : Run noCallAfterTimeout s) : Inv s := by
  induction h with
  | init => exact Inv.init
  | step _ hok hs ih => exact ih.step hok hs

/-! ### Calls after time-outs -/

/-- Every call that returned a status returned that of the command it submitted. -/
def CallsRight (s : Dev) : Prop := ∀ x ∈ s.results, ResultRight s x

/-- In a run in which no call is made on a queue after one on it has given up, every status is
that of the call's own command. -/
theorem calls_right {s : Dev} (h : Run noCallAfterTimeout s) : CallsRight s := h.inv.right

/-- A run with one admin command that the controller fails: its call returns the failure. -/
theorem calls_right_one : ∃ s, Run noCallAfterTimeout s ∧ CallsRight s ∧
    s.results.map Result.code = [2] := by
  have h1 : Run noCallAfterTimeout _ := @Run.step _ nvmeInit _ (.call .admin fun _ => 0) .init
    (fun ⟨_, hx, _⟩ => by cases hx) rfl
  have h2 : Run noCallAfterTimeout _ := @Run.step _ _ _ (.fetch .admin) h1 trivial rfl
  have h3 : Run noCallAfterTimeout _ :=
    @Run.step _ _ _ (.post .admin 0 0 ⟨2, 0, 0⟩) h2 trivial rfl
  have h4 : Run noCallAfterTimeout _ := @Run.step _ _ _ .poll h3 trivial rfl
  exact ⟨_, h4, calls_right h4, rfl⟩

/-- A run of steps one after another. -/
def steps (s : Dev) : List Label → Option Dev
  | [] => some s
  | l :: ls => (step s l).bind fun s => steps s ls

theorem Run.steps {ok : Dev → Label → Prop} {s s' : Dev} {ls : List Label} (h : Run ok s)
    (hok : ∀ s, ∀ l ∈ ls, ok s l) (hs : steps s ls = some s') : Run ok s' := by
  induction ls generalizing s with
  | nil =>
    obtain rfl := Option.some.inj hs
    exact h
  | cons l ls ih =>
    obtain ⟨s1, h1, hs⟩ := Option.bind_eq_some_iff.mp hs
    exact ih (h.step (hok s l List.mem_cons_self) h1)
      (fun s l hl => hok s l (List.mem_cons_of_mem _ hl)) hs

/-- A command that reads nothing. -/
def noDw : Nat → Nat := fun _ => 0

theorem neZero_sc : NeZero 256 := ⟨by decide⟩

theorem neZero_sct : NeZero 8 := ⟨by decide⟩

theorem neZero_rest : NeZero 16 := ⟨by decide⟩

attribute [local instance] neZero_sc neZero_sct neZero_rest in
def success : Status := ⟨0, 0, 0⟩

theorem polls {ok : Dev → Label → Prop} (hok : ∀ s, ok s .poll) {s : Dev} (h : Run ok s) {c : Call}
    (hc : s.call = some c) (hspin : c.spin = 0)
    (hphase : ((s.queue c.qid).cq (s.queue c.qid).cqHead).phase ≠ (s.queue c.qid).cqPhase) {k : Nat}
    (hk : k ≤ POLL_LIMIT) : Run ok { s with call := some { c with spin := k } } := by
  induction k with
  | zero =>
    have : ({ s with call := some { c with spin := 0 } } : Dev) = s := by
      rw [← hspin]
      exact congrArg (fun x => { s with call := x }) hc.symm
    rwa [this]
  | succ k ih =>
    refine (ih (by omega)).step (hok _) ?_
    change some (Dev.poll _ _) = _
    unfold Dev.poll
    dsimp only
    rw [if_pos (by omega), if_neg hphase]

/-- The first admin command has been submitted, and its call has looked for the last time. -/
def gaveUp : Dev :=
  { nvmeInit.submit .admin noDw with call := some ⟨.admin, 0, POLL_LIMIT⟩ }

theorem gaveUp_run : Run (fun _ _ => True) gaveUp := by
  have h1 : Run (fun _ _ => True) (nvmeInit.submit .admin noDw) :=
    @Run.step _ _ _ (.call .admin noDw) .init trivial rfl
  exact polls (fun _ => trivial) h1 (c := ⟨.admin, 0, 0⟩) rfl rfl (by decide) (Nat.le_refl _)

/-- The first call gives up; then its command is completed, and the next call starts and looks. -/
def lateLabels : List Label :=
  [.poll, .fetch .admin, .post .admin 0 0 success, .call .admin noDw, .poll]

/-- The second call returns success before its command was even fetched: it took the completion
of the first call's command. -/
theorem takes_late_completion : ∃ s, Run (fun _ _ => True) s ∧
    s.results.map (fun x => (x.cmd, x.code, x.entry.map Cqe.cmd)) =
      [(0, -2, none), (1, 0, some 0)] ∧ ¬ CallsRight s := by
  obtain ⟨s, hs⟩ : ∃ s, steps gaveUp lateLabels = some s := ⟨_, rfl⟩
  have hres : s.results.map (fun x => (x.cmd, x.code, x.entry.map Cqe.cmd)) =
      [(0, -2, none), (1, 0, some 0)] := by
    obtain rfl := Option.some.inj hs
    rfl
  refine ⟨s, gaveUp_run.steps (fun _ _ _ => trivial) hs, hres, fun h => ?_⟩
  have hmem : (1, 0, some 0) ∈ s.results.map (fun x => (x.cmd, x.code, x.entry.map Cqe.cmd)) := by
    rw [hres]
    exact List.mem_cons_of_mem _ (List.mem_singleton_self _)
  obtain ⟨x, hx, heq⟩ := List.mem_map.mp hmem
  obtain ⟨hcmd, heq⟩ := Prod.mk.inj heq
  obtain ⟨hcode, hentry⟩ := Prod.mk.inj heq
  obtain ⟨e, he, -, hown, -⟩ := h x hx (by omega)
  rw [he, Option.map_some] at hentry
  have := Option.some.inj hentry
  omega

/-! ### A controller that is in time -/

/-- What a run with a timely controller keeps besides the invariant. -/
structure TimelyInv (s : Dev) : Prop where
  run : Run noCallAfterTimeout s
  never : ∀ q, ¬ s.timedOut q
  spin : ∀ c ∈ s.call, c.spin < POLL_LIMIT

theorem TimelyInv.init : TimelyInv nvmeInit := by
  refine ⟨.init, fun q ht => ?_, fun c hc => ?_⟩
  · obtain ⟨x, hx, -⟩ := ht
    cases hx
  · cases hc

theorem TimelyInv.step {s s' : Dev} {l : Label} (h : TimelyInv s) (hok : timely s l)
    (hs : step s l = some s') : TimelyInv s' := by
  have hrun : Run noCallAfterTimeout s' := h.run.step (by
    cases l with
    | call q dw => exact h.never q
    | _ => trivial) hs
  cases l with
  | create =>
    obtain ⟨-, rfl⟩ := step_create hs
    exact ⟨hrun, h.never, h.spin⟩
  | call q dw =>
    obtain ⟨-, rfl⟩ := step_call hs
    by_cases hacc : s.accepts q = true
    · obtain ⟨cid, dw', heq⟩ := submit_eq hacc dw
      rw [heq] at hrun ⊢
      refine ⟨hrun, h.never, fun c hc => ?_⟩
      obtain rfl := Option.mem_some.mp hc
      exact Nat.zero_lt_succ _
    · rw [Dev.submit, if_neg hacc]
      exact h
  | poll =>
    obtain ⟨c, hc, rfl⟩ := Option.map_eq_some_iff.mp hs
    have hspin := h.spin c hc
    unfold Dev.poll at hrun ⊢
    dsimp only at hrun ⊢
    rw [if_pos hspin] at hrun ⊢
    by_cases hphase : ((s.queue c.qid).cq (s.queue c.qid).cqHead).phase = (s.queue c.qid).cqPhase
    · rw [if_pos hphase] at hrun ⊢
      rw [take_eq] at hrun ⊢
      refine ⟨hrun, fun q ht => ?_, fun c hc => by cases hc⟩
      exact h.never q ((timedOut_append (fun hcode => by dsimp only at hcode; omega) q).mp ht)
    · rw [if_neg hphase] at hrun ⊢
      refine ⟨hrun, h.never, fun c' hc' => ?_⟩
      obtain rfl := Option.mem_some.mp hc'
      -- in the last round the completion is there
      have hlive := h.run.inv.live c.qid (h.never c.qid)
      rw [callOf_self hc] at hlive
      have hissued : (s.queue c.qid).issued = (s.resultsOf c.qid).length + 1 := hlive.issued
      have hlast : c.spin + 1 ≠ POLL_LIMIT := fun heq => hphase
        (hlive.queue.head_phase.mpr (by rw [hok c hc heq]; omega))
      change c.spin + 1 < POLL_LIMIT
      omega
  | fetch q =>
    obtain ⟨r', -, rfl⟩ := Option.map_eq_some_iff.mp hs
    exact ⟨hrun, h.never, h.spin⟩
  | post q i dw0 st =>
    obtain ⟨r', -, rfl⟩ := Option.map_eq_some_iff.mp hs
    exact ⟨hrun, h.never, h.spin⟩

theorem Run.timelyInv {s : Dev} (h : Run timely s) : TimelyInv s := by
  induction h with
  | init => exact TimelyInv.init
  | step _ hok hs ih => exact ih.step hok hs

/-- One queue of a device whose controller is in time. -/
structure QueueRight (s : Dev) (q : Qid) : Prop where
  /-- Before a call tail and head agree, and the head's entry has the other phase bit. -/
  before : s.call = none → (s.queue q).sqTail = (s.queue q).cqHead ∧ (s.queue q).cqHead < 64 ∧
    ((s.queue q).cq (s.queue q).cqHead).phase = (s.queue q).cqPhase ^^^ 1
  /-- The calls so far took the controller's entries one by one, in order. -/
  entries : (s.resultsOf q).map Result.entry =
    ((s.queue q).posted.take (s.resultsOf q).length).map some
  /-- Before a call no entry is left over. -/
  all : s.call = none → (s.queue q).posted.length = (s.resultsOf q).length
  own : ∀ x ∈ s.resultsOf q, ∃ e, x.entry = some e ∧ e.cmd = x.cmd ∧ x.code = e.status.code
  cmds : (s.resultsOf q).map Result.cmd = List.range (s.resultsOf q).length
  /-- A call returns with its command's status at its first look after the completion. -/
  returns : ∀ c ∈ s.call, c.qid = q → (s.queue q).posted.length = (s.queue q).issued →
    ∃ e ∈ (s.queue q).posted, e.cmd = c.cmd ∧ (s.poll c).call = none ∧
      (s.poll c).results = s.results ++ [Result.mk q c.cmd e.status.code (some e)]

/-- With a timely controller each call of either function takes exactly its own completion. -/
theorem timely_queue_right {s : Dev} (h : Run timely s) (q : Qid) : QueueRight s q := by
  obtain ⟨hrun, hnever, hspin⟩ := h.timelyInv
  have hinv := hrun.inv
  have hlive := hinv.live q (hnever q)
  obtain ⟨h0, h1, h2⟩ := hlive.queue.order
  have hidle : s.call = none → (s.queue q).issued = (s.resultsOf q).length := fun hcall => by
    have hissued := hlive.issued
    rw [Dev.callOf, hcall] at hissued
    exact hissued
  have hposted : s.call = none → (s.queue q).posted.length = (s.resultsOf q).length :=
    fun hcall => by
      have := hidle hcall
      omega
  refine ⟨fun hcall => ⟨?_, ?_, ?_⟩, hlive.entries, hposted, fun x hx => ?_, hlive.cmds,
    fun c hc hq hall => ?_⟩
  · rw [hlive.queue.tail.1, hlive.queue.head.1, hidle hcall]
  · rw [hlive.queue.head.1]
    exact Nat.mod_lt _ (by decide)
  · have hstale := hlive.queue.ring.head_stale (by decide)
    rw [hposted hcall] at hstale
    rw [hlive.queue.head.1, hlive.queue.head.2.2, hstale, xor_one (phase_lt _ _)]
  · have hmem := List.mem_map_of_mem (f := Result.entry) hx
    rw [hlive.entries] at hmem
    obtain ⟨e, -, he⟩ := List.mem_map.mp hmem
    have hcode := hlive.codes x hx e he.symm
    obtain ⟨e', he', -, hcmd, hst⟩ := hinv.right x (List.mem_filter.mp hx).1 (by omega)
    exact ⟨e', he', hcmd, hst⟩
  · subst hq
    rw [callOf_self hc] at hlive
    have hissued : (s.queue c.qid).issued = (s.resultsOf c.qid).length + 1 := hlive.issued
    have hphase := hlive.queue.head_phase.mpr (by omega)
    obtain ⟨-, hmem, hcmd, hcode⟩ := hlive.taken (q := c.qid) hphase
    refine ⟨_, hmem, hcmd, ?_⟩
    unfold Dev.poll
    dsimp only
    rw [if_pos (hspin c hc), if_pos hphase, take_eq, hcode]
    exact ⟨rfl, rfl⟩

/-- A run of one admin command that is completed in time. -/
theorem timely_queue_right_one : ∃ s, Run timely s ∧ s.results.map Result.code = [0] ∧
    QueueRight s .admin := by
  have h1 : Run timely _ := @Run.step _ nvmeInit _ (.call .admin noDw) .init trivial rfl
  have h2 : Run timely _ := @Run.step _ _ _ (.fetch .admin) h1 trivial rfl
  have h3 : Run timely _ := @Run.step _ _ _ (.post .admin 0 0 success) h2 trivial rfl
  have h4 : Run timely _ := @Run.step _ _ _ .poll h3 (fun c hc hlast => by
    obtain rfl := Option.mem_some.mp hc
    exact absurd hlast (by decide)) rfl
  exact ⟨_, h4, rfl, timely_queue_right h4 .admin⟩

end Nvme

end WinDOS
