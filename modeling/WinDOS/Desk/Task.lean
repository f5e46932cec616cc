import Mathlib.Algebra.Order.Ring.Int
import WinDOS.Desk.TaskSwitch
import WinDOS.Lib.FreeList

/-!
# The round-robin scheduler (`desk/task.h`)

`tasks i` is what lies at `tasks[i]`: for an index outside the table it is other memory. The
switch itself is `task_switch_to`, which takes its return address for the stack of the next task.
-/

set_option autoImplicit false

namespace WinDOS

open Bytes FreeList WordStack

def MAX_TASKS : Int := 8
def TASK_STACK : Nat := 4096

structure Task where
  pid : Nat
  stack : Nat
  rsp : Nat
  state : Nat
  priority : Int
  entry : Nat
  name : Nat

structure Sched where
  tasks : Int → Task
  curTask : Int
  taskStacks : Nat
  /-- `_next_pid` of `drivers/pid.h`. -/
  nextPid : Nat
  mem : Buf

namespace Sched

def InTable (i : Int) : Prop := 0 ≤ i ∧ i < MAX_TASKS

instance (i : Int) : Decidable (InTable i) := inferInstanceAs (Decidable (_ ∧ _))

/-- The static variables before any code has run; behind them is other memory. -/
def static (other : Int → Task) (mem : Buf) : Sched where
  tasks i := if InTable i then ⟨0, 0, 0, 0, 0, 0, 0⟩ else other i
  curTask := -1
  taskStacks := 0
  nextPid := 1
  mem := mem

def taskInit (s : Sched) (pool : Nat) : Sched :=
  { s with
    taskStacks := pool
    tasks := fun i => if InTable i then { s.tasks i with state := 0 } else s.tasks i }

/-- `*(--sp) = v`. -/
def pushWord (m : Buf × Nat) (v : Nat) : Buf × Nat := (store64 m.1 (m.2 - 8) v, m.2 - 8)

def taskCreate (s : Sched) (entry name : Nat) (prio : Int) : Nat × Sched :=
  match (List.range 8).find? fun i : Nat => (s.tasks i).state = 0 with
  | some i =>
    let stack := s.taskStacks + i * TASK_STACK
    let (mem, sp) := [entry, 0, 0, 0, 0, 0, 0].foldl pushWord (s.mem, stack + TASK_STACK - 8)
    (s.nextPid,
      { s with
        tasks := Function.update s.tasks i ⟨s.nextPid, stack, sp, 1, prio, entry, name⟩
        nextPid := (s.nextPid + 1) % 2 ^ 32
        mem := mem })
  | none => (0, s)

def nextIndex (i : Int) : Int := (i + 1).tmod MAX_TASKS

/-- The loop of `task_yield` for at most `fuel` rounds: where it ends, and the entries that it has
read. -/
def searchNext (s : Sched) : Nat → Int → List Int → Option (Int × List Int)
  | 0, _, _ => none
  | fuel + 1, next, seen =>
    if next = s.curTask then some (next, seen)
    else if (s.tasks next).state = 1 then some (next, seen ++ [next])
    else searchNext s fuel (nextIndex next) (seen ++ [next])

/-- What `task_yield` does to the table before `task_switch_to`. -/
def switchTo (s : Sched) (next : Int) : Sched :=
  let t := s.curTask
  let tasks := Function.update s.tasks t { s.tasks t with state := 1 }
  { s with
    tasks := Function.update tasks next { tasks next with state := 2 }
    curTask := next }

/-- The end of `task_yield`, after `task_switch_to`, in a task that comes back to it: `t->rsp` gets
what `old_rsp` holds. -/
def comeBack (s : Sched) (oldRsp : Nat) : Sched :=
  { s with tasks := Function.update s.tasks s.curTask { s.tasks s.curTask with rsp := oldRsp } }

/-- `task_yield` up to its return or to the end of `task_switch_to`, which it calls with return
address `ret` in state `c`: the table, where the processor goes on after a switch, and the
entries read and written. -/
def taskYield (s : Sched) (fuel : Nat) (c : Cpu) (ret : Word) :
    Option (Sched × Option (Word × Cpu) × List Int) :=
  match s.searchNext fuel (nextIndex s.curTask) [] with
  | none => none
  | some (next, seen) =>
    if next = s.curTask then some (s, none, seen)
    else
      some (s.switchTo next, some (taskSwitchTo (c.push ret)), seen ++ [s.curTask, next, s.curTask])

/-! ### What a call of `task_yield` is to do -/

def Ready (s : Sched) (i : Int) : Prop := (s.tasks i).state = 1

/-- The entry `k` places after the current one. -/
def place (s : Sched) (k : Nat) : Int := (s.curTask + k) % MAX_TASKS

/-- `n` is the first ready task after the current one in cyclic order. -/
def FirstReady (s : Sched) (n : Int) : Prop :=
  ∃ k : Nat, 1 ≤ k ∧ k ≤ 8 ∧ n = s.place k ∧ s.Ready n ∧ ∀ j, 1 ≤ j → j < k → ¬ s.Ready (s.place j)

def OnlyCurrent (s : Sched) : Prop :=
  ∀ i, InTable i → (s.tasks i).state = 2 → i = s.curTask

def savedStack (s : Sched) (i : Int) : Word := BitVec.ofNat 64 (s.tasks i).rsp

/-- The call stays inside the table; it switches to the first ready task, which goes on from its
stack, and returns if there is none. -/
def YieldRight (s : Sched) (c : Cpu) (ret : Word) : Prop :=
  ∃ fuel s' out touched, s.taskYield fuel c ret = some (s', out, touched) ∧
    (∀ i ∈ touched, InTable i) ∧ s'.OnlyCurrent ∧
    (∀ n, s.FirstReady n → s'.curTask = n ∧ (s'.tasks n).state = 2 ∧
      ∃ o, out = some o ∧ GoesOnFrom (s.savedStack n) o) ∧
    ((∀ i, InTable i → ¬ s.Ready i) → s' = s ∧ out = none)

/-- The table as `task_create` and `task_yield` keep it: before the first switch no task is
current, then the current one is running. -/
structure SchedOk (s : Sched) : Prop where
  cur : s.curTask = -1 ∨ InTable s.curTask ∧ (s.tasks s.curTask).state = 2
  only : s.OnlyCurrent

end Sched

/-- A call on the scheduler. After a switch the next task goes on, which may be in a call of
`task_yield` itself: then `suspended` is its `old_rsp`. -/
inductive SchedOp where
  | create (entry name : Nat) (prio : Int)
  | yield (c : Cpu) (ret : Word) (suspended : Option Nat)

namespace Sched

/-- The table when the task that the processor goes on with is at its next instruction. -/
def resumed (s : Sched) (out : Option (Word × Cpu)) (suspended : Option Nat) : Sched :=
  match out, suspended with
  | some _, some oldRsp => s.comeBack oldRsp
  | _, _ => s

/-- Every state of the run has one running task at most, and every `task_yield` is right. -/
def YieldsRight : Sched → List SchedOp → Prop
  | s, [] => s.OnlyCurrent
  | s, .create entry name prio :: ops =>
    s.OnlyCurrent ∧ YieldsRight (s.taskCreate entry name prio).2 ops
  | s, .yield c ret suspended :: ops =>
    s.OnlyCurrent ∧ s.YieldRight c ret ∧
      ∀ fuel s' out touched, s.taskYield fuel c ret = some (s', out, touched) →
        YieldsRight (s'.resumed out suspended) ops

/-- A task is current, and if another is ready the return address happens to be its stack. -/
def YieldHits (s : Sched) (c : Cpu) (ret : Word) : Prop :=
  s.curTask ≠ -1 ∧ ∀ n, s.FirstReady n → switchStack c ret = s.savedStack n

/-- Every `task_yield` of the run is called in such a state. -/
def YieldsHit : Sched → List SchedOp → Prop
  | _, [] => True
  | s, .create entry name prio :: ops => YieldsHit (s.taskCreate entry name prio).2 ops
  | s, .yield c ret suspended :: ops =>
    s.YieldHits c ret ∧
      ∀ fuel s' out touched, s.taskYield fuel c ret = some (s', out, touched) →
        YieldsHit (s'.resumed out suspended) ops

/-! ### The search -/

theorem FirstReady.unique {s : Sched} {m n : Int} (hm : s.FirstReady m) (hn : s.FirstReady n) :
    m = n := by
  obtain ⟨j, hj, -, rfl, hmready, hmnone⟩ := hm
  obtain ⟨k, hk, -, rfl, hnready, hnnone⟩ := hn
  rcases Nat.lt_trichotomy j k with hlt | rfl | hlt
  · exact absurd hmready (hnnone j hj hlt)
  · rfl
  · exact absurd hnready (hmnone k hk hlt)

theorem nextIndex_eq {i : Int} (hi : -1 ≤ i) : nextIndex i = (i + 1) % MAX_TASKS :=
  Int.tmod_eq_emod_of_nonneg (by omega)

theorem place_inTable (s : Sched) (k : Nat) : InTable (s.place k) := by
  unfold InTable place MAX_TASKS
  omega

theorem nextIndex_place {s : Sched} (k : Nat) : nextIndex (s.place k) = s.place (k + 1) := by
  have hin := s.place_inTable k
  unfold InTable at hin
  rw [nextIndex_eq (by omega)]
  unfold place MAX_TASKS
  omega

/-- From a current task on, the loop ends at the first ready task or at the current one. -/
theorem searchNext_from_task {s : Sched} (hcur : InTable s.curTask) (m : Nat) :
    ∀ k, 1 ≤ k → k + m = 8 → (∀ j, 1 ≤ j → j < k → ¬ s.Ready (s.place j)) → ∀ seen,
      (∀ i ∈ seen, InTable i) →
      ∃ n seen', s.searchNext (m + 1) (s.place k) seen = some (n, seen') ∧
        (∀ i ∈ seen', InTable i) ∧
        (n = s.curTask ∧ (∀ j, 1 ≤ j → j < 8 → ¬ s.Ready (s.place j)) ∨
          n ≠ s.curTask ∧ s.FirstReady n) := by
  have hlast : s.place 8 = s.curTask := by
    unfold InTable MAX_TASKS at hcur
    unfold place MAX_TASKS
    omega
  induction m with
  | zero =>
    intro k _ hk hnone seen hseen
    obtain rfl : k = 8 := hk
    refine ⟨s.curTask, seen, ?_, hseen, .inl ⟨rfl, hnone⟩⟩
    rw [hlast, searchNext, if_pos rfl]
  | succ m ih =>
    intro k hpos hk hnone seen hseen
    have hne : s.place k ≠ s.curTask := by
      unfold InTable MAX_TASKS at hcur
      unfold place MAX_TASKS
      omega
    have hseen' : ∀ i ∈ seen ++ [s.place k], InTable i := by
      rw [List.forall_mem_append, List.forall_mem_singleton]
      exact ⟨hseen, s.place_inTable k⟩
    rw [searchNext, if_neg hne]
    by_cases hready : (s.tasks (s.place k)).state = 1
    · rw [if_pos hready]
      exact ⟨_, _, rfl, hseen', .inr ⟨hne, k, hpos, by omega, rfl, hready, hnone⟩⟩
    · rw [if_neg hready, nextIndex_place]
      refine ih (k + 1) (by omega) (by omega) (fun j h1 hj => ?_) _ hseen'
      rcases Nat.lt_succ_iff_lt_or_eq.mp hj with hj | rfl
      · exact hnone j h1 hj
      · exact hready

theorem nextIndex_inTable {i : Int} (hi : -1 ≤ i) : InTable (nextIndex i) := by
  rw [nextIndex_eq hi]
  unfold InTable MAX_TASKS
  omega

theorem searchNext_inTable {s : Sched} (fuel : Nat) :
    ∀ next seen, InTable next → ∀ n seen', s.searchNext fuel next seen = some (n, seen') →
      InTable n := by
  induction fuel with
  | zero => exact fun _ _ _ _ _ h => nomatch h
  | succ fuel ih =>
    intro next seen hnext n seen' h
    rw [searchNext] at h
    by_cases hend : next = s.curTask
    · rw [if_pos hend, Option.some.injEq, Prod.mk.injEq] at h
      exact h.1 ▸ hnext
    · rw [if_neg hend] at h
      by_cases hready : (s.tasks next).state = 1
      · rw [if_pos hready, Option.some.injEq, Prod.mk.injEq] at h
        exact h.1 ▸ hnext
      · rw [if_neg hready] at h
        unfold InTable at hnext
        exact ih _ _ (nextIndex_inTable (by omega)) n seen' h

/-- Without a current task and without a ready one the loop does not end. -/
theorem searchNext_never {s : Sched} (hcur : s.curTask = -1)
    (hnone : ∀ i, InTable i → ¬ s.Ready i) (fuel : Nat) :
    ∀ next seen, InTable next → s.searchNext fuel next seen = none := by
  induction fuel with
  | zero => exact fun _ _ _ => rfl
  | succ fuel ih =>
    intro next seen hnext
    have hready : ¬ (s.tasks next).state = 1 := hnone next hnext
    have hlow := hnext.1
    rw [searchNext, if_neg (by omega), if_neg hready]
    exact ih _ _ (nextIndex_inTable (by omega))

theorem SchedOk.start_inTable {s : Sched} (hs : SchedOk s) : InTable (nextIndex s.curTask) := by
  refine nextIndex_inTable ?_
  rcases hs.cur with hcur | ⟨hcur, -⟩
  · exact hcur.ge
  · unfold InTable at hcur
    omega

theorem SchedOk.yield_cases {s s' : Sched} (hs : SchedOk s) {fuel : Nat} {c : Cpu} {ret : Word}
    {out : Option (Word × Cpu)} {touched : List Int}
    (h : s.taskYield fuel c ret = some (s', out, touched)) :
    s' = s ∧ s.curTask ≠ -1 ∨
      ∃ n, InTable n ∧ n ≠ s.curTask ∧ s' = s.switchTo n ∧ s.curTask ∈ touched ∧
        out = some (taskSwitchTo (c.push ret)) := by
  rw [taskYield] at h
  cases hsearch : s.searchNext fuel (nextIndex s.curTask) [] with
  | none =>
    rw [hsearch] at h
    cases h
  | some r =>
    obtain ⟨n, seen⟩ := r
    have hin := searchNext_inTable fuel _ _ hs.start_inTable n seen hsearch
    rw [hsearch] at h
    dsimp only at h
    by_cases hend : n = s.curTask
    · rw [if_pos hend] at h
      cases h
      refine .inl ⟨rfl, fun hcur => ?_⟩
      unfold InTable at hin
      omega
    · rw [if_neg hend] at h
      cases h
      exact .inr ⟨n, hin, hend, rfl, List.mem_append_right _ List.mem_cons_self, rfl⟩

/-! ### One call -/

theorem SchedOk.switchTo {s : Sched} (hs : SchedOk s) {n : Int} (hn : InTable n) :
    SchedOk (s.switchTo n) := by
  unfold Sched.switchTo
  refine ⟨.inr ⟨hn, ?_⟩, fun i hi hstate => ?_⟩
  · dsimp only
    rw [Function.update_self]
  · by_contra hother
    dsimp only at hstate hother
    rw [Function.update_of_ne hother] at hstate
    by_cases hcur : i = s.curTask
    · rw [hcur, Function.update_self] at hstate
      cases hstate
    · rw [Function.update_of_ne hcur] at hstate
      exact hcur (hs.only i hi hstate)

theorem SchedOk.resumed {s : Sched} (hs : SchedOk s) (out : Option (Word × Cpu))
    (suspended : Option Nat) : SchedOk (s.resumed out suspended) := by
  have hback : ∀ oldRsp, SchedOk (s.comeBack oldRsp) := fun oldRsp => by
    have hstate : ∀ i, ((s.comeBack oldRsp).tasks i).state = (s.tasks i).state := fun i => by
      unfold comeBack
      dsimp only
      rw [Function.update_apply]
      split
      · rename_i hi
        rw [hi]
      · rfl
    exact ⟨hs.cur.imp id fun h => ⟨h.1, (hstate _).trans h.2⟩,
      fun i hi h => hs.only i hi ((hstate i).symm.trans h)⟩
  unfold Sched.resumed
  split
  · exact hback _
  · exact hs

theorem SchedOk.yield {s s' : Sched} (hs : SchedOk s) {fuel : Nat} {c : Cpu} {ret : Word}
    {out : Option (Word × Cpu)} {touched : List Int}
    (h : s.taskYield fuel c ret = some (s', out, touched)) : SchedOk s' := by
  rcases hs.yield_cases h with ⟨rfl, -⟩ | ⟨n, hn, hne, rfl, -⟩
  · exact hs
  · exact hs.switchTo hn

theorem SchedOk.create {s : Sched} (hs : SchedOk s) (entry name : Nat) (prio : Int) :
    SchedOk (s.taskCreate entry name prio).2 ∧
      (s.taskCreate entry name prio).2.curTask = s.curTask := by
  unfold taskCreate
  cases hfind : (List.range 8).find? fun i : Nat => (s.tasks i).state = 0 with
  | none => exact ⟨hs, rfl⟩
  | some i =>
    have hfree : (s.tasks i).state = 0 := by simpa using List.find?_some hfind
    refine ⟨⟨hs.cur.imp id fun hcur => ⟨hcur.1, ?_⟩, fun j hj hstate => ?_⟩, rfl⟩
    · have hne : s.curTask ≠ i := fun heq => by
        rw [heq, hfree] at hcur
        cases hcur.2
      dsimp only
      rw [Function.update_of_ne hne]
      exact hcur.2
    · dsimp only at hstate
      by_cases hji : j = i
      · rw [hji, Function.update_self] at hstate
        cases hstate
      · rw [Function.update_of_ne hji] at hstate
        exact hs.only j hj hstate

theorem taskYield_from_task {s : Sched} (hs : SchedOk s) (hcur : s.curTask ≠ -1) (c : Cpu)
    (ret : Word) : ∃ seen, (∀ i ∈ seen, InTable i) ∧
      (s.taskYield 8 c ret = some (s, none, seen) ∧ (∀ n, ¬ s.FirstReady n) ∨
        ∃ n, s.FirstReady n ∧ n ≠ s.curTask ∧ InTable n ∧ s.Ready n ∧ s.taskYield 8 c ret =
          some (s.switchTo n, some (taskSwitchTo (c.push ret)),
            seen ++ [s.curTask, n, s.curTask])) := by
  obtain ⟨hin, hrun⟩ := hs.cur.resolve_left hcur
  have hfirst : s.place 1 = nextIndex s.curTask := by
    unfold InTable at hin
    rw [nextIndex_eq (by omega)]
    rfl
  obtain ⟨n, seen, hsearch, hseen, hcase⟩ := searchNext_from_task hin 7 1 le_rfl rfl
    (fun j h1 hj => absurd hj (by omega)) [] (fun i hi => absurd hi List.not_mem_nil)
  rw [hfirst] at hsearch
  refine ⟨seen, hseen, ?_⟩
  rcases hcase with ⟨rfl, hnone⟩ | ⟨hne, hn⟩
  · refine .inl ⟨?_, ?_⟩
    · rw [taskYield, hsearch]
      exact if_pos rfl
    · rintro _ ⟨k, h1, h8, rfl, hready, -⟩
      have hk : k ≠ 8 := by
        rintro rfl
        have hself : s.place 8 = s.curTask := by
          unfold InTable MAX_TASKS at hin
          unfold place MAX_TASKS
          omega
        rw [hself, Ready, hrun] at hready
        cases hready
      exact hnone k h1 (by omega) hready
  · refine .inr ⟨n, hn, hne, ?_, ?_, ?_⟩
    · obtain ⟨k, -, -, rfl, -⟩ := hn
      exact s.place_inTable k
    · obtain ⟨-, -, -, -, hready, -⟩ := hn
      exact hready
    · rw [taskYield, hsearch]
      exact if_neg hne

/-- A call from a task is right unless another task is ready whose stack is not at the return
address. -/
theorem yieldRight_iff {s : Sched} (hs : SchedOk s) (hcur : s.curTask ≠ -1) (c : Cpu)
    (ret : Word) : s.YieldRight c ret ↔ ∀ n, s.FirstReady n → switchStack c ret = s.savedStack n := by
  constructor
  · rintro ⟨fuel, s', out, touched, hyield, -, -, hswitch, -⟩ n hn
    obtain ⟨hto, -, o, rfl, hgoes⟩ := hswitch n hn
    rcases hs.yield_cases hyield with ⟨rfl, -⟩ | ⟨m, -, -, -, -, hout⟩
    · obtain ⟨-, hrun⟩ := hs.cur.resolve_left hcur
      obtain ⟨-, -, -, -, hready, -⟩ := hn
      rw [Ready, ← hto, hrun] at hready
      cases hready
    · obtain rfl := Option.some.inj hout
      exact (taskSwitchTo_goesOn c ret).unique hgoes
  · intro hhit
    obtain ⟨hin, -⟩ := hs.cur.resolve_left hcur
    obtain ⟨seen, hseen, ⟨hyield, hnone⟩ | ⟨n, hn, hne, hnin, hready, hyield⟩⟩ :=
      taskYield_from_task hs hcur c ret
    · exact ⟨8, _, _, _, hyield, hseen, hs.only, fun n hn => absurd hn (hnone n),
        fun _ => ⟨rfl, rfl⟩⟩
    · have hswitch := hs.switchTo hnin
      refine ⟨8, _, _, _, hyield, fun i hi => ?_, hswitch.only, fun m hm => ?_,
        fun hall => absurd hready (hall n hnin)⟩
      · rcases List.mem_append.mp hi with hi | hi
        · exact hseen i hi
        · simp only [List.mem_cons, List.not_mem_nil, or_false] at hi
          rcases hi with rfl | rfl | rfl
          · exact hin
          · exact hnin
          · exact hin
      · obtain rfl := hm.unique hn
        refine ⟨rfl, (hswitch.cur.resolve_left fun hneg => ?_).2, _, rfl, ?_⟩
        · have hge := hnin.1
          have hneg : m = -1 := hneg
          omega
        · exact hhit m hm ▸ taskSwitchTo_goesOn c ret

/-- Without a current task a call does not return, or it reads and writes `tasks[-1]`. -/
theorem not_yieldRight_of_no_task {s : Sched} (hs : SchedOk s) (hcur : s.curTask = -1)
    (c : Cpu) (ret : Word) : ¬ s.YieldRight c ret := by
  rintro ⟨fuel, s', out, touched, hyield, htouched, -⟩
  rcases hs.yield_cases hyield with ⟨-, hne⟩ | ⟨n, -, -, -, hmem, -⟩
  · exact hne hcur
  · have hin := (htouched _ hmem).1
    omega

/-! ### Runs -/

theorem yieldsRight_iff {s : Sched} (hs : SchedOk s) (ops : List SchedOp) :
    s.YieldsRight ops ↔ s.YieldsHit ops := by
  induction ops generalizing s with
  | nil => exact iff_of_true hs.only trivial
  | cons op ops ih =>
    cases op with
    | create entry name prio =>
      exact (and_iff_right hs.only).trans (ih (hs.create entry name prio).1)
    | yield c ret suspended =>
      have hone : s.YieldRight c ret ↔ s.YieldHits c ret := by
        by_cases hcur : s.curTask = -1
        · exact iff_of_false (not_yieldRight_of_no_task hs hcur c ret) fun h => h.1 hcur
        · exact (yieldRight_iff hs hcur c ret).trans (and_iff_right hcur).symm
      have hrest : (∀ fuel s' out touched, s.taskYield fuel c ret = some (s', out, touched) →
          (s'.resumed out suspended).YieldsRight ops) ↔ ∀ fuel s' out touched,
            s.taskYield fuel c ret = some (s', out, touched) →
              (s'.resumed out suspended).YieldsHit ops :=
        forall_congr' fun fuel => forall_congr' fun s' => forall_congr' fun out =>
          forall_congr' fun touched => forall_congr' fun h =>
            ih ((hs.yield h).resumed out suspended)
      exact (and_iff_right hs.only).trans (and_congr hone hrest)

def NoYield (ops : List SchedOp) : Prop := ∀ c ret suspended, SchedOp.yield c ret suspended ∉ ops

theorem yieldsHit_of_no_task {s : Sched} (hs : SchedOk s) (hcur : s.curTask = -1)
    (ops : List SchedOp) : s.YieldsHit ops ↔ NoYield ops := by
  induction ops generalizing s with
  | nil => exact iff_of_true trivial fun _ _ _ => List.not_mem_nil
  | cons op ops ih =>
    cases op with
    | create entry name prio =>
      obtain ⟨hs', hcur'⟩ := hs.create entry name prio
      refine (ih hs' (hcur'.trans hcur)).trans (forall_congr' fun c => forall_congr' fun ret =>
        forall_congr' fun suspended => not_congr ?_)
      simp
    | yield c ret suspended =>
      exact iff_of_false (fun h => h.1.1 hcur) fun h => h c ret suspended List.mem_cons_self

theorem schedOk_init (other : Int → Task) (mem : Buf) (pool : Nat) :
    SchedOk ((static other mem).taskInit pool) := by
  refine ⟨.inl rfl, fun i hi hstate => ?_⟩
  unfold taskInit at hstate
  dsimp only at hstate
  rw [if_pos hi] at hstate
  cases hstate

end Sched

open Sched

/-- In every run of the scheduler, `task_yield` is right exactly if it is only called while a task
is current, and the stack of the first ready one, if there is one, is at the return address of
`task_switch_to`. After `task_init` no task is current: there, runs without a call are right, and
no others. -/
theorem task_yield_right_iff {s : Sched} (hs : SchedOk s) (ops : List SchedOp) :
    (s.YieldsRight ops ↔ s.YieldsHit ops) ∧
      ∀ (other : Int → Task) (mem : Buf) (pool : Nat),
        ((static other mem).taskInit pool).YieldsRight ops ↔ NoYield ops :=
  ⟨yieldsRight_iff hs ops, fun other mem pool =>
    (yieldsRight_iff (schedOk_init other mem pool) ops).trans
      (yieldsHit_of_no_task (schedOk_init other mem pool) rfl ops)⟩

/-- A table in which task 0 runs alone. -/
def oneTask : Sched where
  tasks i := ⟨0, 0, 0, if i = 0 then 2 else 0, 0, 0, 0⟩
  curTask := 0
  taskStacks := 0
  nextPid := 2
  mem := fun _ => 0

theorem schedOk_oneTask : SchedOk oneTask := by
  refine ⟨.inr ⟨by decide, rfl⟩, fun i _ hstate => ?_⟩
  by_contra hne
  have hne : i ≠ 0 := hne
  have hstate : (if i = 0 then 2 else 0) = 2 := hstate
  rw [if_neg hne] at hstate
  cases hstate

def blankCpu : Cpu := ⟨⟨fun _ => 0, 0, fun _ => 0⟩, 0, 0x08, 0x10⟩

/-- The only task yields, and then creates another. -/
theorem task_yield_right_oneTask :
    oneTask.YieldsRight [.yield blankCpu 0x100000 none, .create 0x110000 0 2] := by
  refine (task_yield_right_iff schedOk_oneTask _).1.mpr ⟨⟨by decide, ?_⟩, fun _ _ _ _ _ => trivial⟩
  rintro n ⟨-, -, -, -, hready, -⟩
  have hready : (if n = 0 then 2 else 0) = 1 := hready
  split at hready <;> cases hready

/-- The scheduler after `task_init`, with zeros in the memory around the table. -/
def freshSched : Sched := (static (fun _ => ⟨0, 0, 0, 0, 0, 0, 0⟩) fun _ => 0).taskInit 0

/-- The first call of `task_yield` after `task_init`: without a ready task it does not return,
with one it writes `tasks[-1]`. -/
theorem first_yield_wrong :
    (∀ fuel, freshSched.taskYield fuel blankCpu 0x100000 = none) ∧
      ((freshSched.taskCreate 1 0 2).2.taskYield 1 blankCpu 0x100000).map (fun r => r.2.2) =
        some [0, -1, 0, -1] ∧
      ¬ freshSched.YieldsRight [.yield blankCpu 0x100000 none] := by
  refine ⟨fun fuel => ?_, rfl, fun h => ?_⟩
  · rw [taskYield, searchNext_never rfl (fun i hi => ?_) fuel _ _ (by decide)]
    rw [Ready, freshSched, taskInit]
    dsimp only
    rw [if_pos hi]
    exact Nat.zero_ne_one
  · exact not_yieldRight_of_no_task (schedOk_init _ _ _) rfl _ _ h.2.1

end WinDOS
