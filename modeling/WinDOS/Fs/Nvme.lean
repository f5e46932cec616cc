import Mathlib.Algebra.Group.Int.Defs
import Mathlib.Algebra.Group.Nat.Defs
import Mathlib.Logic.Function.Basic

/-!
# The NVMe queues (`fs/nvme.h`)

The driver's two queue pairs and the controller at their other end, step by step: a call of
`nvme_admin_cmd` or `nvme_io_cmd` submits a command and then polls for an entry of the
completion queue; between any two of its steps the controller may fetch a submitted command or
write a completion. The driver runs one call at a time.
-/

set_option autoImplicit false

namespace WinDOS

namespace Nvme

def NVME_ADMIN_QD : Nat := 63
def NVME_IO_QD : Nat := 63
def NVME_DB_SQ (qid : Nat) : Nat := 0x1000 + qid * 2 * 4
def NVME_DB_CQ (qid : Nat) : Nat := 0x1000 + (qid * 2 + 1) * 4

/-- How often a call looks at the completion queue. -/
def POLL_LIMIT : Nat := 20000000

inductive Qid where
  | admin
  | io
  deriving DecidableEq

namespace Qid

def num : Qid → Nat
  | admin => 0
  | io => 1

def entries : Qid → Nat
  | admin => NVME_ADMIN_QD + 1
  | io => NVME_IO_QD + 1

/-- The doorbells that `nvme_admin_cmd` and `nvme_io_cmd` write. -/
def dbSq : Qid → Nat
  | admin => 0x1000
  | io => NVME_DB_SQ 1

def dbCq : Qid → Nat
  | admin => 0x1004
  | io => NVME_DB_CQ 1

end Qid

/-- A submission entry: its 16 dwords. `cmd` counts the commands of the queue; the hardware does
not see it. -/
structure Sqe where
  dw : Nat → Nat
  cmd : Nat

/-- The status field of a completion: code, type and the bits above them. -/
structure Status where
  sc : Fin 256
  sct : Fin 8
  rest : Fin 16

/-- A status as a number, 0 for success. -/
def Status.code (st : Status) : Nat := st.sc.val ||| (st.sct.val <<< 8)

/-- A completion entry: the dwords that the driver reads. `cmd` and `status` say which command it
completes and how; the driver sees of them what `dw3` holds. -/
structure Cqe where
  dw0 : Nat
  dw3 : Nat
  cmd : Nat
  status : Status

/-- The phase bit of an entry. -/
def Cqe.phase (e : Cqe) : Nat := (e.dw3 >>> 16) &&& 1

/-- What a call returns that takes the entry. -/
def Cqe.code (e : Cqe) : Nat :=
  let sc := (e.dw3 >>> 17) &&& 0xFF
  let sct := (e.dw3 >>> 25) &&& 0x7
  if sc ≠ 0 ∨ sct ≠ 0 then sc ||| (sct <<< 8) else 0

/-- The completion of the command `e`. -/
def complete (phase dw0 : Nat) (st : Status) (e : Sqe) : Cqe :=
  ⟨dw0, (e.dw 0 >>> 16) % 2 ^ 16 + phase * 2 ^ 16 + st.sc.val * 2 ^ 17 + st.sct.val * 2 ^ 25 +
    st.rest.val * 2 ^ 28, e.cmd, st⟩

/-- A queue pair: the rings in memory, the driver's side (`sq_tail`, `cq_head`, `cq_phase`), and
the controller's: its doorbell registers, positions and phase, the commands it has fetched and
not yet completed, and all entries that it has written. -/
structure Queue where
  sq : Nat → Sqe
  cq : Nat → Cqe
  sqTail : Nat
  cqHead : Nat
  cqPhase : Nat
  issued : Nat
  sqTailDb : Nat
  cqHeadDb : Nat
  sqHead : Nat
  cqTail : Nat
  cqPhaseOut : Nat
  pending : List Sqe
  posted : List Cqe

/-- A call that polls for the completion of its command `cmd`. -/
structure Call where
  qid : Qid
  cmd : Nat
  spin : Nat

/-- A call that has returned, with the entry that it took. -/
structure Result where
  qid : Qid
  cmd : Nat
  code : Int
  entry : Option Cqe

/-- `g_nvme` with the I/O queue's variables; `created` says that `g_iosq` and `g_iocq` are set. -/
structure Dev where
  ready : Bool
  created : Bool
  cid : Nat
  queue : Qid → Queue
  call : Option Call
  results : List Result

/-- A queue of zeroed pages. -/
def emptyQueue : Queue where
  sq := fun _ => ⟨fun _ => 0, 0⟩
  cq := fun _ => ⟨0, 0, 0, ⟨0, 0, 0⟩⟩
  sqTail := 0
  cqHead := 0
  cqPhase := 1
  issued := 0
  sqTailDb := 0
  cqHeadDb := 0
  sqHead := 0
  cqTail := 0
  cqPhaseOut := 1
  pending := []
  posted := []

/-- After `nvme_init`. -/
def nvmeInit : Dev := ⟨true, false, 1, fun _ => emptyQueue, none, []⟩

namespace Dev

/-- The checks before a command is submitted; a call that fails them returns -1. -/
def accepts (s : Dev) : Qid → Bool
  | .admin => s.ready
  | .io => s.ready && s.created

def writeDb (s : Dev) (off v : Nat) : Dev :=
  { s with queue := fun q =>
      if off = NVME_DB_SQ q.num then { s.queue q with sqTailDb := v }
      else if off = NVME_DB_CQ q.num then { s.queue q with cqHeadDb := v }
      else s.queue q }

/-- A call up to its first look at the completion queue. -/
def submit (s : Dev) (q : Qid) (dw : Nat → Nat) : Dev :=
  if s.accepts q then
    let cid := if s.cid = 0 then 1 else s.cid
    let dw := Function.update dw 0 ((dw 0 &&& 0xFFFF) ||| (cid <<< 16) % 2 ^ 32)
    let r := s.queue q
    let pos := r.sqTail
    let sqTail := (pos + 1) % q.entries
    let r' := { r with
      sq := Function.update r.sq pos ⟨dw, r.issued⟩
      sqTail := sqTail
      issued := r.issued + 1 }
    let s' := { s with
      cid := (cid + 1) % 2 ^ 32
      queue := Function.update s.queue q r'
      call := some ⟨q, r.issued, 0⟩ }
    s'.writeDb q.dbSq sqTail
  else s

/-- The call takes the entry at the head of the completion queue. -/
def take (s : Dev) (c : Call) : Dev :=
  let r := s.queue c.qid
  let e := r.cq r.cqHead
  let cqHead := (r.cqHead + 1) % c.qid.entries
  let cqPhase := if cqHead = 0 then r.cqPhase ^^^ 1 else r.cqPhase
  let s' := { s with
    queue := Function.update s.queue c.qid { r with cqHead := cqHead, cqPhase := cqPhase }
    call := none
    results := s.results ++ [Result.mk c.qid c.cmd e.code (some e)] }
  s'.writeDb c.qid.dbCq cqHead

/-- One round of the polling loop, or its end. -/
def poll (s : Dev) (c : Call) : Dev :=
  let r := s.queue c.qid
  if c.spin < POLL_LIMIT then
    if (r.cq r.cqHead).phase = r.cqPhase then s.take c
    else { s with call := some { c with spin := c.spin + 1 } }
  else { s with call := none, results := s.results ++ [Result.mk c.qid c.cmd (-2) none] }

/-- `nvme_create_io_queues` up to its admin commands; the controller's new queue is empty too. -/
def createIoQueues (s : Dev) : Dev :=
  { s with created := true, queue := Function.update s.queue .io emptyQueue }

end Dev

/-! ### The controller -/

namespace Queue

/-- The controller fetches the next command up to the tail doorbell. -/
def fetch (r : Queue) (entries : Nat) : Option Queue :=
  if r.sqHead = r.sqTailDb then none
  else some { r with
    sqHead := (r.sqHead + 1) % entries
    pending := r.pending ++ [r.sq r.sqHead] }

/-- The controller completes the `i`th of its pending commands, if the queue has room. -/
def post (r : Queue) (entries i dw0 : Nat) (st : Status) : Option Queue :=
  match r.pending[i]? with
  | none => none
  | some e =>
    if (r.cqTail + 1) % entries = r.cqHeadDb then none
    else
      let c := complete r.cqPhaseOut dw0 st e
      let cqTail := (r.cqTail + 1) % entries
      some { r with
        cq := Function.update r.cq r.cqTail c
        cqTail := cqTail
        cqPhaseOut := if cqTail = 0 then 1 - r.cqPhaseOut else r.cqPhaseOut
        pending := r.pending.eraseIdx i
        posted := r.posted ++ [c] }

end Queue

/-! ### Runs -/

inductive Label where
  | create
  | call (q : Qid) (dw : Nat → Nat)
  | poll
  | fetch (q : Qid)
  | post (q : Qid) (i dw0 : Nat) (st : Status)

/-- The queue `q` after a step of the controller. -/
def Dev.withQueue (s : Dev) (q : Qid) (r : Option Queue) : Option Dev :=
  r.map fun r => { s with queue := Function.update s.queue q r }

/-- `none` where the step is not possible. -/
def step (s : Dev) : Label → Option Dev
  | .create => if s.call.isNone ∧ s.created = false then some s.createIoQueues else none
  | .call q dw => if s.call.isNone then some (s.submit q dw) else none
  | .poll => s.call.map s.poll
  | .fetch q => s.withQueue q ((s.queue q).fetch q.entries)
  | .post q i dw0 st => s.withQueue q ((s.queue q).post q.entries i dw0 st)

theorem step_create {s s' : Dev} (hs : step s .create = some s') :
    (s.call = none ∧ s.created = false) ∧ s.createIoQueues = s' := by
  obtain ⟨hif, heq⟩ := Option.ite_none_right_eq_some.mp hs
  exact ⟨⟨Option.isNone_iff_eq_none.mp hif.1, hif.2⟩, Option.some.inj heq⟩

theorem step_call {s s' : Dev} {q : Qid} {dw : Nat → Nat} (hs : step s (.call q dw) = some s') :
    s.call = none ∧ s.submit q dw = s' := by
  obtain ⟨hif, heq⟩ := Option.ite_none_right_eq_some.mp hs
  exact ⟨Option.isNone_iff_eq_none.mp hif, Option.some.inj heq⟩

/-- The states that steps with `ok` lead to. -/
inductive Run (ok : Dev → Label → Prop) : Dev → Prop where
  | init : Run ok nvmeInit
  | step {s s' : Dev} {l : Label} (h : Run ok s) (hok : ok s l) (hs : step s l = some s') :
    Run ok s'

/-- A call on the queue has given up. -/
def Dev.timedOut (s : Dev) (q : Qid) : Prop := ∃ x ∈ s.results, x.qid = q ∧ x.code = -2

def Dev.resultsOf (s : Dev) (q : Qid) : List Result := s.results.filter fun x => x.qid = q

/-- No call is made on a queue after one on it has given up. -/
def noCallAfterTimeout (s : Dev) : Label → Prop
  | .call q _ => ¬ s.timedOut q
  | _ => True

/-- When a call looks for the last time, the controller has completed its command. -/
def timely (s : Dev) : Label → Prop
  | .poll => ∀ c ∈ s.call, c.spin + 1 = POLL_LIMIT →
      (s.queue c.qid).posted.length = (s.queue c.qid).issued
  | _ => True

end Nvme

end WinDOS
