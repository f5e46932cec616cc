import Mathlib.Data.List.Chain
import WinDOS.Fs.NvmeRuns

/-!
# Command identifiers

Both queues take the identifiers of their commands from one counter of 32 bits, of which an entry
holds the lower 16. The counter skips 0, the identifier does not.
-/

set_option autoImplicit false

namespace WinDOS

namespace Nvme

/-- The identifier in bits 31:16 of the first dword. -/
def Sqe.cid (e : Sqe) : Nat := e.dw 0 >>> 16

/-- The entry that a step puts into a submission queue. -/
def Dev.entered (s : Dev) : Label → List Sqe
  | .call q dw => if s.accepts q then [((s.submit q dw).queue q).sq (s.queue q).sqTail] else []
  | _ => []

/-- The states that steps lead to, with the entries submitted on the way, in order. -/
inductive Submits : List Sqe → Dev → Prop where
  | init : Submits [] nvmeInit
  | step {es : List Sqe} {s s' : Dev} {l : Label} (h : Submits es s) (hs : step s l = some s') :
    Submits (es ++ s.entered l) s'

/-- Before the counter comes back to 1 it has given this many identifiers. -/
def CID_PERIOD : Nat := 2 ^ 32 - 1

/-- What the next command takes from the counter. -/
def Dev.nextCid (s : Dev) : Nat := if s.cid = 0 then 1 else s.cid

section Counter

variable {es : List Sqe} {s s' : Dev}

theorem dw0_cid (x c : Nat) : ((x &&& 0xFFFF) ||| (c <<< 16) % 2 ^ 32) >>> 16 = c % 2 ^ 16 := by
  have hlow : (x &&& 0xFFFF) >>> 16 = 0 := by
    rw [show 0xFFFF = 2 ^ 16 - 1 from rfl, Nat.and_two_pow_sub_one_eq_mod,
      Nat.shiftRight_eq_div_pow]
    omega
  rw [Nat.shiftRight_or_distrib, hlow, Nat.zero_or, Nat.shiftLeft_eq, Nat.shiftRight_eq_div_pow]
  omega

theorem submit_cid {q : Qid} (h : s.accepts q = true) (dw : Nat → Nat) :
    (((s.submit q dw).queue q).sq (s.queue q).sqTail).cid = s.nextCid % 2 ^ 16 ∧
      (s.submit q dw).cid = (s.nextCid + 1) % 2 ^ 32 := by
  unfold Dev.submit
  rw [if_pos h]
  dsimp only
  rw [writeDb_dbSq]
  dsimp only
  refine ⟨?_, rfl⟩
  rw [Function.update_self, Function.update_self]
  dsimp only
  rw [Function.update_self, Sqe.cid]
  dsimp only
  rw [Function.update_self]
  exact dw0_cid _ _

/-- Only an accepted call submits an entry or moves the counter. -/
theorem step_counter {l : Label} (hs : step s l = some s') :
    (s.entered l = [] ∧ s'.cid = s.cid) ∨
      ∃ e, s.entered l = [e] ∧ e.cid = s.nextCid % 2 ^ 16 ∧ s'.cid = (s.nextCid + 1) % 2 ^ 32 := by
  cases l with
  | create =>
    obtain ⟨-, rfl⟩ := step_create hs
    exact .inl ⟨rfl, rfl⟩
  | call q dw =>
    obtain ⟨-, rfl⟩ := step_call hs
    by_cases hacc : s.accepts q = true
    · exact .inr ⟨_, if_pos hacc, submit_cid hacc dw⟩
    · refine .inl ⟨if_neg hacc, ?_⟩
      rw [Dev.submit, if_neg hacc]
  | poll =>
    obtain ⟨c, -, rfl⟩ := Option.map_eq_some_iff.mp hs
    refine .inl ⟨rfl, ?_⟩
    unfold Dev.poll
    dsimp only
    rw [take_eq]
    split
    · split <;> rfl
    · rfl
  | fetch q =>
    obtain ⟨r', -, rfl⟩ := Option.map_eq_some_iff.mp hs
    exact .inl ⟨rfl, rfl⟩
  | post q i dw0 st =>
    obtain ⟨r', -, rfl⟩ := Option.map_eq_some_iff.mp hs
    exact .inl ⟨rfl, rfl⟩

/-- The `k`th command of a run, on whichever queue, carries the `k`th value of the counter. -/
theorem Submits.counter (h : Submits es s) : s.nextCid = es.length % CID_PERIOD + 1 ∧
    es.map Sqe.cid = (List.range es.length).map fun k => (k % CID_PERIOD + 1) % 2 ^ 16 := by
  induction h with
  | init => exact ⟨rfl, rfl⟩
  | @step es s s' l h hs ih =>
    obtain ⟨hnext, hcids⟩ := ih
    rcases step_counter hs with ⟨hnone, hcid⟩ | ⟨e, hone, he, hcid⟩
    · rw [hnone, List.append_nil]
      refine ⟨?_, hcids⟩
      rw [Dev.nextCid, hcid]
      exact hnext
    · rw [hone, List.length_append, List.length_singleton, List.map_append, hcids,
        List.range_succ, List.map_append, List.map_singleton, List.map_singleton, he, hnext]
      refine ⟨?_, rfl⟩
      rw [Dev.nextCid, hcid, hnext]
      unfold CID_PERIOD
      split <;> omega

theorem Submits.cid_get (h : Submits es s) {k : Nat} (hk : k < (es.map Sqe.cid).length) :
    (es.map Sqe.cid).get ⟨k, hk⟩ = (k % CID_PERIOD + 1) % 2 ^ 16 := by
  have hcids := h.counter.2
  generalize es.map Sqe.cid = cids at hk hcids
  subst hcids
  rw [List.get_eq_getElem, List.getElem_map, List.getElem_range]

/-- Of two commands one after the other, the second carries another identifier, also where the
counter wraps. -/
theorem Submits.consecutive (h : Submits es s) : (es.map Sqe.cid).IsChain (· ≠ ·) := by
  rw [List.isChain_iff_getElem]
  intro k hk
  have h0 := h.cid_get (Nat.lt_of_succ_lt hk)
  have h1 := h.cid_get hk
  rw [List.get_eq_getElem] at h0 h1
  rw [h0, h1]
  unfold CID_PERIOD
  omega

/-- The identifiers of a run are right exactly if it has fewer than 2^16 commands. -/
theorem command_ids_right_iff (h : Submits es s) :
    ((∀ c ∈ es.map Sqe.cid, c ≠ 0) ∧ (es.map Sqe.cid).IsChain (· ≠ ·)) ↔ es.length < 2 ^ 16 := by
  rw [and_iff_left h.consecutive, h.counter.2]
  constructor
  · intro hne
    by_contra hlong
    exact hne _ (List.mem_map.mpr ⟨2 ^ 16 - 1, List.mem_range.mpr (by omega), rfl⟩) (by decide)
  · intro hshort c hc
    obtain ⟨k, hk, rfl⟩ := List.mem_map.mp hc
    have hlt := List.mem_range.mp hk
    rw [Nat.mod_eq_of_lt (show k < CID_PERIOD by unfold CID_PERIOD; omega),
      Nat.mod_eq_of_lt (by omega)]
    exact Nat.succ_ne_zero k

end Counter

/-! ### A controller that answers every command -/

/-- The queue between two commands that have been answered at once. -/
structure Idle (r : Queue) : Prop where
  sq : r.sqHead = r.sqTail ∧ r.sqTail < 64
  cq : r.cqTail = r.cqHead ∧ r.cqHeadDb = r.cqHead ∧ r.cqHead < 64
  phase : r.cqPhaseOut = r.cqPhase ∧ r.cqPhase < 2
  pending : r.pending = []

/-- The queue when its one command has been fetched and completed. -/
def Queue.answered (r : Queue) (dw : Nat → Nat) : Queue :=
  { r.submitted dw with
    sqHead := (r.sqHead + 1) % 64
    cq := Function.update r.cq r.cqTail (complete r.cqPhaseOut 0 success ⟨dw, r.issued⟩)
    cqTail := (r.cqTail + 1) % 64
    cqPhaseOut := if (r.cqTail + 1) % 64 = 0 then 1 - r.cqPhaseOut else r.cqPhaseOut
    pending := []
    posted := r.posted ++ [complete r.cqPhaseOut 0 success ⟨dw, r.issued⟩] }

theorem Idle.round {r : Queue} (h : Idle r) (dw : Nat → Nat) :
    ((r.submitted dw).fetch 64).bind (fun r' => r'.post 64 0 0 success) = some (r.answered dw) ∧
      ((r.answered dw).cq (r.answered dw).cqHead).phase = (r.answered dw).cqPhase ∧
      ((r.answered dw).cq (r.answered dw).cqHead).code = 0 ∧ Idle (r.answered dw).taken := by
  obtain ⟨⟨hsq, hsqlt⟩, ⟨hcq, hdb, hcqlt⟩, ⟨hout, hphase⟩, hpending⟩ := h
  refine ⟨?_, ?_⟩
  · unfold Queue.fetch Queue.submitted
    dsimp only
    rw [if_neg (by omega), Option.bind_some]
    unfold Queue.post
    dsimp only
    rw [hpending, hsq, Function.update_self, List.nil_append, List.getElem?_cons_zero]
    dsimp only
    rw [if_neg (by omega)]
    unfold Queue.answered Queue.submitted
    rw [hsq]
    rfl
  · unfold Queue.answered Queue.submitted
    dsimp only
    rw [hcq, Function.update_self, complete_phase (by omega), complete_code (by omega)]
    refine ⟨hout, rfl, ⟨congrArg (fun k => (k + 1) % 64) hsq, Nat.mod_lt _ (by decide)⟩,
      ⟨rfl, rfl, Nat.mod_lt _ (by decide)⟩, ?_, rfl⟩
    unfold Queue.taken
    dsimp only
    rw [hout]
    split
    · rw [xor_one hphase]
      omega
    · exact ⟨rfl, hphase⟩

/-- A device between two commands, all of them successful so far. -/
structure Serves (s : Dev) : Prop where
  ready : s.ready = true
  call : s.call = none
  idle : Idle (s.queue .admin)
  results : ∀ x ∈ s.results, x.code = 0

theorem poll_takes {s : Dev} {c : Call} (hspin : c.spin < POLL_LIMIT)
    (hphase : ((s.queue c.qid).cq (s.queue c.qid).cqHead).phase = (s.queue c.qid).cqPhase) :
    s.poll c = { s with
      queue := Function.update s.queue c.qid (s.queue c.qid).taken
      call := none
      results := s.results ++ [Result.mk c.qid c.cmd
        ((s.queue c.qid).cq (s.queue c.qid).cqHead).code
        (some ((s.queue c.qid).cq (s.queue c.qid).cqHead))] } := by
  unfold Dev.poll
  dsimp only
  rw [if_pos hspin, if_pos hphase, take_eq]

theorem Serves.round {es : List Sqe} {s : Dev} (h : Submits es s) (hs : Serves s) :
    ∃ es' s', Submits es' s' ∧ es'.length = es.length + 1 ∧ Serves s' := by
  obtain ⟨cid, dw, hsub⟩ := submit_eq (q := .admin) hs.ready noDw
  obtain ⟨hanswered, hphase, hcode, hidle⟩ := hs.idle.round dw
  obtain ⟨r1, hfetch, hpost⟩ := Option.bind_eq_some_iff.mp hanswered
  have h1 := @Submits.step _ _ _ (.call .admin noDw) h (if_pos (by rw [hs.call]; rfl))
  rw [hsub] at h1
  have h2 := @Submits.step _ _ _ (.fetch .admin) h1 (by
    unfold step Dev.withQueue
    dsimp only
    rw [Function.update_self, entries_eq, hfetch, Option.map_some, Function.update_idem])
  have h3 := @Submits.step _ _ _ (.post .admin 0 0 success) h2 (by
    unfold step Dev.withQueue
    dsimp only
    rw [Function.update_self, entries_eq, hpost, Option.map_some, Function.update_idem])
  have h4 := @Submits.step _ _ _ .poll h3 (congrArg some
    (poll_takes (c := ⟨.admin, (s.queue .admin).issued, 0⟩)
      (show 0 < POLL_LIMIT by decide) (by
      dsimp only
      rw [Function.update_self]
      exact hphase)))
  refine ⟨_, _, h4, ?_, hs.ready, rfl, ?_, fun x hx => ?_⟩
  · rw [Dev.entered, if_pos (show s.accepts .admin = true from hs.ready)]
    simp only [Dev.entered, List.append_nil, List.length_append, List.length_singleton]
  · dsimp only
    rw [Function.update_self, Function.update_self]
    exact hidle
  · rcases List.mem_append.mp hx with hx | hx
    · exact hs.results x hx
    · rw [List.mem_singleton.mp hx]
      dsimp only
      rw [Function.update_self, hcode]
      rfl

theorem Serves.run (n : Nat) : ∃ es s, Submits es s ∧ es.length = n ∧ Serves s := by
  induction n with
  | zero =>
    exact ⟨[], nvmeInit, .init, rfl, rfl, rfl, ⟨⟨rfl, by decide⟩, ⟨rfl, rfl, by decide⟩,
      ⟨rfl, by decide⟩, rfl⟩, fun x hx => by cases hx⟩
  | succ n ih =>
    obtain ⟨es, s, h, hlen, hs⟩ := ih
    obtain ⟨es', s', h', hlen', hs'⟩ := Serves.round h hs
    exact ⟨es', s', h', by rw [hlen', hlen], hs'⟩

theorem command_ids_right_two : ∃ es s, Submits es s ∧ es.length = 2 ∧
    (((∀ c ∈ es.map Sqe.cid, c ≠ 0) ∧ (es.map Sqe.cid).IsChain (· ≠ ·)) ↔ es.length < 2 ^ 16) := by
  obtain ⟨es, s, h, hlen, -⟩ := Serves.run 2
  exact ⟨es, s, h, hlen, command_ids_right_iff h⟩

/-- The last of 65536 commands, all of them successful, carries the identifier 0. -/
theorem command_id_zero : ∃ es s, Submits es s ∧ es.length = 65536 ∧ (∀ x ∈ s.results, x.code = 0) ∧
    ∃ e ∈ es, e.cid = 0 := by
  obtain ⟨es, s, h, hlen, hs⟩ := Serves.run 65536
  have hmem : 0 ∈ es.map Sqe.cid := by
    rw [h.counter.2, hlen]
    exact List.mem_map.mpr ⟨65535, List.mem_range.mpr (by omega), rfl⟩
  obtain ⟨e, he, hcid⟩ := List.mem_map.mp hmem
  exact ⟨es, s, h, hlen, hs.results, e, he, hcid⟩

end Nvme

end WinDOS
