import WinDOS.Fs.Nvme
import WinDOS.Lib.PhaseRing

/-!
# One NVMe queue pair

What the steps of the driver and the controller do to a queue on which no call has given up:
its commands lie in order between the two sides, and the ring of completions has the phases of
its laps.
-/

set_option autoImplicit false

namespace WinDOS

namespace Nvme

open PhaseRing

/-! ### Entries -/

section Entry

variable {phase dw0 : Nat} {st : Status} {e : Sqe}

theorem complete_phase (h : phase < 2) : (complete phase dw0 st e).phase = phase := by
  have hcid : e.dw 0 >>> 16 % 2 ^ 16 < 2 ^ 16 := Nat.mod_lt _ (by decide)
  unfold Cqe.phase
  rw [Nat.shiftRight_eq_div_pow, Nat.and_one_is_mod]
  unfold complete
  dsimp only
  omega

theorem complete_code (h : phase < 2) : (complete phase dw0 st e).code = st.code := by
  have hcid : e.dw 0 >>> 16 % 2 ^ 16 < 2 ^ 16 := Nat.mod_lt _ (by decide)
  have hsc := st.sc.isLt
  have hsct := st.sct.isLt
  have hrest := st.rest.isLt
  have hlow : ((complete phase dw0 st e).dw3 >>> 17) &&& 0xFF = st.sc.val := by
    rw [Nat.shiftRight_eq_div_pow, Nat.and_two_pow_sub_one_eq_mod _ 8]
    unfold complete
    dsimp only
    omega
  have hhigh : ((complete phase dw0 st e).dw3 >>> 25) &&& 0x7 = st.sct.val := by
    rw [Nat.shiftRight_eq_div_pow, Nat.and_two_pow_sub_one_eq_mod _ 3]
    unfold complete
    dsimp only
    omega
  unfold Cqe.code
  rw [hlow, hhigh]
  dsimp only
  split
  · rfl
  · rename_i hzero
    rw [not_or, not_not, not_not] at hzero
    rw [Status.code, hzero.1, hzero.2]
    rfl

end Entry

/-! ### What a step does to the queues -/

section Frame

variable {s : Dev} {q : Qid}

theorem entries_eq (q : Qid) : q.entries = 64 := by cases q <;> rfl

/-- The queue of a command that has been submitted. -/
def Queue.submitted (r : Queue) (dw : Nat → Nat) : Queue :=
  { r with
    sq := Function.update r.sq r.sqTail ⟨dw, r.issued⟩
    sqTail := (r.sqTail + 1) % 64
    issued := r.issued + 1
    sqTailDb := (r.sqTail + 1) % 64 }

/-- The queue whose head entry has been taken. -/
def Queue.taken (r : Queue) : Queue :=
  { r with
    cqHead := (r.cqHead + 1) % 64
    cqPhase := if (r.cqHead + 1) % 64 = 0 then r.cqPhase ^^^ 1 else r.cqPhase
    cqHeadDb := (r.cqHead + 1) % 64 }

theorem writeDb_dbSq (s : Dev) (q : Qid) (v : Nat) : s.writeDb q.dbSq v =
    { s with queue := Function.update s.queue q { s.queue q with sqTailDb := v } } := by
  unfold Dev.writeDb
  congr 1
  funext q'
  cases q <;> cases q' <;> rfl

theorem writeDb_dbCq (s : Dev) (q : Qid) (v : Nat) : s.writeDb q.dbCq v =
    { s with queue := Function.update s.queue q { s.queue q with cqHeadDb := v } } := by
  unfold Dev.writeDb
  congr 1
  funext q'
  cases q <;> cases q' <;> rfl

theorem submit_eq (h : s.accepts q = true) (dw : Nat → Nat) : ∃ cid dw', s.submit q dw =
    { s with
      cid := cid
      queue := Function.update s.queue q ((s.queue q).submitted dw')
      call := some ⟨q, (s.queue q).issued, 0⟩ } := by
  unfold Dev.submit
  rw [if_pos h, entries_eq]
  dsimp only
  rw [writeDb_dbSq]
  dsimp only
  rw [Function.update_self, Function.update_idem]
  exact ⟨_, _, rfl⟩

theorem take_eq (s : Dev) (c : Call) : s.take c =
    { s with
      queue := Function.update s.queue c.qid (s.queue c.qid).taken
      call := none
      results := s.results ++ [Result.mk c.qid c.cmd
        ((s.queue c.qid).cq (s.queue c.qid).cqHead).code
        (some ((s.queue c.qid).cq (s.queue c.qid).cqHead))] } := by
  unfold Dev.take
  rw [entries_eq]
  dsimp only
  rw [writeDb_dbCq]
  dsimp only
  rw [Function.update_self, Function.update_idem]
  rfl

end Frame

/-! ### One queue -/

theorem xor_one {p : Nat} (h : p < 2) : p ^^^ 1 = 1 - p := by
  rcases (show p = 0 ∨ p = 1 by omega) with rfl | rfl <;> rfl

/-- A queue whose calls have taken `n` entries: the commands lie between the driver and the
controller in order, at most one of them is outstanding, and the ring holds the entries. -/
structure QueueInv (r : Queue) (n : Nat) : Prop where
  order : n ≤ r.posted.length ∧ r.posted.length + r.pending.length ≤ r.issued ∧ r.issued ≤ n + 1
  tail : r.sqTail = r.issued % 64 ∧ r.sqTailDb = r.issued % 64
  fetched : r.sqHead = (r.posted.length + r.pending.length) % 64
  slot : r.posted.length + r.pending.length < r.issued →
    (r.sq r.sqHead).cmd = r.posted.length + r.pending.length
  pending : ∀ e ∈ r.pending, e.cmd = r.posted.length
  head : r.cqHead = n % 64 ∧ r.cqHeadDb = n % 64 ∧ r.cqPhase = phase 64 n
  out : r.cqTail = r.posted.length % 64 ∧ r.cqPhaseOut = phase 64 r.posted.length
  ring : Holds 64 Cqe.phase r.cq r.posted
  cmds : r.posted.map Cqe.cmd = List.range r.posted.length
  codes : ∀ e ∈ r.posted, e.code = e.status.code

/-- A queue with the calls on it that have returned, and the command of the one that has not. -/
structure Live (r : Queue) (res : List Result) (cmd : Option Nat) : Prop where
  queue : QueueInv r res.length
  issued : r.issued = res.length + cmd.toList.length
  own : ∀ k ∈ cmd, k = res.length
  entries : res.map Result.entry = (r.posted.take res.length).map some
  cmds : res.map Result.cmd = List.range res.length
  codes : ∀ x ∈ res, ∀ e ∈ x.entry, x.code = e.status.code

theorem Live.init : Live emptyQueue [] none := by
  have hzero : (0 >>> 16) &&& 1 = 0 := by decide
  refine ⟨⟨⟨Nat.le_refl _, Nat.le_refl _, Nat.le_succ _⟩, ⟨rfl, rfl⟩, rfl, ?_, ?_,
    ⟨rfl, rfl, rfl⟩, ⟨rfl, rfl⟩, Holds.init fun _ _ => hzero, rfl, ?_⟩, rfl, ?_, rfl, rfl, ?_⟩
  · intro h
    exact absurd h (Nat.lt_irrefl _)
  · intro e he
    cases he
  · intro e he
    cases he
  · intro k hk
    cases hk
  · intro x hx
    cases hx

section Live

variable {r r' : Queue} {res : List Result} {cmd : Option Nat}

theorem Live.submitted (h : Live r res none) (dw : Nat → Nat) :
    Live (r.submitted dw) res (some r.issued) := by
  have hissued : r.issued = res.length := h.issued
  obtain ⟨h0, h1, h2⟩ := h.queue.order
  have hfetched := h.queue.fetched
  have hsum : r.posted.length + r.pending.length = r.issued := by omega
  have htail : (r.sqTail + 1) % 64 = (r.issued + 1) % 64 := by
    rw [h.queue.tail.1, next_mod]
  refine ⟨⟨⟨h0, ?_, ?_⟩, ⟨htail, htail⟩, hfetched, fun _ => ?_, h.queue.pending, h.queue.head,
    h.queue.out, h.queue.ring, h.queue.cmds, h.queue.codes⟩, ?_, ?_, h.entries, h.cmds, h.codes⟩
  · exact Nat.le_succ_of_le h1
  · exact Nat.succ_le_succ (Nat.le_of_eq hissued)
  · change (Function.update r.sq r.sqTail ⟨dw, r.issued⟩ r.sqHead).cmd = _
    rw [hfetched, hsum, ← h.queue.tail.1, Function.update_self]
    exact hsum.symm
  · exact congrArg (· + 1) hissued
  · intro k hk
    rw [← Option.mem_some.mp hk, hissued]

theorem Live.fetch (h : Live r res cmd) (hf : r.fetch 64 = some r') : Live r' res cmd := by
  unfold Queue.fetch at hf
  split at hf
  · cases hf
  · rename_i hne
    obtain rfl := Option.some.inj hf
    obtain ⟨h0, h1, h2⟩ := h.queue.order
    have hfetched := h.queue.fetched
    have hlt : r.posted.length + r.pending.length < r.issued := by
      rcases Nat.lt_or_ge (r.posted.length + r.pending.length) r.issued with hlt | hge
      · exact hlt
      · exact absurd (by rw [hfetched, h.queue.tail.2, Nat.le_antisymm h1 hge]) hne
    have hlen : (r.pending ++ [r.sq r.sqHead]).length = r.pending.length + 1 := by
      rw [List.length_append, List.length_singleton]
    refine ⟨⟨⟨h0, ?_, h2⟩, h.queue.tail, ?_, fun hlt' => ?_, fun e he => ?_, h.queue.head,
      h.queue.out, h.queue.ring, h.queue.cmds, h.queue.codes⟩, h.issued, h.own, h.entries, h.cmds,
      h.codes⟩
    · dsimp only
      omega
    · dsimp only
      rw [hlen, hfetched, next_mod]
      rfl
    · dsimp only at hlt'
      omega
    · rcases List.mem_append.mp he with he | he
      · exact h.queue.pending e he
      · rw [List.mem_singleton.mp he, h.queue.slot hlt]
        dsimp only
        omega

theorem Live.post (h : Live r res cmd) {i dw0 : Nat} {st : Status}
    (hp : r.post 64 i dw0 st = some r') : Live r' res cmd := by
  unfold Queue.post at hp
  split at hp
  · cases hp
  · rename_i e he
    split at hp
    · cases hp
    · obtain rfl := Option.some.inj hp
      obtain ⟨h0, h1, h2⟩ := h.queue.order
      obtain ⟨hi, he'⟩ := List.getElem?_eq_some_iff.mp he
      have hcmd : e.cmd = r.posted.length := h.queue.pending e (List.mem_of_getElem? he)
      have hlen : (r.posted ++ [complete r.cqPhaseOut dw0 st e]).length = r.posted.length + 1 := by
        rw [List.length_append, List.length_singleton]
      have hpend : (r.pending.eraseIdx i).length = r.pending.length - 1 :=
        List.length_eraseIdx_of_lt hi
      have hphase : r.cqPhaseOut < 2 := by
        rw [h.queue.out.2]
        exact phase_lt _ _
      have htail : (r.cqTail + 1) % 64 = (r.posted.length + 1) % 64 := by
        rw [h.queue.out.1, next_mod]
      refine ⟨⟨⟨?_, ?_, h2⟩, h.queue.tail, ?_, ?_, ?_, h.queue.head, ⟨?_, ?_⟩, ?_, ?_, ?_⟩,
        h.issued, h.own, ?_, h.cmds, h.codes⟩
      · dsimp only
        omega
      · dsimp only
        omega
      · dsimp only
        rw [hlen, hpend, h.queue.fetched]
        congr 1
        omega
      · dsimp only
        rw [hlen, hpend]
        omega
      · intro e' he'
        have := List.length_pos_of_mem he'
        dsimp only at this
        omega
      · dsimp only
        rw [htail, hlen]
      · dsimp only
        rw [htail, hlen, h.queue.out.2]
        split
        · rename_i hwrap
          rw [phase_succ_wrap hwrap]
        · rename_i hsame
          rw [phase_succ_same hsame]
      · dsimp only
        rw [h.queue.out.1]
        exact h.queue.ring.push ((complete_phase hphase).trans h.queue.out.2)
      · dsimp only
        rw [hlen, List.map_append, h.queue.cmds, List.range_succ]
        exact congrArg (fun k => List.range r.posted.length ++ [k]) hcmd
      · intro e' he'
        rcases List.mem_append.mp he' with he' | he'
        · exact h.queue.codes e' he'
        · rw [List.mem_singleton.mp he']
          exact complete_code hphase
      · dsimp only
        rw [List.take_append_of_le_length h0]
        exact h.entries

/-- The entry at the head has the driver's phase exactly if the command's completion is there. -/
theorem QueueInv.head_phase {n : Nat} (h : QueueInv r n) :
    (r.cq r.cqHead).phase = r.cqPhase ↔ n < r.posted.length := by
  obtain ⟨hn, h1, h2⟩ := h.order
  rw [h.head.1, h.head.2.2]
  constructor
  · intro heq
    rcases Nat.lt_or_ge n r.posted.length with hlt | hge
    · exact hlt
    · have hstale := h.ring.head_stale (by omega)
      rw [Nat.le_antisymm hge hn, heq] at hstale
      have := phase_lt 64 n
      omega
  · intro hlt
    rw [h.ring.recent n hlt (by omega)]
    exact h.ring.tagged n hlt

/-- A call that takes an entry takes its own command's. -/
theorem Live.taken {k : Nat} {q : Qid} (h : Live r res (some k))
    (hphase : (r.cq r.cqHead).phase = r.cqPhase) :
    Live r.taken (res ++ [Result.mk q k (r.cq r.cqHead).code (some (r.cq r.cqHead))]) none ∧
      r.cq r.cqHead ∈ r.posted ∧ (r.cq r.cqHead).cmd = k ∧
      (r.cq r.cqHead).code = (r.cq r.cqHead).status.code := by
  have hk : k = res.length := h.own k rfl
  have hlt : res.length < r.posted.length := h.queue.head_phase.mp hphase
  obtain ⟨h0, h1, h2⟩ := h.queue.order
  have hissued : r.issued = res.length + 1 := h.issued
  have hhead : r.cq r.cqHead = r.posted[res.length] := by
    rw [h.queue.head.1]
    exact h.queue.ring.recent _ hlt (by omega)
  have hmem : r.cq r.cqHead ∈ r.posted := by
    rw [hhead]
    exact List.getElem_mem hlt
  have hcode := h.queue.codes _ hmem
  have hcmd : (r.cq r.cqHead).cmd = k := by
    have hmap := congrArg (·[res.length]?) h.queue.cmds
    rw [List.getElem?_map, List.getElem?_eq_getElem hlt, List.getElem?_range hlt] at hmap
    rw [hhead, hk]
    exact Option.some.inj hmap
  have hnext : (r.cqHead + 1) % 64 = (res.length + 1) % 64 := by
    rw [h.queue.head.1, next_mod]
  refine ⟨⟨⟨⟨?_, h1, ?_⟩, h.queue.tail, h.queue.fetched, h.queue.slot, h.queue.pending,
    ⟨?_, ?_, ?_⟩, h.queue.out, h.queue.ring, h.queue.cmds, h.queue.codes⟩, ?_, ?_, ?_, ?_, ?_⟩,
    hmem, hcmd, hcode⟩
  · rw [List.length_append, List.length_singleton]
    exact hlt
  · rw [List.length_append, List.length_singleton]
    change r.issued ≤ _
    omega
  · rw [List.length_append, List.length_singleton]
    exact hnext
  · rw [List.length_append, List.length_singleton]
    exact hnext
  · rw [List.length_append, List.length_singleton]
    change (if (r.cqHead + 1) % 64 = 0 then r.cqPhase ^^^ 1 else r.cqPhase) = _
    rw [hnext, h.queue.head.2.2]
    split
    · rename_i hwrap
      rw [phase_succ_wrap hwrap, xor_one (phase_lt _ _)]
    · rename_i hsame
      rw [phase_succ_same hsame]
  · rw [List.length_append, List.length_singleton]
    exact hissued
  · intro k hk
    cases hk
  · change _ = (r.posted.take _).map some
    rw [List.length_append, List.length_singleton, List.map_append, h.entries,
      List.take_add_one, List.map_append, List.getElem?_eq_getElem hlt, ← hhead]
    rfl
  · rw [List.map_append, h.cmds, List.length_append, List.length_singleton, List.range_succ, ← hk]
    rfl
  · intro x hx e he
    rcases List.mem_append.mp hx with hx | hx
    · exact h.codes x hx e he
    · obtain rfl := List.mem_singleton.mp hx
      obtain rfl := Option.mem_some.mp he
      rw [hcode]

end Live

end Nvme

end WinDOS
