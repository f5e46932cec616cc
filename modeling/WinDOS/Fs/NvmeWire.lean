import WinDOS.Fs.NvmeIds

/-!
# Commands in the pages of the submission queues

The driver puts a command into memory as eight words of 64 bits at the tail of its queue; the
controller reads sixteen dwords there. In every run the pages hold what the queues hold, and what
the controller reads of a call of `nvme_rw` are the arguments of the call, with one exception: it
takes a block count that is not between 1 and 2^16 for another one.
-/

set_option autoImplicit false

namespace WinDOS

namespace Nvme

/-! ### Words of two dwords -/

theorem word_low {a b : Nat} (ha : a < 2 ^ 32) : (a ||| b <<< 32) % 2 ^ 32 = a := by
  rw [Nat.or_comm, ← Nat.shiftLeft_add_eq_or_of_lt ha, Nat.shiftLeft_eq]
  omega

theorem word_high {a b : Nat} (ha : a < 2 ^ 32) (hb : b < 2 ^ 32) :
    (a ||| b <<< 32) >>> 32 % 2 ^ 32 = b := by
  rw [Nat.or_comm, ← Nat.shiftLeft_add_eq_or_of_lt ha, Nat.shiftLeft_eq, Nat.shiftRight_eq_div_pow]
  omega

/-- The loop that writes `sq[pos * 8 + i]` for the first `n` words. -/
def writeWords (sq : Nat → Nat) (pos : Nat) (dw : Nat → Nat) (n : Nat) : Nat → Nat :=
  (List.range n).foldl
    (fun sq i => Function.update sq (pos * 8 + i) (dw (i * 2) ||| dw (i * 2 + 1) <<< 32)) sq

def writeSqe (sq : Nat → Nat) (pos : Nat) (dw : Nat → Nat) : Nat → Nat := writeWords sq pos dw 8

/-- Dword `k` of the entry at `pos`, as the controller reads it. -/
def dwordAt (sq : Nat → Nat) (pos k : Nat) : Nat := sq (pos * 8 + k / 2) >>> (32 * (k % 2)) % 2 ^ 32

theorem writeWords_at (sq : Nat → Nat) (pos : Nat) (dw : Nat → Nat) (n j : Nat) :
    writeWords sq pos dw n j = if pos * 8 ≤ j ∧ j < pos * 8 + n then
      dw ((j - pos * 8) * 2) ||| dw ((j - pos * 8) * 2 + 1) <<< 32 else sq j := by
  induction n with
  | zero => exact (if_neg (by omega)).symm
  | succ n ih =>
    unfold writeWords at ih ⊢
    rw [List.range_succ, List.foldl_append, List.foldl_cons, List.foldl_nil, Function.update_apply,
      ih]
    by_cases hj : j = pos * 8 + n
    · rw [if_pos hj, if_pos (by omega), hj, Nat.add_sub_cancel_left]
    · rw [if_neg hj]
      exact if_congr (by omega) rfl rfl

theorem dwordAt_written (sq : Nat → Nat) (pos : Nat) {dw : Nat → Nat} (hdw : ∀ k < 16, dw k < 2 ^ 32)
    {k : Nat} (hk : k < 16) : dwordAt (writeSqe sq pos dw) pos k = dw k := by
  unfold dwordAt writeSqe
  rw [writeWords_at, if_pos (by omega), Nat.add_sub_cancel_left]
  have hlow := hdw (k / 2 * 2) (by omega)
  rcases Nat.mod_two_eq_zero_or_one k with h | h
  · rw [h, Nat.mul_zero, Nat.shiftRight_zero, word_low hlow, show k / 2 * 2 = k by omega]
  · rw [h, Nat.mul_one, word_high hlow (hdw _ (by omega)), show k / 2 * 2 + 1 = k by omega]

theorem dwordAt_other (sq : Nat → Nat) {pos pos' : Nat} (h : pos' ≠ pos) (dw : Nat → Nat) {k : Nat}
    (hk : k < 16) : dwordAt (writeSqe sq pos dw) pos' k = dwordAt sq pos' k := by
  unfold dwordAt writeSqe
  rw [writeWords_at, if_neg (by omega)]

/-! ### The pages in a run -/

/-- The command of a call with its identifier. -/
def Dev.command (s : Dev) (dw : Nat → Nat) : Nat → Nat :=
  Function.update dw 0 ((dw 0 &&& 0xFFFF) ||| (s.nextCid <<< 16) % 2 ^ 32)

/-- The words of the submission pages after a step. -/
def Dev.pagesAfter (s : Dev) (pages : Qid → Nat → Nat) : Label → Qid → Nat → Nat
  | .create => Function.update pages .io fun _ => 0
  | .call q dw =>
    if s.accepts q then
      Function.update pages q (writeSqe (pages q) (s.queue q).sqTail (s.command dw))
    else pages
  | _ => pages

/-- The dwords of a call are of 32 bits. -/
def Label.Dwords : Label → Prop
  | .call _ dw => ∀ k < 16, dw k < 2 ^ 32
  | _ => True

/-- Runs with the words in memory; `nvme_init` has cleared the pages. -/
inductive WireRun : Dev → (Qid → Nat → Nat) → Prop where
  | init : WireRun nvmeInit fun _ _ => 0
  | step {s s' : Dev} {pages : Qid → Nat → Nat} {l : Label} (h : WireRun s pages) (hdw : l.Dwords)
    (hs : step s l = some s') : WireRun s' (s.pagesAfter pages l)

/-- The page holds the entries of the queue. -/
structure Holds (page : Nat → Nat) (r : Queue) : Prop where
  tail : r.sqTail < 64
  entry : ∀ pos < 64, ∀ k < 16, dwordAt page pos k = (r.sq pos).dw k

theorem holds_empty : Holds (fun _ => 0) emptyQueue := by
  refine ⟨by decide, fun pos _ k _ => ?_⟩
  unfold dwordAt
  rw [Nat.zero_shiftRight]
  rfl

theorem Holds.congr {page : Nat → Nat} {r r' : Queue} (h : Holds page r) (hsq : r'.sq = r.sq)
    (htail : r'.sqTail = r.sqTail) : Holds page r' :=
  ⟨htail ▸ h.tail, fun pos hpos k hk => hsq ▸ h.entry pos hpos k hk⟩

theorem submit_queue {s : Dev} {q : Qid} (h : s.accepts q = true) (dw : Nat → Nat) :
    (s.submit q dw).queue = Function.update s.queue q ((s.queue q).submitted (s.command dw)) := by
  unfold Dev.submit
  rw [if_pos h, entries_eq]
  dsimp only
  rw [writeDb_dbSq]
  dsimp only
  rw [Function.update_self, Function.update_idem]
  rfl

theorem command_lt {s : Dev} {dw : Nat → Nat} (h : ∀ k < 16, dw k < 2 ^ 32) :
    ∀ k < 16, s.command dw k < 2 ^ 32 := by
  intro k hk
  unfold Dev.command
  rw [Function.update_apply]
  split
  · refine Nat.or_lt_two_pow ?_ (Nat.mod_lt _ (by decide))
    exact lt_of_le_of_lt Nat.and_le_right (by decide)
  · exact h k hk

theorem Holds.submitted {page : Nat → Nat} {r : Queue} (h : Holds page r) {dw : Nat → Nat}
    (hdw : ∀ k < 16, dw k < 2 ^ 32) : Holds (writeSqe page r.sqTail dw) (r.submitted dw) := by
  refine ⟨Nat.mod_lt _ (by decide), fun pos hpos k hk => ?_⟩
  change _ = (Function.update r.sq r.sqTail ⟨dw, r.issued⟩ pos).dw k
  by_cases hp : pos = r.sqTail
  · rw [hp, Function.update_self, dwordAt_written page r.sqTail hdw hk]
  · rw [Function.update_of_ne hp, dwordAt_other page hp dw hk, h.entry pos hpos k hk]

/-- A step of the controller leaves the submission entries. -/
theorem withQueue_keeps {s s' : Dev} {q : Qid} {o : Option Queue}
    (hs : s.withQueue q o = some s')
    (ho : ∀ r ∈ o, r.sq = (s.queue q).sq ∧ r.sqTail = (s.queue q).sqTail) (q' : Qid) :
    (s'.queue q').sq = (s.queue q').sq ∧ (s'.queue q').sqTail = (s.queue q').sqTail := by
  obtain ⟨r, hr, rfl⟩ := Option.map_eq_some_iff.mp hs
  dsimp only
  rw [Function.update_apply]
  split
  · rename_i hq
    rw [hq]
    exact ho r hr
  · exact ⟨rfl, rfl⟩

theorem fetch_keeps {r r' : Queue} {n : Nat} (h : r' ∈ r.fetch n) :
    r'.sq = r.sq ∧ r'.sqTail = r.sqTail := by
  unfold Queue.fetch at h
  split at h
  · exact nomatch h
  · obtain rfl := Option.some.inj h
    exact ⟨rfl, rfl⟩

theorem post_keeps {r r' : Queue} {n i dw0 : Nat} {st : Status} (h : r' ∈ r.post n i dw0 st) :
    r'.sq = r.sq ∧ r'.sqTail = r.sqTail := by
  unfold Queue.post at h
  split at h
  · exact nomatch h
  · split at h
    · exact nomatch h
    · obtain rfl := Option.some.inj h
      exact ⟨rfl, rfl⟩

theorem poll_keeps (s : Dev) (c : Call) (q : Qid) :
    ((s.poll c).queue q).sq = (s.queue q).sq ∧ ((s.poll c).queue q).sqTail = (s.queue q).sqTail := by
  unfold Dev.poll
  dsimp only
  rw [take_eq]
  split
  · split
    · dsimp only
      rw [Function.update_apply]
      split
      · rename_i hq
        rw [hq]
        exact ⟨rfl, rfl⟩
      · exact ⟨rfl, rfl⟩
    · exact ⟨rfl, rfl⟩
  · exact ⟨rfl, rfl⟩

theorem WireRun.holds {s : Dev} {pages : Qid → Nat → Nat} (h : WireRun s pages) (q : Qid) :
    Holds (pages q) (s.queue q) := by
  induction h generalizing q with
  | init => exact holds_empty
  | @step s s' pages l h hdw hs ih =>
    cases l with
    | create =>
      obtain ⟨-, rfl⟩ := step_create hs
      change Holds (Function.update pages .io (fun _ => 0) q)
        (Function.update s.queue .io emptyQueue q)
      rw [Function.update_apply, Function.update_apply]
      split
      · exact holds_empty
      · exact ih q
    | call q' dw =>
      obtain ⟨-, rfl⟩ := step_call hs
      unfold Dev.pagesAfter
      by_cases hacc : s.accepts q' = true
      · dsimp only
        rw [if_pos hacc, submit_queue hacc, Function.update_apply, Function.update_apply]
        split
        · exact (ih q').submitted (command_lt hdw)
        · exact ih q
      · dsimp only
        rw [if_neg hacc, Dev.submit, if_neg hacc]
        exact ih q
    | poll =>
      obtain ⟨c, -, rfl⟩ := Option.map_eq_some_iff.mp hs
      obtain ⟨hsq, htail⟩ := poll_keeps s c q
      exact (ih q).congr hsq htail
    | fetch q' =>
      obtain ⟨hsq, htail⟩ := withQueue_keeps hs (fun r hr => fetch_keeps hr) q
      exact (ih q).congr hsq htail
    | post q' i dw0 st =>
      obtain ⟨hsq, htail⟩ := withQueue_keeps hs (fun r hr => post_keeps hr) q
      exact (ih q).congr hsq htail

/-! ### Reading and writing blocks -/

/-- The arguments of `nvme_rw`, of the widths of its parameters; the opcode is one byte of the
command. -/
structure RwArgs where
  opcode : Nat
  nsid : Nat
  slba : Nat
  nlb : Nat
  buf : Nat
  opcode_lt : opcode < 2 ^ 8
  nsid_lt : nsid < 2 ^ 32
  slba_lt : slba < 2 ^ 64
  nlb_lt : nlb < 2 ^ 32
  buf_lt : buf < 2 ^ 64

/-- The command that `nvme_rw` gives to `nvme_io_cmd`. -/
def nvmeRw (a : RwArgs) : Nat → Nat :=
  let dw : Nat → Nat := fun _ => 0
  let dw := Function.update dw 0 a.opcode
  let dw := Function.update dw 1 a.nsid
  let dw := Function.update dw 6 (a.buf % 2 ^ 32)
  let dw := Function.update dw 7 (a.buf >>> 32 % 2 ^ 32)
  let dw := Function.update dw 10 (a.slba % 2 ^ 32)
  let dw := Function.update dw 11 (a.slba >>> 32 % 2 ^ 32)
  Function.update dw 12 ((a.nlb + (2 ^ 32 - 1)) % 2 ^ 32 &&& 0xFFFF)

/-- A read or write command as the controller understands it; the count in the command is one
less than the number of blocks. -/
structure RwCommand where
  opcode : Nat
  cid : Nat
  nsid : Nat
  prp1 : Nat
  prp2 : Nat
  slba : Nat
  blocks : Nat

def decodeRw (page : Nat → Nat) (pos : Nat) : RwCommand where
  opcode := dwordAt page pos 0 % 2 ^ 8
  cid := dwordAt page pos 0 >>> 16
  nsid := dwordAt page pos 1
  prp1 := dwordAt page pos 6 + dwordAt page pos 7 * 2 ^ 32
  prp2 := dwordAt page pos 8 + dwordAt page pos 9 * 2 ^ 32
  slba := dwordAt page pos 10 + dwordAt page pos 11 * 2 ^ 32
  blocks := dwordAt page pos 12 % 2 ^ 16 + 1

theorem nvmeRw_dwords (a : RwArgs) : ∀ k < 16, nvmeRw a k < 2 ^ 32 := by
  have h0 := a.opcode_lt
  have h1 := a.nsid_lt
  have hmask : (a.nlb + (2 ^ 32 - 1)) % 2 ^ 32 &&& 0xFFFF < 2 ^ 32 :=
    lt_of_le_of_lt Nat.and_le_right (by decide)
  intro k _
  unfold nvmeRw
  simp only [Function.update_apply]
  split_ifs <;> omega

theorem nvmeRw_fields (a : RwArgs) : nvmeRw a 1 = a.nsid ∧ nvmeRw a 6 = a.buf % 2 ^ 32 ∧
    nvmeRw a 7 = a.buf >>> 32 % 2 ^ 32 ∧ nvmeRw a 8 = 0 ∧ nvmeRw a 9 = 0 ∧
    nvmeRw a 10 = a.slba % 2 ^ 32 ∧ nvmeRw a 11 = a.slba >>> 32 % 2 ^ 32 ∧
    nvmeRw a 12 = (a.nlb + (2 ^ 32 - 1)) % 2 ^ 32 &&& 0xFFFF := by
  unfold nvmeRw
  simp

/-- The controller reads the arguments of `nvme_rw` at the tail of the queue, the block count
exactly if it is between 1 and 2^16; no other entry changes. -/
theorem WireRun.rw {s : Dev} {pages : Qid → Nat → Nat} (h : WireRun s pages)
    (hready : s.accepts .io = true) (a : RwArgs) :
    let page := s.pagesAfter pages (.call .io (nvmeRw a)) .io
    let c := decodeRw page (s.queue .io).sqTail
    (c.opcode = a.opcode ∧ c.cid = s.nextCid % 2 ^ 16 ∧ c.nsid = a.nsid ∧ c.prp1 = a.buf ∧
      c.prp2 = 0 ∧ c.slba = a.slba) ∧
    (c.blocks = a.nlb ↔ 1 ≤ a.nlb ∧ a.nlb ≤ 2 ^ 16) ∧
    ∀ pos < 64, pos ≠ (s.queue .io).sqTail → ∀ k < 16,
      dwordAt page pos k = ((s.queue .io).sq pos).dw k := by
  have hpage : s.pagesAfter pages (.call .io (nvmeRw a)) .io =
      writeSqe (pages .io) (s.queue .io).sqTail (s.command (nvmeRw a)) := by
    unfold Dev.pagesAfter
    dsimp only
    rw [if_pos hready, Function.update_self]
  have hread : ∀ k < 16, dwordAt (s.pagesAfter pages (.call .io (nvmeRw a)) .io)
      (s.queue .io).sqTail k = s.command (nvmeRw a) k := fun k hk => by
    rw [hpage, dwordAt_written _ _ (command_lt (nvmeRw_dwords a)) hk]
  have hrest : ∀ k < 16, k ≠ 0 → dwordAt (s.pagesAfter pages (.call .io (nvmeRw a)) .io)
      (s.queue .io).sqTail k = nvmeRw a k := fun k hk h0 => by
    rw [hread k hk]
    exact Function.update_of_ne h0 _ _
  have hfirst : s.command (nvmeRw a) 0 =
      (a.opcode &&& 0xFFFF) ||| (s.nextCid <<< 16) % 2 ^ 32 := Function.update_self ..
  have hbuf := a.buf_lt
  have hslba := a.slba_lt
  have hnlb := a.nlb_lt
  obtain ⟨h1, h6, h7, h8, h9, h10, h11, h12⟩ := nvmeRw_fields a
  dsimp only [decodeRw]
  refine ⟨⟨?_, ?_, ?_, ?_, ?_, ?_⟩, ?_, fun pos hpos hne k hk => ?_⟩
  · have hop := a.opcode_lt
    rw [hread 0 (by decide), hfirst, Nat.or_mod_two_pow, show (0xFFFF : Nat) = 2 ^ 16 - 1 from rfl,
      Nat.and_two_pow_sub_one_eq_mod, Nat.shiftLeft_eq,
      show s.nextCid * 2 ^ 16 % 2 ^ 32 % 2 ^ 8 = 0 by omega, Nat.or_zero]
    omega
  · rw [hread 0 (by decide), hfirst]
    exact dw0_cid _ _
  · rw [hrest 1 (by decide) (by decide), h1]
  · rw [hrest 6 (by decide) (by decide), hrest 7 (by decide) (by decide), h6, h7,
      Nat.shiftRight_eq_div_pow]
    omega
  · rw [hrest 8 (by decide) (by decide), hrest 9 (by decide) (by decide), h8, h9, Nat.zero_mul]
  · rw [hrest 10 (by decide) (by decide), hrest 11 (by decide) (by decide), h10, h11,
      Nat.shiftRight_eq_div_pow]
    omega
  · rw [hrest 12 (by decide) (by decide)]
    rw [h12, show (0xFFFF : Nat) = 2 ^ 16 - 1 from rfl, Nat.and_two_pow_sub_one_eq_mod]
    omega
  · rw [hpage, dwordAt_other _ hne _ hk]
    exact (h.holds .io).entry pos hpos k hk

/-- Both submission pages hold their queues, and the controller reads from the page what `nvme_rw`
was called with. -/
theorem rw_decoded {s : Dev} {pages : Qid → Nat → Nat} (h : WireRun s pages) :
    (∀ q, Holds (pages q) (s.queue q)) ∧ (s.accepts .io = true → ∀ a : RwArgs,
      let page := s.pagesAfter pages (.call .io (nvmeRw a)) .io
      let c := decodeRw page (s.queue .io).sqTail
      (c.opcode = a.opcode ∧ c.cid = s.nextCid % 2 ^ 16 ∧ c.nsid = a.nsid ∧ c.prp1 = a.buf ∧
        c.prp2 = 0 ∧ c.slba = a.slba) ∧
      (c.blocks = a.nlb ↔ 1 ≤ a.nlb ∧ a.nlb ≤ 2 ^ 16) ∧
      ∀ pos < 64, pos ≠ (s.queue .io).sqTail → ∀ k < 16,
        dwordAt page pos k = ((s.queue .io).sq pos).dw k) :=
  ⟨h.holds, h.rw⟩

/-- The first command after the I/O queues are created: a read of no blocks asks for 65536. -/
theorem rw_decoded_none : ∃ s pages, WireRun s pages ∧ s.accepts .io = true ∧
    ∀ buf (h : buf < 2 ^ 64),
      let a : RwArgs := ⟨2, 1, 0, 0, buf, by decide, by decide, by decide, by decide, h⟩
      let c := decodeRw (s.pagesAfter pages (.call .io (nvmeRw a)) .io) (s.queue .io).sqTail
      c.prp1 = buf ∧ (c.blocks = 0 ↔ 1 ≤ 0 ∧ 0 ≤ 2 ^ 16) := by
  have hrun := WireRun.init.step (l := .create) trivial rfl
  refine ⟨_, _, hrun, rfl, fun buf h => ?_⟩
  obtain ⟨⟨-, -, -, hbuf, -⟩, hblocks, -⟩ := (rw_decoded hrun).2 rfl
    ⟨2, 1, 0, 0, buf, by decide, by decide, by decide, by decide, h⟩
  exact ⟨hbuf, hblocks⟩

end Nvme

end WinDOS
