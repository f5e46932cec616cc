import WinDOS.Fs.AtaStatus

/-!
# Sector numbers on the way to an ATA drive

The registers take 28 bits of a sector number, and the index into the buffer is one of 32 bits.
When every command goes to the sector asked for, with the bytes that belong to it.
-/

set_option autoImplicit false

namespace WinDOS

open Bytes

namespace Ata

/-! ### One command -/

def started (op drive lba : Nat) : Command :=
  ⟨op, (if drive = 0 then 0xE0 else 0xF0) ||| ((lba >>> 24) &&& 0x0F), 1, lba &&& 0xFF,
    (lba >>> 8) &&& 0xFF, (lba >>> 16) &&& 0xFF, []⟩

theorem program_cmds (b : Channel) (drive lba cmd : Nat) :
    (program b drive lba cmd).cmds = b.cmds ++ [started cmd drive lba] := rfl

/-- The registers hold the number that the block layer has for the command. -/
theorem started_address (op drive lba : Nat) : (started op drive lba).address = lba28 lba := by
  have hdrv : ((if drive = 0 then 0xE0 else 0xF0) ||| ((lba >>> 24) &&& 0x0F)) &&& 0x0F =
      lba >>> 24 &&& 0x0F := by
    rw [Nat.and_or_distrib_right, Nat.and_assoc, Nat.and_self]
    split <;> exact Nat.zero_or _
  unfold Command.address started lba28
  dsimp only
  rw [hdrv, show 0x0F = 2 ^ 4 - 1 from rfl, show 0xFF = 2 ^ 8 - 1 from rfl]
  simp only [Nat.and_two_pow_sub_one_eq_mod, Nat.shiftRight_eq_div_pow]
  omega

theorem started_slave (op drive lba : Nat) :
    (started op drive lba).slave = decide (drive ≠ 0) := by
  unfold Command.slave started
  dsimp only
  rw [Nat.testBit_or, Nat.testBit_and, show Nat.testBit 0x0F 4 = false from rfl, Bool.and_false,
    Bool.or_false]
  by_cases h : drive = 0
  · rw [if_pos h, decide_eq_false (not_not.mpr h)]
    rfl
  · rw [if_neg h, decide_eq_true h]
    rfl

def Command.moved (c : Command) (words : List Word16) : Command :=
  { c with words := c.words ++ words }

theorem move_cmds {b : Channel} {l : List Command} {c : Command} (h : b.cmds = l ++ [c])
    (w : Word16) : (b.move w).cmds = l ++ [c.moved [w]] := by
  unfold Channel.move
  dsimp only
  rw [h, List.modifyLast_concat]
  rfl

theorem writeWords_cmds {buf : Buf} {s n i : Nat} {b : Channel} {l : List Command} {c : Command}
    (h : b.cmds = l ++ [c]) :
    (writeWords buf s n i b).cmds = l ++ [c.moved ((List.range' i n).map (wordOf buf s))] := by
  induction n generalizing i b c with
  | zero =>
    rw [writeWords, h, List.range'_zero, List.map_nil, Command.moved, List.append_nil]
  | succ n ih =>
    rw [writeWords, ih (move_cmds h _), List.range'_succ, List.map_cons, Command.moved,
      Command.moved, Command.moved, List.append_assoc]
    rfl

theorem readWords_cmds {word : Nat → Word16} {s n i : Nat} {buf : Buf} {b : Channel}
    {l : List Command} {c : Command} (h : b.cmds = l ++ [c]) :
    (readWords word s n i buf b).2.cmds = l ++ [c.moved ((List.range' i n).map word)] := by
  induction n generalizing i b c buf with
  | zero =>
    rw [readWords, h, List.range'_zero, List.map_nil, Command.moved, List.append_nil]
  | succ n ih =>
    rw [readWords, ih (move_cmds h _), List.range'_succ, List.map_cons, Command.moved,
      Command.moved, Command.moved, List.append_assoc]
    rfl

/-! ### What a call transfers -/

/-- The commands that transfer data. -/
def transfers (op : Nat) (cmds : List Command) : List Command := cmds.filter fun c => c.op = op

/-- The 256 words of the bytes from `512 * s` on. -/
def sectorWords (buf : Buf) (s : Nat) : List Word16 :=
  (List.range' 0 256).map fun i => buf (512 * s + 2 * i + 1) ++ buf (512 * s + 2 * i)

/-- The commands of a call with result `code` that begin at sector `lba`, and the buffer that the
bytes belong to. A command whose drive does not ask for data transfers none; it is the last. -/
structure CallRight (op drive lba count : Nat) (code : Int) (buf : Buf) (cmds : List Command) :
    Prop where
  address : ∀ s c, (transfers op cmds)[s]? = some c → c.address = lba + s ∧
    c.slave = decide (drive ≠ 0) ∧ c.sct = 1
  words : ∀ s c, (transfers op cmds)[s]? = some c → c.words = sectorWords buf s ∨
    code ≠ 0 ∧ s + 1 = (transfers op cmds).length ∧ c.words = []
  atMost : (transfers op cmds).length ≤ count
  all : code = 0 → (transfers op cmds).length = count

/-- What a call has issued: the commands `new`, for sectors from `s` of the buffer and `lba` of the
disk on, with the words that `word` gives. -/
structure Issued (op drive lba s n : Nat) (code : Int) (word : Nat → Nat → Word16)
    (new : List Command) : Prop where
  atMost : new.length ≤ n
  all : code = 0 → new.length = n
  each : ∀ j c, new[j]? = some c →
    c = (started op drive (wrap32 (lba + j))).moved ((List.range' 0 256).map (word (s + j))) ∨
      code ≠ 0 ∧ j + 1 = new.length ∧ c = started op drive (wrap32 (lba + j))

theorem Issued.none {op drive lba s n : Nat} {code : Int} {word : Nat → Nat → Word16}
    (h : code = 0 → n = 0) : Issued op drive lba s n code word [] :=
  ⟨Nat.zero_le n, fun h0 => (h h0).symm, fun j c hc => by cases hc⟩

theorem Issued.stopped {op drive lba s n : Nat} {code : Int} {word : Nat → Nat → Word16}
    (h : code ≠ 0) : Issued op drive lba s (n + 1) code word [started op drive (wrap32 lba)] := by
  refine ⟨Nat.le_add_left 1 n, fun h0 => absurd h0 h, fun j c hc => ?_⟩
  cases j with
  | zero =>
    rw [List.getElem?_cons_zero] at hc
    exact .inr ⟨h, rfl, (Option.some.inj hc).symm⟩
  | succ j => cases hc

theorem Issued.last {op drive lba s n : Nat} {code : Int} {word : Nat → Nat → Word16}
    (h : code ≠ 0) : Issued op drive lba s (n + 1) code word
      [(started op drive (wrap32 lba)).moved ((List.range' 0 256).map (word s))] := by
  refine ⟨Nat.le_add_left 1 n, fun h0 => absurd h0 h, fun j c hc => ?_⟩
  cases j with
  | zero =>
    rw [List.getElem?_cons_zero] at hc
    exact .inl (Option.some.inj hc).symm
  | succ j => cases hc

theorem Issued.cons {op drive lba s n : Nat} {code : Int} {word : Nat → Nat → Word16}
    {new : List Command} (h : Issued op drive (lba + 1) (s + 1) n code word new) :
    Issued op drive lba s (n + 1) code word
      ((started op drive (wrap32 lba)).moved ((List.range' 0 256).map (word s)) :: new) := by
  refine ⟨Nat.succ_le_succ h.atMost, fun h0 => congrArg Nat.succ (h.all h0), fun j c hc => ?_⟩
  cases j with
  | zero =>
    rw [List.getElem?_cons_zero] at hc
    exact .inl (Option.some.inj hc).symm
  | succ j =>
    rw [List.getElem?_cons_succ] at hc
    have heach := h.each j c hc
    rw [show lba + 1 + j = lba + (j + 1) by omega, show s + 1 + j = s + (j + 1) by omega] at heach
    rcases heach with heq | ⟨hcode, hlast, heq⟩
    · exact .inl heq
    · exact .inr ⟨hcode, by rw [List.length_cons]; omega, heq⟩

theorem transfers_append (op : Nat) (l l' : List Command) :
    transfers op (l ++ l') = transfers op l ++ transfers op l' := List.filter_append ..

theorem transfers_started (op drive lba : Nat) (words : List Word16) :
    transfers op [(started op drive lba).moved words] = [(started op drive lba).moved words] :=
  List.filter_cons_of_pos (decide_eq_true rfl)

theorem transfers_flush (b : Channel) :
    transfers WRITE_SECTORS (b.out8 .stat FLUSH_CACHE).cmds = transfers WRITE_SECTORS b.cmds := by
  rw [show (b.out8 .stat FLUSH_CACHE).cmds = b.cmds ++
    [⟨FLUSH_CACHE, b.drv, b.sct, b.lbal, b.lbam, b.lbah, []⟩] from rfl, transfers_append]
  exact List.append_nil _

theorem write_issued (d : Drive) (drive : Nat) (buf : Buf) (n s lba : Nat) (b : Channel) :
    ∃ new, transfers WRITE_SECTORS (ideWriteSector d drive buf n s (wrap32 lba) b).2.cmds =
        transfers WRITE_SECTORS b.cmds ++ new ∧
      Issued WRITE_SECTORS drive lba s n (ideWriteSector d drive buf n s (wrap32 lba) b).1
        (wordOf buf) new := by
  induction n generalizing s lba b with
  | zero => exact ⟨[], (List.append_nil _).symm, .none fun _ => rfl⟩
  | succ n ih =>
    have hmoved : transfers WRITE_SECTORS
        (writeWords buf s 256 0 (program b drive (wrap32 lba) WRITE_SECTORS)).cmds =
          transfers WRITE_SECTORS b.cmds ++ [(started WRITE_SECTORS drive (wrap32 lba)).moved
            ((List.range' 0 256).map (wordOf buf s))] := by
      rw [writeWords_cmds (program_cmds b drive (wrap32 lba) WRITE_SECTORS), transfers_append,
        transfers_started]
    rcases ideWriteSector_round d drive buf n s (wrap32 lba) b with ⟨-, hrun⟩ | ⟨-, code, b', hcode,
      hrun, hb⟩
    · rw [hrun, wrap32_wrap32_add]
      obtain ⟨new, hnew, hissued⟩ := ih (s + 1) (lba + 1)
        ((writeWords buf s 256 0 (program b drive (wrap32 lba) WRITE_SECTORS)).out8 .stat
          FLUSH_CACHE)
      rw [transfers_flush, hmoved, List.append_assoc] at hnew
      exact ⟨_, hnew, hissued.cons⟩
    · rw [hrun]
      rcases hb with rfl | rfl | rfl | rfl
      · exact ⟨[], (List.append_nil _).symm, .none fun h => absurd h hcode⟩
      · refine ⟨[started WRITE_SECTORS drive (wrap32 lba)], ?_, .stopped hcode⟩
        rw [program_cmds, transfers_append]
        rfl
      · exact ⟨_, hmoved, .last hcode⟩
      · exact ⟨_, (transfers_flush _).trans hmoved, .last hcode⟩

/-! ### The buffer of a read -/

theorem bufIndex_eq {s i k : Nat} (hs : s < 2 ^ 23) (hi : i < 256) (hk : k < 2) :
    bufIndex s i k = 512 * s + 2 * i + k := by
  unfold bufIndex wrap32
  omega

theorem wordOf_eq (buf : Buf) {s : Nat} (hs : s < 2 ^ 23) :
    (List.range' 0 256).map (wordOf buf s) = sectorWords buf s := by
  refine List.map_congr_left fun i hi => ?_
  have hlt : i < 256 := by
    have := List.mem_range'_1.mp hi
    omega
  rw [wordOf, bufIndex_eq hs hlt (by omega), bufIndex_eq hs hlt (by omega)]
  rfl

theorem readWords_out {word : Nat → Word16} {s n i x : Nat} {buf : Buf} {b : Channel}
    (h : ∀ j < n, ∀ k < 2, x ≠ bufIndex s (i + j) k) :
    (readWords word s n i buf b).1 x = buf x := by
  induction n generalizing i buf b with
  | zero => rfl
  | succ n ih =>
    rw [readWords, ih fun j hj k hk => by
        rw [show i + 1 + j = i + (j + 1) by omega]
        exact h (j + 1) (by omega) k hk,
      Function.update_of_ne (show x ≠ bufIndex s i 1 from h 0 (by omega) 1 (by omega)),
      Function.update_of_ne (show x ≠ bufIndex s i 0 from h 0 (by omega) 0 (by omega))]

theorem readWords_in {word : Nat → Word16} {s n i j : Nat} {buf : Buf} {b : Channel}
    (hs : s < 2 ^ 23) (hn : i + n ≤ 256) (hi : i ≤ j) (hj : j < i + n) :
    (readWords word s n i buf b).1 (512 * s + 2 * j) = (word j).extractLsb' 0 8 ∧
      (readWords word s n i buf b).1 (512 * s + 2 * j + 1) = (word j).extractLsb' 8 8 := by
  induction n generalizing i buf b with
  | zero => omega
  | succ n ih =>
    rw [readWords]
    by_cases heq : j = i
    · have hout : ∀ k < 2, ∀ j' < n, ∀ k' < 2,
          512 * s + 2 * j + k ≠ bufIndex s (i + 1 + j') k' := fun k hk j' hj' k' hk' => by
        rw [bufIndex_eq hs (by omega) hk']
        omega
      rw [readWords_out (x := 512 * s + 2 * j) (hout 0 (by omega)), readWords_out (hout 1 (by omega)),
        bufIndex_eq hs (by omega) (by omega), bufIndex_eq hs (by omega) (by omega), heq]
      exact ⟨by rw [Function.update_of_ne (by omega), Nat.add_zero, Function.update_self],
        Function.update_self ..⟩
    · exact ih (by omega) (by omega) (by omega)

theorem halves (v : Word16) : v.extractLsb' 8 8 ++ v.extractLsb' 0 8 = v :=
  (BitVec.extractLsb'_append_extractLsb'_eq_extractLsb' rfl).trans BitVec.extractLsb'_eq_self

theorem sectorWords_read {word : Nat → Word16} {s : Nat} (hs : s < 2 ^ 23) (buf : Buf)
    (b : Channel) :
    sectorWords (readWords word s 256 0 buf b).1 s = (List.range' 0 256).map word := by
  refine List.map_congr_left fun i hi => ?_
  have hlt : i < 256 := by
    have := List.mem_range'_1.mp hi
    omega
  obtain ⟨hlow, hhigh⟩ := @readWords_in word s 256 0 i buf b hs (by omega) (by omega) (by omega)
  rw [hlow, hhigh]
  exact halves (word i)

/-- A round of `ide_read_sector`: the words of a sector, or a return behind one of the two waits. -/
theorem ideReadSector_round (d : Drive) (drive n s lba : Nat) (buf : Buf) (b : Channel) :
    ideReadSector d drive (n + 1) s lba buf b =
        ideReadSector d drive n (s + 1) (wrap32 (lba + 1))
          (readWords (d.word s) s 256 0 buf (program b drive lba READ_SECTORS)).1
          (readWords (d.word s) s 256 0 buf (program b drive lba READ_SECTORS)).2 ∨
      ¬ Serves d s ∧ ∃ code b', code ≠ 0 ∧
        ideReadSector d drive (n + 1) s lba buf b = (code, buf, b') ∧
        (b' = b ∨ b' = program b drive lba READ_SECTORS) := by
  rw [ideReadSector]
  by_cases hready : ataWaitBsy (d.ready s) = 0
  · rw [if_neg (not_not.mpr hready)]
    dsimp only
    by_cases hrequest : waitDrq (d.request s) DRQ_POLLS 0 = 0
    · rw [if_neg (not_not.mpr hrequest)]
      exact .inl rfl
    · rw [if_pos hrequest]
      exact .inr ⟨fun h => hrequest ((requests_iff _).mpr h.request), _, _, hrequest, rfl, .inr rfl⟩
  · rw [if_pos hready]
    exact .inr ⟨fun h => hready ((ataWaitBsy_iff _).mpr h.ready), -1, _, by decide, rfl, .inl rfl⟩

theorem read_out (d : Drive) (drive : Nat) {n s x : Nat} (lba : Nat) (buf : Buf) (b : Channel)
    (h : ∀ j < n, ∀ i < 256, ∀ k < 2, x ≠ bufIndex (s + j) i k) :
    (ideReadSector d drive n s lba buf b).2.1 x = buf x := by
  induction n generalizing s lba buf b with
  | zero => rfl
  | succ n ih =>
    rcases ideReadSector_round d drive n s lba buf b with hrun | ⟨-, code, b', -, hrun, -⟩
    · have hlater : ∀ j < n, ∀ i < 256, ∀ k < 2, x ≠ bufIndex (s + 1 + j) i k := by
        intro j hj i hi k hk
        rw [show s + 1 + j = s + (j + 1) by omega]
        exact h (j + 1) (by omega) i hi k hk
      rw [hrun, ih _ _ _ hlater]
      refine readWords_out fun i hi k hk => ?_
      rw [Nat.zero_add]
      exact h 0 (Nat.succ_pos n) i hi k hk
    · rw [hrun]

theorem sectorWords_congr {buf buf' : Buf} {s : Nat}
    (h : ∀ x, 512 * s ≤ x → x < 512 * s + 512 → buf' x = buf x) :
    sectorWords buf' s = sectorWords buf s := by
  refine List.map_congr_left fun i hi => ?_
  have hlt : i < 256 := by
    have := List.mem_range'_1.mp hi
    omega
  rw [h _ (by omega) (by omega), h _ (by omega) (by omega)]

theorem read_issued (d : Drive) (drive n s lba : Nat) (buf : Buf) (b : Channel) :
    ∃ new, transfers READ_SECTORS (ideReadSector d drive n s (wrap32 lba) buf b).2.2.cmds =
        transfers READ_SECTORS b.cmds ++ new ∧
      Issued READ_SECTORS drive lba s n (ideReadSector d drive n s (wrap32 lba) buf b).1 d.word
        new ∧
      (s + n ≤ 2 ^ 23 → ∀ j c, new[j]? = some c → c.words = [] ∨
        c.words = sectorWords (ideReadSector d drive n s (wrap32 lba) buf b).2.1 (s + j)) := by
  induction n generalizing s lba buf b with
  | zero => exact ⟨[], (List.append_nil _).symm, .none fun _ => rfl, fun _ j c hc => by cases hc⟩
  | succ n ih =>
    rcases ideReadSector_round d drive n s (wrap32 lba) buf b with hrun | ⟨-, code, b', hcode, hrun,
      hb⟩
    · rw [hrun, wrap32_wrap32_add]
      have hmoved := @readWords_cmds (d.word s) s 256 0 buf _ _ _
        (program_cmds b drive (wrap32 lba) READ_SECTORS)
      have hsector := fun hs => @sectorWords_read (d.word s) s hs buf
        (program b drive (wrap32 lba) READ_SECTORS)
      generalize readWords (d.word s) s 256 0 buf (program b drive (wrap32 lba) READ_SECTORS) = r
        at hmoved hsector ⊢
      obtain ⟨new, hnew, hissued, hplace⟩ := ih (s + 1) (lba + 1) r.1 r.2
      rw [hmoved, transfers_append, transfers_started, List.append_assoc] at hnew
      refine ⟨_, hnew, hissued.cons, fun hs j c hc => ?_⟩
      cases j with
      | zero =>
        rw [List.singleton_append, List.getElem?_cons_zero] at hc
        obtain rfl := Option.some.inj hc
        have hbelow : sectorWords (ideReadSector d drive n (s + 1) (wrap32 (lba + 1)) r.1 r.2).2.1
            s = sectorWords r.1 s := by
          refine sectorWords_congr fun x _ hx => read_out d drive _ _ _ fun j hj i hi k hk => ?_
          rw [bufIndex_eq (by omega) hi hk]
          omega
        exact .inr ((List.nil_append _).trans (hbelow.trans (hsector (by omega))).symm)
      | succ j =>
        rw [show s + (j + 1) = s + 1 + j by omega]
        exact hplace (by omega) j c hc
    · rw [hrun]
      rcases hb with rfl | rfl
      · exact ⟨[], (List.append_nil _).symm, .none fun h => absurd h hcode,
          fun _ j c hc => by cases hc⟩
      · refine ⟨[started READ_SECTORS drive (wrap32 lba)], ?_, .stopped hcode, fun _ j c hc => ?_⟩
        · rw [program_cmds, transfers_append]
          rfl
        · obtain rfl := List.mem_singleton.mp (List.mem_of_getElem? hc)
          exact .inl rfl

/-! ### When the commands are right -/

theorem moved_address (op drive lba : Nat) (words : List Word16) :
    ((started op drive lba).moved words).address = lba28 lba := started_address op drive lba

theorem moved_words (op drive lba : Nat) (words : List Word16) :
    ((started op drive lba).moved words).words = words := List.nil_append words

theorem callRight_nil (op drive lba : Nat) (buf : Buf) : CallRight op drive lba 0 0 buf [] :=
  ⟨fun s c hc => (by cases hc), fun s c hc => (by cases hc), Nat.le_refl 0, fun _ => rfl⟩

/-- Below 2^28 the commands are right if each has moved its part of the buffer. -/
theorem Issued.callRight {op drive lba count : Nat} {code : Int} {word : Nat → Nat → Word16}
    {buf : Buf} {cmds : List Command} (h : Issued op drive lba 0 count code word (transfers op cmds))
    (hlba : lba + count ≤ 2 ^ 28)
    (hwords : ∀ s c, (transfers op cmds)[s]? = some c → c.words = [] ∨
      c.words = sectorWords buf s) : CallRight op drive lba count code buf cmds := by
  refine ⟨fun s c hc => ?_, fun s c hc => ?_, h.atMost, h.all⟩
  · have hs := (List.getElem?_eq_some_iff.mp hc).1
    have hatMost := h.atMost
    have hlow : lba28 (wrap32 (lba + s)) = lba + s := by
      unfold lba28 wrap32
      omega
    rcases h.each s c hc with rfl | ⟨-, -, rfl⟩
    · exact ⟨(moved_address ..).trans hlow, started_slave op drive _, rfl⟩
    · exact ⟨(started_address ..).trans hlow, started_slave op drive _, rfl⟩
  · rcases h.each s c hc with rfl | ⟨hcode, hlast, rfl⟩
    · rcases hwords s _ hc with hnone | hright
      · rw [moved_words] at hnone
        exact absurd (List.map_eq_nil_iff.mp hnone) (by decide)
      · exact .inl hright
    · exact .inr ⟨hcode, hlast, rfl⟩

/-- Commands that went through bound the sector numbers. -/
theorem CallRight.bound {op drive lba count : Nat} {word : Nat → Nat → Word16} {buf : Buf}
    {cmds : List Command} (hright : CallRight op drive lba count 0 buf cmds)
    (h : Issued op drive lba 0 count 0 word (transfers op cmds)) (hlba : lba + count ≤ 2 ^ 32)
    (hpos : 0 < count) : lba + count ≤ 2 ^ 28 := by
  have hlen := h.all rfl
  obtain ⟨c, hc⟩ : ∃ c, (transfers op cmds)[count - 1]? = some c :=
    ⟨_, List.getElem?_eq_getElem (by omega)⟩
  have hright := (hright.address _ c hc).1
  rcases h.each _ c hc with rfl | ⟨hcode, -, -⟩
  · rw [moved_address] at hright
    unfold lba28 wrap32 at hright
    omega
  · exact absurd rfl hcode

/-- The first word of the command for sector number `2 ^ 23` of the buffer. -/
theorem CallRight.word {op drive lba count : Nat} {word : Nat → Nat → Word16} {buf : Buf}
    {cmds : List Command} (hright : CallRight op drive lba count 0 buf cmds)
    (h : Issued op drive lba 0 count 0 word (transfers op cmds)) (hcount : 2 ^ 23 < count) :
    word (2 ^ 23) 0 = buf (2 ^ 32 + 1) ++ buf (2 ^ 32) := by
  have hlen := h.all rfl
  obtain ⟨c, hc⟩ : ∃ c, (transfers op cmds)[2 ^ 23]? = some c :=
    ⟨_, List.getElem?_eq_getElem (by omega)⟩
  rcases hright.words _ c hc with hwords | ⟨hcode, -, -⟩
  · rcases h.each _ c hc with rfl | ⟨hcode, -, -⟩
    · rw [moved_words, Nat.zero_add] at hwords
      exact (List.cons.inj hwords).1
    · exact absurd rfl hcode
  · exact absurd rfl hcode

def ReadRight (d : Drive) (drive lba count : Nat) (buf : Buf) (b : Channel) : Prop :=
  let r := ideReadSector d drive count 0 lba buf { b with cmds := [] }
  CallRight READ_SECTORS drive lba count r.1 r.2.1 r.2.2.cmds

def WriteRight (d : Drive) (drive lba count : Nat) (buf : Buf) (b : Channel) : Prop :=
  let r := ideWriteSector d drive buf count 0 lba { b with cmds := [] }
  CallRight WRITE_SECTORS drive lba count r.1 buf r.2.cmds

/-- A drive that is ready at every look and gives words of 1. -/
def willing : Drive where
  ready := fun _ _ => 0x50
  request := fun _ _ => 0x58
  stored := fun _ _ => 0x50
  flushed := fun _ _ => 0x50
  word := fun _ _ => 1

theorem willing_serves (s : Nat) : Serves willing s where
  ready := ⟨0, ends_first (show (0x50 : Byte) &&& 0x80 = 0 by decide)⟩
  request := ⟨0, by decide, show (0x58 : Byte) &&& 0x08 ≠ 0 by decide,
    fun j hj => absurd hj (Nat.not_lt_zero j)⟩
  stored := ⟨0, ends_first (show (0x50 : Byte) &&& 0x80 = 0 by decide)⟩
  flushed := ⟨0, ends_first (show (0x50 : Byte) &&& 0x80 = 0 by decide)⟩

theorem read_code {d : Drive} (h : ∀ s, Serves d s) (drive n s lba : Nat) (buf : Buf)
    (b : Channel) : (ideReadSector d drive n s lba buf b).1 = 0 := by
  induction n generalizing s lba buf b with
  | zero => rfl
  | succ n ih =>
    rcases ideReadSector_round d drive n s lba buf b with hrun | ⟨hnot, -⟩
    · rw [hrun]
      exact ih ..
    · exact absurd (h s) hnot

/-- No index into the buffer reaches 2^32. -/
theorem read_above (d : Drive) (drive n s lba : Nat) (buf : Buf) (b : Channel) {x : Nat}
    (hx : 2 ^ 32 ≤ x) : (ideReadSector d drive n s lba buf b).2.1 x = buf x :=
  read_out d drive lba buf b fun j _ i _ k _ => by
    unfold bufIndex wrap32
    omega

section Right

variable {lba count : Nat} (hlba : lba < 2 ^ 32) (h : lba + count ≤ 2 ^ 32) (drive : Nat)
include hlba h

theorem read_right_iff : (∀ d buf b, ReadRight d drive lba count buf b) ↔
    count = 0 ∨ lba + count ≤ 2 ^ 28 ∧ count ≤ 2 ^ 23 := by
  have hrun := fun d buf (b : Channel) => read_issued d drive count 0 lba buf { b with cmds := [] }
  rw [show wrap32 lba = lba from Nat.mod_eq_of_lt hlba] at hrun
  constructor
  · intro hright
    rcases Nat.eq_zero_or_pos count with hzero | hpos
    · exact .inl hzero
    have hcall := hright willing (fun _ => 0) ⟨0, 0, 0, 0, 0, []⟩
    obtain ⟨new, hnew, hissued, -⟩ := hrun willing (fun _ => 0) ⟨0, 0, 0, 0, 0, []⟩
    obtain rfl : _ = new := hnew
    unfold ReadRight at hcall
    dsimp only at hcall
    rw [read_code willing_serves] at hcall hissued
    refine .inr ⟨hcall.bound hissued h hpos, ?_⟩
    by_contra hlong
    have hword := hcall.word hissued (by omega)
    rw [read_above _ _ _ _ _ _ _ (by decide), read_above _ _ _ _ _ _ _ (by decide)] at hword
    exact absurd hword (by decide)
  · rintro (rfl | ⟨hlow, hcount⟩) d buf b
    · exact callRight_nil ..
    · obtain ⟨new, hnew, hissued, hplace⟩ := hrun d buf b
      obtain rfl : _ = new := hnew
      refine hissued.callRight hlow fun s c hc => ?_
      have := hplace (by omega) s c hc
      rwa [Nat.zero_add] at this

theorem write_right_iff : (∀ d buf b, WriteRight d drive lba count buf b) ↔
    count = 0 ∨ lba + count ≤ 2 ^ 28 ∧ count ≤ 2 ^ 23 := by
  have hrun := fun d buf (b : Channel) =>
    write_issued d drive buf count 0 lba { b with cmds := [] }
  rw [show wrap32 lba = lba from Nat.mod_eq_of_lt hlba] at hrun
  constructor
  · intro hright
    rcases Nat.eq_zero_or_pos count with hzero | hpos
    · exact .inl hzero
    -- a buffer with a single 1 at 2^32
    have hcall := hright willing (fun i => if i = 2 ^ 32 then 1 else 0) ⟨0, 0, 0, 0, 0, []⟩
    obtain ⟨new, hnew, hissued⟩ :=
      hrun willing (fun i => if i = 2 ^ 32 then 1 else 0) ⟨0, 0, 0, 0, 0, []⟩
    obtain rfl : _ = new := hnew
    unfold WriteRight at hcall
    dsimp only at hcall
    rw [(write_code_iff ..).mpr fun j _ => willing_serves _] at hcall hissued
    refine .inr ⟨hcall.bound hissued h hpos, ?_⟩
    by_contra hlong
    exact absurd (hcall.word hissued (by omega)) (by decide)
  · rintro (rfl | ⟨hlow, hcount⟩) d buf b
    · exact callRight_nil ..
    · obtain ⟨new, hnew, hissued⟩ := hrun d buf b
      obtain rfl : _ = new := hnew
      refine hissued.callRight hlow fun s c hc => ?_
      have hs := (List.getElem?_eq_some_iff.mp hc).1
      have hatMost := hissued.atMost
      rcases hissued.each s c hc with rfl | ⟨-, -, rfl⟩
      · right
        rw [moved_words, Nat.zero_add]
        exact wordOf_eq buf (by omega)
      · exact .inl rfl

/-- Both functions issue the right commands, whatever the drive answers, exactly if the sectors
asked for have numbers below 2^28 and the bytes offsets below 2^32. -/
theorem sectors_right_iff :
    ((∀ d buf b, ReadRight d drive lba count buf b) ↔
      count = 0 ∨ lba + count ≤ 2 ^ 28 ∧ count ≤ 2 ^ 23) ∧
    ((∀ d buf b, WriteRight d drive lba count buf b) ↔
      count = 0 ∨ lba + count ≤ 2 ^ 28 ∧ count ≤ 2 ^ 23) :=
  ⟨read_right_iff hlba h drive, write_right_iff hlba h drive⟩

end Right

theorem sectors_right_first :
    ((∀ d buf b, ReadRight d 0 100 1 buf b) ↔ 1 = 0 ∨ 100 + 1 ≤ 2 ^ 28 ∧ 1 ≤ 2 ^ 23) ∧
    ((∀ d buf b, WriteRight d 0 100 1 buf b) ↔ 1 = 0 ∨ 100 + 1 ≤ 2 ^ 28 ∧ 1 ≤ 2 ^ 23) :=
  sectors_right_iff (by decide) (by decide) 0

/-- A write to sector 2^28 goes to sector 0. -/
theorem write_wraps :
    (transfers WRITE_SECTORS (ideWriteSector willing 0 (fun _ => 0) 1 0 (2 ^ 28)
      ⟨0, 0, 0, 0, 0, []⟩).2.cmds).map Command.address = [0] ∧
    (ideWriteSector willing 0 (fun _ => 0) 1 0 (2 ^ 28) ⟨0, 0, 0, 0, 0, []⟩).1 = 0 ∧
    ¬ WriteRight willing 0 (2 ^ 28) 1 (fun _ => 0) ⟨0, 0, 0, 0, 0, []⟩ := by
  obtain ⟨new, hnew, hissued⟩ :=
    write_issued willing 0 (fun _ => 0) 1 0 (2 ^ 28) ⟨0, 0, 0, 0, 0, []⟩
  rw [show wrap32 (2 ^ 28) = 2 ^ 28 from rfl] at hnew hissued
  have hcode : (ideWriteSector willing 0 (fun _ => 0) 1 0 (2 ^ 28) ⟨0, 0, 0, 0, 0, []⟩).1 = 0 :=
    (write_code_iff ..).mpr fun j _ => willing_serves _
  obtain rfl : _ = new := hnew
  have hlen := hissued.all hcode
  obtain ⟨c, hc⟩ := List.length_eq_one_iff.mp hlen
  have hzero : c.address = 0 := by
    rcases hissued.each 0 c (by rw [hc]; rfl) with rfl | ⟨-, -, rfl⟩
    · exact moved_address ..
    · exact started_address ..
  refine ⟨by rw [hc, List.map_singleton, hzero], hcode, fun hright => ?_⟩
  have haddress := (hright.address 0 c (by rw [hc]; rfl)).1
  omega

end Ata

end WinDOS
