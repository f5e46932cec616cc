import WinDOS.Boot.Ksprintf
import WinDOS.Lib.Bytes

/-!
# What formatted text is to be (`sys/stdio.h`)

A format is a C string of pieces: characters, and directives each of which takes one argument. The
text that `ksprintf` writes, what it reads of the format and what it returns are compared with the
pieces.
-/

set_option autoImplicit false

namespace WinDOS

open Bytes Digits

/-! ### The buffer and the format -/

/-- `*p++ = c` for each byte. -/
def putBytes : Text → Buf × Nat → Buf × Nat
  | [], s => s
  | c :: s, (buf, p) => putBytes s (Function.update buf p c, p + 1)

/-- The buffer and the returned `int`. -/
def ksprintfBuf (buf : Buf) (fmt : Text) (args : List PrintArg) : Int × Buf :=
  let (buf, p) := putBytes (ksprintf fmt args) (buf, 0)
  ((BitVec.ofNat 32 p).toInt, Function.update buf p 0)

/-- How many bytes of the format `ksprintf` reads, from its beginning on. -/
def formatReads : Text → Nat
  | 0x25#8 :: 0x6C#8 :: 0x78#8 :: fmt => formatReads fmt + 3
  | 0x25#8 :: 0x30#8 :: 0x32#8 :: 0x58#8 :: fmt => formatReads fmt + 4
  | 0x25#8 :: _ :: fmt => formatReads fmt + 2
  | [0x25#8] => 3
  | 0x00#8 :: _ => 1
  | _ :: fmt => formatReads fmt + 1
  | [] => 1

/-! ### Pieces -/

/-- A character, or a directive; `cut` is a format that ends behind a `%`. -/
inductive Piece where
  | char (c : Byte)
  | str
  | dec
  | hex (w : Nat)
  | long
  | cut
  deriving DecidableEq

/-- The pieces of a format up to its NUL. -/
def pieces : Text → List Piece
  | 0x25#8 :: 0x73#8 :: fmt => .str :: pieces fmt
  | 0x25#8 :: 0x64#8 :: fmt => .dec :: pieces fmt
  | 0x25#8 :: 0x78#8 :: fmt => .hex 8 :: pieces fmt
  | 0x25#8 :: 0x6C#8 :: 0x78#8 :: fmt => .long :: pieces fmt
  | 0x25#8 :: 0x58#8 :: fmt => .hex 4 :: pieces fmt
  | 0x25#8 :: 0x30#8 :: 0x32#8 :: 0x58#8 :: fmt => .hex 2 :: pieces fmt
  | 0x25#8 :: 0x00#8 :: _ => [.cut]
  | 0x25#8 :: c :: fmt => .char c :: pieces fmt
  | [0x25#8] => [.cut]
  | 0x00#8 :: _ => []
  | c :: fmt => .char c :: pieces fmt
  | [] => []

def Piece.takes : Piece → Bool
  | .char _ => false
  | .cut => false
  | _ => true

def numeral (v : Int) : Text := ascii (toString v)

/-- `w` upper-case hexadecimal digits. -/
def hexText (w v : Nat) : Text := digits 16 (fun r => (ascii "0123456789ABCDEF").getD r 0) w v

/-- The text of pieces with arguments of their kinds. -/
inductive Formats : List Piece → List PrintArg → Text → Prop where
  | done (args : List PrintArg) : Formats [] args []
  | cut (args : List PrintArg) : Formats [.cut] args []
  | char (c : Byte) {ps : List Piece} {args : List PrintArg} {s : Text} (h : Formats ps args s) :
    Formats (.char c :: ps) args (c :: s)
  | str (t : Text) {ps : List Piece} {args : List PrintArg} {s : Text} (h : Formats ps args s) :
    Formats (.str :: ps) (.str t :: args) (cstr t ++ s)
  | dec (v : Int) {ps : List Piece} {args : List PrintArg} {s : Text} (h : Formats ps args s)
    (range : -2147483648 ≤ v ∧ v < 2147483648) :
    Formats (.dec :: ps) (.int v :: args) (numeral v ++ s)
  | hex (w : Nat) (v : Int) {ps : List Piece} {args : List PrintArg} {s : Text}
    (h : Formats ps args s) (width : w ≤ 8) :
    Formats (.hex w :: ps) (.int v :: args) (hexText w (v % 16 ^ w).toNat ++ s)
  | long (v : Nat) {ps : List Piece} {args : List PrintArg} {s : Text} (h : Formats ps args s) :
    Formats (.long :: ps) (.long v :: args) (hexText 16 (v % 16 ^ 16) ++ s)

/-- Formatting is right if the text is to be `s`: the format is read up to its NUL, with an index
that is an `int`; the text and a NUL are written and nothing else, and its length is returned. -/
structure FormatRight (fmt : Text) (args : List PrintArg) (s : Text) : Prop where
  reads : formatReads fmt ≤ (cstr fmt).length + 1
  index : formatReads fmt ≤ 2 ^ 31
  length : ∀ buf, (ksprintfBuf buf fmt args).1 = s.length
  text : ∀ buf, ∀ i < s.length, (ksprintfBuf buf fmt args).2 i = s.getD i 0
  nul : ∀ buf, (ksprintfBuf buf fmt args).2 s.length = 0
  frame : ∀ buf, ∀ i, s.length < i → (ksprintfBuf buf fmt args).2 i = buf i

/-- No `%d` is given the least `int`. -/
def NoLeast (ps : List Piece) (args : List PrintArg) : Prop :=
  (Piece.dec, PrintArg.int (-2147483648)) ∉ (ps.filter Piece.takes).zip args

/-- The format does not end behind a `%`, no `%d` is given the least `int`, and the format and the
text are shorter than 2^31 bytes. -/
structure FormatGuard (fmt : Text) (args : List PrintArg) (s : Text) : Prop where
  whole : Piece.cut ∉ pieces fmt
  noLeast : NoLeast (pieces fmt) args
  format : (cstr fmt).length < 2 ^ 31
  text : s.length < 2 ^ 31

/-! ### The format is read up to its NUL -/

theorem cstr_cons {c : Byte} (h : c ≠ 0) (s : Text) : cstr (c :: s) = c :: cstr s :=
  List.takeWhile_cons_of_pos (decide_eq_true h)

/-- The bytes read end with the NUL, or the format ends behind a `%` and they do not. -/
def ReadsRight (fmt : Text) (ps : List Piece) : Prop :=
  (Piece.cut ∉ ps → formatReads fmt = (cstr fmt).length + 1) ∧
    (Piece.cut ∈ ps → (cstr fmt).length + 1 < formatReads fmt)

theorem ReadsRight.cons {fmt rest : Text} {p : Piece} {k : Nat} (h : ReadsRight rest (pieces rest))
    (hp : p ≠ .cut) (hreads : formatReads fmt = formatReads rest + k)
    (hlen : (cstr fmt).length = (cstr rest).length + k) : ReadsRight fmt (p :: pieces rest) := by
  have hmem : Piece.cut ∈ p :: pieces rest ↔ Piece.cut ∈ pieces rest := by
    rw [List.mem_cons]
    exact or_iff_right hp.symm
  unfold ReadsRight at h ⊢
  rw [hmem, hreads, hlen]
  exact ⟨fun hno => by rw [h.1 hno]; omega, fun hcut => by have := h.2 hcut; omega⟩

theorem reads_right (fmt : Text) : ReadsRight fmt (pieces fmt) := by
  fun_induction pieces fmt with
  | case1 fmt ih => exact ih.cons (by nofun) rfl rfl
  | case2 fmt ih => exact ih.cons (by nofun) rfl rfl
  | case3 fmt ih => exact ih.cons (by nofun) rfl rfl
  | case4 fmt ih => exact ih.cons (by nofun) rfl rfl
  | case5 fmt ih => exact ih.cons (by nofun) rfl rfl
  | case6 fmt ih => exact ih.cons (by nofun) rfl rfl
  | case7 fmt =>
    refine ⟨fun h => absurd List.mem_cons_self h, fun _ => ?_⟩
    have hpos : 1 ≤ formatReads fmt := by
      unfold formatReads
      split <;> omega
    exact Nat.add_lt_add_right (show 1 < formatReads fmt + 1 by omega) 1
  | case8 c fmt _ _ _ hlong _ hhex h0 ih =>
    refine ih.cons (by nofun) ?_ ?_ (k := 2)
    · rw [formatReads] <;> assumption
    · rw [cstr_cons (by decide), cstr_cons h0]
      rfl
  | case9 => exact ⟨fun h => absurd List.mem_cons_self h, fun _ => by decide⟩
  | case10 => exact ⟨fun _ => rfl, fun h => by cases h⟩
  | case11 c fmt _ _ _ _ _ _ _ hdir hlone h0 ih =>
    refine ih.cons (by nofun) ?_ ?_ (k := 1)
    · rw [formatReads] <;> assumption
    · rw [cstr_cons h0]
      rfl
  | case12 => exact ⟨fun _ => rfl, fun h => by cases h⟩

/-! ### The text is that of the pieces -/

def Piece.put : Piece → List PrintArg → Text
  | .char c, _ => [c]
  | .str, args => vaStr args
  | .dec, args => pkd (vaInt args)
  | .hex w, args => pkx (BitVec.ofInt 32 (vaInt args)).toNat w
  | .long, args => pkx (vaLong args) 16
  | .cut, _ => []

/-- What the code writes for pieces. -/
def puts : List Piece → List PrintArg → Text
  | [], _ => []
  | p :: ps, args => p.put args ++ puts ps (if p.takes then args.tail else args)

theorem ksprintf_eq_puts {fmt : Text} (h : Piece.cut ∉ pieces fmt) (args : List PrintArg) :
    ksprintf fmt args = puts (pieces fmt) args := by
  fun_induction pieces fmt generalizing args with
  | case1 fmt ih => exact congrArg (vaStr args ++ ·) (ih (List.not_mem_of_not_mem_cons h) args.tail)
  | case2 fmt ih =>
    exact congrArg (pkd (vaInt args) ++ ·) (ih (List.not_mem_of_not_mem_cons h) args.tail)
  | case3 fmt ih => exact congrArg (pkx _ 8 ++ ·) (ih (List.not_mem_of_not_mem_cons h) args.tail)
  | case4 fmt ih => exact congrArg (pkx _ 16 ++ ·) (ih (List.not_mem_of_not_mem_cons h) args.tail)
  | case5 fmt ih => exact congrArg (pkx _ 4 ++ ·) (ih (List.not_mem_of_not_mem_cons h) args.tail)
  | case6 fmt ih => exact congrArg (pkx _ 2 ++ ·) (ih (List.not_mem_of_not_mem_cons h) args.tail)
  | case7 => exact absurd List.mem_cons_self h
  | case8 c fmt _ _ _ _ _ _ _ ih =>
    rw [ksprintf] <;> try assumption
    exact congrArg (c :: ·) (ih (List.not_mem_of_not_mem_cons h) args)
  | case9 => exact absurd List.mem_cons_self h
  | case10 => rfl
  | case11 c fmt _ _ _ _ _ _ _ _ _ _ ih =>
    rw [ksprintf] <;> try assumption
    exact congrArg (c :: ·) (ih (List.not_mem_of_not_mem_cons h) args)
  | case12 => rfl

/-! ### Numerals -/

def digitByte (r : Nat) : Byte := .ofNat 8 (0x30 + r)

theorem toString_nat (n : Nat) : toString (n : Int) = n.repr := by
  rw [Int.toString_eq_repr, Int.repr_eq_if, if_pos (Int.natCast_nonneg n), Int.toNat_natCast]

/-- The numeral of a number of `k + 1` digits. -/
theorem numeral_nat {n k : Nat} (hlt : n < 10 ^ (k + 1)) (hle : k = 0 ∨ 10 ^ k ≤ n) :
    numeral n = digits 10 digitByte (k + 1) n := by
  have hletters : ∀ r < 10, BitVec.ofNat 8 r.digitChar.toNat = digitByte r := by decide
  unfold numeral ascii
  rw [toString_nat, Nat.toList_repr, toDigits_map (by decide) hlt hle]
  exact digits_congr (by decide) hletters (k + 1) n

theorem numeral_neg {n : Nat} (h : 0 < n) : numeral (-(n : Int)) = 0x2D :: numeral n := by
  have hneg : toString (-(n : Int)) = "-" ++ n.repr := by
    rw [Int.toString_eq_repr, Int.repr_eq_if, if_neg (by omega), Int.neg_neg, Int.toNat_natCast]
  unfold numeral ascii
  rw [hneg, toString_nat, String.toList_append, List.map_append]
  rfl

/-- The first loop comes to the highest power of ten in the number. -/
theorem pkdUnit_eq {m t : Nat} (h : t < 10 ^ (m + 1)) (d : Int) :
    ∃ k, k ≤ m ∧ pkdUnit m t d = d * 10 ^ k ∧ t < 10 ^ (k + 1) ∧ (k = 0 ∨ 10 ^ k ≤ t) := by
  induction m generalizing t d with
  | zero => exact ⟨0, Nat.le_refl 0, (Int.mul_one d).symm, h, .inl rfl⟩
  | succ m ih =>
    rw [pkdUnit]
    by_cases hten : (t : Int) ≥ 10
    · have hdiv : t / 10 < 10 ^ (m + 1) := by
        rw [Nat.pow_succ] at h
        omega
      obtain ⟨k, hk, hunit, hlt, hle⟩ := ih hdiv (d * 10)
      have hge : 10 ^ k ≤ t / 10 := hle.elim (fun h0 => by rw [h0]; omega) id
      refine ⟨k + 1, Nat.succ_le_succ hk, ?_, ?_, .inr ?_⟩
      · have hcast : (t : Int).tdiv 10 = (t / 10 : Nat) := (Int.ofNat_tdiv t 10).symm
        rw [if_pos hten, hcast, hunit, Int.pow_succ, Int.mul_assoc, Int.mul_comm 10]
      · rw [Nat.pow_succ]
        omega
      · rw [Nat.pow_succ]
        omega
    · rw [if_neg hten]
      exact ⟨0, Nat.zero_le _, (Int.mul_one d).symm, by omega, .inl rfl⟩

theorem pkdDigits_succ (m k v : Nat) : pkdDigits (m + 1) v (10 ^ k) =
    digitByte (v / 10 ^ k % 10) :: pkdDigits m v ((10 ^ k : Int).tdiv 10) := by
  have hpow : (10 ^ k : Int) = (10 ^ k : Nat) := (Int.natCast_pow 10 k).symm
  have hne : (10 ^ k : Int) ≠ 0 := Int.pow_ne_zero (by decide)
  have hdigit : (v : Int).tdiv (10 ^ k : Int) = (v / 10 ^ k : Nat) := by
    rw [hpow]
    exact (Int.ofNat_tdiv v _).symm
  rw [pkdDigits, if_pos hne, hdigit]
  congr 1

/-- The second loop writes the digits from that power on. -/
theorem pkdDigits_eq {m k : Nat} (h : k < m) (v : Nat) :
    pkdDigits m v (10 ^ k) = digits 10 digitByte (k + 1) v := by
  induction k generalizing m with
  | zero =>
    obtain ⟨m, rfl⟩ : ∃ l, m = l + 1 := ⟨m - 1, by omega⟩
    rw [pkdDigits_succ, digits_succ]
    congr 1
    cases m with
    | zero => rfl
    | succ m => exact if_neg (not_not.mpr rfl)
  | succ k ih =>
    obtain ⟨m, rfl⟩ : ∃ l, m = l + 1 := ⟨m - 1, by omega⟩
    have hdiv : (10 ^ (k + 1) : Int).tdiv 10 = 10 ^ k := by
      rw [Int.pow_succ]
      exact Int.mul_tdiv_cancel _ (by decide)
    rw [pkdDigits_succ, digits_succ, hdiv, ih (by omega)]

theorem pkd_nat {n : Nat} (h : n < 2 ^ 31) : pkdDigits 10 n (pkdUnit 9 n 1) = numeral n := by
  obtain ⟨k, hk, hunit, hlt, hle⟩ := @pkdUnit_eq 9 n (by omega) 1
  rw [hunit, Int.one_mul, pkdDigits_eq (by omega), numeral_nat hlt hle]

/-- `%d` gives the numeral of every `int` but the least. -/
theorem pkd_eq_numeral {v : Int} (h : -2147483648 < v) (h' : v < 2147483648) : pkd v = numeral v := by
  unfold pkd
  dsimp only
  by_cases hneg : v < 0
  · obtain ⟨n, hn⟩ : ∃ n : Nat, v = -(n : Int) := ⟨(-v).toNat, by omega⟩
    have hsame : (BitVec.ofInt 32 (-v)).toInt = n := by
      rw [BitVec.toInt_ofInt, hn, Int.neg_neg, Int.bmod_eq_of_le (by omega) (by omega)]
    rw [if_pos hneg, if_pos hneg, hsame, pkd_nat (by omega), hn, numeral_neg (by omega)]
    rfl
  · obtain ⟨n, rfl⟩ : ∃ n : Nat, v = n := ⟨v.toNat, by omega⟩
    rw [if_neg hneg, if_neg hneg, pkd_nat (by omega)]
    rfl

/-- The least `int` gives a text of two characters, which is too short. -/
theorem pkd_least : (pkd (-2147483648)).length = 2 ∧ (numeral (-2147483648)).length = 11 := by
  refine ⟨by decide, ?_⟩
  rw [show (-2147483648 : Int) = -((2147483648 : Nat) : Int) from rfl, numeral_neg (by decide),
    @numeral_nat 2147483648 9 (by decide) (.inr (by decide)), List.length_cons, digits_length]

theorem pkx_eq (v w : Nat) : pkx v w = hexText w v := by
  have hletters : ∀ r < 16, (if r < 10 then BitVec.ofNat 8 (0x30 + r)
      else BitVec.ofNat 8 (0x41 + r - 10)) = (ascii "0123456789ABCDEF").getD r 0 := by decide
  unfold hexText
  induction w with
  | zero => rfl
  | succ w ih =>
    rw [pkx, digits_succ, ih, ← hletters _ (Nat.mod_lt _ (by decide))]

/-- Of an `int` the last digits. -/
theorem pkx_int {w : Nat} (hw : w ≤ 8) (v : Int) :
    pkx (BitVec.ofInt 32 v).toNat w = hexText w (v % 16 ^ w).toNat := by
  have hdvd : (16 ^ w : Nat) ∣ 2 ^ 32 := by
    rw [show 2 ^ 32 = 16 ^ 8 from rfl]
    exact Nat.pow_dvd_pow 16 hw
  have hpow : (16 ^ w : Int) = (16 ^ w : Nat) := (Int.natCast_pow 16 w).symm
  have hmod : (((BitVec.ofInt 32 v).toNat % 16 ^ w : Nat) : Int) = v % 16 ^ w := by
    rw [BitVec.toNat_ofInt, Int.natCast_emod, Int.toNat_of_nonneg (Int.emod_nonneg v (by decide)),
      hpow]
    exact Int.emod_emod_of_dvd v (Int.natCast_dvd_natCast.mpr hdvd)
  have hlow : (v % 16 ^ w).toNat = (BitVec.ofInt 32 v).toNat % 16 ^ w := by
    rw [← hmod, Int.toNat_natCast]
  rw [pkx_eq, hlow]
  exact (digits_mod w _).symm

/-! ### Text and pieces -/

/-- The text `t` is `s` exactly if `q` holds, and is shorter if it does not. -/
structure Prints (t s : Text) (q : Prop) : Prop where
  le : t.length ≤ s.length
  eq : q → t = s
  only : t.length = s.length → q

theorem Prints.of_eq {t s : Text} (h : t = s) : Prints t s True :=
  ⟨Nat.le_of_eq (congrArg List.length h), fun _ => h, fun _ => trivial⟩

theorem Prints.append {t s t' s' : Text} {q q' : Prop} (h : Prints t s q) (h' : Prints t' s' q') :
    Prints (t ++ t') (s ++ s') (q ∧ q') := by
  have hle := h.le
  have hle' := h'.le
  refine ⟨?_, fun hq => by rw [h.eq hq.1, h'.eq hq.2], fun hlen => ?_⟩
  · rw [List.length_append, List.length_append]
    omega
  · rw [List.length_append, List.length_append] at hlen
    exact ⟨h.only (by omega), h'.only (by omega)⟩

theorem Prints.congr {t s : Text} {q q' : Prop} (h : Prints t s q) (hq : q ↔ q') : Prints t s q' :=
  ⟨h.le, fun h' => h.eq (hq.mpr h'), fun hlen => hq.mp (h.only hlen)⟩

theorem noLeast_cons {p : Piece} (hp : p.takes = true) (a : PrintArg) (ps : List Piece)
    (args : List PrintArg) : NoLeast (p :: ps) (a :: args) ↔
      (p, a) ≠ (Piece.dec, PrintArg.int (-2147483648)) ∧ NoLeast ps args := by
  unfold NoLeast
  rw [List.filter_cons_of_pos hp, List.zip_cons_cons, List.mem_cons, not_or]
  exact and_congr_left fun _ => not_congr eq_comm

theorem prints_dec {v : Int} (h : -2147483648 ≤ v ∧ v < 2147483648) :
    Prints (pkd v) (numeral v) ((Piece.dec, PrintArg.int v) ≠ (.dec, .int (-2147483648))) := by
  by_cases hv : v = -2147483648
  · obtain ⟨hshort, hlong⟩ := pkd_least
    subst hv
    refine ⟨by omega, fun hne => absurd rfl hne, fun hlen => ?_⟩
    rw [hshort, hlong] at hlen
    exact absurd hlen (by decide)
  · have hne : (Piece.dec, PrintArg.int v) ≠ (.dec, .int (-2147483648)) := fun heq => by
      cases heq
      exact hv rfl
    exact (Prints.of_eq (pkd_eq_numeral (by omega) h.2)).congr (iff_of_true trivial hne)

/-- What the code writes for pieces is their text, but for the least `int`. -/
theorem prints_puts {ps : List Piece} {args : List PrintArg} {s : Text} (h : Formats ps args s) :
    Prints (puts ps args) s (NoLeast ps args) := by
  have hother : ∀ {t t' s s' : Text} {x : Piece × PrintArg} {q : Prop}, t = t' → Prints s s' q →
      x ≠ (.dec, .int (-2147483648)) →
      Prints (t ++ s) (t' ++ s') (x ≠ (.dec, .int (-2147483648)) ∧ q) :=
    fun ht hs hx => (Prints.of_eq ht).append hs |>.congr (and_congr_left fun _ => iff_of_true trivial hx)
  induction h with
  | done args => exact (Prints.of_eq rfl).congr (iff_of_true trivial fun h => by cases h)
  | cut args => exact (Prints.of_eq rfl).congr (iff_of_true trivial fun h => by cases h)
  | char c _ ih => exact ((Prints.of_eq (t := [c]) rfl).append ih).congr (iff_of_eq (true_and _))
  | str t _ ih => exact (hother rfl ih (by nofun)).congr (noLeast_cons rfl _ _ _).symm
  | dec v _ range ih => exact ((prints_dec range).append ih).congr (noLeast_cons rfl _ _ _).symm
  | hex w v _ width ih =>
    exact (hother (pkx_int width v) ih (by nofun)).congr (noLeast_cons rfl _ _ _).symm
  | long v _ ih =>
    have htext : pkx v 16 = hexText 16 (v % 16 ^ 16) := by
      rw [pkx_eq]
      exact (digits_mod 16 v).symm
    exact (hother htext ih (by nofun)).congr (noLeast_cons rfl _ _ _).symm

/-! ### The buffer -/

theorem putBytes_eq (s : Text) (buf : Buf) (p : Nat) : (putBytes s (buf, p)).2 = p + s.length ∧
    (∀ i < s.length, (putBytes s (buf, p)).1 (p + i) = s.getD i 0) ∧
      ∀ i, i < p ∨ p + s.length ≤ i → (putBytes s (buf, p)).1 i = buf i := by
  induction s generalizing buf p with
  | nil => exact ⟨rfl, fun i hi => absurd hi (Nat.not_lt_zero i), fun _ _ => rfl⟩
  | cons c s ih =>
    obtain ⟨hend, htext, hframe⟩ := ih (Function.update buf p c) (p + 1)
    rw [putBytes, List.length_cons]
    refine ⟨by omega, fun i hi => ?_, fun i hi => ?_⟩
    · cases i with
      | zero =>
        have hfirst := hframe p (by omega)
        rwa [Function.update_self] at hfirst
      | succ i =>
        have := htext i (by omega)
        rwa [Nat.add_assoc, Nat.add_comm 1] at this
    · rw [hframe i (by omega), Function.update_of_ne (by omega)]

/-- The buffer holds the text and a NUL, and the length is returned as an `int`. -/
theorem ksprintfBuf_eq (buf : Buf) (fmt : Text) (args : List PrintArg) :
    (ksprintfBuf buf fmt args).1 = (BitVec.ofNat 32 (ksprintf fmt args).length).toInt ∧
      (∀ i < (ksprintf fmt args).length,
        (ksprintfBuf buf fmt args).2 i = (ksprintf fmt args).getD i 0) ∧
      (ksprintfBuf buf fmt args).2 (ksprintf fmt args).length = 0 ∧
      ∀ i, (ksprintf fmt args).length < i → (ksprintfBuf buf fmt args).2 i = buf i := by
  obtain ⟨hend, htext, hframe⟩ := putBytes_eq (ksprintf fmt args) buf 0
  rw [Nat.zero_add] at hend hframe
  unfold ksprintfBuf
  dsimp only
  rw [hend]
  refine ⟨rfl, fun i hi => ?_, Function.update_self .., fun i hi => ?_⟩
  · rw [Function.update_of_ne (by omega), ← htext i hi, Nat.zero_add]
  · rw [Function.update_of_ne (by omega), hframe i (by omega)]

theorem toInt_length {n : Nat} (h : n < 2 ^ 31) : (BitVec.ofNat 32 n).toInt = n := by
  rw [BitVec.toInt_ofNat', Int.bmod_eq_of_le (by omega) (by omega)]

/-- Formatting is right exactly if the format does not end behind a `%`, no `%d` is given the least
`int`, and the lengths are those of an `int`. -/
theorem format_right_iff {fmt : Text} {args : List PrintArg} {s : Text}
    (h : Formats (pieces fmt) args s) : FormatRight fmt args s ↔ FormatGuard fmt args s := by
  have hprints := prints_puts h
  obtain ⟨hwhole, hcut⟩ := reads_right fmt
  constructor
  · intro hright
    have hno : Piece.cut ∉ pieces fmt := fun hmem =>
      Nat.not_le.mpr (hcut hmem) hright.reads
    have hreads := hwhole hno
    have hindex := hright.index
    have hlen := hright.length fun _ => 0
    rw [(ksprintfBuf_eq _ fmt args).1, ksprintf_eq_puts hno] at hlen
    have hint : (BitVec.ofNat 32 (puts (pieces fmt) args).length).toInt < 2 ^ 31 :=
      BitVec.toInt_lt
    have htext : s.length < 2 ^ 31 := by omega
    have hle := hprints.le
    rw [toInt_length (by omega)] at hlen
    exact ⟨hno, hprints.only (Int.ofNat_inj.mp hlen), by omega, htext⟩
  · rintro ⟨hno, hleast, hformat, htext⟩
    have hsame : ksprintf fmt args = s := (ksprintf_eq_puts hno args).trans (hprints.eq hleast)
    have hreads := hwhole hno
    refine ⟨by omega, by omega, fun buf => ?_, fun buf => ?_, fun buf => ?_, fun buf => ?_⟩
    · rw [(ksprintfBuf_eq buf fmt args).1, hsame, toInt_length htext]
    · have := (ksprintfBuf_eq buf fmt args).2.1
      rwa [hsame] at this
    · have := (ksprintfBuf_eq buf fmt args).2.2.1
      rwa [hsame] at this
    · have := (ksprintfBuf_eq buf fmt args).2.2.2
      rwa [hsame] at this

/-- "%d%%" with 7, and other bytes behind the NUL. -/
theorem format_right_percent :
    FormatRight (ascii "%d%%" ++ [0, 0x41]) [.int 7] (numeral 7 ++ [0x25]) := by
  have hpieces : pieces (ascii "%d%%" ++ [0, 0x41]) = [.dec, .char 0x25] := by decide
  have hformats : Formats (pieces (ascii "%d%%" ++ [0, 0x41])) [.int 7] (numeral 7 ++ [0x25]) := by
    rw [hpieces]
    exact .dec 7 (.char 0x25 (.done [])) (by decide)
  have hleast : NoLeast [.dec, .char 0x25] [.int 7] := (noLeast_cons rfl _ _ _).mpr
    ⟨fun heq => absurd (PrintArg.int.inj (Prod.mk.inj heq).2) (by decide), fun hmem => by cases hmem⟩
  exact (format_right_iff hformats).mpr
    ⟨by rw [hpieces]; decide, by rwa [hpieces], by decide, by decide⟩

/-- The least `int`, and a format that ends behind a `%`. -/
theorem format_wrong : ¬ FormatRight (ascii "%d") [.int (-2147483648)] (numeral (-2147483648) ++ []) ∧
    ¬ FormatRight (ascii "50%" ++ [0, 0x41]) [] (ascii "50") := by
  refine ⟨fun h => ?_, fun h => absurd h.reads (by decide)⟩
  have hlen := h.length fun _ => 0
  rw [List.append_nil, pkd_least.2] at hlen
  exact absurd hlen (by decide)

end WinDOS
