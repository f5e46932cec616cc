import Mathlib.Data.List.TakeWhile
import WinDOS.Draw.Clipped

/-!
# Formatted text (`sys/stdio.h`)

`ksprintf` as the text it writes. It is given no size: the text and its NUL go to the buffer
whatever the length of the buffer is.
-/

set_option autoImplicit false

namespace WinDOS

def ascii (s : String) : Text := s.toList.map fun c => BitVec.ofNat 8 c.toNat

/-- What a reader of the bytes sees before the first NUL. -/
def cstr (s : Text) : Text := s.takeWhile (· ≠ 0)

inductive PrintArg where
  | str (s : Text)
  | int (v : Int)
  | long (v : Nat)

/-- The first loop of `pkd`. An `int` below 10^10 needs at most nine rounds. -/
def pkdUnit : Nat → Int → Int → Int
  | 0, _, d => d
  | n + 1, t, d => if t ≥ 10 then pkdUnit n (t.tdiv 10) (d * 10) else d

/-- The second loop of `pkd`, at most ten rounds. -/
def pkdDigits : Nat → Int → Int → Text
  | 0, _, _ => []
  | n + 1, v, d =>
    if d ≠ 0 then BitVec.ofInt 8 (0x30 + (v.tdiv d).tmod 10) :: pkdDigits n v (d.tdiv 10) else []

/-- The negative of the least `int` is itself. -/
def pkd (v : Int) : Text :=
  let sign : Text := if v < 0 then [0x2D] else []
  let v := if v < 0 then (BitVec.ofInt 32 (-v)).toInt else v
  sign ++ pkdDigits 10 v (pkdUnit 9 v 1)

/-- `pkx` and `pkx64`: the last `w` hexadecimal digits. -/
def pkx (v : Nat) : Nat → Text
  | 0 => []
  | w + 1 =>
    let n := v / 16 ^ w % 16
    (if n < 10 then BitVec.ofNat 8 (0x30 + n) else BitVec.ofNat 8 (0x41 + n - 10)) :: pkx v w

def vaStr : List PrintArg → Text
  | .str s :: _ => cstr s
  | _ => []

def vaInt : List PrintArg → Int
  | .int v :: _ => v
  | _ => 0

def vaLong : List PrintArg → Nat
  | .long v :: _ => v
  | _ => 0

/-- `%s`, `%d`, `%x`, `%lx`, `%X`, `%02X`; any other character after `%` is copied, also a NUL, with
which the loop then does not end. The format is given with what lies behind its NUL; the end of the
list stands for a NUL. -/
def ksprintf : Text → List PrintArg → Text
  | 0x25#8 :: 0x73#8 :: fmt, args => vaStr args ++ ksprintf fmt args.tail
  | 0x25#8 :: 0x64#8 :: fmt, args => pkd (vaInt args) ++ ksprintf fmt args.tail
  | 0x25#8 :: 0x78#8 :: fmt, args =>
    pkx (BitVec.ofInt 32 (vaInt args)).toNat 8 ++ ksprintf fmt args.tail
  | 0x25#8 :: 0x6C#8 :: 0x78#8 :: fmt, args => pkx (vaLong args) 16 ++ ksprintf fmt args.tail
  | 0x25#8 :: 0x58#8 :: fmt, args =>
    pkx (BitVec.ofInt 32 (vaInt args)).toNat 4 ++ ksprintf fmt args.tail
  | 0x25#8 :: 0x30#8 :: 0x32#8 :: 0x58#8 :: fmt, args =>
    pkx (BitVec.ofInt 32 (vaInt args)).toNat 2 ++ ksprintf fmt args.tail
  | 0x25#8 :: f :: fmt, args => f :: ksprintf fmt args
  | [0x25#8], _ => [0]
  | 0x00#8 :: _, _ => []
  | c :: fmt, args => c :: ksprintf fmt args
  | [], _ => []

theorem ksprintf_char {c : BitVec 8} (h : c ≠ 0x25) (h0 : c ≠ 0) (fmt : Text)
    (args : List PrintArg) : ksprintf (c :: fmt) args = c :: ksprintf fmt args := by
  rw [ksprintf] <;> simp_all

theorem ksprintf_plain {l : Text} (h : ∀ c ∈ l, c ≠ 0x25 ∧ c ≠ 0) (fmt : Text)
    (args : List PrintArg) : ksprintf (l ++ fmt) args = l ++ ksprintf fmt args := by
  induction l with
  | nil => rfl
  | cons c l ih =>
    obtain ⟨hplain, h0⟩ := h c List.mem_cons_self
    rw [List.cons_append, ksprintf_char hplain h0,
      ih fun d hd => h d (List.mem_cons_of_mem c hd), List.cons_append]

theorem ksprintf_str (s : Text) (fmt : Text) (args : List PrintArg) :
    ksprintf (0x25 :: 0x73 :: fmt) (.str s :: args) = cstr s ++ ksprintf fmt args := rfl

theorem ksprintf_int (v : Int) (fmt : Text) (args : List PrintArg) :
    ksprintf (0x25 :: 0x64 :: fmt) (.int v :: args) = pkd v ++ ksprintf fmt args := rfl

theorem pkdDigits_length_le (n : Nat) (v d : Int) : (pkdDigits n v d).length ≤ n := by
  induction n generalizing d with
  | zero => exact Nat.le_refl 0
  | succ n ih =>
    rw [pkdDigits]
    split
    · exact Nat.succ_le_succ (ih _)
    · exact Nat.zero_le _

theorem pkd_length_le (v : Int) : (pkd v).length ≤ 11 := by
  have hdigits := fun w => pkdDigits_length_le 10 w (pkdUnit 9 w 1)
  unfold pkd
  dsimp only
  rw [List.length_append]
  split
  · have := hdigits (BitVec.ofInt 32 (-v)).toInt
    rw [List.length_singleton]
    omega
  · have := hdigits v
    rw [List.length_nil]
    omega

example : ksprintf (ascii "%d" ++ [0, 0x41]) [.int 7] = ascii "7" := by decide

example : pkd 2147483647 = ascii "2147483647" := by decide

example : pkd (-2147483648) = ascii "-(" := by decide

end WinDOS
