/-!
# Kademlia.Text.Decimal

Decimal numbers. Writing is core's `Nat.toDigits 10`; reading takes ASCII digits only, at least
one, and allows leading zeros. `nat?_toDigits` says that a written number is read back.

Numbers that matter have a bound, and texts come from strangers: `natUpTo?` gives up at the first
digit that takes a number beyond its limit, so a long text costs no more than its length.
`natUpTo?_eq_filter` says that it reads the numbers that `nat?` reads, as far as the limit.
-/

namespace Kademlia

namespace Decimal

/-- The number written by the digits, if there is at least one and nothing else. -/
def nat? (text : List Char) : Option Nat :=
  if text.isEmpty || !text.all Char.isDigit then none
  else some (Nat.ofDigitChars 10 text 0)

/-- The number that digits complete, given the number that the digits before them write; none
beyond the limit. -/
def completeUpTo? (limit : Nat) : Nat → List Char → Option Nat
  | n, [] => some n
  | n, char :: text =>
    let next := 10 * n + (char.toNat - '0'.toNat)
    if char.isDigit ∧ next ≤ limit then completeUpTo? limit next text else none

/-- The number written by the digits, if it is within the limit. -/
def natUpTo? (limit : Nat) (text : List Char) : Option Nat :=
  if text.isEmpty then none else completeUpTo? limit 0 text

/-- The number written by digits after at most one sign, if its size is within the limit. -/
def intUpTo? (limit : Nat) : List Char → Option Int
  | '+' :: text => (natUpTo? limit text).map Int.ofNat
  | '-' :: text => (natUpTo? limit text).map fun (n : Nat) => -(n : Int)
  | text => (natUpTo? limit text).map Int.ofNat

/-- The digits of an integer, after a minus sign if it is negative. -/
def ofInt : Int → List Char
  | .ofNat n => Nat.toDigits 10 n
  | .negSucc n => '-' :: Nat.toDigits 10 (n + 1)

theorem nat?_toDigits (n : Nat) : nat? (Nat.toDigits 10 n) = some n := by
  have hdigits : (Nat.toDigits 10 n).all Char.isDigit = true :=
    List.all_eq_true.mpr fun _ h => Nat.isDigit_of_mem_toDigits (by omega) (by omega) h
  rw [nat?, hdigits, Nat.ofDigitChars_ten_toDigits]
  simp [Nat.toDigits_ne_nil]

/-- Further digits do not make a number smaller. -/
theorem le_ofDigitChars (n : Nat) (text : List Char) : n ≤ Nat.ofDigitChars 10 text n := by
  rw [Nat.ofDigitChars_eq_ofDigitChars_zero]
  have hpos : 0 < 10 ^ text.length := Nat.pow_pos (by omega)
  have hle : n ≤ 10 ^ text.length * n := Nat.le_mul_of_pos_left n hpos
  omega

theorem completeUpTo?_eq {limit n : Nat} {text : List Char} (h : n ≤ limit) :
    completeUpTo? limit n text =
      if text.all Char.isDigit ∧ Nat.ofDigitChars 10 text n ≤ limit then
        some (Nat.ofDigitChars 10 text n)
      else none := by
  induction text generalizing n with
  | nil => simp [completeUpTo?, Nat.ofDigitChars, h]
  | cons char text ih =>
    rw [completeUpTo?, Nat.ofDigitChars_cons]
    by_cases hdigit : char.isDigit = true
    · by_cases hnext : 10 * n + (char.toNat - '0'.toNat) ≤ limit
      · simp only [hdigit, hnext, and_self, if_true, ih hnext, List.all_cons, Bool.true_and]
      · have hle := le_ofDigitChars (10 * n + (char.toNat - '0'.toNat)) text
        rw [if_neg (fun hboth => hnext hboth.2), if_neg (fun hboth => hnext (by omega))]
    · simp [hdigit]

/-- Within the limit the same numbers are read as without one. -/
theorem natUpTo?_eq_filter (limit : Nat) (text : List Char) :
    natUpTo? limit text = (nat? text).filter (· ≤ limit) := by
  rw [natUpTo?, nat?, completeUpTo?_eq (Nat.zero_le limit)]
  by_cases hempty : text.isEmpty = true
  · simp [hempty]
  · by_cases hdigits : text.all Char.isDigit = true
    · simp [hempty, hdigits, Option.filter]
    · simp [hempty, hdigits]

/-- A written number is read back within any limit that it keeps to. -/
theorem natUpTo?_toDigits {limit n : Nat} (h : n ≤ limit) :
    natUpTo? limit (Nat.toDigits 10 n) = some n := by
  rw [natUpTo?_eq_filter, nat?_toDigits]
  simp [Option.filter, h]

/-- Digits alone are no sign. -/
theorem intUpTo?_eq_natUpTo? {limit : Nat} {text : List Char} (h : text.all Char.isDigit = true) :
    intUpTo? limit text = (natUpTo? limit text).map Int.ofNat := by
  cases text with
  | nil => rfl
  | cons char text =>
    have hchar : char.isDigit = true := by simp_all
    unfold intUpTo?
    split
    · rename_i heq; cases heq; exact absurd hchar (by decide)
    · rename_i heq; cases heq; exact absurd hchar (by decide)
    · rfl

/-- A written integer is read back within any limit that its size keeps to. -/
theorem intUpTo?_ofInt {limit : Nat} {n : Int} (h : n.natAbs ≤ limit) :
    intUpTo? limit (ofInt n) = some n := by
  cases n with
  | ofNat n =>
    have hdigits : (Nat.toDigits 10 n).all Char.isDigit = true :=
      List.all_eq_true.mpr fun _ h => Nat.isDigit_of_mem_toDigits (by omega) (by omega) h
    have hread := natUpTo?_toDigits (show n ≤ limit from h)
    rw [ofInt, intUpTo?_eq_natUpTo? hdigits, hread]
    rfl
  | negSucc n =>
    have hread := natUpTo?_toDigits (show n + 1 ≤ limit from h)
    rw [ofInt, intUpTo?, hread]
    simp [Int.negSucc_eq]

end Decimal

end Kademlia
