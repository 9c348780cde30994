/-! # Hexadecimal numerals

Numerals of a fixed width stand in escapes; messages show numbers with no more digits than they need.
-/

namespace IonLiteral.Hex

/-- The last `width` hexadecimal digits of a number, the most significant first, in lower case. -/
def fixed : (width value : Nat) → List Char
  | 0, _ => []
  | width + 1, value => fixed width (value / 16) ++ [Nat.digitChar (value % 16)]

/-- A numeral of a fixed width is as long as its width. -/
@[simp]
theorem length_fixed (width value : Nat) : (fixed width value).length = width := by
  induction width generalizing value with
  | zero => rfl
  | succ width ih => simp [fixed, ih]

/-- The value of a hexadecimal digit of either case. -/
def digitValue? (c : Char) : Option Nat :=
  if '0' ≤ c ∧ c ≤ '9' then some (c.toNat - '0'.toNat)
  else if 'a' ≤ c ∧ c ≤ 'f' then some (c.toNat - 'a'.toNat + 10)
  else if 'A' ≤ c ∧ c ≤ 'F' then some (c.toNat - 'A'.toNat + 10)
  else none

/-- Read `width` more digits of a numeral that has the value `value` so far. The answer is the value
of the whole numeral and what follows it. -/
def readMore (value : Nat) : (width : Nat) → List Char → Option (Nat × List Char)
  | 0, cs => some (value, cs)
  | _ + 1, [] => none
  | width + 1, c :: cs =>
    match digitValue? c with
    | some digit => readMore (16 * value + digit) width cs
    | none => none

/-- Read a numeral of exactly `width` digits. -/
def read? (width : Nat) (cs : List Char) : Option (Nat × List Char) :=
  readMore 0 width cs

/-- Reading a numeral uses up as many characters as it has digits. -/
theorem length_of_readMore {value width found : Nat} {cs rest : List Char}
    (ok : readMore value width cs = some (found, rest)) : cs.length = width + rest.length := by
  induction width generalizing value cs with
  | zero =>
    obtain ⟨rfl, rfl⟩ := Prod.mk.inj (Option.some.inj ok)
    exact (Nat.zero_add _).symm
  | succ width ih =>
    cases cs with
    | nil => cases ok
    | cons c cs =>
      simp only [readMore] at ok
      split at ok
      · simp only [List.length_cons, ih ok]
        omega
      · cases ok

/-- Digits are read as they are written. -/
theorem digitValue?_digitChar {n : Nat} (small : n < 16) :
    digitValue? (Nat.digitChar n) = some n := by
  have all : ∀ m : Fin 16, digitValue? (Nat.digitChar m) = some m.val := by decide
  exact all ⟨n, small⟩

/-- A numeral is read in two parts, the second going on from the value of the first. -/
theorem readMore_append (start width more : Nat) (cs : List Char) :
    readMore start (width + more) cs =
      (readMore start width cs).bind fun read => readMore read.1 more read.2 := by
  induction width generalizing start cs with
  | zero => rw [Nat.zero_add]; rfl
  | succ width ih =>
    rw [Nat.succ_add]
    cases cs with
    | nil => rfl
    | cons c cs =>
      simp only [readMore]
      split
      · exact ih _ _
      · rfl

/-- A number without leading zeros, in lower case. -/
def minimal (n : Nat) : String :=
  String.ofList (Nat.toDigits 16 n)

/-- A number in upper case, filled up with zeros to four digits. -/
def upperFour (n : Nat) : String :=
  String.ofList (((Nat.toDigits 16 n).map Char.toUpper).leftpad 4 '0')

end IonLiteral.Hex
