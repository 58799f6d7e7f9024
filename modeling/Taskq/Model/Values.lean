import Mathlib.Data.Nat.Digits.Lemmas
import Mathlib.Data.Rat.Floor
import Taskq.Library.Decimal
import Taskq.Library.Transaction
import Taskq.Model.Jsonb

/-! Scalar values of the contract: identifiers and their text, instants, integer columns with the
range checks of their types, SQL errors, and the text checks that the functions share. -/
namespace Taskq
open Relational

/-- Identifiers in the order in which `uuid7` hands them out. -/
abbrev Uuid := ℕ

/-- Microseconds since the epoch. Infinite timestamps are not represented. -/
abbrev Time := ℤ

/-- `make_interval(secs => n)` for a whole number of seconds. -/
def seconds (n : ℤ) : ℤ := n * 1000000

/-- The first instant that a timestamp can hold. -/
def minTimestamp : Time := -210866803200000000

def hours (n : ℤ) : ℤ := seconds (n * 3600)

/-- `interval 'n days'` where the session's time zone has no clock changes: every day has 24 hours. -/
def days (n : ℤ) : ℤ := hours (n * 24)

namespace Uuid

/-- Hexadecimal digits, least significant first, with a hyphen after the last 12, 16, 20 and 24. -/
def reversedChars (u : Uuid) : List Char :=
  let digits := (Nat.digits 16 u).map Nat.digitChar
  let padded := digits ++ List.replicate (32 - digits.length) '0'
  padded.take 12 ++ '-' :: (padded.drop 12).take 4 ++ '-' :: (padded.drop 16).take 4 ++
    '-' :: (padded.drop 20).take 4 ++ '-' :: padded.drop 24

/-- The canonical text form. -/
def text (u : Uuid) : String := String.ofList (reversedChars u).reverse

example : text 0x1234 = "00000000-0000-0000-0000-000000001234" := by decide

end Uuid

/-- The SQLSTATE values that the functions raise themselves or meet at a constraint. -/
inductive SqlState where
  | tq001 | tq403 | tq409 | tq422 | tq425 | tq429 | tq500 | tq501
  | numericValueOutOfRange
  | datetimeFieldOverflow
  | invalidTextRepresentation
  | invalidRowCount
  | notNullViolation
  | foreignKeyViolation
  | uniqueViolation
  | checkViolation
  deriving DecidableEq, Repr

structure SqlError where
  state : SqlState
  message : String
  detail : Option Jsonb
  deriving DecidableEq, Repr

def SqlError.mk' (state : SqlState) (message : String) : SqlError := ⟨state, message, none⟩

/-- `DETAIL = '{"reason":…}'`. -/
def SqlError.because (state : SqlState) (message reason : String) : SqlError :=
  ⟨state, message, some (.obj [("reason", .str reason)])⟩

/-- A function call: it raises, and the transaction keeps the state it had, or it returns. -/
abbrev Call := Except SqlError

def raise {α : Type} (e : SqlError) : Call α := .error e

@[simp] theorem raise_eq_ok {α : Type} {e : SqlError} {a : α} : (raise e = .ok a) ↔ False := by
  simp [raise]

def outOfRange (type : String) : SqlError :=
  .mk' .numericValueOutOfRange (type ++ " out of range")

/-- Assignment to a `smallint` column or variable. -/
def int2 (n : ℤ) : Call ℤ := if -32768 ≤ n ∧ n ≤ 32767 then .ok n else .error (outOfRange "smallint")

/-- A value of type `integer`. -/
def int4 (n : ℤ) : Call ℤ :=
  if -2147483648 ≤ n ∧ n ≤ 2147483647 then .ok n else .error (outOfRange "integer")

@[simp] theorem int2_eq_ok {n m : ℤ} : int2 n = .ok m ↔ (-32768 ≤ n ∧ n ≤ 32767) ∧ n = m := by
  unfold int2
  split_ifs with h <;> simp [h]

@[simp] theorem int4_eq_ok {n m : ℤ} :
    int4 n = .ok m ↔ (-2147483648 ≤ n ∧ n ≤ 2147483647) ∧ n = m := by
  unfold int4
  split_ifs with h <;> simp [h]

/-- A random fraction, as `random()` returns it. -/
abbrev Jitter := { r : ℚ // 0 ≤ r ∧ r < 1 }

/-- Rounding of `n / d` to the nearest integer, halves away from zero, for positive `d`. -/
def roundHalfAway (n d : ℤ) : ℤ :=
  if 0 ≤ n then (2 * n + d) / (2 * d) else -((2 * -n + d) / (2 * d))

/-- `truncate_utf8`: binary search for the longest prefix of at most `maxBytes` bytes. The search
runs between `low` and `high`; `fuel` bounds its number of rounds. -/
def truncateSearch (s : String) (maxBytes : ℕ) : ℕ → ℕ → ℕ → ℕ
  | 0, low, _ => low
  | fuel+1, low, high =>
    if low < high then
      let mid := (low + high + 1) / 2
      if octetLength (leftChars s mid) ≤ maxBytes then truncateSearch s maxBytes fuel mid high
      else truncateSearch s maxBytes fuel low (mid - 1)
    else low

def truncateUtf8 (s : String) (maxBytes : ℕ) : String :=
  if octetLength s ≤ maxBytes then s
  else
    let high := min s.length maxBytes
    leftChars s (truncateSearch s maxBytes high 0 high)

def isLowerAlnum (c : Char) : Bool := c.isLower || c.isDigit

def isAlnum (c : Char) : Bool := c.isLower || c.isUpper || c.isDigit

/-- `^[a-z0-9_]{1,57}$`. -/
def isQueueName (s : String) : Bool :=
  1 ≤ s.length && s.length ≤ 57 && s.toList.all fun c => isLowerAlnum c || c = '_'

/-- `^[a-z0-9_.:-]{1,120}$`. -/
def isLimitKey (s : String) : Bool :=
  1 ≤ s.length && s.length ≤ 120 && s.toList.all fun c => isLowerAlnum c || "_.:-".toList.contains c

/-- `^[A-Za-z0-9][A-Za-z0-9._-]{0,63}$`. -/
def isStepKey (s : String) : Bool :=
  match s.toList with
  | [] => false
  | c :: cs => isAlnum c && cs.length ≤ 63 && cs.all fun d => isAlnum d || "._-".toList.contains d

/-- `^[0-9a-f]{64}$`. -/
def isSha256 (s : String) : Bool :=
  s.length = 64 && s.toList.all fun c => c.isDigit || ('a' ≤ c && c ≤ 'f')

end Taskq
