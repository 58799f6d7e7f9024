import Mathlib.Algebra.BigOperators.Group.List.Basic
import Taskq.Model.Jsonb

/-! Python values that a handler hands to the worker: the text that `json.dumps` writes of them, which the worker
measures, and the document that the database reads, which the server measures. -/
namespace Taskq
namespace Worker

section Text

/-- A code point; a Python string may hold surrogates. -/
abbrev Code := Fin 0x110000

abbrev PyStr := List Code

def highSurrogate (c : Code) : Bool := 0xD800 ≤ c.val && c.val < 0xDC00

def lowSurrogate (c : Code) : Bool := 0xDC00 ≤ c.val && c.val < 0xE000

def surrogate (c : Code) : Bool := highSurrogate c || lowSurrogate c

/-- The bytes of a code point in UTF-8. -/
def utf8Size (c : Code) : ℕ := if c.val < 0x80 then 1 else if c.val < 0x800 then 2 else if c.val < 0x10000 then 3 else 4

/-- The length of `s.encode("utf-8")`, which raises at a surrogate. -/
def encodedLength (s : PyStr) : Option ℕ := if s.any surrogate then none else some (s.map utf8Size).sum

theorem scalar_lt (c : Char) : c.toNat < 0x110000 := by
  have valid := c.valid
  simp only [UInt32.isValidChar, Nat.isValidChar] at valid
  change c.val.toNat < 0x110000
  omega

def codeOf (c : Char) : Code := ⟨c.toNat, scalar_lt c⟩

/-- A text without surrogates. -/
def py (s : String) : PyStr := s.toList.map codeOf

/-- A text parameter as the database takes it: neither a surrogate nor the character NUL. -/
def textParam (s : PyStr) : Option String :=
  if s.any fun c => surrogate c || c.val = 0 then none else some (String.ofList (s.map fun c => Char.ofNat c.val))

/-- The characters of a JSON string that was written with its escapes: a pair of surrogates is one character. The
database has no NUL, and rejects a surrogate without its partner. -/
def unescaped : PyStr → Option (List Char)
  | [] => some []
  | c :: cs =>
    if c.val = 0 then none
    else if highSurrogate c then
      match cs with
      | d :: ds =>
        if lowSurrogate d then
          (unescaped ds).map (Char.ofNat (0x10000 + (c.val - 0xD800) * 0x400 + (d.val - 0xDC00)) :: ·)
        else none
      | [] => none
    else if lowSurrogate c then none
    else (unescaped cs).map (Char.ofNat c.val :: ·)

end Text

section Numbers

/-- A `float`. A finite one is `0.d₁d₂… × 10 ^ point` with the digits of its shortest representation. -/
inductive PyFloat where
  | nan
  | infinite (negative : Bool)
  | finite (negative : Bool) (digits : ℕ) (point : ℤ)

/-- `float.__repr__`, as `json.dumps` writes it. -/
def PyFloat.repr : PyFloat → List Char
  | .nan => "NaN".toList
  | .infinite negative => (if negative then "-Infinity" else "Infinity").toList
  | .finite negative digits point =>
    let ds := (Nat.repr digits).toList
    let sign := if negative then ['-'] else []
    let zeros (n : ℤ) := List.replicate n.toNat '0'
    if -4 < point ∧ point ≤ 16 then
      if point ≤ 0 then sign ++ "0.".toList ++ zeros (-point) ++ ds
      else if point < ds.length then sign ++ ds.take point.toNat ++ '.' :: ds.drop point.toNat
      else sign ++ ds ++ zeros (point - ds.length) ++ ".0".toList
    else
      let exponent := point - 1
      let shown := (Nat.repr exponent.natAbs).toList
      sign ++ ds.take 1 ++ (if 1 < ds.length then '.' :: ds.drop 1 else []) ++
        ['e', if exponent < 0 then '-' else '+'] ++ List.replicate (2 - shown.length) '0' ++ shown

/-- The `numeric` that the database reads from it; `NaN` and `Infinity` are not JSON. -/
def PyFloat.numeric : PyFloat → Option Numeric
  | .finite negative digits point =>
    let size := (Nat.repr digits).length
    let signed : ℤ := if negative then -digits else digits
    some (
      if point < size then ⟨signed, (size - point).toNat⟩
      else if point ≤ 16 then ⟨signed * 10 ^ ((point - size).toNat + 1), 1⟩
      else ⟨signed * 10 ^ (point - size).toNat, 0⟩)
  | _ => none

/-- `int.__repr__`, which raises beyond 4300 digits. -/
def intRepr (n : ℤ) : Option (List Char) :=
  if (Nat.repr n.natAbs).length ≤ 4300 then some (toString n).toList else none

end Numbers

section Values

/-- A key of a dictionary; `json.dumps` raises at other ones. -/
inductive PyKey where
  | str (s : PyStr)
  | int (n : ℤ)
  | float (f : PyFloat)
  | bool (b : Bool)
  | none
  | other

/-- A Python value; `json.dumps` raises at other ones. -/
inductive PyValue where
  | none
  | bool (b : Bool)
  | int (n : ℤ)
  | float (f : PyFloat)
  | str (s : PyStr)
  | list (elements : List PyValue)
  | dict (fields : List (PyKey × PyValue))
  | other

/-- The text of a key in a JSON object. -/
def PyKey.text : PyKey → Option PyStr
  | .str s => some s
  | .int n => (intRepr n).map (·.map codeOf)
  | .float f => some (f.repr.map codeOf)
  | .bool b => some (py (if b then "true" else "false"))
  | .none => some (py "null")
  | .other => Option.none

/-- A character of a JSON string with `ensure_ascii=False`. -/
def escapedCode (c : Code) : PyStr :=
  if c = codeOf '"' then py "\\\""
  else if c = codeOf '\\' then py "\\\\"
  else if c = codeOf '\n' then py "\\n"
  else if c = codeOf '\r' then py "\\r"
  else if c = codeOf '\t' then py "\\t"
  else if c.val = 8 then py "\\b"
  else if c.val = 12 then py "\\f"
  else if c.val < 32 then py "\\u00" ++ (Jsonb.hexPair c.val).map codeOf
  else [c]

def quoted (s : PyStr) : PyStr := codeOf '"' :: s.flatMap escapedCode ++ [codeOf '"']

mutual

/-- `json.dumps(value, ensure_ascii=False, separators=(",", ":"))`. -/
def dumps : PyValue → Option PyStr
  | .none => some (py "null")
  | .bool b => some (py (if b then "true" else "false"))
  | .int n => (intRepr n).map (·.map codeOf)
  | .float f => some (f.repr.map codeOf)
  | .str s => some (quoted s)
  | .list xs => (dumpsElements xs).map fun parts => py "[" ++ List.intercalate (py ",") parts ++ py "]"
  | .dict fs => (dumpsFields fs).map fun parts => py "\x7b" ++ List.intercalate (py ",") parts ++ py "\x7d"
  | .other => Option.none

def dumpsElements : List PyValue → Option (List PyStr)
  | [] => some []
  | x :: xs => do
    let part ← dumps x
    let parts ← dumpsElements xs
    some (part :: parts)

def dumpsFields : List (PyKey × PyValue) → Option (List PyStr)
  | [] => some []
  | (k, x) :: fs => do
    let key ← k.text
    let part ← dumps x
    let parts ← dumpsFields fs
    some ((quoted key ++ py ":" ++ part) :: parts)

end

mutual

/-- The document that the database reads from the JSON text of a value. -/
def document : PyValue → Option Jsonb
  | .none => some .null
  | .bool b => some (.bool b)
  | .int n => some (.num (.ofInt n))
  | .float f => f.numeric.map .num
  | .str s => (unescaped s).map fun cs => .str (String.ofList cs)
  | .list xs => (documents xs).map .arr
  | .dict fs => (entries fs).map .build
  | .other => Option.none

def documents : List PyValue → Option (List Jsonb)
  | [] => some []
  | x :: xs => do
    let d ← document x
    let ds ← documents xs
    some (d :: ds)

def entries : List (PyKey × PyValue) → Option (List (String × Jsonb))
  | [] => some []
  | (k, x) :: fs => do
    let key ← k.text.bind unescaped
    let d ← document x
    let ds ← entries fs
    some ((String.ofList key, d) :: ds)

end

/-- `_checkpoint_copy`; none when it raises. -/
def checkpointCopy (progress : PyValue) : Option PyValue :=
  match progress with
  | .dict _ => if ((dumps progress).bind encodedLength).any (· ≤ 2048) then some progress else Option.none
  | _ => Option.none

/-- `value or other`, for a dictionary or `None`. -/
def PyValue.orElse (value fallback : PyValue) : PyValue :=
  match value with
  | .none | .dict [] => fallback
  | _ => value

end Values

end Worker
end Taskq
