import Mathlib.Data.List.Induction
import Mathlib.Data.List.Sort
import Mathlib.Data.Nat.Digits.Defs

/-! JSON documents as the database stores them. Only what the functions read is modelled: the kind
of a value, lookups and key lists, the text form (whose byte length is limited), concatenation and
equality, which compares numbers by value and not by their written scale. -/
namespace Taskq

/-- The byte length of a text. -/
def octetLength (s : String) : ℕ := s.utf8ByteSize

/-- The first `n` characters of a text. -/
def leftChars (s : String) (n : ℕ) : String := String.ofList (s.toList.take n)

/-- `LIKE 'prefix%'`. -/
def hasPrefix (p s : String) : Bool := p.toList.isPrefixOf s.toList

/-- A decimal number with the scale it was written with: `unscaled / 10 ^ scale`. -/
structure Numeric where
  unscaled : ℤ
  scale : ℕ
  deriving DecidableEq, Repr

namespace Numeric

def ofInt (n : ℤ) : Numeric := ⟨n, 0⟩

/-- Zeros at the end of the written fraction are dropped, one for each unit of fuel. -/
def trim : ℕ → ℤ → Numeric
  | 0, n => ⟨n, 0⟩
  | scale+1, n => if n % 10 = 0 then trim scale (n / 10) else ⟨n, scale+1⟩

def normalize (n : Numeric) : Numeric := trim n.scale n.unscaled

def text (n : Numeric) : String :=
  let digits := (Nat.repr n.unscaled.natAbs).toList
  let padded := List.replicate (n.scale + 1 - digits.length) '0' ++ digits
  let whole := padded.take (padded.length - n.scale)
  let fraction := padded.drop (padded.length - n.scale)
  String.ofList ((if n.unscaled < 0 then ['-'] else []) ++ whole ++
    (if n.scale = 0 then [] else '.' :: fraction))

/-- The value as an integer, when the fraction is zero. -/
def toInt? (n : Numeric) : Option ℤ :=
  if n.normalize.scale = 0 then some n.normalize.unscaled else none

end Numeric

inductive Jsonb where
  | null
  | bool (b : Bool)
  | num (n : Numeric)
  | str (s : String)
  | arr (elements : List Jsonb)
  | obj (fields : List (String × Jsonb))
  deriving Repr, Inhabited

namespace Jsonb

/-- `jsonb_typeof`. -/
inductive Kind where
  | null | boolean | number | string | array | object
  deriving DecidableEq, Repr

def kind : Jsonb → Kind
  | .null => .null
  | .bool _ => .boolean
  | .num _ => .number
  | .str _ => .string
  | .arr _ => .array
  | .obj _ => .object

mutual

/-- Two documents as stored, numbers compared with their scale. -/
def decEq : (a b : Jsonb) → Decidable (a = b)
  | .null, .null => isTrue rfl
  | .bool a, .bool b => decidable_of_iff (a = b) (by simp)
  | .num a, .num b => decidable_of_iff (a = b) (by simp)
  | .str a, .str b => decidable_of_iff (a = b) (by simp)
  | .arr a, .arr b =>
    match decEqElements a b with
    | isTrue h => isTrue (by rw [h])
    | isFalse h => isFalse (by simpa using h)
  | .obj a, .obj b =>
    match decEqFields a b with
    | isTrue h => isTrue (by rw [h])
    | isFalse h => isFalse (by simpa using h)
  | .null, .bool _ | .null, .num _ | .null, .str _ | .null, .arr _ | .null, .obj _ => isFalse (by simp)
  | .bool _, .null | .bool _, .num _ | .bool _, .str _ | .bool _, .arr _ | .bool _, .obj _ =>
    isFalse (by simp)
  | .num _, .null | .num _, .bool _ | .num _, .str _ | .num _, .arr _ | .num _, .obj _ =>
    isFalse (by simp)
  | .str _, .null | .str _, .bool _ | .str _, .num _ | .str _, .arr _ | .str _, .obj _ =>
    isFalse (by simp)
  | .arr _, .null | .arr _, .bool _ | .arr _, .num _ | .arr _, .str _ | .arr _, .obj _ =>
    isFalse (by simp)
  | .obj _, .null | .obj _, .bool _ | .obj _, .num _ | .obj _, .str _ | .obj _, .arr _ =>
    isFalse (by simp)

def decEqElements : (a b : List Jsonb) → Decidable (a = b)
  | [], [] => isTrue rfl
  | [], _ :: _ | _ :: _, [] => isFalse (by simp)
  | x :: xs, y :: ys =>
    match decEq x y, decEqElements xs ys with
    | isTrue h, isTrue hs => isTrue (by rw [h, hs])
    | isFalse h, _ => isFalse (by simp [h])
    | _, isFalse hs => isFalse (by simp [hs])

def decEqFields : (a b : List (String × Jsonb)) → Decidable (a = b)
  | [], [] => isTrue rfl
  | [], _ :: _ | _ :: _, [] => isFalse (by simp)
  | (k, x) :: xs, (l, y) :: ys =>
    match decEq x y, decEqFields xs ys with
    | isTrue h, isTrue hs => decidable_of_iff (k = l) (by simp [h, hs])
    | isFalse h, _ => isFalse (by simp [h])
    | _, isFalse hs => isFalse (by simp [hs])

end

instance : DecidableEq Jsonb := decEq

mutual

/-- Every number with its shortest scale, so that equal documents become the same term. -/
def normalize : Jsonb → Jsonb
  | .num n => .num n.normalize
  | .arr xs => .arr (normalizeElements xs)
  | .obj fs => .obj (normalizeFields fs)
  | j => j

def normalizeElements : List Jsonb → List Jsonb
  | [] => []
  | x :: xs => normalize x :: normalizeElements xs

def normalizeFields : List (String × Jsonb) → List (String × Jsonb)
  | [] => []
  | (k, x) :: fs => (k, normalize x) :: normalizeFields fs

end

/-- Equality of documents: numbers by value. -/
def same (a b : Jsonb) : Bool := a.normalize = b.normalize

/-- Two characters of a `\u00XX` escape. -/
def hexPair (n : ℕ) : List Char := [Nat.digitChar (n / 16), Nat.digitChar (n % 16)]

def quoteChar (c : Char) : List Char :=
  if c = '"' then ['\\', '"']
  else if c = '\\' then ['\\', '\\']
  else if c = '\n' then ['\\', 'n']
  else if c = '\r' then ['\\', 'r']
  else if c = '\t' then ['\\', 't']
  else if c.toNat = 8 then ['\\', 'b']
  else if c.toNat = 12 then ['\\', 'f']
  else if c.toNat < 32 then ['\\', 'u', '0', '0'] ++ hexPair c.toNat
  else [c]

def quote (s : String) : List Char := '"' :: s.toList.flatMap quoteChar ++ ['"']

mutual

def chars : Jsonb → List Char
  | .null => "null".toList
  | .bool true => "true".toList
  | .bool false => "false".toList
  | .num n => n.text.toList
  | .str s => quote s
  | .arr xs => '[' :: elementChars xs ++ [']']
  | .obj fs => '\x7b' :: fieldChars fs ++ ['\x7d']

def elementChars : List Jsonb → List Char
  | [] => []
  | [x] => chars x
  | x :: y :: xs => chars x ++ ", ".toList ++ elementChars (y :: xs)

def fieldChars : List (String × Jsonb) → List Char
  | [] => []
  | [(k, x)] => quote k ++ ": ".toList ++ chars x
  | (k, x) :: f :: fs => quote k ++ ": ".toList ++ chars x ++ ", ".toList ++ fieldChars (f :: fs)

end

/-- The text form, `document::text`. -/
def text (j : Jsonb) : String := String.ofList j.chars

def fields : Jsonb → List (String × Jsonb)
  | .obj fs => fs
  | _ => []

/-- `document -> key`. -/
def field? (j : Jsonb) (k : String) : Option Jsonb := (j.fields.find? fun f => f.1 = k).map (·.2)

/-- `document ? key` on an object. -/
def hasKey (j : Jsonb) (k : String) : Bool := j.fields.any fun f => f.1 = k

/-- `jsonb_object_keys`. -/
def keys (j : Jsonb) : List String := j.fields.map (·.1)

def elements : Jsonb → List Jsonb
  | .arr xs => xs
  | _ => []

/-- The text of a value under `->>`: a string without its quotes, and no value for `null`. -/
def scalarText? : Jsonb → Option String
  | .null => none
  | .str s => some s
  | j => some j.text

/-- `document ->> key`. -/
def fieldText? (j : Jsonb) (k : String) : Option String := (j.field? k).bind scalarText?

/-- Keys are stored shortest first, then by their bytes. -/
def keyLe (a b : String) : Bool :=
  octetLength a < octetLength b || (octetLength a = octetLength b && decide (a ≤ b))

/-- An object from key and value pairs; the last pair with a key wins. -/
def build (fs : List (String × Jsonb)) : Jsonb :=
  let kept := fs.foldl (fun acc f => acc.filter (·.1 ≠ f.1) ++ [f]) []
  .obj (kept.insertionSort fun a b => keyLe a.1 b.1)

/-- Where keys are unique, looking a key up is finding its pair. -/
theorem find?_key_eq_some {fs : List (String × Jsonb)} (unique : (fs.map Prod.fst).Nodup) {k : String}
    {f : String × Jsonb} : fs.find? (fun f => f.1 = k) = some f ↔ f ∈ fs ∧ f.1 = k := by
  constructor
  · intro found
    exact ⟨List.mem_of_find?_eq_some found, by simpa using List.find?_some found⟩
  · rintro ⟨member, rfl⟩
    cases found : fs.find? (fun g => g.1 = f.1) with
    | none => exact absurd (List.find?_eq_none.mp found f member) (by simp)
    | some g =>
      have same : g.1 = f.1 := by simpa using List.find?_some found
      rw [List.inj_on_of_nodup_map unique (List.mem_of_find?_eq_some found) member same]

/-- The pairs that `build` keeps: one for each key, the last. -/
theorem kept_pairs (fs : List (String × Jsonb)) :
    let kept := fs.foldl (fun acc f => acc.filter (·.1 ≠ f.1) ++ [f]) []
    (kept.map Prod.fst).Nodup ∧ ∀ f, f ∈ kept ↔ fs.reverse.find? (fun g => g.1 = f.1) = some f := by
  induction fs using List.reverseRecOn with
  | nil => simp
  | append_singleton fs f ih =>
    obtain ⟨unique, last⟩ := ih
    simp only [List.foldl_append, List.foldl_cons, List.foldl_nil, List.reverse_append, List.reverse_singleton,
      List.singleton_append]
    refine ⟨?_, fun g => ?_⟩
    · rw [List.map_append, List.map_singleton, List.nodup_append_comm]
      refine List.nodup_cons.mpr ⟨by simp, ?_⟩
      exact unique.sublist (List.filter_sublist.map _)
    · rw [List.mem_append, List.mem_filter, last, List.find?_cons, List.mem_singleton]
      by_cases same : f.1 = g.1
      · simp [same, eq_comm]
      · have other : g ≠ f := fun here => same (here ▸ rfl)
        simp [same, Ne.symm same, other]

/-- The value of a key is that of its last pair. -/
theorem field?_build (fs : List (String × Jsonb)) (k : String) :
    (build fs).field? k = (fs.reverse.find? fun f => f.1 = k).map (·.2) := by
  obtain ⟨unique, last⟩ := kept_pairs fs
  have sorted := List.perm_insertionSort (fun a b : String × Jsonb => keyLe a.1 b.1)
    (fs.foldl (fun acc f => acc.filter (·.1 ≠ f.1) ++ [f]) [])
  have unique' := (sorted.map Prod.fst).nodup_iff.mpr unique
  have same : (build fs).fields.find? (fun f => f.1 = k) = fs.reverse.find? fun f => f.1 = k := by
    refine Option.ext fun f => (find?_key_eq_some unique').trans ?_
    rw [sorted.mem_iff, last]
    constructor
    · rintro ⟨found, rfl⟩
      exact found
    · intro found
      have key : f.1 = k := by simpa using List.find?_some found
      exact ⟨key ▸ found, key⟩
  exact congrArg (Option.map (·.2)) same

/-- `a || b` on objects: the fields of `b` replace those of `a`. -/
def merge (a b : Jsonb) : Jsonb := build (a.fields ++ b.fields)

/-- The fields of the second document come first. -/
theorem field?_merge (a : Jsonb) (fs : List (String × Jsonb)) (k : String) :
    (a.merge (.obj fs)).field? k = (((fs.reverse).find? fun f => f.1 = k).map (·.2)).or
      ((a.fields.reverse.find? fun f => f.1 = k).map (·.2)) := by
  rw [merge, field?_build, fields, List.reverse_append, List.find?_append, Option.map_or]

/-- A nullable text as a document. -/
def ofText? : Option String → Jsonb
  | none => .null
  | some s => .str s

def ofInt (n : ℤ) : Jsonb := .num (.ofInt n)

example : (build [("b", ofInt 2), ("a", .arr [.null, .bool true])]).text =
    "\x7b\"a\": [null, true], \"b\": 2\x7d" := by decide

end Jsonb
end Taskq
