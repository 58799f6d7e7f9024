import Taskq.Model.Jsonb

/-! The text form tells documents apart that differ in their strings only: a quoted string ends where its text does, and
everything else is written alike. -/
namespace Taskq.Jsonb

mutual

/-- The document with all its strings emptied. -/
def blank : Jsonb → Jsonb
  | .str _ => .str ""
  | .arr xs => .arr (blankElements xs)
  | .obj fs => .obj (blankFields fs)
  | .null => .null
  | .bool b => .bool b
  | .num n => .num n

def blankElements : List Jsonb → List Jsonb
  | [] => []
  | x :: xs => blank x :: blankElements xs

def blankFields : List (String × Jsonb) → List (String × Jsonb)
  | [] => []
  | (k, x) :: fs => (k, blank x) :: blankFields fs

end

section Quote

/-- The number below 32 with these two hexadecimal digits. -/
def readHex (high low : Char) : Option ℕ := (List.range 32).find? fun n => hexPair n = [high, low]

/-- One character of a quoted string, and what follows its escape. -/
def readChar : List Char → Option (Char × List Char)
  | '\\' :: 'u' :: '0' :: '0' :: high :: low :: rest => (readHex high low).map fun n => (Char.ofNat n, rest)
  | '\\' :: 'n' :: rest => some ('\n', rest)
  | '\\' :: 'r' :: rest => some ('\r', rest)
  | '\\' :: 't' :: rest => some ('\t', rest)
  | '\\' :: 'b' :: rest => some (Char.ofNat 8, rest)
  | '\\' :: 'f' :: rest => some (Char.ofNat 12, rest)
  | '\\' :: c :: rest => some (c, rest)
  | c :: rest => some (c, rest)
  | [] => none

theorem readHex_hexPair : ∀ n < 32, ∃ high low, hexPair n = [high, low] ∧ readHex high low = some n := by
  intro n small
  exact ⟨_, _, rfl, by revert n; decide⟩

theorem readChar_quoteChar (c : Char) (rest : List Char) : readChar (quoteChar c ++ rest) = some (c, rest) := by
  unfold quoteChar
  split_ifs with quote slash newline carriage tab back form control
  · subst quote
    rfl
  · subst slash
    rfl
  · subst newline
    rfl
  · subst carriage
    rfl
  · subst tab
    rfl
  · have same : Char.ofNat 8 = c := back ▸ Char.ofNat_toNat c
    exact same ▸ rfl
  · have same : Char.ofNat 12 = c := form ▸ Char.ofNat_toNat c
    exact same ▸ rfl
  · obtain ⟨high, low, digits, read⟩ := readHex_hexPair _ control
    simp [digits, readChar, read]
  · simp only [List.cons_append, List.nil_append]
    unfold readChar
    split <;> simp_all

theorem quoteChar_cancel {c d : Char} {r s : List Char} (same : quoteChar c ++ r = quoteChar d ++ s) : c = d ∧ r = s := by
  have read := readChar_quoteChar c r
  rw [same, readChar_quoteChar, Option.some.injEq, Prod.mk.injEq] at read
  exact ⟨read.1.symm, read.2.symm⟩

/-- No escape begins with the closing quote. -/
theorem quoteChar_ne {c : Char} {r s : List Char} : quoteChar c ++ r ≠ '"' :: s := by
  unfold quoteChar
  split_ifs with quote <;> simp_all

theorem flatMap_cancel {a b : List Char} {r s : List Char}
    (same : a.flatMap quoteChar ++ '"' :: r = b.flatMap quoteChar ++ '"' :: s) : a = b ∧ r = s := by
  induction a generalizing b with
  | nil =>
    cases b with
    | nil => exact ⟨rfl, (List.cons.inj same).2⟩
    | cons d b => exact absurd (by simpa using same.symm) quoteChar_ne
  | cons c a ih =>
    cases b with
    | nil => exact absurd (by simpa using same) quoteChar_ne
    | cons d b =>
      simp only [List.flatMap_cons, List.append_assoc] at same
      obtain ⟨rfl, rest⟩ := quoteChar_cancel same
      obtain ⟨rfl, rfl⟩ := ih rest
      exact ⟨rfl, rfl⟩

theorem quote_cancel {a b : String} {r s : List Char} (same : quote a ++ r = quote b ++ s) : a = b ∧ r = s := by
  simp only [quote, List.cons_append, List.cons.injEq, true_and, List.append_assoc, List.nil_append] at same
  obtain ⟨chars, rest⟩ := flatMap_cancel same
  exact ⟨String.toList_inj.mp chars, rest⟩

end Quote

section Text

mutual

/-- Documents with the same blank are told apart by their characters, whatever follows. -/
theorem chars_cancel : ∀ (a b : Jsonb) {r s : List Char}, a.blank = b.blank → a.chars ++ r = b.chars ++ s → a = b ∧ r = s
  | .null, .null, _, _, _, same | .bool true, .bool true, _, _, _, same | .bool false, .bool false, _, _, _, same =>
    ⟨rfl, List.append_cancel_left same⟩
  | .bool true, .bool false, _, _, shape, _ | .bool false, .bool true, _, _, shape, _ => by simp [blank] at shape
  | .num m, .num n, _, _, shape, same => by
    obtain rfl : m = n := by simpa [blank] using shape
    exact ⟨rfl, List.append_cancel_left same⟩
  | .str a, .str b, _, _, _, same => by
    obtain ⟨rfl, rest⟩ := quote_cancel same
    exact ⟨rfl, rest⟩
  | .arr xs, .arr ys, r, s, shape, same => by
    have shape : blankElements xs = blankElements ys := by simpa [blank] using shape
    have same : elementChars xs ++ ']' :: r = elementChars ys ++ ']' :: s := by simpa [chars] using same
    obtain ⟨rfl, rest⟩ := elementChars_cancel xs ys shape same
    exact ⟨rfl, (List.cons.inj rest).2⟩
  | .obj fs, .obj gs, r, s, shape, same => by
    have shape : blankFields fs = blankFields gs := by simpa [blank] using shape
    have same : fieldChars fs ++ '\x7d' :: r = fieldChars gs ++ '\x7d' :: s := by simpa [chars] using same
    obtain ⟨rfl, rest⟩ := fieldChars_cancel fs gs shape same
    exact ⟨rfl, (List.cons.inj rest).2⟩

theorem elementChars_cancel : ∀ (xs ys : List Jsonb) {r s : List Char}, blankElements xs = blankElements ys →
    elementChars xs ++ r = elementChars ys ++ s → xs = ys ∧ r = s
  | [], [], _, _, _, same => ⟨rfl, same⟩
  | [], _ :: _, _, _, shape, _ | _ :: _, [], _, _, shape, _ => by simp [blankElements] at shape
  | [x], [y], _, _, shape, same => by
    obtain ⟨rfl, rest⟩ := chars_cancel x y (by simpa [blankElements] using shape) same
    exact ⟨rfl, rest⟩
  | [_], _ :: _ :: _, _, _, shape, _ | _ :: _ :: _, [_], _, _, shape, _ => by simp [blankElements] at shape
  | x :: x' :: xs, y :: y' :: ys, _, _, shape, same => by
    have shapes := List.cons.inj shape
    simp only [elementChars, List.append_assoc] at same
    obtain ⟨rfl, rest⟩ := chars_cancel x y shapes.1 same
    obtain ⟨tail, rest⟩ := elementChars_cancel (x' :: xs) (y' :: ys) shapes.2 (List.append_cancel_left rest)
    exact ⟨congrArg (x :: ·) tail, rest⟩

theorem fieldChars_cancel : ∀ (fs gs : List (String × Jsonb)) {r s : List Char}, blankFields fs = blankFields gs →
    fieldChars fs ++ r = fieldChars gs ++ s → fs = gs ∧ r = s
  | [], [], _, _, _, same => ⟨rfl, same⟩
  | [], (_, _) :: _, _, _, shape, _ | (_, _) :: _, [], _, _, shape, _ => by simp [blankFields] at shape
  | [(k, x)], [(l, y)], _, _, shape, same => by
    have shapes : (k, x.blank) = (l, y.blank) := (List.cons.inj shape).1
    cases (Prod.mk.inj shapes).1
    simp only [fieldChars, List.append_assoc] at same
    obtain ⟨rfl, rest⟩ := chars_cancel x y (Prod.mk.inj shapes).2 (List.append_cancel_left (List.append_cancel_left same))
    exact ⟨rfl, rest⟩
  | [(_, _)], (_, _) :: (_, _) :: _, _, _, shape, _ | (_, _) :: (_, _) :: _, [(_, _)], _, _, shape, _ => by
    simp [blankFields] at shape
  | (k, x) :: f :: fs, (l, y) :: g :: gs, _, _, shape, same => by
    have shapes := List.cons.inj shape
    cases (Prod.mk.inj shapes.1).1
    simp only [fieldChars, List.append_assoc] at same
    obtain ⟨rfl, rest⟩ := chars_cancel x y (Prod.mk.inj shapes.1).2
      (List.append_cancel_left (List.append_cancel_left same))
    obtain ⟨tail, rest⟩ := fieldChars_cancel (f :: fs) (g :: gs) shapes.2 (List.append_cancel_left rest)
    exact ⟨congrArg ((k, x) :: ·) tail, rest⟩

end

theorem text_injective_of_blank {a b : Jsonb} (shape : a.blank = b.blank) (same : a.text = b.text) : a = b := by
  have chars : a.chars ++ [] = b.chars ++ [] := by simpa using String.ofList_injective same
  exact (chars_cancel a b shape chars).1

end Text

section Build

theorem blankFields_eq (fs : List (String × Jsonb)) : blankFields fs = fs.map (Prod.map id blank) := by
  induction fs with
  | nil => rfl
  | cons f fs ih => exact congrArg (_ :: ·) ih

theorem blank_build (fs : List (String × Jsonb)) : (build fs).blank = build (fs.map (Prod.map id blank)) := by
  have kept (acc : List (String × Jsonb)) : (fs.foldl (fun acc f => acc.filter (·.1 ≠ f.1) ++ [f]) acc).map (Prod.map id blank) =
      (fs.map (Prod.map id blank)).foldl (fun acc f => acc.filter (·.1 ≠ f.1) ++ [f]) (acc.map (Prod.map id blank)) := by
    induction fs generalizing acc with
    | nil => rfl
    | cons f fs ih =>
      rw [List.foldl_cons, ih, List.map_cons, List.foldl_cons, List.map_append, List.filter_map]
      rfl
  simp only [build, blank, blankFields_eq]
  rw [List.map_insertionSort (fun a b : String × Jsonb => keyLe a.1 b.1 = true) (fun a b => keyLe a.1 b.1 = true) _ _
    fun _ _ _ _ => Iff.rfl, kept]
  rfl

theorem blank_fields (j : Jsonb) : j.blank.fields = j.fields.map (Prod.map id blank) := by
  cases j with
  | obj fs => exact blankFields_eq fs
  | _ => rfl

theorem blank_merge (a b : Jsonb) : (a.merge b).blank = a.blank.merge b.blank := by
  rw [merge, merge, blank_build, List.map_append, blank_fields, blank_fields]

/-- A built document has each key once, so that it can be searched from its end as well. -/
theorem find?_reverse_build (fs : List (String × Jsonb)) (k : String) :
    ((build fs).fields.reverse.find? fun f => f.1 = k) = fs.reverse.find? fun f => f.1 = k := by
  obtain ⟨unique, last⟩ := kept_pairs fs
  have sorted := List.perm_insertionSort (fun a b : String × Jsonb => keyLe a.1 b.1)
    (fs.foldl (fun acc f => acc.filter (·.1 ≠ f.1) ++ [f]) [])
  have turned := (List.reverse_perm _).trans sorted
  refine Option.ext fun f => (find?_key_eq_some ((turned.map Prod.fst).nodup_iff.mpr unique)).trans ?_
  refine (and_congr_left' ((turned.mem_iff).trans (last f))).trans ⟨?_, fun found => ?_⟩
  · rintro ⟨found, rfl⟩
    exact found
  · have key : f.1 = k := by simpa using List.find?_some found
    exact ⟨key ▸ found, key⟩

theorem field?_merge_build (fs gs : List (String × Jsonb)) (k : String) : ((build fs).merge (build gs)).field? k =
    ((gs.reverse.find? fun f => f.1 = k).or (fs.reverse.find? fun f => f.1 = k)).map (·.2) := by
  rw [merge, field?_build, List.reverse_append, List.find?_append, find?_reverse_build, find?_reverse_build]

end Build

end Taskq.Jsonb
