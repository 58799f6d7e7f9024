import Taskq.Library.Transaction
import Taskq.Model.Evaluator

/-! The cron language of the database and that of the evaluator: the grammar that they share, and what each of them
asks for besides. -/
namespace Taskq
open Relational

section Items

variable {low high : ℤ} {item : List Char}

/-- The bounds of a range are ascending and those of its field. -/
def Ascends (low high : ℤ) (range : List (List Char)) : Prop :=
  (low ≤ digitsValue (range.headD []) ∧ digitsValue (range.headD []) ≤ high) ∧
    (low ≤ digitsValue (range.getLastD []) ∧ digitsValue (range.getLastD []) ≤ high) ∧
    digitsValue (range.headD []) ≤ digitsValue (range.getLastD [])

/-- A base of an item: a star, a number or a range. -/
def CronBase (low high : ℤ) (base : List Char) : Prop :=
  base = ['*'] ∨ ((base.splitOn '-').length ≤ 2 ∧ ∀ n ∈ base.splitOn '-', isDigits n = true) ∧
    Ascends low high (base.splitOn '-')

/-- The steps of an item: what stands after its slashes. -/
def itemSteps (item : List Char) : List (List Char) := (item.splitOn '/').tail

/-- The numbers of an item. -/
def itemNumbers (item : List Char) : List (List Char) := ((item.splitOn '/').headD []).splitOn '-' ++ itemSteps item

/-- An item that both parsers understand: a base and at most one positive step. -/
def CronItem (low high : ℤ) (item : List Char) : Prop :=
  CronBase low high ((item.splitOn '/').headD []) ∧ (itemSteps item).length ≤ 1 ∧
    ∀ step ∈ itemSteps item, isDigits step = true ∧ 0 < digitsValue step

theorem digitsValue_headD (pieces : List (List Char)) :
    (pieces.map digitsValue).headD 0 = digitsValue (pieces.headD []) := by
  cases pieces <;> rfl

theorem digitsValue_getLastD (pieces : List (List Char)) :
    (pieces.map digitsValue).getLastD 0 = digitsValue (pieces.getLastD []) := by
  rw [List.getLastD_eq_getLast?, List.getLastD_eq_getLast?, List.getLast?_map]
  cases pieces.getLast? <;> rfl

theorem splitOn_ne_nil (sep : Char) (cs : List Char) : cs.splitOn sep ≠ [] := by
  rw [List.splitOn_eq_splitOnP]
  exact List.splitOnP_ne_nil _ _

theorem checkCronRange_eq_ok {base : List Char} (low_nonneg : 0 ≤ low) (high_fits : high ≤ 2147483647) :
    checkCronRange low high base = .ok () ↔ Ascends low high (base.splitOn '-') := by
  simp only [checkCronRange, seq_eq_ok, ensure_eq_ok, int4_eq_ok, digitsValue_headD, digitsValue_getLastD, Ascends]
  constructor
  · rintro ⟨_, ⟨-, rfl⟩, _, ⟨-, rfl⟩, above, below, above', below', order⟩
    exact ⟨⟨above, below⟩, ⟨above', below'⟩, order⟩
  · rintro ⟨⟨above, below⟩, ⟨above', below'⟩, order⟩
    exact ⟨_, ⟨by omega, rfl⟩, _, ⟨by omega, rfl⟩, above, below, above', below', order⟩

/-- The step of an item, one where there is none, is read as an `integer`. -/
theorem castStep_eq_ok {tail : List (List Char)} (few : tail.length ≤ 1) {n : ℤ} :
    (int4 ((tail.head?.map digitsValue).getD 1) = .ok n ∧ 0 < n) ↔
      n = (tail.head?.map digitsValue).getD 1 ∧ ∀ step ∈ tail, 0 < digitsValue step ∧ digitsValue step ≤ 2147483647 := by
  rw [int4_eq_ok]
  match tail, few with
  | [], _ =>
    simp only [List.head?_nil, Option.map_none, Option.getD_none, List.not_mem_nil, false_imp_iff, implies_true, and_true]
    omega
  | [step], _ =>
    simp only [List.head?_cons, Option.map_some, Option.getD_some, List.mem_singleton, forall_eq]
    omega

/-- What the database asks of an item besides: a step that an `integer` holds. -/
theorem checkCronItem_eq_ok (low_nonneg : 0 ≤ low) (high_fits : high ≤ 2147483647) :
    checkCronItem low high item = .ok () ↔
      CronItem low high item ∧ ∀ step ∈ itemSteps item, digitsValue step ≤ 2147483647 := by
  unfold checkCronItem CronItem itemSteps
  simp only [seq_eq_ok, ensure_eq_ok, List.all_eq_true]
  generalize item.splitOn '/' = parts
  generalize parts.headD [] = base
  have bases : (base = ['*'] ∨ (base.splitOn '-').length ≤ 2 ∧ ∀ n ∈ base.splitOn '-', isDigits n = true) ∧
      (if base = ['*'] then Except.ok () else checkCronRange low high base) = .ok () ↔ CronBase low high base := by
    unfold CronBase
    by_cases star : base = ['*']
    · simp [star]
    · simp only [star, false_or, if_false, checkCronRange_eq_ok low_nonneg high_fits]
  have few : parts.length ≤ 2 ↔ parts.tail.length ≤ 1 := by rw [List.length_tail]; omega
  rw [few]
  constructor
  · rintro ⟨-, ⟨shape, few, digits⟩, n, value, -, positive, range⟩
    have steps := ((castStep_eq_ok few).mp ⟨value, positive⟩).2
    exact ⟨⟨bases.mp ⟨shape, range⟩, few, fun step here => ⟨digits step here, (steps step here).1⟩⟩,
      fun step here => (steps step here).2⟩
  · rintro ⟨⟨good, few, steps⟩, fits⟩
    obtain ⟨shape, range⟩ := bases.mpr good
    obtain ⟨value, positive⟩ := (castStep_eq_ok few).mpr ⟨rfl, fun step here => ⟨(steps step here).2, fits step here⟩⟩
    exact ⟨(), ⟨shape, few, fun step here => (steps step here).1⟩, _, value, (), positive, range⟩

theorem intOfText_eq_ok {digits : List Char} {n : ℤ} :
    intOfText digits = .ok n ↔ digits.length ≤ 4300 ∧ isDigits digits = true ∧ n = digitsValue digits := by
  simp only [intOfText, seq_eq_ok, ensure_eq_ok, Except.ok.injEq]
  constructor
  · rintro ⟨_, short, _, digits, value⟩
    exact ⟨short, digits, value.symm⟩
  · rintro ⟨short, digits, value⟩
    exact ⟨(), short, (), digits, value.symm⟩

/-- A base whose pieces are two at most is read at both ends. -/
theorem forall_mem_iff_ends {pieces : List (List Char)} (some : pieces ≠ []) (few : pieces.length ≤ 2)
    {P : List Char → Prop} : (∀ n ∈ pieces, P n) ↔ P (pieces.headD []) ∧ P (pieces.getLastD []) := by
  match pieces, some, few with
  | [a], _, _ => simp
  | [a, b], _, _ => simp

/-- The parts of an expression that the evaluator's pattern takes. -/
theorem isCronPart_iff : isCronPart item = true ↔
    (((((item.splitOn '/').headD []).splitOn '-').headD [] = ['*'] ∨
        isDigits ((((item.splitOn '/').headD []).splitOn '-').headD []) = true) ∧
      (((item.splitOn '/').headD []).splitOn '-').length ≤ 2 ∧
      ∀ n ∈ (((item.splitOn '/').headD []).splitOn '-').tail, isDigits n = true) ∧
    (itemSteps item).length ≤ 1 ∧ ∀ step ∈ itemSteps item, isDigits step = true ∧ step.head? ≠ some '0' := by
  have few : (item.splitOn '/').length ≤ 2 ↔ (itemSteps item).length ≤ 1 := by
    rw [itemSteps, List.length_tail]
    omega
  simp only [isCronPart, Bool.and_eq_true, Bool.or_eq_true, decide_eq_true_eq, List.all_eq_true, few, itemSteps, and_assoc]

theorem validateStep_eq_ok {step : List Char} : (do
      let n ← intOfText step
      ensure (0 < n) "cron step must be positive") = .ok () ↔
    step.length ≤ 4300 ∧ isDigits step = true ∧ 0 < digitsValue step := by
  simp only [seq_eq_ok, ensure_eq_ok, intOfText_eq_ok]
  constructor
  · rintro ⟨n, ⟨short, digits, value⟩, positive⟩
    exact ⟨short, digits, value ▸ positive⟩
  · rintro ⟨short, digits, positive⟩
    exact ⟨_, ⟨short, digits, rfl⟩, positive⟩

/-- The bounds of a base that is no star. -/
theorem validateRange_eq_ok {range : List (List Char)} (pieces : range ≠ []) (few : range.length ≤ 2) : (do
      let start ← intOfText (range.headD [])
      let stop ← intOfText (range.getLastD [])
      ensure (¬(start < low ∨ start > high ∨ stop < low ∨ stop > high)) "cron value is outside its field bounds"
      ensure (¬(range.length = 2 ∧ start > stop)) "cron ranges must be ascending") = .ok () ↔
    (∀ n ∈ range, isDigits n = true) ∧ Ascends low high range ∧ ∀ n ∈ range, n.length ≤ 4300 := by
  have order : range.length ≠ 2 → range.headD [] = range.getLastD [] := by
    match range, pieces, few with
    | [a], _, _ => exact fun _ => rfl
    | [a, b], _, _ => exact fun two => absurd rfl two
  rw [forall_mem_iff_ends pieces few, forall_mem_iff_ends pieces few]
  simp only [seq_eq_ok, ensure_eq_ok, intOfText_eq_ok, Ascends]
  constructor
  · rintro ⟨_, ⟨short, digits, rfl⟩, _, ⟨short', digits', rfl⟩, -, within, ascending⟩
    refine ⟨⟨digits, digits'⟩, ⟨⟨by omega, by omega⟩, ⟨by omega, by omega⟩, ?_⟩, short, short'⟩
    by_cases two : range.length = 2
    · omega
    · rw [order two]
  · rintro ⟨⟨digits, digits'⟩, ⟨within, within', ascending⟩, short, short'⟩
    exact ⟨_, ⟨short, digits, rfl⟩, _, ⟨short', digits', rfl⟩, (), by omega, by omega⟩

/-- What the evaluator asks of an item besides: a step without a leading zero, and numbers that `int` reads. -/
theorem validateCronPart_eq_ok : validateCronPart low high item = .ok () ↔ CronItem low high item ∧
    (∀ step ∈ itemSteps item, step.head? ≠ some '0') ∧ ∀ n ∈ itemNumbers item, n.length ≤ 4300 := by
  unfold validateCronPart CronItem CronBase itemNumbers
  rw [seq_eq_ok]
  simp only [ensure_eq_ok, isCronPart_iff, List.mem_append]
  change (∃ _, _ ∧ ((itemSteps item).forM _ >>= _) = _) ↔ _
  rw [exists_const, seq_eq_ok]
  simp only [forM_eq_ok, validateStep_eq_ok, exists_const]
  generalize itemSteps item = steps
  generalize (item.splitOn '/').headD [] = base
  by_cases star : base = ['*']
  · subst star
    have single : ['*'].splitOn '-' = [['*']] := by decide
    simp only [single, List.headD_cons, true_or, List.length_singleton, List.tail_cons, List.not_mem_nil,
      false_imp_iff, implies_true, and_true, if_true, List.mem_singleton, true_and]
    constructor
    · rintro ⟨⟨-, few, shape⟩, read⟩
      refine ⟨⟨few, fun step here => (read step here).2⟩, fun step here => (shape step here).2, ?_⟩
      rintro n (rfl | here)
      · decide
      · exact (read n here).1
    · rintro ⟨⟨few, steps⟩, plain, short⟩
      exact ⟨⟨by decide, few, fun step here => ⟨(steps step here).1, plain step here⟩⟩,
        fun step here => ⟨short step (.inr here), steps step here⟩⟩
  · have pieces := splitOn_ne_nil '-' base
    simp only [star, if_false, false_or]
    constructor
    · rintro ⟨⟨⟨-, few, -⟩, one, shape⟩, read, range⟩
      obtain ⟨digits, ascends, short⟩ := (validateRange_eq_ok pieces few).mp range
      refine ⟨⟨⟨⟨few, digits⟩, ascends⟩, one, fun step here => (read step here).2⟩, fun step here => (shape step here).2, ?_⟩
      rintro n (here | here)
      · exact short n here
      · exact (read n here).1
    · rintro ⟨⟨⟨⟨few, digits⟩, ascends⟩, one, steps⟩, plain, short⟩
      refine ⟨⟨⟨.inr (digits _ ?_), few, fun n here => digits n (List.mem_of_mem_tail here)⟩, one,
        fun step here => ⟨(steps step here).1, plain step here⟩⟩, fun step here => ⟨short step (.inr here), steps step here⟩,
        (validateRange_eq_ok pieces few).mpr ⟨digits, ascends, fun n here => short n (.inl here)⟩⟩
      rw [List.headD_eq_head?_getD, List.head?_eq_some_head pieces]
      exact List.head_mem pieces

/-- What the evaluator or the database takes for whitespace. -/
def isWhite (site : Site) (c : Char) : Bool := isSpace c || isBlank site c

/-- The visible characters of ASCII are whitespace for neither. -/
theorem isWhite_eq_false {site : Site} {c : Char} (low : 33 ≤ c.toNat) (high : c.toNat ≤ 126) : isWhite site c = false := by
  have visible : c ≠ ' ' := by
    rintro rfl
    exact absurd low (by decide)
  have narrow : isSpace c = false := by
    simp only [isSpace, Bool.or_eq_false_iff, Bool.and_eq_false_iff, decide_eq_false_iff_not, List.contains_eq_mem]
    refine ⟨⟨⟨by omega, by omega⟩, by omega⟩, ?_⟩
    simp
    omega
  have apart : ¬(9 ≤ c.toNat ∧ c.toNat ≤ 13) := by omega
  have ascii : ¬128 ≤ c.toNat := by omega
  simp [isWhite, narrow, isBlank, visible, ascii]
  omega

theorem isWhite_eq_false_of_isDigits {site : Site} {digits : List Char} (run : isDigits digits = true) {c : Char}
    (there : c ∈ digits) : isWhite site c = false := by
  simp only [isDigits, Bool.and_eq_true, List.all_eq_true] at run
  obtain ⟨low, high⟩ := Char.isDigit_iff_toNat.mp (run.2 c there)
  have low : 48 ≤ c.toNat := low
  have high : c.toNat ≤ 57 := high
  exact isWhite_eq_false (by omega) (by omega)

end Items

section Words

variable {site : Site} {p q : Char → Bool} {cs field : List Char}

theorem splitOnP_congr (same : ∀ c ∈ cs, p c = q c) : cs.splitOnP p = cs.splitOnP q := by
  induction cs with
  | nil => rfl
  | cons c cs ih =>
    rw [List.splitOnP_cons_eq_if_modifyHead, List.splitOnP_cons_eq_if_modifyHead, same c (by simp),
      ih fun d later => same d (by simp [later])]

/-- A character of a text is a separator, or stands in a piece. -/
theorem mem_splitOnP {c : Char} (there : c ∈ cs) : p c = true ∨ ∃ piece ∈ cs.splitOnP p, c ∈ piece := by
  induction cs with
  | nil => cases there
  | cons d cs ih =>
    rw [List.splitOnP_cons_eq_if_modifyHead]
    obtain ⟨first, rest, split⟩ := List.exists_cons_of_ne_nil (List.splitOnP_ne_nil p cs)
    rw [split] at ih ⊢
    cases separates : p d with
    | true =>
      obtain rfl | later := List.mem_cons.mp there
      · exact .inl separates
      · exact (ih later).imp_right fun ⟨piece, member, inside⟩ => ⟨piece, by simp [member], inside⟩
    | false =>
      rw [if_neg Bool.false_ne_true]
      obtain rfl | later := List.mem_cons.mp there
      · exact .inr ⟨c :: first, by simp, by simp⟩
      · obtain separator | ⟨piece, member, inside⟩ := ih later
        · exact .inl separator
        · obtain rfl | member := List.mem_cons.mp member
          · exact .inr ⟨d :: piece, by simp, by simp [inside]⟩
          · exact .inr ⟨piece, by simp [member], inside⟩

/-- Where no piece but the first is empty, splitting at runs of blanks is splitting at blanks. -/
theorem splitBlanks_eq {separated : Bool} (words : ∀ piece ∈ (cs.splitOnP (isBlank site)).tail, piece ≠ [])
    (first : separated = true → (cs.splitOnP (isBlank site)).headD [] ≠ []) :
    splitBlanks site field cs separated = ((cs.splitOnP (isBlank site)).modifyHead (field ++ ·)).map String.ofList := by
  induction cs generalizing field separated with
  | nil => simp [splitBlanks]
  | cons c cs ih =>
    rw [List.splitOnP_cons_eq_if_modifyHead] at words first ⊢
    obtain ⟨piece, rest, split⟩ := List.exists_cons_of_ne_nil (List.splitOnP_ne_nil (isBlank site) cs)
    rw [split] at words first ⊢
    rw [splitBlanks]
    cases blank : isBlank site c with
    | true =>
      simp only [blank, if_true, List.tail_cons, List.headD_cons, List.forall_mem_cons] at words first ⊢
      have apart : separated = false := eq_false_of_ne_true fun run => first run rfl
      rw [if_neg (by simp [apart]), ih (by simpa [split] using words.2) (by simpa [split] using words.1), split]
      simp
    | false =>
      simp only [blank, Bool.false_eq_true, if_false, List.modifyHead_cons, List.tail_cons] at words ⊢
      rw [ih (by simpa [split] using words) fun run : false = true => absurd run Bool.false_ne_true, split]
      simp

/-- A character that is no blank stands in a field. -/
theorem mem_splitBlanks {separated : Bool} {c : Char} (there : c ∈ field ∨ c ∈ cs ∧ isBlank site c = false) :
    ∃ word ∈ splitBlanks site field cs separated, c ∈ word.toList := by
  induction cs generalizing field separated with
  | nil => exact ⟨String.ofList field, by simp [splitBlanks], by simpa using there⟩
  | cons d cs ih =>
    rw [splitBlanks]
    have later (blank : isBlank site d = true) (there : c ∈ d :: cs ∧ isBlank site c = false) :
        c ∈ cs ∧ isBlank site c = false := by
      refine ⟨(List.mem_cons.mp there.1).resolve_left fun same => ?_, there.2⟩
      rw [same, blank] at there
      exact absurd there.2 (by simp)
    split_ifs with blank run
    · exact ih (there.imp_right (later blank))
    · obtain inside | there := there
      · exact ⟨String.ofList field, by simp, by simpa using inside⟩
      · obtain ⟨word, member, inside⟩ := ih (.inr (later blank there))
        exact ⟨word, List.mem_cons_of_mem _ member, inside⟩
    · refine ih ?_
      obtain inside | ⟨there, plain⟩ := there
      · exact .inl (by simp [inside])
      · obtain rfl | there := List.mem_cons.mp there
        · exact .inl (by simp)
        · exact .inr ⟨there, plain⟩

/-- An item of the grammar has no whitespace in it. -/
theorem CronItem.spaceless {low high : ℤ} {item : List Char} (good : CronItem low high item) {c : Char} (there : c ∈ item) :
    isWhite site c = false := by
  obtain ⟨base, -, steps⟩ := good
  have pieces := mem_splitOnP (p := (· == '/')) there
  rw [← List.splitOn_eq_splitOnP] at pieces
  obtain slash | ⟨piece, member, inside⟩ := pieces
  · rw [beq_iff_eq.mp slash]
    exact isWhite_eq_false (by decide) (by decide)
  · obtain ⟨first, rest, split⟩ := List.exists_cons_of_ne_nil (splitOn_ne_nil '/' item)
    rw [itemSteps, split] at steps
    rw [split] at base member
    obtain rfl | later := List.mem_cons.mp member
    · obtain star | ⟨⟨-, digits⟩, -⟩ := base
      · rw [List.headD_cons] at star
        rw [star] at inside
        rw [List.mem_singleton.mp inside]
        exact isWhite_eq_false (by decide) (by decide)
      · have ends := mem_splitOnP (p := (· == '-')) inside
        rw [← List.splitOn_eq_splitOnP] at ends
        obtain dash | ⟨n, member, inside⟩ := ends
        · rw [beq_iff_eq.mp dash]
          exact isWhite_eq_false (by decide) (by decide)
        · exact isWhite_eq_false_of_isDigits (digits n member) inside
    · exact isWhite_eq_false_of_isDigits (steps piece later).1 inside

/-- Trimming leaves a text whose first and last word are not empty. -/
theorem trim_eq (separates : p ' ' = true) (words : ∀ word ∈ cs.splitOnP p, word ≠ []) :
    ((cs.dropWhile (· = ' ')).reverse.dropWhile (· = ' ')).reverse = cs := by
  have left : cs.dropWhile (· = ' ') = cs := by
    cases cs with
    | nil => rfl
    | cons c cs =>
      refine List.dropWhile_cons_of_neg fun blank => words [] ?_ rfl
      rw [of_decide_eq_true blank, List.splitOnP_cons_eq_if_modifyHead, if_pos separates]
      exact List.mem_cons_self
  have right : cs.reverse.dropWhile (· = ' ') = cs.reverse := by
    obtain rfl | ⟨init, c, rfl⟩ := List.eq_nil_or_concat cs
    · rfl
    · rw [List.concat_eq_append, List.reverse_append]
      refine List.dropWhile_cons_of_neg fun blank => words [] ?_ rfl
      rw [List.concat_eq_append, of_decide_eq_true blank, List.splitOnP_append_cons init [] separates]
      simp
  rw [left, right, List.reverse_reverse]

end Words

section Expressions

variable {site : Site} {e timezone : String}

/-- The words of an expression, between whitespace of either kind. -/
def whiteWords (site : Site) (e : String) : List (List Char) := (e.toList.splitOnP (isWhite site)).filter (· ≠ [])

/-- The items of the fields of an expression, each with the bounds of its field. -/
def cronItems (words : List (List Char)) : List ((ℤ × ℤ) × List Char) :=
  (words.zip cronFieldBounds).flatMap fun field => (field.1.splitOn ',').map fun item => (field.2, item)

/-- The grammar that both parsers know. -/
structure CronShaped (site : Site) (e : String) : Prop where
  five : (whiteWords site e).length = 5
  items : ∀ i ∈ cronItems (whiteWords site e), CronItem i.1.1 i.1.2 i.2

/-- What the evaluator asks of an expression besides. -/
structure Canonical (site : Site) (e : String) : Prop where
  blanks : ∀ c ∈ e.toList, isBlank site c = true → isSpace c = true
  plain : ∀ i ∈ cronItems (whiteWords site e), ∀ step ∈ itemSteps i.2, step.head? ≠ some '0'
  short : ∀ i ∈ cronItems (whiteWords site e), ∀ n ∈ itemNumbers i.2, n.length ≤ 4300

/-- What the database asks of an expression and the name of a zone besides. -/
structure Storable (site : Site) (e timezone : String) : Prop where
  blanks : ∀ c ∈ e.toList, isSpace c = true → isBlank site c = true
  octets : octetLength e ≤ 255
  fits : ∀ i ∈ cronItems (whiteWords site e), ∀ step ∈ itemSteps i.2, digitsValue step ≤ 2147483647
  name : 1 ≤ octetLength timezone ∧ octetLength timezone ≤ 255

theorem forall_mem_cronItems {words : List (List Char)} {P : (ℤ × ℤ) × List Char → Prop} : (∀ i ∈ cronItems words, P i) ↔
    ∀ field ∈ words.zip cronFieldBounds, ∀ item ∈ field.1.splitOn ',', P (field.2, item) := by
  simp only [cronItems, List.forall_mem_flatMap, List.forall_mem_map]

/-- A character of a field whose items are in the grammar is no whitespace. -/
theorem field_spaceless {low high : ℤ} {field : List Char} (good : ∀ item ∈ field.splitOn ',', CronItem low high item)
    {c : Char} (inside : c ∈ field) : isWhite site c = false := by
  have pieces := mem_splitOnP (p := (· == ',')) inside
  rw [← List.splitOn_eq_splitOnP] at pieces
  obtain comma | ⟨item, here, inside⟩ := pieces
  · rw [beq_iff_eq.mp comma]
    exact isWhite_eq_false (by decide) (by decide)
  · exact (good item here).spaceless inside

/-- The characters of five fields whose items are in the grammar are no whitespace. -/
theorem fields_spaceless {words : List (List Char)} (five : words.length = 5)
    (items : ∀ i ∈ cronItems words, CronItem i.1.1 i.1.2 i.2) {word : List Char} (member : word ∈ words) {c : Char}
    (inside : c ∈ word) : isWhite site c = false := by
  have firsts : (words.zip cronFieldBounds).map Prod.fst = words := List.map_fst_zip (by rw [five]; decide)
  rw [← firsts] at member
  obtain ⟨⟨word, bounds⟩, paired, rfl⟩ := List.mem_map.mp member
  have good := forall_mem_cronItems.mp items _ paired
  change ∀ item ∈ word.splitOn ',', CronItem bounds.1 bounds.2 item at good
  exact field_spaceless good inside

/-- Where the evaluator takes all whitespace for whitespace, it sees the same words. -/
theorem splitWords_eq (blanks : ∀ c ∈ e.toList, isBlank site c = true → isSpace c = true) :
    splitWords e = whiteWords site e := by
  refine congrArg _ (splitOnP_congr fun c there => Bool.eq_iff_iff.mpr ⟨fun space => ?_, fun white => ?_⟩)
  · simp [isWhite, space]
  · obtain space | blank := (Bool.or_eq_true _ _).mp white
    · exact space
    · exact blanks c there blank

/-- The expressions that the evaluator takes. -/
theorem validateCron_eq_ok {zoneInfo : String → Option ZoneInfo} : validateCron zoneInfo e timezone = .ok () ↔
    (CronShaped site e ∧ Canonical site e) ∧ (zoneInfo timezone).isSome = true := by
  simp only [validateCron, seq_eq_ok, ensure_eq_ok, forM_eq_ok, validateCronPart_eq_ok, exists_const]
  rw [← forall_mem_cronItems (P := fun i => CronItem i.1.1 i.1.2 i.2 ∧
    (∀ step ∈ itemSteps i.2, step.head? ≠ some '0') ∧ ∀ n ∈ itemNumbers i.2, n.length ≤ 4300)]
  constructor
  · rintro ⟨five, items, known⟩
    have blanks (c : Char) (there : c ∈ e.toList) (blank : isBlank site c = true) : isSpace c = true := by
      -- a character that separates fields only for the database would stand in an item
      refine (mem_splitOnP there).resolve_right ?_
      rintro ⟨word, member, inside⟩
      have kept : word ∈ splitWords e :=
        List.mem_filter.mpr ⟨member, decide_eq_true (List.ne_nil_of_mem inside)⟩
      have plain : isWhite site c = false := fields_spaceless five (fun i here => (items i here).1) kept inside
      simp [isWhite, blank] at plain
    rw [splitWords_eq blanks] at five items
    exact ⟨⟨⟨five, fun i here => (items i here).1⟩, blanks, fun i here => (items i here).2.1,
      fun i here => (items i here).2.2⟩, known⟩
  · rintro ⟨⟨shaped, canonical⟩, known⟩
    rw [splitWords_eq canonical.blanks]
    exact ⟨shaped.five, fun i here => ⟨shaped.items i here, canonical.plain i here, canonical.short i here⟩, known⟩

/-- No whitespace at the ends, and no two in a row: a text that splits into words at each one. -/
def Tidy (site : Site) (e : String) : Prop := e = "" ∨ ∀ word ∈ e.toList.splitOnP (isWhite site), word ≠ []

/-- A cron recurrence as a definition gives it. -/
def cronRecurrence (e timezone : String) : Jsonb :=
  .build [("kind", .str "cron"), ("expression", .str e), ("timezone", .str timezone)]

/-- The checks of `put_schedule` on a recurrence pass. -/
def TakesRecurrence (env : Env) (recurrence : Jsonb) : Prop := ∃ stored, normalizeRecurrence env recurrence = .ok stored

theorem checkCronItems_eq_ok {low high : ℤ} {items : List (List Char)} :
    checkCronItems low high items = .ok () ↔ ∀ item ∈ items, checkCronItem low high item = .ok () := by
  induction items with
  | nil => simp [checkCronItems]
  | cons item items ih =>
    simp only [checkCronItems, seq_eq_ok, ih, List.forall_mem_cons, Unique.exists_iff, PUnit.default_eq_unit]

theorem checkCronFields_eq_ok {fields : List (String × ℤ × ℤ)} : checkCronFields fields = .ok () ↔
    ∀ field ∈ fields, field.1 ≠ "" ∧
      ∀ item ∈ field.1.toList.splitOn ',', checkCronItem field.2.1 field.2.2 item = .ok () := by
  induction fields with
  | nil => simp [checkCronFields]
  | cons field fields ih =>
    simp only [checkCronFields, seq_eq_ok, ensure_eq_ok, ih, List.forall_mem_cons, Unique.exists_iff,
      PUnit.default_eq_unit, checkCronItems_eq_ok, and_assoc]

theorem takesRecurrence_cron {env : Env} : TakesRecurrence env (cronRecurrence e timezone) ↔
    (1 ≤ octetLength e ∧ octetLength e ≤ 255 ∧ 1 ≤ octetLength timezone ∧ octetLength timezone ≤ 255 ∧
      env.knownTimezone timezone = true) ∧ (splitBlanks env.toSite [] (trimSpaces e) false).length = 5 ∧
    checkCronFields ((splitBlanks env.toSite [] (trimSpaces e) false).zip cronBounds) = .ok () := by
  have kind : (cronRecurrence e timezone).fieldText? "kind" = some "cron" := rfl
  have expression : (cronRecurrence e timezone).fieldText? "expression" = some e := rfl
  have zone : (cronRecurrence e timezone).fieldText? "timezone" = some timezone := rfl
  have keys : (hasKeys (cronRecurrence e timezone) ["expression", "timezone"] = true ∧
      onlyKeys (cronRecurrence e timezone) ["kind", "expression", "timezone"] = true) := ⟨rfl, rfl⟩
  have shape : (cronRecurrence e timezone).kind = .object ∧ (cronRecurrence e timezone).hasKey "kind" = true := ⟨rfl, rfl⟩
  unfold TakesRecurrence normalizeRecurrence
  have other : ¬some "cron" = some "interval" := by decide
  simp only [kind, expression, zone, keys, shape, other, if_false, if_true, seq_eq_ok, ensure_eq_ok, Option.getD_some,
    and_self, true_and]
  constructor
  · rintro ⟨_, _, _, _, texts, _, five, _, fields, -⟩
    exact ⟨texts, five, fields⟩
  · rintro ⟨texts, five, fields⟩
    exact ⟨_, (), (), (), texts, (), five, (), fields, rfl⟩

/-- A tidy text whose whitespace the database takes for blanks has the same fields for it. -/
theorem Tidy.fields (tidy : Tidy site e) (written : e ≠ "")
    (blanks : ∀ c ∈ e.toList, isSpace c = true → isBlank site c = true) :
    splitBlanks site [] (trimSpaces e) false = (whiteWords site e).map String.ofList := by
  have words := tidy.resolve_left written
  have same : e.toList.splitOnP (isBlank site) = e.toList.splitOnP (isWhite site) := by
    refine splitOnP_congr fun c there => Bool.eq_iff_iff.mpr ⟨fun blank => by simp [isWhite, blank], fun white => ?_⟩
    exact ((Bool.or_eq_true _ _).mp white).elim (blanks c there) id
  have all : whiteWords site e = e.toList.splitOnP (isWhite site) :=
    List.filter_eq_self.mpr fun word there => decide_eq_true (words word there)
  rw [show trimSpaces e = e.toList from trim_eq (p := isWhite site) rfl words, splitBlanks_eq, same, all]
  · exact congrArg (List.map String.ofList) (congrFun List.modifyHead_id _)
  · exact fun word there => words word (same ▸ List.mem_of_mem_tail there)
  · nofun

/-- The recurrences that the database takes. -/
theorem takesRecurrence_iff {env : Env} (tidy : Tidy env.toSite e) (known : env.knownTimezone timezone = true) :
    TakesRecurrence env (cronRecurrence e timezone) ↔ CronShaped env.toSite e ∧ Storable env.toSite e timezone := by
  have bounds {low high : ℤ} (there : (low, high) ∈ cronBounds) : 0 ≤ low ∧ high ≤ 2147483647 :=
    (show ∀ b ∈ cronBounds, 0 ≤ b.1 ∧ b.2 ≤ 2147483647 by decide) _ there
  have words : (∀ field ∈ ((whiteWords env.toSite e).map String.ofList).zip cronBounds, field.1 ≠ "" ∧
      ∀ item ∈ field.1.toList.splitOn ',', checkCronItem field.2.1 field.2.2 item = .ok ()) ↔
      ∀ i ∈ cronItems (whiteWords env.toSite e),
        CronItem i.1.1 i.1.2 i.2 ∧ ∀ step ∈ itemSteps i.2, digitsValue step ≤ 2147483647 := by
    have apart (word : List Char) (there : word ∈ whiteWords env.toSite e) : String.ofList word ≠ "" := by
      have some := of_decide_eq_true (List.mem_filter.mp there).2
      exact fun none => some (by simpa using congrArg String.toList none)
    rw [forall_mem_cronItems (P := fun i => CronItem i.1.1 i.1.2 i.2 ∧ _), List.zip_map_left, List.forall_mem_map]
    refine forall₂_congr fun field there => ?_
    obtain ⟨low_nonneg, high_fits⟩ := bounds (List.of_mem_zip there).2
    simp only [Prod.map_fst, Prod.map_snd, id_eq, String.toList_ofList, apart field.1 (List.of_mem_zip there).1, ne_eq,
      not_false_eq_true, true_and, checkCronItem_eq_ok low_nonneg high_fits]
  rw [takesRecurrence_cron, checkCronFields_eq_ok]
  constructor
  · rintro ⟨⟨some, octets, name, name', -⟩, five, fields⟩
    have written : e ≠ "" := by rintro rfl; simp [octetLength] at some
    have blanks (c : Char) (there : c ∈ e.toList) (space : isSpace c = true) : isBlank env.toSite c = true := by
      -- a character that separates words only for the evaluator would stand in an item
      by_contra plain
      have whole : trimSpaces e = e.toList := trim_eq (p := isWhite env.toSite) rfl (tidy.resolve_left written)
      obtain ⟨word, member, inside⟩ : ∃ word ∈ splitBlanks env.toSite [] (trimSpaces e) false, c ∈ word.toList :=
        mem_splitBlanks (.inr ⟨whole.symm ▸ there, eq_false_of_ne_true plain⟩)
      have firsts : ((splitBlanks env.toSite [] (trimSpaces e) false).zip cronBounds).map Prod.fst =
        splitBlanks env.toSite [] (trimSpaces e) false := List.map_fst_zip (by rw [five]; decide)
      rw [← firsts] at member
      obtain ⟨⟨_, low, high⟩, paired, rfl⟩ := List.mem_map.mp member
      obtain ⟨low_nonneg, high_fits⟩ := bounds (List.of_mem_zip paired).2
      have good (item : List Char) (here : item ∈ _) : CronItem low high item :=
        ((checkCronItem_eq_ok low_nonneg high_fits).mp ((fields _ paired).2 item here)).1
      have visible : isWhite env.toSite c = false := field_spaceless good inside
      simp [isWhite, space] at visible
    rw [tidy.fields written blanks] at five fields
    have items := words.mp fields
    exact ⟨⟨by simpa using five, fun i here => (items i here).1⟩, blanks, octets, fun i here => (items i here).2, name, name'⟩
  · rintro ⟨⟨five, items⟩, blanks, octets, fits, name⟩
    have written : e ≠ "" := by rintro rfl; simp [whiteWords] at five
    rw [tidy.fields written blanks]
    refine ⟨⟨?_, octets, name.1, name.2, known⟩, by simpa using five, words.mpr fun i here => ⟨items i here, fits i here⟩⟩
    exact Nat.one_le_iff_ne_zero.mpr fun none => written (String.utf8ByteSize_eq_zero_iff.mp none)

end Expressions

end Taskq
