import Mathlib.Data.List.Basic
import Mathlib.Data.Int.Notation
import Mathlib.Data.Nat.Notation

/-! # Numbers on a line

Numbers written one behind the other with blanks between them, and read back from the left.
A word without a digit leaves no trace for the reader: the numbers behind it move up. -/

namespace IpQos.Lib

/-! ## Places -/

section Places

variable {α M : Type*} {value : α → Option M} {ws : List α} {zero : M}

/-- `zero` in front, and words that have moved up over it. -/
theorem zero_of_packed {d : ℕ} (packed : ∀ k, (ws.filterMap value).getD k zero =
      (List.replicate (d + 1) zero ++ ws.map fun w => (value w).getD zero).getD k zero) :
    ∀ w ∈ ws, (value w).getD zero = zero := by
  induction ws generalizing d with
  | nil => exact nofun
  | cons w ws ih =>
    cases found : value w with
    | none =>
      have moved : List.replicate (d + 1) zero ++ (w :: ws).map (fun w => (value w).getD zero) =
          List.replicate (d + 1 + 1) zero ++ ws.map fun w => (value w).getD zero := by
        simp [List.replicate_succ', found]
      rw [moved, List.filterMap_cons_none found] at packed
      exact List.forall_mem_cons.mpr ⟨by simp [found], ih packed⟩
    | some v =>
      rw [List.filterMap_cons_some found] at packed
      have first : v = zero := by simpa [List.replicate_succ] using packed 0
      have moved : List.replicate d zero ++ (w :: ws).map (fun w => (value w).getD zero) =
          List.replicate (d + 1) zero ++ ws.map fun w => (value w).getD zero := by
        simp [List.replicate_succ', found, first]
      refine List.forall_mem_cons.mpr ⟨by simp [found, first], ih (d := d) fun k => ?_⟩
      rw [← moved]
      simpa [List.replicate_succ] using packed (k + 1)

/-- Values that are read without gaps stand in their places exactly if a word that has none is
    followed by zeros only. -/
theorem packed_iff (value : α → Option M) (zero : M) (ws : List α) :
    (∀ k, (ws.filterMap value).getD k zero =
        (ws.map fun w => (value w).getD zero).getD k zero) ↔
      ws.Pairwise fun v w => value v = none → (value w).getD zero = zero := by
  induction ws with
  | nil => simp
  | cons w ws ih =>
    rw [List.pairwise_cons]
    cases found : value w with
    | none =>
      rw [List.filterMap_cons_none found, List.map_cons, found, Option.getD_none]
      constructor
      · intro packed
        -- the gap is closed, so everything moves up by one and must be zero
        have zeros := zero_of_packed (d := 0) packed
        refine ⟨fun w' member _ => zeros w' member, ?_⟩
        exact List.pairwise_of_forall_mem_list fun _ _ w' member _ => zeros w' member
      · rintro ⟨zeros, -⟩ k
        have all : ∀ v ∈ zero :: ws.map (fun w => (value w).getD zero), v = zero := by
          simpa using fun w' member => zeros w' member rfl
        have some : ∀ v ∈ ws.filterMap value, v = zero := by
          intro v member
          obtain ⟨w', inside, is⟩ := List.mem_filterMap.mp member
          simpa [is] using zeros w' inside rfl
        have pad : ∀ vs : List M, (∀ v ∈ vs, v = zero) → vs.getD k zero = zero := by
          intro vs all
          rw [List.getD_eq_getElem?_getD]
          cases at_k : vs[k]? with
          | none => rfl
          | some v => exact all v (List.mem_of_getElem? at_k)
        rw [pad _ some, pad _ all]
    | some v =>
      rw [List.filterMap_cons_some found, List.map_cons, found, Option.getD_some, ← ih]
      constructor
      · intro packed
        exact ⟨nofun, fun k => by simpa using packed (k + 1)⟩
      · rintro ⟨-, packed⟩ k
        cases k with
        | zero => rfl
        | succ k => simpa using packed k

end Places

/-! ## Numerals -/

/-- The number a word of decimal digits stands for. -/
def numeral (w : List Char) : ℕ := Nat.ofDigitChars 10 w 0

/-- `isspace` of C. -/
def isSpace (c : Char) : Bool := c = ' ' || (9 ≤ c.toNat && c.toNat ≤ 13)

/-- The digits in front, and what is left. -/
def scanDigits (text : List Char) : Option (ℕ × List Char) :=
  if text.takeWhile Char.isDigit = [] then none
  else some (numeral (text.takeWhile Char.isDigit), text.dropWhile Char.isDigit)

/-- `%d` of `scanf`: blanks, a sign or none, digits. -/
def scanInt (text : List Char) : Option (ℤ × List Char) :=
  match text.dropWhile isSpace with
  | [] => none
  | c :: rest =>
    if c = '-' then (scanDigits rest).map fun r => (-(r.1 : ℤ), r.2)
    else if c = '+' then (scanDigits rest).map fun r => ((r.1 : ℤ), r.2)
    else (scanDigits (c :: rest)).map fun r => ((r.1 : ℤ), r.2)

/-- That many conversions one after the other; the first that fails is the last. -/
def scanInts : ℕ → List Char → List ℤ
  | 0, _ => []
  | n + 1, text =>
    match scanInt text with
    | none => []
    | some (v, rest) => v :: scanInts n rest

/-- The number of a word, unless it has no digit. -/
def numeral? (w : List Char) : Option ℕ := if w = [] then none else some (numeral w)

section Scan

variable {w text : List Char} {ws : List (List Char)} {n : ℕ}

theorem isSpace_of_isDigit {c : Char} (digit : c.isDigit = true) : isSpace c = false := by
  simp only [Char.isDigit, ge_iff_le, Bool.and_eq_true, decide_eq_true_eq] at digit
  have low : 48 ≤ c.toNat := digit.1
  have notSpace : c ≠ ' ' := by
    rintro rfl
    exact absurd low (by decide)
  simp [isSpace, notSpace]
  omega

theorem scanInts_blank : scanInts n (' ' :: text) = scanInts n text := by
  cases n with
  | zero => rfl
  | succ n =>
    have skipped : scanInt (' ' :: text) = scanInt text := by
      unfold scanInt
      rw [List.dropWhile_cons_of_pos (by decide)]
    rw [scanInts, scanInts, skipped]

/-- A word of digits is read up to the blank behind it. -/
theorem scanInt_word (digits : ∀ c ∈ w, c.isDigit = true) (nonempty : w ≠ [])
    (ends : text = [] ∨ ∃ rest, text = ' ' :: rest) :
    scanInt (w ++ text) = some ((numeral w : ℤ), text) := by
  have taken : (w ++ text).takeWhile Char.isDigit = w := by
    rw [List.takeWhile_append_of_pos digits]
    rcases ends with rfl | ⟨rest, rfl⟩ <;> simp
  have left : (w ++ text).dropWhile Char.isDigit = text := by
    rw [List.dropWhile_append_of_pos digits]
    rcases ends with rfl | ⟨rest, rfl⟩ <;> simp
  have scanned : scanDigits (w ++ text) = some (numeral w, text) := by
    rw [scanDigits, taken, if_neg nonempty, left]
  cases w with
  | nil => exact absurd rfl nonempty
  | cons c cs =>
    have digit := digits c List.mem_cons_self
    have unsigned : c ≠ '-' ∧ c ≠ '+' := by
      constructor <;> (rintro rfl; exact absurd digit (by decide))
    have blankless : ((c :: cs) ++ text).dropWhile isSpace = c :: (cs ++ text) :=
      List.dropWhile_cons_of_neg (by simp [isSpace_of_isDigit digit])
    rw [scanInt, blankless]
    dsimp only
    rw [if_neg unsigned.1, if_neg unsigned.2, ← List.cons_append, scanned]
    rfl

/-- A line of words is read as the numbers of those that have digits. -/
theorem scanInts_line (digits : ∀ w ∈ ws, ∀ c ∈ w, c.isDigit = true) :
    scanInts n ([' '].intercalate ws) = ((ws.filterMap numeral?).map Int.ofNat).take n := by
  induction ws generalizing n with
  | nil =>
    cases n with
    | zero => rfl
    | succ n => rfl
  | cons w ws ih =>
    have rest (m : ℕ) := ih (n := m) fun w' member => digits w' (List.mem_cons_of_mem w member)
    -- what stands behind the first word: nothing, or a blank and the rest
    obtain ⟨text, line, ends, follows⟩ : ∃ text, [' '].intercalate (w :: ws) = w ++ text ∧
        (text = [] ∨ ∃ rest, text = ' ' :: rest) ∧
        ∀ m, scanInts m text = ((ws.filterMap numeral?).map Int.ofNat).take m := by
      cases ws with
      | nil => exact ⟨[], by simp, .inl rfl, fun m => by simpa using rest m⟩
      | cons w' ws =>
        refine ⟨' ' :: [' '].intercalate (w' :: ws), by simp, .inr ⟨_, rfl⟩, fun m => ?_⟩
        rw [scanInts_blank, rest]
    rw [line]
    by_cases empty : w = []
    · rw [empty, List.nil_append, follows, List.filterMap_cons_none (by simp [numeral?])]
    · have read := scanInt_word (digits w List.mem_cons_self) empty ends
      rw [List.filterMap_cons_some (show numeral? w = some (numeral w) by simp [numeral?, empty])]
      cases n with
      | zero => rfl
      | succ n =>
        rw [scanInts, read]
        dsimp only
        rw [follows]
        rfl

end Scan

/-! ## Bases -/

section Bases

variable {w : List Char} {i j : ℕ}

theorem le_ofDigitChars {b : ℕ} (positive : 0 < b) : i ≤ Nat.ofDigitChars b w i := by
  induction w generalizing i with
  | nil => simp
  | cons c cs ih =>
    rw [Nat.ofDigitChars_cons]
    have grows : i ≤ b * i := Nat.le_mul_of_pos_left i positive
    exact Nat.le_trans (Nat.le_add_right_of_le grows) ih

theorem digit_le_numeral {c : Char} (member : c ∈ w) :
    c.toNat - '0'.toNat ≤ numeral w := by
  unfold numeral
  generalize (0 : ℕ) = i
  induction w generalizing i with
  | nil => cases member
  | cons c' cs ih =>
    rw [Nat.ofDigitChars_cons]
    cases member with
    | head =>
      exact Nat.le_trans (Nat.le_add_left _ _) (le_ofDigitChars (by decide))
    | tail _ member => exact ih member _

theorem isDigit_lt {c : Char} (digit : c.isDigit = true) : c.toNat - '0'.toNat < 10 := by
  simp only [Char.isDigit, ge_iff_le, Bool.and_eq_true, decide_eq_true_eq] at digit
  have high : c.toNat ≤ 57 := digit.2
  have zero : '0'.toNat = 48 := rfl
  omega

theorem ofDigitChars_le (less : i ≤ j) : Nat.ofDigitChars 8 w i ≤ Nat.ofDigitChars 10 w j := by
  induction w generalizing i j with
  | nil => simpa
  | cons c cs ih =>
    rw [Nat.ofDigitChars_cons, Nat.ofDigitChars_cons]
    exact ih (by omega)

theorem ofDigitChars_lt (less : i < j) : Nat.ofDigitChars 8 w i < Nat.ofDigitChars 10 w j := by
  induction w generalizing i j with
  | nil => simpa
  | cons c cs ih =>
    rw [Nat.ofDigitChars_cons, Nat.ofDigitChars_cons]
    exact ih (by omega)

/-- Read in base 8 a word means the same only while it has a single digit behind its zeros. -/
theorem octal_eq_iff (octal : ∀ c ∈ w, c.toNat - '0'.toNat < 8) :
    Nat.ofDigitChars 8 w 0 = numeral w ↔ numeral w < 8 := by
  unfold numeral
  induction w with
  | nil => simp
  | cons c cs ih =>
    rw [Nat.ofDigitChars_cons, Nat.ofDigitChars_cons, Nat.mul_zero, Nat.zero_add]
    have small := octal c List.mem_cons_self
    generalize c.toNat - '0'.toNat = d at small
    cases d with
    | zero => exact ih fun c' member => octal c' (List.mem_cons_of_mem c member)
    | succ d =>
      cases cs with
      | nil => simpa using small
      | cons c' cs =>
        rw [Nat.ofDigitChars_cons, Nat.ofDigitChars_cons]
        -- with a digit behind it the leading one counts 8 or 10
        have less : Nat.ofDigitChars 8 cs (8 * (d + 1) + (c'.toNat - '0'.toNat)) <
            Nat.ofDigitChars 10 cs (10 * (d + 1) + (c'.toNat - '0'.toNat)) :=
          ofDigitChars_lt (by omega)
        have large : 10 * (d + 1) + (c'.toNat - '0'.toNat) ≤
            Nat.ofDigitChars 10 cs (10 * (d + 1) + (c'.toNat - '0'.toNat)) :=
          le_ofDigitChars (by decide)
        constructor
        · intro same
          exact absurd same (Nat.ne_of_lt less)
        · intro few
          omega

end Bases

end IpQos.Lib
