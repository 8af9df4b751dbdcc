import Mathlib.Data.List.DropRight

/-! # Lines of text

Text tools on single lines: a pattern anchored at the start of a line, the part of a line
between two separators, and a text whose trailing line ends are cut off. -/

namespace IpQos.Lib

variable {α : Type*} [DecidableEq α]

/-- A pattern anchored at the start of a line only; the letter `any` matches every letter. -/
def matchesPrefix (any : α) : List α → List α → Bool
  | [], _ => true
  | _ :: _, [] => false
  | p :: ps, c :: cs => (p == any || p == c) && matchesPrefix any ps cs

theorem matchesPrefix_self_append (any : α) (p rest : List α) :
    matchesPrefix any p (p ++ rest) = true := by
  induction p with
  | nil => rfl
  | cons p ps ih => simp [matchesPrefix, ih]

/-- A longer line is still matched. -/
theorem matchesPrefix_append {any : α} {p line : List α} (hit : matchesPrefix any p line = true)
    (more : List α) : matchesPrefix any p (line ++ more) = true := by
  induction p generalizing line with
  | nil => rfl
  | cons p ps ih =>
    cases line with
    | nil => cases hit
    | cons c cs =>
      rw [matchesPrefix, Bool.and_eq_true] at hit
      rw [List.cons_append, matchesPrefix, hit.1, ih hit.2]
      rfl

/-- The pattern matches a line from its start, and no word character follows. -/
def wordAt (any : α) (word : α → Bool) (p line : List α) : Bool :=
  matchesPrefix any p line && !(line.drop p.length).head?.any word

/-- The pattern matches somewhere in a line as a whole word; the flag tells whether a word
    character stands before the line. -/
def matchesWord (any : α) (word : α → Bool) (p : List α) : Bool → List α → Bool
  | inWord, [] => !inWord && wordAt any word p []
  | inWord, c :: cs =>
    !inWord && wordAt any word p (c :: cs) || matchesWord any word p (word c) cs

theorem matchesWord_self (any : α) (word : α → Bool) (p : List α) :
    matchesWord any word p false p = true := by
  have whole : wordAt any word p p = true := by
    have self := matchesPrefix_self_append any p []
    rw [List.append_nil] at self
    simp [wordAt, self]
  cases p with
  | nil => exact whole
  | cons c cs =>
    rw [matchesWord, whole]
    rfl

/-- What stands between the first two separators of a line. -/
def secondField (sep : α) (line : List α) : List α :=
  ((line.dropWhile (· ≠ sep)).drop 1).takeWhile (· ≠ sep)

variable {sep : α} {key cont : List α}

theorem takeWhile_keyed (free : sep ∉ key) (cont : List α) :
    (key ++ sep :: cont).takeWhile (· ≠ sep) = key := by
  rw [List.takeWhile_append_of_pos (fun c member => by
    simpa using fun same : c = sep => free (same ▸ member))]
  simp

theorem secondField_keyed (keyFree : sep ∉ key) (contFree : sep ∉ cont) :
    secondField sep (key ++ sep :: cont) = cont := by
  have rest : (key ++ sep :: cont).dropWhile (· ≠ sep) = sep :: cont := by
    rw [List.dropWhile_append_of_pos (fun c member => by
      simpa using fun same : c = sep => keyFree (same ▸ member))]
    simp
  rw [secondField, rest, List.drop_one, List.tail_cons, List.takeWhile_eq_self_iff]
  intro c member
  simpa using fun same : c = sep => contFree (same ▸ member)

/-! ## Values printed one to a line -/

/-- The values, each with a line end behind it, without the line ends at the end of it all. -/
def joined (eol : α) (vs : List (List α)) : List α :=
  (vs.flatMap (· ++ [eol])).rdropWhile (· = eol)

variable {eol : α} {v : List α} {vs : List (List α)}

@[simp] theorem joined_nil : joined eol [] = [] := rfl

/-- Nothing but empty values, and only line ends are printed. -/
theorem joined_of_all_nil (all : ∀ w ∈ vs, w = []) : joined eol vs = [] := by
  rw [joined, List.rdropWhile_eq_nil_iff]
  intro c member
  obtain ⟨w, listed, inLine⟩ := List.mem_flatMap.mp member
  rw [all w listed] at inLine
  simpa using inLine

theorem joined_cons_of_all_nil (free : eol ∉ v) (all : ∀ w ∈ vs, w = []) :
    joined eol (v :: vs) = v := by
  have ends : ∀ n, (v ++ List.replicate n eol).rdropWhile (· = eol) = v := by
    intro n
    induction n with
    | zero =>
      rw [List.replicate_zero, List.append_nil, List.rdropWhile_eq_self_iff]
      intro nonempty
      simpa using fun same : v.getLast nonempty = eol => free (same ▸ List.getLast_mem nonempty)
    | succ n ih =>
      rw [List.replicate_succ', ← List.append_assoc, List.rdropWhile_concat_pos _ _ _ (by simp), ih]
  have blank : vs.flatMap (· ++ [eol]) = List.replicate vs.length eol := by
    clear free ends
    induction vs with
    | nil => rfl
    | cons w vs ih =>
      rw [List.flatMap_cons, all w List.mem_cons_self,
        ih (fun w' member => all w' (List.mem_cons_of_mem w member))]
      rfl
  rw [joined, List.flatMap_cons, blank, List.append_assoc, List.singleton_append,
    ← List.replicate_succ]
  exact ends _

/-- Only what stands behind the last other letter is cut off. -/
theorem rdropWhile_append_of_mem {c : α} {front back : List α} (member : c ∈ back)
    (other : c ≠ eol) : (front ++ back).rdropWhile (· = eol) =
      front ++ back.rdropWhile (· = eol) := by
  have remains : ¬ (back.reverse.dropWhile (· = eol)).isEmpty = true := by
    intro empty
    rw [List.isEmpty_iff, List.dropWhile_eq_nil_iff] at empty
    simpa [other] using empty c (List.mem_reverse.mpr member)
  rw [List.rdropWhile, List.reverse_append, List.dropWhile_append, if_neg remains,
    List.reverse_append, List.reverse_reverse, List.rdropWhile]

/-- A value after the first one shows, behind a line end. -/
theorem mem_joined_cons {w : List α} (listed : w ∈ vs) (nonempty : w ≠ []) (free : eol ∉ w) :
    eol ∈ joined eol (v :: vs) := by
  obtain ⟨c, inValue⟩ := List.exists_mem_of_ne_nil w nonempty
  have other : c ≠ eol := fun same => free (same ▸ inValue)
  have inText : c ∈ vs.flatMap (· ++ [eol]) :=
    List.mem_flatMap.mpr ⟨w, listed, List.mem_append_left _ inValue⟩
  rw [joined, List.flatMap_cons, rdropWhile_append_of_mem inText other]
  simp

end IpQos.Lib
