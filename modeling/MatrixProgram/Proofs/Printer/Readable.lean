import Mathlib.Data.List.Basic
import Mathlib.Logic.Function.Basic

/-!
# Texts that can be read off

A way of writing things is readable before some characters if a text says what has been
written and where it ends, whenever one of these characters or nothing follows.  Numbers are
readable before anything that is not a digit.  `ReadableBefore` is closed under the ways in
which longer texts are put together: one thing after another, with fixed characters between or
around them, an alternative to something absent, and lists in brackets.  So a format is shown
to be unambiguous by following how its texts are put together.
-/

namespace MatrixProgram

namespace Text

variable {α β : Type} {next next' : Char → Prop} {text : α → List Char} {text' : β → List Char}

/-- A text is at its end, or goes on with one of some characters. -/
def Before (next : Char → Prop) (rest : List Char) : Prop :=
  ∀ ch, rest.head? = some ch → next ch

@[simp]
theorem before_nil : Before next [] :=
  fun _ h => by cases h

@[simp]
theorem before_cons_iff {ch : Char} {rest : List Char} : Before next (ch :: rest) ↔ next ch := by
  simp [Before]

/-- What is written can be read off the front of a text that goes on with one of some
characters. -/
def ReadableBefore (next : Char → Prop) (text : α → List Char) : Prop :=
  ∀ ⦃a b : α⦄ ⦃rest rest' : List Char⦄, Before next rest → Before next rest' →
    text a ++ rest = text b ++ rest' → a = b ∧ rest = rest'

namespace ReadableBefore

theorem injective (h : ReadableBefore next text) : Function.Injective text :=
  fun _ _ hEq => (h before_nil before_nil (by rw [hEq])).1

theorem mono (h : ReadableBefore next text) (hNext : ∀ ch, next' ch → next ch) :
    ReadableBefore next' text :=
  fun _ _ _ _ hRest hRest' => h (fun ch hHead => hNext ch (hRest ch hHead))
    fun ch hHead => hNext ch (hRest' ch hHead)

/-- A text ends where its characters end. -/
theorem of_characters {inside : Char → Bool} (hInside : ∀ a, ∀ ch ∈ text a, inside ch = true)
    (hInjective : Function.Injective text) :
    ReadableBefore (fun ch => inside ch = false) text := by
  intro a b rest rest' hRest hRest' hEq
  have hEnd : ∀ end', Before (fun ch => inside ch = false) end' → end'.takeWhile inside = [] := by
    intro end' hBefore
    cases end' with
    | nil => rfl
    | cons ch tail => simp [before_cons_iff.mp hBefore]
  -- What is taken off the front of either side is what was written there.
  have hTaken := congrArg (List.takeWhile inside) hEq
  rw [List.takeWhile_append_of_pos (hInside a), List.takeWhile_append_of_pos (hInside b),
    hEnd rest hRest, hEnd rest' hRest', List.append_nil, List.append_nil] at hTaken
  obtain rfl := hInjective hTaken
  exact ⟨rfl, List.append_cancel_left hEq⟩

/-- Whatever a character does not occur in ends before this character. -/
theorem of_not_mem (ch : Char) :
    ReadableBefore (· = ch) (Subtype.val : { word : List Char // ch ∉ word } → List Char) := by
  have hCharacters : ReadableBefore (fun other => (other != ch) = false)
      (Subtype.val : { word : List Char // ch ∉ word } → List Char) :=
    .of_characters (fun word other hMem => bne_iff_ne.mpr fun hEq => word.2 (hEq ▸ hMem))
      Subtype.val_injective
  exact hCharacters.mono fun other hEq => by simp [hEq]

/-- Another thing follows. -/
theorem append (h : ReadableBefore next text) (h' : ReadableBefore next' text')
    (hNext : ∀ b rest, Before next' rest → Before next (text' b ++ rest)) :
    ReadableBefore next' fun ab : α × β => text ab.1 ++ text' ab.2 := by
  rintro ⟨a, b⟩ ⟨a', b'⟩ rest rest' hRest hRest' hEq
  simp only [List.append_assoc] at hEq
  obtain ⟨rfl, hTail⟩ := h (hNext b rest hRest) (hNext b' rest' hRest') hEq
  obtain ⟨rfl, rfl⟩ := h' hRest hRest' hTail
  exact ⟨rfl, rfl⟩

/-- Fixed characters stand in front. -/
theorem after (word : List Char) (h : ReadableBefore next text) :
    ReadableBefore next fun a => word ++ text a := by
  intro a b rest rest' hRest hRest' hEq
  rw [List.append_assoc, List.append_assoc] at hEq
  exact h hRest hRest' (List.append_cancel_left hEq)

/-- Another thing follows, after a character that ends the first one. -/
theorem separated (h : ReadableBefore next text) (h' : ReadableBefore next' text') (ch : Char)
    (hNext : next ch) :
    ReadableBefore next' fun ab : α × β => text ab.1 ++ ch :: text' ab.2 :=
  h.append (h'.after [ch]) fun _ _ _ => before_cons_iff.mpr hNext

/-- A character that ends the text stands behind it, so anything may follow. -/
theorem closed (h : ReadableBefore next text) (ch : Char) (hNext : next ch) :
    ReadableBefore next' fun a => text a ++ [ch] := by
  intro a b rest rest' _ _ hEq
  rw [List.append_assoc, List.append_assoc] at hEq
  obtain ⟨rfl, hTail⟩ := h (before_cons_iff.mpr hNext) (before_cons_iff.mpr hNext) hEq
  exact ⟨rfl, (List.cons.inj hTail).2⟩

/-- Fixed characters stand for something absent.  They cannot be taken for a text of something
present. -/
theorem orElse (h : ReadableBefore next text) {word : List Char}
    (hApart : ∀ a rest rest', Before next rest → word ++ rest ≠ text a ++ rest') :
    ReadableBefore next fun a? : Option α => a?.elim word text := by
  rintro (_ | a) (_ | b) rest rest' hRest hRest' hEq
  · exact ⟨rfl, List.append_cancel_left hEq⟩
  · exact absurd hEq (hApart b rest rest' hRest)
  · exact absurd hEq.symm (hApart a rest' rest hRest')
  · obtain ⟨rfl, rfl⟩ := h hRest hRest' hEq
    exact ⟨rfl, rfl⟩

end ReadableBefore

/-- A text is divided where a character occurs first. -/
theorem eq_of_append_cons {ch : Char} {word word' rest rest' : List Char} (hNot : ch ∉ word)
    (hNot' : ch ∉ word') (hEq : word ++ ch :: rest = word' ++ ch :: rest') :
    word = word' ∧ rest = rest' := by
  obtain ⟨hWord, hRest⟩ := ReadableBefore.of_not_mem ch (a := ⟨word, hNot⟩) (b := ⟨word', hNot'⟩)
    (before_cons_iff.mpr rfl) (before_cons_iff.mpr rfl) hEq
  exact ⟨congrArg Subtype.val hWord, (List.cons.inj hRest).2⟩

/-- A text is divided where a character occurs last. -/
theorem eq_of_cons_append {ch : Char} {word word' rest rest' : List Char} (hNot : ch ∉ rest)
    (hNot' : ch ∉ rest') (hEq : word ++ ch :: rest = word' ++ ch :: rest') :
    word = word' ∧ rest = rest' := by
  have hReverse := congrArg List.reverse hEq
  simp only [List.reverse_append, List.reverse_cons, List.append_assoc, List.cons_append,
    List.nil_append] at hReverse
  obtain ⟨hRest, hWord⟩ := eq_of_append_cons (List.mem_reverse.not.mpr hNot)
    (List.mem_reverse.not.mpr hNot') hReverse
  exact ⟨List.reverse_injective hWord, List.reverse_injective hRest⟩

/-! ## Lists in brackets -/

/-- The elements of a list with the same characters between any two of them. -/
def joined (between : List Char) (text : α → List Char) : List α → List Char
  | [] => []
  | a :: xs => text a ++ xs.flatMap fun a => between ++ text a

/-- A list is written as the library joins texts. -/
theorem intercalate_map_eq_joined (between : List Char) (text : α → List Char) (xs : List α) :
    between.intercalate (xs.map text) = joined between text xs := by
  induction xs with
  | nil => rfl
  | cons a xs ih =>
      cases xs with
      | nil => simp [joined]
      | cons b xs =>
          rw [List.map_cons, List.map_cons, List.intercalate_cons_cons, ← List.map_cons, ih]
          simp [joined]

theorem not_mem_joined {ch : Char} {between : List Char} (hBetween : ch ∉ between)
    (hText : ∀ a, ch ∉ text a) (xs : List α) : ch ∉ joined between text xs := by
  cases xs with
  | nil => exact List.not_mem_nil
  | cons a xs => simp [joined, hBetween, hText]

/-- A list in brackets. -/
def ofList (text : α → List Char) (xs : List α) : List Char :=
  '[' :: (joined [','] text xs ++ [']'])

namespace ReadableBefore

/-- What follows an element begins with a comma or with the end of the list. -/
theorem before_commas (hComma : next ',') (hClose : next ']') (xs : List α) {rest : List Char}
    (hRest : Before (· = ']') rest) :
    Before next (xs.flatMap (fun a => ',' :: text a) ++ rest) := by
  cases xs with
  | nil => exact fun ch hHead => hRest ch hHead ▸ hClose
  | cons a xs => exact before_cons_iff.mpr hComma

/-- The elements of a list, each after a comma. -/
theorem commas (h : ReadableBefore next text) (hComma : next ',') (hClose : next ']') :
    ReadableBefore (· = ']') fun xs : List α => xs.flatMap fun a => ',' :: text a := by
  intro xs ys rest rest' hRest hRest' hEq
  dsimp only at hEq
  -- By induction on the first list: the second one ends when it does, since a comma cannot follow.
  induction xs generalizing ys with
  | nil =>
      cases ys with
      | nil => exact ⟨rfl, hEq⟩
      | cons b ys =>
          rw [List.flatMap_nil, List.nil_append] at hEq
          rw [hEq] at hRest
          exact absurd (before_cons_iff.mp hRest) (by decide)
  | cons a xs ih =>
      cases ys with
      | nil =>
          rw [List.flatMap_nil, List.nil_append] at hEq
          rw [← hEq] at hRest'
          exact absurd (before_cons_iff.mp hRest') (by decide)
      | cons b ys =>
          simp only [List.flatMap_cons, List.cons_append, List.cons.injEq, true_and,
            List.append_assoc] at hEq
          obtain ⟨rfl, hTail⟩ := h (before_commas hComma hClose xs hRest)
            (before_commas hComma hClose ys hRest') hEq
          obtain ⟨rfl, rfl⟩ := ih hTail
          exact ⟨rfl, rfl⟩

/-- A list of texts that do not begin as the list ends. -/
theorem list (h : ReadableBefore next text) (hComma : next ',') (hClose : next ']')
    (hBegins : ∀ a rest rest', text a ++ rest ≠ ']' :: rest') :
    ReadableBefore next' (ofList text) := by
  have hCommas := h.commas hComma hClose
  intro xs ys rest rest' _ _ hEq
  simp only [ofList, List.cons_append, List.cons.injEq, true_and, List.append_assoc,
    List.nil_append] at hEq
  -- The first element has no comma before it, so it is read off apart from the others.
  cases xs with
  | nil =>
      cases ys with
      | nil => exact ⟨rfl, (List.cons.inj hEq).2⟩
      | cons b ys =>
          simp only [joined, List.nil_append, List.append_assoc] at hEq
          exact absurd hEq.symm (hBegins b _ _)
  | cons a xs =>
      cases ys with
      | nil =>
          simp only [joined, List.nil_append, List.append_assoc] at hEq
          exact absurd hEq (hBegins a _ _)
      | cons b ys =>
          simp only [joined, List.append_assoc] at hEq
          obtain ⟨rfl, hRest⟩ := h (before_commas hComma hClose xs (before_cons_iff.mpr rfl))
            (before_commas hComma hClose ys (before_cons_iff.mpr rfl)) hEq
          obtain ⟨rfl, hTail⟩ :=
            hCommas (before_cons_iff.mpr rfl) (before_cons_iff.mpr rfl) hRest
          exact ⟨rfl, (List.cons.inj hTail).2⟩

end ReadableBefore

/-! ## Numbers -/

/-- A number in decimal digits. -/
def digits (n : Nat) : List Char :=
  Nat.toDigits 10 n

theorem isDigit_of_mem_digits {n : Nat} {ch : Char} (h : ch ∈ digits n) : ch.isDigit = true :=
  Nat.isDigit_of_mem_toDigits (by decide) (by decide) h

theorem not_mem_digits {ch : Char} (hNot : ch.isDigit = false) (n : Nat) : ch ∉ digits n := by
  intro hMem
  rw [isDigit_of_mem_digits hMem] at hNot
  cases hNot

theorem digits_injective : Function.Injective digits := by
  intro n n' hEq
  have hRead := congrArg (Nat.ofDigitChars 10 · 0) hEq
  simpa only [digits, Nat.ofDigitChars_ten_toDigits] using hRead

/-- Only a digit can be taken for a part of a number. -/
theorem digits_readable : ReadableBefore (fun ch => ch.isDigit = false) digits :=
  .of_characters (fun _ _ => isDigit_of_mem_digits) digits_injective

/-- Every number begins with a digit. -/
theorem digits_ne_cons {n : Nat} {ch : Char} {rest rest' : List Char}
    (hNot : ch.isDigit = false) : digits n ++ rest ≠ ch :: rest' := by
  intro hEq
  have hSome : digits n ≠ [] := Nat.toDigits_ne_nil
  obtain ⟨first, tail, hDigits⟩ := List.exists_cons_of_ne_nil hSome
  rw [hDigits, List.cons_append, List.cons.injEq] at hEq
  refine not_mem_digits hNot n ?_
  rw [hDigits, ← hEq.1]
  exact List.mem_cons_self

/-- A number with its sign. -/
def signed : Int → List Char
  | .ofNat n => digits n
  | .negSucc n => '-' :: digits (n + 1)

theorem toList_repr_int (i : Int) : i.repr.toList = signed i := by
  cases i <;> simp [Int.repr, signed, digits]

theorem mem_signed {i : Int} {ch : Char} (h : ch ∈ signed i) :
    (ch.isDigit || ch == '-') = true := by
  cases i with
  | ofNat n => rw [isDigit_of_mem_digits h, Bool.true_or]
  | negSucc n =>
      rcases List.mem_cons.mp h with rfl | hDigit
      · rfl
      · rw [isDigit_of_mem_digits hDigit, Bool.true_or]

/-- A sign is not taken for a digit. -/
theorem digits_ne_cons_minus (n n' : Nat) : digits n ≠ '-' :: digits n' := by
  rw [← List.append_nil (digits n)]
  exact digits_ne_cons (by decide)

theorem signed_injective : Function.Injective signed := by
  intro i i' hEq
  cases i with
  | ofNat n =>
      cases i' with
      | ofNat n' => rw [digits_injective hEq]
      | negSucc n' => exact absurd hEq (digits_ne_cons_minus _ _)
  | negSucc n =>
      cases i' with
      | ofNat n' => exact absurd hEq.symm (digits_ne_cons_minus _ _)
      | negSucc n' => rw [Nat.succ.inj (digits_injective (List.cons.inj hEq).2)]

theorem signed_readable : ReadableBefore (fun ch => (ch.isDigit || ch == '-') = false) signed :=
  .of_characters (fun _ _ => mem_signed) signed_injective

end Text

end MatrixProgram
