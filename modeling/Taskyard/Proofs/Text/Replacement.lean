import Mathlib.Data.List.Infix
import Taskyard.Text.Split

/-!
# Text — occurrences and their replacement

Occurrences of a text are replaced from left to right. How far one reaches into its surroundings is
seen from the beginnings and ends of the replaced text: a text that fits none of these stays apart
from all occurrences, wherever it stands.

Main definitions and results:

* `Text.replaced` — all occurrences replaced, and its three equations.
* `Text.Apart` — a text that no occurrence begins in or reaches into; `Text.apart_of_incomparable`
  and `Text.apart_of_foreign` for checks of it.
* `Text.replaced_append` — such a text divides what is replaced.
* `Text.length_replaced` — something shorter in place of an occurrence makes a text shorter.
-/

namespace Taskyard.Text

/-! ## Prefixes -/

/-- Stripping succeeds exactly on texts that begin so. -/
theorem stripLeading_eq_some {l cs rest : List Char} :
    stripLeading l cs = some rest ↔ cs = l ++ rest := by
  induction l generalizing cs with
  | nil => simp [stripLeading]
  | cons c l ih =>
    cases cs with
    | nil => simp [stripLeading]
    | cons c' cs =>
      rw [stripLeading, List.cons_append, List.cons.injEq, ← ih]
      split
      · next hSame => simp [hSame]
      · next hOther => simp [Ne.symm hOther]

theorem stripLeading_eq_none {l cs : List Char} : stripLeading l cs = none ↔ ¬l <+: cs := by
  rw [Option.eq_none_iff_forall_ne_some]
  constructor
  · rintro hNone ⟨rest, rfl⟩
    exact hNone rest (stripLeading_eq_some.mpr rfl)
  · intro hNone rest hSome
    exact hNone ⟨rest, (stripLeading_eq_some.mp hSome).symm⟩

/-- What a concatenation starts with is in its first part, or covers it and goes on into the
second. -/
theorem prefix_append_cases {μ x s : List Char} (h : μ <+: x ++ s) :
    μ <+: x ∨ ∃ y, y ≠ [] ∧ μ = x ++ y ∧ y <+: s := by
  rcases List.prefix_or_prefix_of_prefix h (List.prefix_append x s) with hIn | ⟨y, rfl⟩
  · exact .inl hIn
  · by_cases hEnd : y = []
    · exact .inl (by simp [hEnd])
    · exact .inr ⟨y, hEnd, rfl, (List.prefix_append_right_inj x).mp h⟩

/-! ## Replacement -/

/-- The text with every occurrence of `old`, found from left to right without overlap, replaced by
`new`. -/
def replaced (old new cs : List Char) : List Char := replaceWithin old new cs.length cs

/-- The replacement of strings, as one of characters. -/
theorem toList_replaceAll (s old new : String) :
    (replaceAll s old new).toList = replaced old.toList new.toList s.toList :=
  String.toList_ofList

section Replaced

variable {old : List Char} (hOld : old ≠ []) (new : List Char)
include hOld

/-- It does not matter by how much the number exceeds what is still to be looked at. -/
theorem replaceWithin_eq {n m : Nat} {cs : List Char} (hn : cs.length ≤ n) (hm : cs.length ≤ m) :
    replaceWithin old new n cs = replaceWithin old new m cs := by
  induction n generalizing m cs with
  | zero =>
    obtain rfl : cs = [] := List.length_eq_zero_iff.mp (Nat.le_zero.mp hn)
    cases m <;> rfl
  | succ n ih =>
    cases cs with
    | nil => cases m <;> rfl
    | cons c cs =>
      cases m with
      | zero => exact absurd hm (by simp)
      | succ m =>
        simp only [List.length_cons, Nat.add_le_add_iff_right] at hn hm
        rw [replaceWithin, replaceWithin]
        cases hStrip : stripLeading old (c :: cs) with
        | none => simp only [ih hn hm]
        | some rest =>
          -- at least one character is passed over
          have hLength := congrArg List.length (stripLeading_eq_some.mp hStrip)
          have hSome := List.length_pos_iff.mpr hOld
          rw [List.length_cons, List.length_append] at hLength
          simp only [ih (show rest.length ≤ n by omega) (show rest.length ≤ m by omega)]

omit hOld in
@[simp]
theorem replaced_nil : replaced old new [] = [] := rfl

/-- An occurrence at the front is replaced, and the search goes on behind it. -/
theorem replaced_occurrence (rest : List Char) :
    replaced old new (old ++ rest) = new ++ replaced old new rest := by
  obtain ⟨c, l, rfl⟩ := List.exists_cons_of_ne_nil hOld
  have hStrip : stripLeading (c :: l) (c :: (l ++ rest)) = some rest :=
    stripLeading_eq_some.mpr rfl
  rw [replaced, List.cons_append, List.length_cons, replaceWithin, hStrip]
  exact congrArg (new ++ ·) (replaceWithin_eq hOld new (by simp) le_rfl)

omit hOld in
/-- Where none begins one character is kept. -/
theorem replaced_other {c : Char} {cs : List Char} (h : ¬old <+: c :: cs) :
    replaced old new (c :: cs) = c :: replaced old new cs := by
  rw [replaced, List.length_cons, replaceWithin, stripLeading_eq_none.mpr h]
  rfl

omit hOld in
/-- A text in which no occurrence begins stays as it is. -/
theorem replaced_append {w s : List Char}
    (h : ∀ y z, w = y ++ z → z ≠ [] → ¬old <+: z ++ s) :
    replaced old new (w ++ s) = w ++ replaced old new s := by
  induction w with
  | nil => rfl
  | cons c w ih =>
    have hHere : ¬old <+: c :: (w ++ s) := h [] (c :: w) rfl (by simp)
    have hLater : ∀ y z, w = y ++ z → z ≠ [] → ¬old <+: z ++ s := fun y z hSplit =>
      h (c :: y) z (by rw [hSplit, List.cons_append])
    rw [List.cons_append, replaced_other new hHere, ih hLater, List.cons_append]

omit hOld in
/-- A text without the occurrence is kept. -/
theorem replaced_eq_self {cs : List Char} (h : ¬old <:+: cs) : replaced old new cs = cs := by
  have hSelf : replaced old new (cs ++ []) = cs ++ replaced old new [] :=
    replaced_append new fun y z hSplit _ hPrefix => by
      rw [List.append_nil] at hPrefix
      exact h (hSplit ▸ hPrefix.isInfix.trans (List.suffix_append y z).isInfix)
  simpa using hSelf

/-- With something that is not longer in place of the occurrences a text does not get longer, and
with something shorter in place of at least one it gets shorter. -/
theorem length_replaced (hShort : new.length < old.length) (cs : List Char) :
    (replaced old new cs).length ≤ cs.length ∧
      (old <:+: cs → (replaced old new cs).length < cs.length) := by
  induction hLength : cs.length using Nat.strong_induction_on generalizing cs with
  | _ n ih =>
    subst hLength
    by_cases hHere : old <+: cs
    -- an occurrence that is replaced makes the text shorter, whatever follows
    · obtain ⟨rest, rfl⟩ := hHere
      have hRest := (ih rest.length (by rw [List.length_append]; omega) rest rfl).1
      rw [replaced_occurrence hOld, List.length_append, List.length_append]
      exact ⟨by omega, fun _ => by omega⟩
    · cases cs with
      | nil => exact ⟨le_rfl, fun hInfix => absurd (List.infix_nil.mp hInfix) hOld⟩
      | cons c cs =>
        obtain ⟨hLe, hLt⟩ := ih cs.length (by simp) cs rfl
        rw [replaced_other new hHere, List.length_cons, List.length_cons]
        refine ⟨by omega, fun hInfix => ?_⟩
        have hLater := hLt ((List.infix_cons_iff.mp hInfix).resolve_left hHere)
        omega

end Replaced

/-! ## Texts apart -/

/-- A text stays apart from the occurrences of another one, whatever stands around it. -/
structure Apart (μ w : List Char) : Prop where
  /-- An occurrence that begins before the text also ends before it. -/
  before : ∀ x s, x ≠ [] → μ <+: x ++ (w ++ s) → μ <+: x
  /-- None begins in it. -/
  inside : ∀ y z s, w = y ++ z → z ≠ [] → ¬μ <+: z ++ s

/-- What an occurrence would show of itself at the borders of a text: the rest of it at the
beginning of the text, or around all of it; and the text, from some place on, as an occurrence or as
the beginning of one. -/
structure Incomparable (μ w : List Char) : Prop where
  before : ∀ k < μ.length, 0 < k → ¬μ.drop k <+: w ∧ ¬w <+: μ.drop k
  inside : ∀ i < w.length, ¬μ <+: w.drop i ∧ ¬w.drop i <+: μ

/-- A text which shows nothing of an occurrence at its borders is apart from occurrences. -/
theorem before_of_incomparable {μ w : List Char}
    (h : ∀ k < μ.length, 0 < k → ¬μ.drop k <+: w ∧ ¬w <+: μ.drop k) {x s : List Char}
    (hx : x ≠ []) (hPrefix : μ <+: x ++ (w ++ s)) : μ <+: x := by
  refine (prefix_append_cases hPrefix).resolve_right ?_
  rintro ⟨y, hy, rfl, hRest⟩
  -- the rest of the occurrence and the text stand at one place, so one of them starts the other
  obtain ⟨hNot, hNot'⟩ := h x.length (by simpa using List.length_pos_iff.mpr hy)
    (List.length_pos_iff.mpr hx)
  rw [List.drop_left] at hNot hNot'
  exact (List.prefix_or_prefix_of_prefix hRest (List.prefix_append w s)).elim hNot hNot'

theorem apart_of_incomparable {μ w : List Char} (h : Incomparable μ w) : Apart μ w where
  before _ _ := before_of_incomparable h.before
  inside y z s hSplit hz hPrefix := by
    subst hSplit
    obtain ⟨hNot, hNot'⟩ := h.inside y.length (by simpa using List.length_pos_iff.mpr hz)
    rw [List.drop_left] at hNot hNot'
    exact (List.prefix_or_prefix_of_prefix hPrefix (List.prefix_append z s)).elim hNot hNot'

/-- So is a text without the first and the last character of an occurrence, if it has a character
that no occurrence has. -/
theorem apart_of_foreign {μ w : List Char} (hμ : μ ≠ []) (hFirst : μ.head hμ ∉ w)
    (hLast : μ.getLast hμ ∉ w) (hForeign : ∃ c ∈ w, c ∉ μ) : Apart μ w where
  before x s hx hPrefix := by
    refine (prefix_append_cases hPrefix).resolve_right ?_
    rintro ⟨y, hy, rfl, hRest⟩
    rw [List.getLast_append_of_ne_nil _ hy] at hLast
    -- the occurrence would end in the text, or hold all of it
    rcases prefix_append_cases hRest with hIn | ⟨_, _, rfl, _⟩
    · exact hLast (hIn.subset (List.getLast_mem hy))
    · obtain ⟨c, hc, hNone⟩ := hForeign
      exact hNone (List.mem_append_right _ (List.mem_append_left _ hc))
  inside y z s hSplit hz hPrefix := by
    subst hSplit
    -- the occurrence would begin in the text
    obtain ⟨c, z, rfl⟩ := List.exists_cons_of_ne_nil hz
    obtain ⟨d, l, rfl⟩ := List.exists_cons_of_ne_nil hμ
    obtain rfl : d = c := (List.cons_prefix_cons.mp hPrefix).1
    exact hFirst (by simp)

/-- A text that is not apart from occurrences becomes part of one, or has one in it, between a
proper beginning and a proper end of the other text. -/
theorem exists_around_of_not_apart {μ w : List Char} (h : ¬Apart μ w) (hμ : μ ≠ []) :
    ∃ k < μ.length, ∃ j > 0, μ <:+: μ.take k ++ w ++ μ.drop j := by
  by_contra hNone
  have hPositive := List.length_pos_iff.mpr hμ
  refine h (apart_of_incomparable ⟨fun k hk hk' => ⟨fun hPrefix => ?_, fun hPrefix => ?_⟩,
    fun i hi => ⟨fun hPrefix => ?_, fun hPrefix => ?_⟩⟩)
  · refine hNone ⟨k, hk, μ.length, hPositive, ?_⟩
    rw [List.drop_length, List.append_nil]
    have hAll := (List.prefix_append_right_inj (μ.take k)).mpr hPrefix
    rw [List.take_append_drop] at hAll
    exact hAll.isInfix
  · obtain ⟨u, hu⟩ := hPrefix
    have hEnd : μ.drop (k + w.length) = u := by rw [← List.drop_drop, ← hu, List.drop_left]
    refine hNone ⟨k, hk, k + w.length, by omega, ?_⟩
    rw [hEnd, List.append_assoc, hu, List.take_append_drop]
  · refine hNone ⟨0, hPositive, μ.length, hPositive, ?_⟩
    rw [List.take_zero, List.nil_append, List.drop_length, List.append_nil]
    exact hPrefix.isInfix.trans (List.drop_suffix i w).isInfix
  · obtain ⟨u, hu⟩ := hPrefix
    have hLength : (w.drop i).length = w.length - i := List.length_drop
    have hEnd : μ.drop (w.drop i).length = u := by rw [← hu, List.drop_left]
    refine hNone ⟨0, hPositive, (w.drop i).length, by omega, ?_⟩
    rw [hEnd, List.take_zero, List.nil_append]
    -- the text up to that place stands before the occurrence
    refine ⟨w.take i, [], ?_⟩
    rw [List.append_nil, ← hu, ← List.append_assoc, List.take_append_drop]

end Taskyard.Text
