import Taskyard.Handler.Template
import Taskyard.Proofs.Text.Replacement

/-!
# Handlers — what a template becomes

A reader takes a template as a row of pieces: its placeholders, found from left to right, and the
characters between them. The result should be the same row, with a value for each placeholder.
The program replaces one placeholder after another in the whole text instead, and so it can take a
part of a value for a placeholder of the template.

Main definitions and results:

* `Template.scan`, `Template.spelled` — the pieces of a template, and the text they make with
  values for the placeholders.
* `Placeholder.Inert` — a value in which no placeholder that is replaced later can be seen, and none
  comes about by what stands around it.
* `Template.Filling` — these values, and no others, are safe in all templates; in a template without
  stray opening braces all values without opening braces are. `Template.filling` for every message.
* `Template.value_expanded` — a path that is no such value.
-/

namespace Taskyard

/-! ## Marks -/

namespace Placeholder

/-- The characters of a placeholder in a template. -/
def letters : Placeholder → List Char
  | .jobId => ['\x7b', '\x7b', 'j', 'o', 'b', '.', 'i', 'd', '\x7d', '\x7d']
  | .taskId => ['\x7b', '\x7b', 't', 'a', 's', 'k', '.', 'i', 'd', '\x7d', '\x7d']
  | .nodePath => ['\x7b', '\x7b', 'n', 'o', 'd', 'e', '.', 'p', 'a', 't', 'h', '\x7d', '\x7d']
  | .nodeCount =>
    ['\x7b', '\x7b', 'n', 'o', 'd', 'e', 's', '.', 'c', 'o', 'u', 'n', 't', '\x7d', '\x7d']
  | .userLogin =>
    ['\x7b', '\x7b', 'u', 's', 'e', 'r', '.', 'l', 'o', 'g', 'i', 'n', '\x7d', '\x7d']
  | .output => ['\x7b', '\x7b', 'o', 'u', 't', 'p', 'u', 't', '\x7d', '\x7d']

/-- A placeholder's letters are its mark, braces included. -/
theorem toList_mark (p : Placeholder) : p.mark.toList = p.letters := by
  cases p <;> exact String.toList_ofList

theorem letters_ne_nil (p : Placeholder) : p.letters ≠ [] := by
  cases p <;> exact List.cons_ne_nil _ _

theorem mem_all (p : Placeholder) : p ∈ all := by
  cases p <;> decide

theorem nodup_all : all.Nodup := by
  decide

/-- No placeholder has an end of another one, or of itself, at its beginning, or is in one but for
its own beginning. -/
theorem letters_before (p q : Placeholder) :
    ∀ k < q.letters.length, 0 < k →
      ¬q.letters.drop k <+: p.letters ∧ ¬p.letters <+: q.letters.drop k := by
  cases p <;> cases q <;> decide

/-- No placeholder's letters begin another's, so at most one starts at any place. -/
theorem letters_incomparable {p q : Placeholder} (h : p ≠ q) :
    Text.Incomparable q.letters p.letters where
  before := letters_before p q
  inside := by
    revert h
    cases p <;> cases q <;> decide

/-- Nothing but a proper text is shorter than a placeholder. -/
theorem two_le_length_letters (p : Placeholder) : 2 ≤ p.letters.length := by
  cases p <;> decide

/-- No placeholder begins within itself or another one. -/
theorem not_prefix_drop (p q : Placeholder) {k : Nat} (hk : 0 < k) :
    ¬p.letters <+: q.letters.drop k := by
  by_cases hInside : k < q.letters.length
  · exact (letters_before p q k hInside hk).2
  · rw [List.drop_eq_nil_of_le (Nat.le_of_not_lt hInside), List.prefix_nil]
    exact p.letters_ne_nil

/-- At most one placeholder stands at a place. -/
theorem eq_of_starts {p q : Placeholder} {cs : List Char} (hp : p.letters <+: cs)
    (hq : q.letters <+: cs) : p = q := by
  by_contra hOther
  have hApart := Text.apart_of_incomparable (letters_incomparable hOther)
  obtain ⟨rest, rfl⟩ := hp
  exact hApart.inside [] _ rest rfl p.letters_ne_nil hq

end Placeholder

/-! ## Pieces -/

namespace Template

open Placeholder

/-- A piece of a template. -/
inductive Piece where
  /-- A character that belongs to no placeholder. -/
  | text (c : Char)
  /-- A place for a value. -/
  | slot (p : Placeholder)
  deriving DecidableEq, Repr

/-- The pieces of a template, from left to right. -/
def scan : List Char → List Piece
  | [] => []
  | c :: cs =>
    match all.find? fun p => p.letters.isPrefixOf (c :: cs) with
    | some p => .slot p :: scan ((c :: cs).drop p.letters.length)
    | none => .text c :: scan cs
  termination_by cs => cs.length
  decreasing_by
    · have := p.two_le_length_letters
      simp only [List.length_drop, List.length_cons]
      omega
    · exact Nat.lt_succ_self _

/-- What a piece stands for. -/
def Piece.spelled (value : Placeholder → List Char) : Piece → List Char
  | .text c => [c]
  | .slot p => value p

/-- The text of pieces with values for the placeholders. -/
def spelled (value : Placeholder → List Char) (ps : List Piece) : List Char :=
  ps.flatMap (·.spelled value)

section Spelled

variable (value : Placeholder → List Char)

@[simp]
theorem spelled_nil : spelled value [] = [] := rfl

@[simp]
theorem spelled_text (c : Char) (ps : List Piece) :
    spelled value (.text c :: ps) = c :: spelled value ps := rfl

@[simp]
theorem spelled_slot (p : Placeholder) (ps : List Piece) :
    spelled value (.slot p :: ps) = value p ++ spelled value ps := rfl

/-- Pieces are spelled one after another. -/
@[simp]
theorem spelled_append (ps ps' : List Piece) :
    spelled value (ps ++ ps') = spelled value ps ++ spelled value ps' :=
  List.flatMap_append

/-- Plain characters spell themselves. -/
@[simp]
theorem spelled_map_text (cs : List Char) : spelled value (cs.map .text) = cs := by
  induction cs with
  | nil => rfl
  | cons c cs ih => rw [List.map_cons, spelled_text, ih]

end Spelled

/-- The single pass takes a placeholder where it meets its letters. -/
theorem scan_slot (p : Placeholder) (cs : List Char) :
    scan (p.letters ++ cs) = .slot p :: scan cs := by
  obtain ⟨c, l, hLetters⟩ := List.exists_cons_of_ne_nil p.letters_ne_nil
  rw [hLetters, List.cons_append, scan, ← List.cons_append, ← hLetters]
  have hFound : (all.find? fun q => q.letters.isPrefixOf (p.letters ++ cs)) = some p := by
    rw [List.find?_eq_some_iff_append]
    obtain ⟨before, after, hAll⟩ := List.append_of_mem p.mem_all
    refine ⟨by simp, before, after, hAll, fun q hq => ?_⟩
    -- the one that is found is the only one that stands there
    have hOther : q ≠ p := by
      rintro rfl
      have hNodup := hAll ▸ nodup_all
      exact (List.nodup_append.mp hNodup).2.2 q hq q (by simp) rfl
    simp only [Bool.not_eq_true', Bool.eq_false_iff, ne_eq, List.isPrefixOf_iff_prefix]
    exact fun hPrefix => hOther (eq_of_starts hPrefix (List.prefix_append _ _))
  simp only [hFound, List.drop_left]

/-- Where no placeholder starts, the single pass takes one character. -/
theorem scan_text {c : Char} {cs : List Char} (h : ∀ p : Placeholder, ¬p.letters <+: c :: cs) :
    scan (c :: cs) = .text c :: scan cs := by
  have hNone : (all.find? fun p => p.letters.isPrefixOf (c :: cs)) = none := by
    simp only [List.find?_eq_none, List.isPrefixOf_iff_prefix]
    exact fun p _ => h p
  rw [scan]
  simp only [hNone]

/-- A row of pieces in which each placeholder of its text is one of the pieces. -/
def Complete (ps : List Piece) : Prop :=
  ∀ c rest, .text c :: rest <:+ ps → ∀ p : Placeholder, ¬p.letters <+: c :: spelled letters rest

theorem complete_nil : Complete [] := fun _ _ hSuffix => by simp at hSuffix

/-- A slot in front keeps pieces complete. -/
theorem Complete.slot {ps : List Piece} (h : Complete ps) (p : Placeholder) :
    Complete (.slot p :: ps) := fun c rest hSuffix =>
  h c rest ((List.suffix_cons_iff.mp hSuffix).resolve_left (by simp))

/-- A character in front keeps pieces complete when no placeholder starts with it. -/
theorem Complete.cons_text {ps : List Piece} (h : Complete ps) {c : Char}
    (hc : ∀ p : Placeholder, ¬p.letters <+: c :: spelled letters ps) :
    Complete (.text c :: ps) := by
  intro c' rest hSuffix
  rcases List.suffix_cons_iff.mp hSuffix with hFirst | hLater
  · obtain ⟨hChar, rfl⟩ := List.cons.inj hFirst
    obtain rfl := Piece.text.inj hChar
    exact hc
  · exact h c' rest hLater

/-- The same for a whole word in front, checked at each of its suffixes. -/
theorem Complete.append_text {ps : List Piece} (h : Complete ps) {w : List Char}
    (hw : ∀ y z, w = y ++ z → z ≠ [] →
      ∀ p : Placeholder, ¬p.letters <+: z ++ spelled letters ps) :
    Complete (w.map .text ++ ps) := by
  induction w with
  | nil => exact h
  | cons c w ih =>
    have hRest := ih fun y z hSplit => hw (c :: y) z (by rw [hSplit, List.cons_append])
    refine hRest.cons_text fun p => ?_
    rw [spelled_append, spelled_map_text]
    exact hw [] (c :: w) rfl (by simp) p

theorem Complete.of_cons {piece : Piece} {ps : List Piece} (h : Complete (piece :: ps)) :
    Complete ps := fun c rest hSuffix =>
  h c rest (hSuffix.trans (List.suffix_cons piece ps))

/-- A template is what its pieces say, and no placeholder in it is overlooked. -/
theorem scan_complete (cs : List Char) : spelled letters (scan cs) = cs ∧ Complete (scan cs) := by
  induction hLength : cs.length using Nat.strong_induction_on generalizing cs with
  | _ n ih =>
    subst hLength
    -- either a placeholder starts here, or one character is passed over
    by_cases hHere : ∃ p : Placeholder, p.letters <+: cs
    · obtain ⟨p, rest, rfl⟩ := hHere
      have hShorter : rest.length < (p.letters ++ rest).length := by
        rw [List.length_append]
        exact Nat.lt_add_of_pos_left (List.length_pos_iff.mpr p.letters_ne_nil)
      obtain ⟨hSpelled, hComplete⟩ := ih _ hShorter rest rfl
      rw [scan_slot, spelled_slot, hSpelled]
      exact ⟨rfl, hComplete.slot p⟩
    · have hNone : ∀ p : Placeholder, ¬p.letters <+: cs := not_exists.mp hHere
      cases cs with
      | nil =>
        rw [scan]
        exact ⟨rfl, complete_nil⟩
      | cons c cs =>
        obtain ⟨hSpelled, hComplete⟩ := ih cs.length (by simp) cs rfl
        rw [scan_text hNone, spelled_text, hSpelled]
        refine ⟨rfl, hComplete.cons_text fun p => ?_⟩
        rw [hSpelled]
        exact hNone p

/-- There is one such row for a text. -/
theorem scan_spelled {ps : List Piece} (h : Complete ps) : scan (spelled letters ps) = ps := by
  induction ps with
  | nil => simp [scan]
  | cons piece ps ih =>
    cases piece with
    | text c =>
      rw [spelled_text, scan_text (h c ps List.suffix_rfl), ih h.of_cons]
    | slot p => rw [spelled_slot, scan_slot, ih h.of_cons]

/-! ## One placeholder after another -/

/-- A text in which placeholders are replaced one after another. -/
def passes (value : Placeholder → List Char) (order : List Placeholder) (s : List Char) :
    List Char :=
  order.foldl (fun s p => Text.replaced p.letters (value p) s) s

/-- Passes are made one after another. -/
theorem passes_append (value : Placeholder → List Char) (order order' : List Placeholder)
    (s : List Char) :
    passes value (order ++ order') s = passes value order' (passes value order s) :=
  List.foldl_append

/-- What stands for a placeholder when some of them are replaced. -/
def stage (value : Placeholder → List Char) (done : List Placeholder) (p : Placeholder) :
    List Char :=
  if p ∈ done then value p else p.letters

/-- Rendering is the six passes, in the order they are made. -/
theorem toList_render (template jobId taskId : String) (m : Message) :
    (render template jobId taskId m).toList =
      passes (fun p => (p.value jobId taskId m).toList) all template.toList := by
  have hFold : ∀ order : List Placeholder, ∀ s : String,
      (order.foldl (fun s p => Text.replaceAll s p.mark (p.value jobId taskId m)) s).toList =
        passes (fun p => (p.value jobId taskId m).toList) order s.toList := by
    intro order
    induction order with
    | nil => exact fun _ => rfl
    | cons p order ih =>
      intro s
      rw [List.foldl_cons, ih, Text.toList_replaceAll, toList_mark, passes, passes,
        List.foldl_cons]
  exact hFold all template

/-- One placeholder is replaced in a row of pieces, if it is seen neither in what stands for the
others nor at one of the characters between them. -/
theorem replaced_spelled {value value' : Placeholder → List Char} {q : Placeholder}
    {ps : List Piece} (hq : value q = q.letters) (hOther : ∀ p ≠ q, value p = value' p)
    (hInside : ∀ p ≠ q, ∀ y z s, value p = y ++ z → z ≠ [] → ¬q.letters <+: z ++ s)
    (hText : ∀ c rest, .text c :: rest <:+ ps → ¬q.letters <+: c :: spelled value rest) :
    Text.replaced q.letters (value' q) (spelled value ps) = spelled value' ps := by
  induction ps with
  | nil => rfl
  | cons piece ps ih =>
    have hRest := ih fun c rest hSuffix =>
      hText c rest (hSuffix.trans (List.suffix_cons piece ps))
    -- the induction goes from piece to piece: a character is passed over, and so are the others
    cases piece with
    | text c =>
      rw [spelled_text, Text.replaced_other _ (hText c ps List.suffix_rfl), hRest, spelled_text]
    | slot p =>
      rw [spelled_slot, spelled_slot]
      by_cases hSame : p = q
      · subst hSame
        rw [hq, Text.replaced_occurrence p.letters_ne_nil, hRest]
      · rw [Text.replaced_append _ fun y z hSplit hz => hInside p hSame y z _ hSplit hz, hRest,
          hOther p hSame]

/-- Placeholders are replaced one after another in a row of pieces, if they are one by one. -/
theorem passes_spelled {value : Placeholder → List Char} {ps : List Piece}
    {order : List Placeholder}
    (hStep : ∀ done q, done ++ [q] <+: order →
      Text.replaced q.letters (value q) (spelled (stage value done) ps) =
        spelled (stage value (done ++ [q])) ps) :
    passes value order (spelled letters ps) = spelled (stage value order) ps := by
  induction order using List.reverseRecOn with
  | nil => rfl
  | append_singleton done q ih =>
    have hDone := ih fun done' q' hPrefix => hStep done' q' (hPrefix.trans (List.prefix_append _ _))
    rw [passes_append, hDone]
    exact hStep done q List.prefix_rfl

/-! ## Values seen by later replacements -/

/-- The pass for a placeholder fills it in. -/
theorem stage_append_self (value : Placeholder → List Char) (done : List Placeholder)
    (q : Placeholder) : stage value (done ++ [q]) q = value q :=
  if_pos (by simp)

section Stages

variable {value : Placeholder → List Char} {done : List Placeholder} {q : Placeholder}

theorem stage_of_not_mem (h : q ∉ done) : stage value done q = q.letters := if_neg h

/-- It leaves every other placeholder as it was. -/
theorem stage_append_of_ne {p : Placeholder} (h : p ≠ q) :
    stage value (done ++ [q]) p = stage value done p := by
  simp only [stage, List.mem_append, List.mem_singleton, h, or_false]

/-- After all passes every placeholder is filled in. -/
theorem stage_all : stage value all = value := funext fun p => if_pos p.mem_all

/-- What does not reach into the values of the others is seen in the text with the values just
where it is seen in the template. -/
theorem prefix_of_prefix_spelled (hq : value q = q.letters)
    (hApart : ∀ p ≠ q, Text.Apart q.letters (value p)) {x : List Char} (hx : x ≠ [])
    {ps : List Piece} (h : q.letters <+: x ++ spelled value ps) :
    q.letters <+: x ++ spelled letters ps := by
  induction ps generalizing x with
  | nil => exact h
  | cons piece ps ih =>
    -- only a placeholder can stand in the way, and what is sought ends before it
    cases piece with
    | text c =>
      rw [spelled_text, List.append_cons] at h ⊢
      exact ih (by simp) h
    | slot p =>
      have hBefore : q.letters <+: x := by
        by_cases hSame : p = q
        · subst hSame
          rw [spelled_slot, hq] at h
          exact Text.before_of_incomparable (p.letters_before p) hx h
        · exact (hApart p hSame).before x _ hx h
      exact hBefore.trans (List.prefix_append x _)

/-- A placeholder is replaced where the template has it and nowhere else, if the values that already
stand there are apart from it. -/
theorem replaced_stage {ps : List Piece} (hps : Complete ps) (hNew : q ∉ done)
    (hApart : ∀ p ∈ done, Text.Apart q.letters (value p)) :
    Text.replaced q.letters (value q) (spelled (stage value done) ps) =
      spelled (stage value (done ++ [q])) ps := by
  have hStage : ∀ p ≠ q, Text.Apart q.letters (stage value done p) := by
    intro p hp
    by_cases hDone : p ∈ done
    · rw [stage, if_pos hDone]
      exact hApart p hDone
    · rw [stage_of_not_mem hDone]
      exact Text.apart_of_incomparable (letters_incomparable hp)
  rw [← stage_append_self value done q]
  refine replaced_spelled (stage_of_not_mem hNew) (fun p hp => (stage_append_of_ne hp).symm)
    (fun p hp y z s hSplit hz => (hStage p hp).inside y z s hSplit hz)
    fun c rest hSuffix hPrefix => hps c rest hSuffix q ?_
  exact prefix_of_prefix_spelled (x := [c]) (stage_of_not_mem hNew) hStage (by simp) hPrefix

/-- The same if there are no opening braces in these values and between the placeholders. -/
theorem replaced_stage_of_plain {ps : List Piece} (hps : ∀ c, .text c ∈ ps → c ≠ '\x7b')
    (hNew : q ∉ done) (hValue : ∀ p ∈ done, '\x7b' ∉ value p) :
    Text.replaced q.letters (value q) (spelled (stage value done) ps) =
      spelled (stage value (done ++ [q])) ps := by
  -- a placeholder is seen nowhere but at an opening brace
  have hBrace : ∀ c s, q.letters <+: c :: s → c = '\x7b' := by
    intro c s hPrefix
    cases q <;> exact (List.cons_prefix_cons.mp hPrefix).1.symm
  rw [← stage_append_self value done q]
  refine replaced_spelled (stage_of_not_mem hNew) (fun p hp => (stage_append_of_ne hp).symm)
    (fun p hp y z s hSplit hz hPrefix => ?_)
    fun c rest hSuffix hPrefix => hps c (hSuffix.subset List.mem_cons_self) (hBrace c _ hPrefix)
  by_cases hDone : p ∈ done
  · rw [stage, if_pos hDone] at hSplit
    obtain ⟨c, z, rfl⟩ := List.exists_cons_of_ne_nil hz
    obtain rfl := hBrace c _ hPrefix
    exact hValue p hDone (by simp [hSplit])
  · rw [stage_of_not_mem hDone] at hSplit
    exact (Text.apart_of_incomparable (letters_incomparable hp)).inside y z s hSplit hz hPrefix

/-- In their order, placeholders are replaced as if all at once, if no value is seen later. -/
theorem passes_of_apart {order : List Placeholder} {ps : List Piece} (hps : Complete ps)
    (hNodup : order.Nodup)
    (hApart : order.Pairwise fun p q => Text.Apart q.letters (value p)) :
    passes value order (spelled letters ps) = spelled (stage value order) ps := by
  refine passes_spelled fun done q hPrefix => ?_
  have hNew := List.nodup_append.mp (hNodup.sublist hPrefix.sublist)
  have hBefore := List.pairwise_append.mp (hApart.sublist hPrefix.sublist)
  exact replaced_stage hps (fun hAgain => hNew.2.2 q hAgain q (by simp) rfl)
    fun p hp => hBefore.2.2 p hp q (by simp)

/-- Without a brace in the text or in a value, the passes fill each slot in turn. -/
theorem passes_of_plain {order : List Placeholder} {ps : List Piece}
    (hps : ∀ c, .text c ∈ ps → c ≠ '\x7b') (hNodup : order.Nodup)
    (hValue : ∀ p, '\x7b' ∉ value p) :
    passes value order (spelled letters ps) = spelled (stage value order) ps := by
  refine passes_spelled fun done q hPrefix => ?_
  have hNew := List.nodup_append.mp (hNodup.sublist hPrefix.sublist)
  exact replaced_stage_of_plain hps (fun hAgain => hNew.2.2 q hAgain q (by simp) rfl)
    fun p _ => hValue p

/-- Values that are shorter than their placeholders do not make a text longer, and make one shorter
in which there is a placeholder. -/
theorem length_passes {order : List Placeholder}
    (hShort : ∀ p ∈ order, (value p).length < p.letters.length) (s : List Char) :
    (passes value order s).length ≤ s.length ∧
      ∀ p ∈ order, p.letters <:+: s → (passes value order s).length < s.length := by
  induction order generalizing s with
  | nil => exact ⟨le_rfl, by simp⟩
  | cons p order ih =>
    obtain ⟨hFirst, hRest⟩ := List.forall_mem_cons.mp hShort
    obtain ⟨hLe, hLt⟩ := Text.length_replaced p.letters_ne_nil (value p) hFirst s
    obtain ⟨hLe', hLt'⟩ := ih hRest (Text.replaced p.letters (value p) s)
    rw [passes, List.foldl_cons, ← passes]
    refine ⟨hLe'.trans hLe, fun q hq hInfix => ?_⟩
    by_cases hHere : p.letters <:+: s
    · exact hLe'.trans_lt (hLt hHere)
    · -- the text is still as it was when it is the turn of another placeholder
      rcases List.mem_cons.mp hq with rfl | hLater
      · exact absurd hInfix hHere
      · rw [Text.replaced_eq_self _ hHere] at hLt' ⊢
        exact hLt' q hLater hInfix

end Stages

end Template

/-- A value in which no placeholder that is replaced later can be seen, whatever stands around
it. -/
def Placeholder.Inert (p : Placeholder) (v : String) : Prop :=
  ∀ q, [p, q].Sublist all → Text.Apart q.letters v.toList

namespace Placeholder

/-- A value without braces is inert when it holds a character foreign to each placeholder. -/
theorem inert_of_foreign {p : Placeholder} {v : String} (hOpening : '\x7b' ∉ v.toList)
    (hClosing : '\x7d' ∉ v.toList)
    (hForeign : ∀ q : Placeholder, ∃ c ∈ v.toList, c ∉ q.letters) :
    p.Inert v := by
  intro q _
  refine Text.apart_of_foreign q.letters_ne_nil ?_ ?_ (hForeign q)
  · cases q <;> exact hOpening
  · cases q <;> exact hClosing

/-- Numbers are safe. -/
theorem inert_numeral (p : Placeholder) (n : Nat) : p.Inert (Text.numeral n) := by
  have hDigit : ∀ c ∈ (Text.numeral n).toList, c.isDigit = true := by
    intro c hc
    rw [Text.numeral, String.toList_ofList] at hc
    exact Nat.isDigit_of_mem_toDigits (by omega) le_rfl hc
  refine inert_of_foreign (fun h => absurd (hDigit _ h) (by decide))
    (fun h => absurd (hDigit _ h) (by decide)) fun q => ?_
  obtain ⟨c, hc⟩ := List.exists_mem_of_ne_nil (Text.numeral n).toList (by
    rw [Text.numeral, String.toList_ofList]
    exact Nat.toDigits_ne_nil)
  refine ⟨c, hc, fun hLetter => ?_⟩
  have hNone : q.letters.any Char.isDigit = false := by cases q <;> rfl
  exact List.any_eq_false.mp hNone c hLetter (hDigit c hc)

end Placeholder

namespace Template

open Placeholder

/-! ## Values put in -/

/-- The template with its values put in at once. -/
def filled (template jobId taskId : String) (m : Message) : String :=
  String.ofList (spelled (fun p => (p.value jobId taskId m).toList) (scan template.toList))

section Filled

variable (template jobId taskId : String) (m : Message)

/-- The values are put in one after another, and it is as if they were put in at once. -/
theorem render_eq_filled
    (h : passes (fun p => (p.value jobId taskId m).toList) all
        (spelled letters (scan template.toList)) =
      spelled (stage (fun p => (p.value jobId taskId m).toList) all) (scan template.toList)) :
    render template jobId taskId m = filled template jobId taskId m := by
  rw [(scan_complete template.toList).1, stage_all, ← toList_render] at h
  rw [filled, ← h, String.ofList_toList]

/-- Values that are safe can be put in any template. -/
theorem render_of_inert (h : ∀ p : Placeholder, p.Inert (p.value jobId taskId m)) :
    render template jobId taskId m = filled template jobId taskId m :=
  render_eq_filled template jobId taskId m <|
    passes_of_apart (scan_complete template.toList).2 nodup_all <|
      List.pairwise_iff_forall_sublist.mpr fun {p q} hLater => h p q hLater

/-- In a template without stray opening braces every value without them can be put. -/
theorem render_of_plain (hTemplate : ∀ c, .text c ∈ scan template.toList → c ≠ '\x7b')
    (hValue : ∀ p : Placeholder, '\x7b' ∉ (p.value jobId taskId m).toList) :
    render template jobId taskId m = filled template jobId taskId m :=
  render_eq_filled template jobId taskId m <| passes_of_plain hTemplate nodup_all hValue

end Filled

/-! ## Values that are not safe -/

/-- Any text can be the value of a placeholder other than the number of nodes, with short values of
the others. -/
theorem exists_lone_value {p : Placeholder} (hp : p ≠ .nodeCount) (v : String) :
    ∃ jobId taskId m, p.value jobId taskId m = v ∧
      ∀ q ≠ p, q.Inert (q.value jobId taskId m) ∧ (q.value jobId taskId m).toList.length = 1 := by
  -- one letter that no placeholder has is safe for all of them
  have hShort : ∀ q : Placeholder, q.Inert "x" ∧ "x".toList.length = 1 := fun q =>
    ⟨inert_of_foreign (by decide) (by decide) fun r => ⟨'x', by decide, by cases r <;> decide⟩, rfl⟩
  let text (q : Placeholder) : String := if q = p then v else "x"
  have hText : ∀ q ≠ p, q.Inert (text q) ∧ (text q).toList.length = 1 := by
    intro q hq
    rw [show text q = "x" from if_neg hq]
    exact hShort q
  let m : Message :=
    { nodes := [{ path := text .nodePath }], users := [{ login := text .userLogin }]
      outputs := [{ success := true, text := text .output }] }
  have hValue : ∀ q ≠ nodeCount, q.value (text .jobId) (text .taskId) m = text q := by
    intro q hq
    cases q with
    | nodeCount => exact absurd rfl hq
    | jobId | taskId | nodePath | userLogin | output => rfl
  refine ⟨text .jobId, text .taskId, m, (hValue p hp).trans (if_pos rfl), fun q hq => ?_⟩
  -- the number of nodes can only be a numeral, which is safe as well
  by_cases hCount : q = nodeCount
  · subst hCount
    refine ⟨inert_numeral nodeCount 1, ?_⟩
    exact (congrArg List.length (String.toList_ofList (l := Nat.toDigits 10 1))).trans rfl
  · rw [hValue q hCount]
    exact hText q hq

/-- A placeholder between a proper beginning and a proper end of one is the only one there. -/
theorem complete_around (p q : Placeholder) {k j : Nat} (hk : k < q.letters.length) (hj : 0 < j) :
    Complete ((q.letters.take k).map .text ++ .slot p :: (q.letters.drop j).map .text) := by
  -- what is left of the end does not start a placeholder, as no letters start within others
  have hAfter : Complete ((q.letters.drop j).map .text ++ []) := by
    refine complete_nil.append_text fun y z hSplit _ r hPrefix => ?_
    have hEnd : q.letters.drop (j + y.length) = z := by
      rw [← List.drop_drop, hSplit, List.drop_left]
    rw [spelled_nil, List.append_nil, ← hEnd] at hPrefix
    exact not_prefix_drop r q (by omega) hPrefix
  rw [List.append_nil] at hAfter
  refine (hAfter.slot p).append_text fun y z hSplit hz r hPrefix => ?_
  have hIn : r.letters <+: z := Text.before_of_incomparable (letters_before p r) hz hPrefix
  have hBegin : z <+: q.letters.drop y.length := by
    have hLetters : y ++ (z ++ q.letters.drop k) = q.letters := by
      rw [← List.append_assoc, ← hSplit, List.take_append_drop]
    exact ⟨q.letters.drop k,
      List.drop_left.symm.trans (congrArg (List.drop y.length) hLetters)⟩
  rcases Nat.eq_zero_or_pos y.length with hNone | hSome
  · -- at the very beginning there could only be the placeholder itself, which is cut off
    rw [List.length_eq_zero_iff] at hNone
    subst hNone
    obtain rfl : r = q := eq_of_starts (hIn.trans hBegin) List.prefix_rfl
    have hLength := hIn.length_le
    rw [List.nil_append] at hSplit
    rw [← hSplit, List.length_take] at hLength
    omega
  · exact not_prefix_drop r q hSome (hIn.trans hBegin)

/-- A value in which a later placeholder is seen in a text makes the text shorter than it should
be, if the other values are safe and short. -/
theorem length_passes_around (value : Placeholder → List Char) {p q : Placeholder}
    (hLater : [p, q].Sublist all) {k j : Nat} (hk : k < q.letters.length) (hj : 0 < j)
    (hSeen : q.letters <:+: q.letters.take k ++ value p ++ q.letters.drop j)
    (hApart : ∀ r ≠ p, ∀ s, [r, s].Sublist all → Text.Apart s.letters (value r))
    (hShort : ∀ r ≠ p, (value r).length < r.letters.length) :
    (passes value all (q.letters.take k ++ p.letters ++ q.letters.drop j)).length <
      (q.letters.take k ++ value p ++ q.letters.drop j).length := by
  -- the placeholders up to this one, and those after it
  obtain ⟨first, rest, hAll, hFirst, hRest⟩ := List.cons_sublist_iff.mp hLater
  obtain ⟨before, between, rfl⟩ := List.append_of_mem hFirst
  have hSplit : all = (before ++ [p]) ++ (between ++ rest) := by simp [hAll]
  have hNodup := List.nodup_append.mp (hSplit ▸ nodup_all)
  have hBefore : ∀ r ∈ before, r ≠ p := fun r hr =>
    (List.nodup_append.mp hNodup.1).2.2 r hr p (by simp)
  have hAfter : ∀ r ∈ between ++ rest, r ≠ p := fun r hr =>
    (hNodup.2.2 p (by simp) r hr).symm
  have hDone : passes value (before ++ [p]) (q.letters.take k ++ p.letters ++ q.letters.drop j) =
      q.letters.take k ++ value p ++ q.letters.drop j := by
    have hNone : (before ++ [p]).Pairwise fun r _ => r ≠ p :=
      List.pairwise_append.mpr ⟨List.pairwise_of_forall_mem_list fun r hr _ _ => hBefore r hr,
        List.pairwise_singleton _ _, fun r hr _ _ => hBefore r hr⟩
    have hPairs : (before ++ [p]).Pairwise fun r s => [r, s].Sublist all :=
      List.pairwise_iff_forall_sublist.mpr fun hPair =>
        hSplit ▸ hPair.trans (List.sublist_append_left _ _)
    have hPasses := passes_of_apart (complete_around p q hk hj) hNodup.1
      (hNone.imp₂ (fun r s hr hPair => hApart r hr s hPair) hPairs)
    simpa only [spelled_append, spelled_slot, spelled_map_text, stage_append_self,
      ← List.append_assoc] using hPasses
  rw [hSplit, passes_append, hDone]
  exact (length_passes (fun r hr => hShort r (hAfter r hr)) _).2 q
    (List.mem_append_right _ (List.singleton_sublist.mp hRest)) hSeen

/-- For a value that is not safe there is a template that shows it. -/
theorem exists_render_ne_filled {jobId taskId : String} {m : Message} {p : Placeholder}
    (h : ¬p.Inert (p.value jobId taskId m)) :
    ∃ template jobId' taskId' m', p.value jobId' taskId' m' = p.value jobId taskId m ∧
      (∀ q ≠ p, q.Inert (q.value jobId' taskId' m')) ∧
        render template jobId' taskId' m' ≠ filled template jobId' taskId' m' := by
  have hp : p ≠ nodeCount := by
    rintro rfl
    exact h (inert_numeral nodeCount m.nodes.length)
  obtain ⟨jobId', taskId', m', hValue, hOthers⟩ := exists_lone_value hp (p.value jobId taskId m)
  rw [← hValue] at h ⊢
  obtain ⟨q, hLater, hNot⟩ : ∃ q, [p, q].Sublist all ∧
      ¬Text.Apart q.letters (p.value jobId' taskId' m').toList := by
    by_contra hNone
    exact h fun q hLater => by_contra fun hNot => hNone ⟨q, hLater, hNot⟩
  -- the value completes the letters of a placeholder that are cut in two around it
  obtain ⟨k, hk, j, hj, hSeen⟩ := Text.exists_around_of_not_apart hNot q.letters_ne_nil
  refine ⟨String.ofList (q.letters.take k ++ p.letters ++ q.letters.drop j), jobId', taskId', m',
    rfl, fun r hr => (hOthers r hr).1, fun hSame => ?_⟩
  have hLess := length_passes_around (fun r => (r.value jobId' taskId' m').toList)
    hLater hk hj hSeen (fun r hr => (hOthers r hr).1) fun r hr => by
      have := r.two_le_length_letters
      have := (hOthers r hr).2
      omega
  -- the template says what is put together, so filling it at once keeps the cut letters
  have hScan := scan_spelled (complete_around p q hk hj)
  rw [spelled_append, spelled_slot, spelled_map_text, spelled_map_text, ← List.append_assoc]
    at hScan
  have hRender := congrArg String.toList hSame
  rw [toList_render, filled, String.toList_ofList, String.toList_ofList, hScan, spelled_append,
    spelled_slot, spelled_map_text, spelled_map_text, ← List.append_assoc] at hRender
  exact absurd (congrArg List.length hRender) hLess.ne

/-! ## Templates and their values -/

/-- What can be said of putting values in templates. -/
structure Filling (jobId taskId : String) (m : Message) : Prop where
  /-- Values that are safe are put in all templates as they are, where the template asks for them
  and nowhere else. -/
  safe : (∀ p : Placeholder, p.Inert (p.value jobId taskId m)) →
    ∀ template, render template jobId taskId m = filled template jobId taskId m
  /-- So are all values without opening braces in the templates whose opening braces all belong to
  placeholders. -/
  plain : (∀ p : Placeholder, '\x7b' ∉ (p.value jobId taskId m).toList) →
    ∀ template : String, (∀ c, .text c ∈ scan template.toList → c ≠ '\x7b') →
      render template jobId taskId m = filled template jobId taskId m
  /-- Any other value is mistaken in a template for a part of it, even with safe values of the other
  placeholders. -/
  shown : ∀ p : Placeholder, ¬p.Inert (p.value jobId taskId m) →
    ∃ template jobId' taskId' m', p.value jobId' taskId' m' = p.value jobId taskId m ∧
      (∀ q ≠ p, q.Inert (q.value jobId' taskId' m')) ∧
        render template jobId' taskId' m' ≠ filled template jobId' taskId' m'
  /-- Numbers are safe, and so is what is put in last. -/
  always : nodeCount.Inert (nodeCount.value jobId taskId m) ∧
    output.Inert (output.value jobId taskId m)

/-- **Templates are filled.** `render` puts the values in a template one after another. The result
is as if they were put in at once exactly as long as no value shows a placeholder that is still to
be replaced, by itself or together with what stands around it. -/
theorem filling (jobId taskId : String) (m : Message) : Filling jobId taskId m where
  safe h template := render_of_inert template jobId taskId m h
  plain hValue template hTemplate := render_of_plain template jobId taskId m hTemplate hValue
  shown _ := exists_render_ne_filled
  always := by
    refine ⟨inert_numeral nodeCount m.nodes.length, fun q hLater => ?_⟩
    have hNone : ∀ q : Placeholder, ¬[output, q].Sublist all := by
      intro q
      cases q <;> decide
    exact absurd hLater (hNone q)

/-- Values of all placeholders that are safe. -/
def plainMessage : Message :=
  { nodes := [{ path := "/a.txt" }, { path := "/b.txt" }], users := [{ login := "alice" }]
    outputs := [{ success := true, text := "ok" }] }

/-- The values of a plain message are all inert, so every template renders as one pass would. -/
theorem filling_plainMessage :
    (∀ p : Placeholder, p.Inert (p.value "j1" "t1" plainMessage)) ∧
      ∀ template,
        render template "j1" "t1" plainMessage = filled template "j1" "t1" plainMessage := by
  have hSafe : ∀ p : Placeholder, p.Inert (p.value "j1" "t1" plainMessage) := by
    intro p
    -- no value has a brace, and for every placeholder each has a character that is not in it
    cases p with
    | jobId =>
      refine inert_of_foreign (by decide) (by decide) fun q => ⟨'1', by decide, ?_⟩
      cases q <;> decide
    | taskId =>
      refine inert_of_foreign (by decide) (by decide) fun q => ⟨'1', by decide, ?_⟩
      cases q <;> decide
    | nodePath =>
      refine inert_of_foreign (by decide) (by decide) fun q => ⟨'/', by decide, ?_⟩
      cases q <;> decide
    | nodeCount => exact (filling "j1" "t1" plainMessage).always.1
    | userLogin =>
      refine inert_of_foreign (by decide) (by decide) fun q => ?_
      cases q with
      | taskId | nodePath => exact ⟨'l', by decide, by decide⟩
      | jobId | nodeCount | userLogin | output => exact ⟨'a', by decide, by decide⟩
    | output => exact (filling "j1" "t1" plainMessage).always.2
  exact ⟨hSafe, (filling "j1" "t1" plainMessage).safe hSafe⟩

/-- A path with a placeholder in it, and nobody to fill in for a user. -/
def bracedMessage : Message :=
  { nodes := [{ path := "/a\x7b\x7boutput\x7d\x7d" }]
    outputs := [{ success := true, text := "x" }] }

/-- The placeholder in the path is replaced, and so is one that comes about where the login is
left out. -/
theorem value_expanded :
    let template :=
      "\x7b\x7bnode.path\x7d\x7d \x7b\x7bou\x7b\x7buser.login\x7d\x7dtput\x7d\x7d"
    render template "j" "t" bracedMessage = "/ax x" ∧
      filled template "j" "t" bracedMessage =
        "/a\x7b\x7boutput\x7d\x7d \x7b\x7boutput\x7d\x7d" := by
  intro template
  have hTemplate : template.toList = nodePath.letters ++ ' ' ::
      (output.letters.take 4 ++ userLogin.letters ++ output.letters.drop 4) := String.toList_ofList
  have hValue : (fun p : Placeholder => (p.value "j" "t" bracedMessage).toList) = fun
      | .jobId => ['j'] | .taskId => ['t'] | .nodePath => '/' :: 'a' :: output.letters
      | .nodeCount => ['1'] | .userLogin => [] | .output => ['x'] := by
    funext p
    cases p <;> exact String.toList_ofList
  -- seen at once, the template has two placeholders and letters around the second one
  have hScan : scan template.toList = .slot nodePath :: .text ' ' ::
      ((output.letters.take 4).map .text ++
        .slot userLogin :: (output.letters.drop 4).map .text) := by
    have hAround := scan_spelled (complete_around userLogin output (k := 4) (j := 4) (by decide)
      (by decide))
    rw [hTemplate, scan_slot, scan_text fun p => by cases p <;> decide]
    exact congrArg (fun ps => Piece.slot nodePath :: Piece.text ' ' :: ps) hAround
  constructor
  · have hResult : "/ax x".toList = ['/', 'a', 'x', ' ', 'x'] := String.toList_ofList
    rw [← String.toList_inj, toList_render, hValue, hTemplate, hResult]
    decide
  · have hResult : "/a\x7b\x7boutput\x7d\x7d \x7b\x7boutput\x7d\x7d".toList =
        '/' :: 'a' :: output.letters ++ ' ' :: output.letters := String.toList_ofList
    rw [← String.toList_inj, filled, String.toList_ofList, hScan, hValue, hResult]
    decide

end Template

end Taskyard
