import Taskyard.Json.Decoder
import Taskyard.Proofs.Json.RoundTrip

/-!
# JSON — canonical values stay canonical

What is read back of a canonical value is canonical, nests as deep, and is its own normal form, so
free-form data is decoded exactly where it does not nest too deep.

Main results:

* `Json.fits_reread` — what fits is read back as something that fits.
* `Json.canonical_reread` — canonical values are read back as canonical ones of the same depth.
* `Json.normalize_eq` — a canonical value is its own normal form.
* `Document.reread`, `document_reread` — free-form data that is read back.
-/

namespace Taskyard

/-! ## Dictionaries from their entries -/

namespace Dict

variable {α : Type}

/-- An entry with the greatest key goes to the end. -/
theorem insertEntry_last {k : String} {v : α} {l : List (String × α)}
    (h : ∀ e ∈ l, e.1 < k) : insertEntry k v l = l ++ [(k, v)] := by
  induction l with
  | nil => rfl
  | cons e l ih =>
    obtain ⟨k', v'⟩ := e
    have hLess : k' < k := h (k', v') (by simp)
    -- the name comes after all that are there, so no place is found before the end
    have hNe : k' ≠ k := by
      rintro rfl
      exact String.lt_irrefl _ hLess
    rw [insertEntry, if_neg (String.lt_asymm hLess), if_neg hNe,
      ih fun e he => h e (List.mem_cons_of_mem _ he)]
    rfl

/-- Two dictionaries with the same entries are equal. -/
theorem ext_entries {d d' : Dict α} (h : d.entries = d'.entries) : d = d' := by
  obtain ⟨entries, sorted⟩ := d
  obtain ⟨entries', sorted'⟩ := d'
  cases h
  rfl

/-- Entries in order are put behind what is there. -/
theorem entries_foldl_insert {l : List (String × α)} (d : Dict α)
    (h : Ascending (d.entries ++ l)) :
    (l.foldl (fun d e => d.insert e.1 e.2) d).entries = d.entries ++ l := by
  induction l generalizing d with
  | nil => rw [List.foldl_nil, List.append_nil]
  | cons e l ih =>
    -- the first of the entries is behind those that are there and before those to come
    have hParts := List.pairwise_append.mp h
    have hInsert : (d.insert e.1 e.2).entries = d.entries ++ [e] :=
      insertEntry_last fun e' he' => hParts.2.2 e' he' e (by simp)
    have hShift : d.entries ++ e :: l = (d.insert e.1 e.2).entries ++ l := by
      rw [hInsert]
      simp
    rw [List.foldl_cons, ih (d.insert e.1 e.2) (hShift ▸ h), ← hShift]

/-- Members in ascending order are kept as they are. -/
theorem entries_ofList {l : List (String × α)} (h : Ascending l) : (ofList l).entries = l := by
  have hAll := entries_foldl_insert (l := l) Dict.empty h
  exact hAll

theorem ofList_entries (d : Dict α) : ofList d.entries = d :=
  ext_entries (entries_ofList d.sorted)

end Dict

namespace Json

/-! ## Depth -/

mutual

/-- What fits is read back as something that fits. -/
theorem fits_reread {j : Json} {n : Nat} (h : j.fits n = true) : j.reread.fits n = true := by
  cases j with
  | null | unreadable | bool | string => rw [reread]; rfl
  -- a number that is read back is a number, or stays as it is
  | number x =>
    rw [reread]
    rcases reread_cases x with hx | ⟨y, -, hx⟩ <;> rw [hx] <;> rfl
  | array items =>
    rw [fits, Bool.and_eq_true] at h
    rw [reread, fits, Bool.and_eq_true]
    exact ⟨h.1, fits_rereadAll h.2⟩
  | object members =>
    rw [fits, Bool.and_eq_true] at h
    rw [reread, fits, Bool.and_eq_true]
    exact ⟨h.1, fits_rereadMembers h.2⟩

/-- Reading items back makes none deeper. -/
theorem fits_rereadAll {js : List Json} {n : Nat} (h : fitsAll n js = true) :
    fitsAll n (rereadAll js) = true := by
  match js with
  | [] => rfl
  | j :: rest =>
    rw [fitsAll, Bool.and_eq_true] at h
    rw [rereadAll, fitsAll, Bool.and_eq_true]
    exact ⟨fits_reread h.1, fits_rereadAll h.2⟩

/-- Reading members back makes none deeper. -/
theorem fits_rereadMembers {ms : List (String × Json)} {n : Nat} (h : fitsMembers n ms = true) :
    fitsMembers n (rereadMembers ms) = true := by
  match ms with
  | [] => rfl
  | (k, j) :: rest =>
    rw [fitsMembers, Bool.and_eq_true] at h
    rw [rereadMembers, fitsMembers, Bool.and_eq_true]
    exact ⟨fits_reread h.1, fits_rereadMembers h.2⟩

end

/-! ## Canonical values -/

/-- Reading members back keeps their names. -/
theorem names_rereadMembers (ms : List (String × Json)) :
    (rereadMembers ms).map (·.1) = ms.map (·.1) := by
  induction ms with
  | nil => rfl
  | cons m ms ih =>
    obtain ⟨k, j⟩ := m
    rw [rereadMembers, List.map_cons, List.map_cons, ih]

/-- The order of the members is that of their names. -/
theorem ascending_iff {α : Type} (l : List (String × α)) :
    Ascending l ↔ (l.map (·.1)).Pairwise (· < ·) := by
  rw [List.pairwise_map]

mutual

/-- A canonical value is read back as a canonical one that nests as deep. -/
theorem canonical_reread {j : Json} (h : j.canonical = true) :
    j.reread.canonical = true ∧ ∀ n, j.reread.fits n = j.fits n := by
  cases j with
  | null | bool | string =>
    rw [reread]
    exact ⟨rfl, fun _ => rfl⟩
  | unreadable => cases h
  | number x =>
    rw [canonical] at h
    obtain ⟨y, hPlain, hReread⟩ := reread_plain h
    rw [reread, hReread]
    exact ⟨hPlain, fun _ => rfl⟩
  | array items =>
    rw [canonical] at h
    obtain ⟨hCanonical, hFits⟩ := canonical_rereadAll h
    rw [reread, canonical]
    refine ⟨hCanonical, fun n => ?_⟩
    rw [fits, fits, hFits]
  -- members keep their names, and with them their order
  | object members =>
    rw [canonical, Bool.and_eq_true, decide_eq_true_eq, ascending_iff] at h
    obtain ⟨hCanonical, hFits⟩ := canonical_rereadMembers h.2
    rw [reread, canonical, Bool.and_eq_true, decide_eq_true_eq, ascending_iff,
      names_rereadMembers]
    refine ⟨⟨h.1, hCanonical⟩, fun n => ?_⟩
    rw [fits, fits, hFits]

/-- Reading canonical items back leaves them canonical and as deep as before. -/
theorem canonical_rereadAll {js : List Json} (h : canonicalAll js = true) :
    canonicalAll (rereadAll js) = true ∧ ∀ n, fitsAll n (rereadAll js) = fitsAll n js := by
  match js with
  | [] => exact ⟨rfl, fun _ => rfl⟩
  | j :: rest =>
    rw [canonicalAll, Bool.and_eq_true] at h
    obtain ⟨hHead, hHeadFits⟩ := canonical_reread h.1
    obtain ⟨hTail, hTailFits⟩ := canonical_rereadAll h.2
    rw [rereadAll, canonicalAll, Bool.and_eq_true]
    refine ⟨⟨hHead, hTail⟩, fun n => ?_⟩
    rw [fitsAll, fitsAll, hHeadFits, hTailFits]

/-- Reading canonical members back leaves them canonical and as deep as before. -/
theorem canonical_rereadMembers {ms : List (String × Json)} (h : canonicalMembers ms = true) :
    canonicalMembers (rereadMembers ms) = true ∧
      ∀ n, fitsMembers n (rereadMembers ms) = fitsMembers n ms := by
  match ms with
  | [] => exact ⟨rfl, fun _ => rfl⟩
  | (k, j) :: rest =>
    rw [canonicalMembers, Bool.and_eq_true] at h
    obtain ⟨hHead, hHeadFits⟩ := canonical_reread h.1
    obtain ⟨hTail, hTailFits⟩ := canonical_rereadMembers h.2
    rw [rereadMembers, canonicalMembers, Bool.and_eq_true]
    refine ⟨⟨hHead, hTail⟩, fun n => ?_⟩
    rw [fitsMembers, fitsMembers, hHeadFits, hTailFits]

end

/-- Only `null` itself is read back as `null`. -/
theorem reread_ne_null {j : Json} (h : j.canonical = true) (hNull : j ≠ .null) :
    j.reread ≠ .null := by
  cases j with
  | null => exact absurd rfl hNull
  | unreadable => cases h
  | number x =>
    rw [canonical] at h
    obtain ⟨y, -, hReread⟩ := reread_plain h
    rw [reread, hReread]
    exact fun hEq => by cases hEq
  | bool | string | array | object =>
    rw [reread]
    exact fun hEq => by cases hEq

mutual

/-- A canonical value is its own normal form. -/
theorem normalize_eq {j : Json} (h : j.canonical = true) : j.normalize = j := by
  cases j with
  | null | bool | string | number => rw [normalize] <;> simp
  | unreadable => cases h
  | array items =>
    rw [canonical] at h
    rw [normalize, normalizeAll_eq h]
  | object members =>
    rw [canonical, Bool.and_eq_true, decide_eq_true_eq] at h
    rw [normalize, normalizeMembers_eq h.2, Dict.entries_ofList h.1]

/-- Canonical items are already normal. -/
theorem normalizeAll_eq {js : List Json} (h : canonicalAll js = true) : normalizeAll js = js := by
  match js with
  | [] => rfl
  | j :: rest =>
    rw [canonicalAll, Bool.and_eq_true] at h
    rw [normalizeAll, normalize_eq h.1, normalizeAll_eq h.2]

/-- Canonical members are already normal. -/
theorem normalizeMembers_eq {ms : List (String × Json)} (h : canonicalMembers ms = true) :
    normalizeMembers ms = ms := by
  match ms with
  | [] => rfl
  | (k, j) :: rest =>
    rw [canonicalMembers, Bool.and_eq_true] at h
    rw [normalizeMembers, normalize_eq h.1, normalizeMembers_eq h.2]

end

end Json

/-- Free-form data as it is read back. -/
def Document.reread (d : Document) : Document :=
  ⟨d.json.reread, (Json.canonical_reread d.canonical).1⟩

/-- Free-form data is decoded exactly where it does not nest too deep. -/
theorem document_reread (d : Document) (n : Nat) :
    Decoder.document n d.json.reread = if d.json.fits n then some d.reread else none := by
  obtain ⟨hCanonical, hFits⟩ := Json.canonical_reread d.canonical
  -- what is read back is its own normal form, so it is taken as it is
  have hDocument : Document.ofJson? d.json.reread = some d.reread := by
    rw [Document.ofJson?]
    simp only [Json.normalize_eq hCanonical, hCanonical, dite_true]
    rfl
  rw [Decoder.document, hFits, hDocument]

end Taskyard
