import Taskyard.Proofs.Text.Ends
import Taskyard.Proofs.Text.Pieces
import Taskyard.Query.Match

/-!
# Query — the extension of a node

A test for extensions looks at the last segment of the path, cuts it at its last point, and compares
what follows with the entries of a list. The three scans can be said without going through the
texts: by the segments of the path, by where the points are, and by what stands around an entry.

Main definitions and results:

* `Node.Ends` — a path ends in an extension; `Node.extension?_eq_some_iff` for what is found.
* `NodeTest.Wants` — a list has an extension among its entries; `NodeTest.mem_wantedExtensions` for
  what is compared.
* `NodeTest.ofExtension_accepts` — the nodes that the test accepts.
-/

namespace Taskyard

/-! ## The case of letters -/

namespace Text

/-- The code lowers ASCII letters only, as `Char.toLower` does. -/
theorem lowerChar_eq (c : Char) : lowerChar c = c.toLower := by
  by_cases hCapital : c.val ≥ 'A'.val ∧ c.val ≤ 'Z'.val
  · have hBounds : 65 ≤ c.toNat ∧ c.toNat ≤ 90 := hCapital
    have hLower : c.toLower = ⟨c.val + ('a'.val - 'A'.val), _⟩ := dif_pos hCapital
    -- the letter is far from the end of the range of its word
    have hSum : (c.val + ('a'.val - 'A'.val)).toNat = c.toNat + 32 := by
      rw [UInt32.toNat_add, show ('a'.val - 'A'.val).toNat = 32 from rfl, Char.toNat_val]
      exact Nat.mod_eq_of_lt (by omega)
    rw [lowerChar, if_pos (show 'A' ≤ c ∧ c ≤ 'Z' from hCapital), hLower, ← hSum]
    exact Char.ofNat_toNat ⟨c.val + ('a'.val - 'A'.val), _⟩
  · have hLower : c.toLower = c := dif_neg hCapital
    rw [lowerChar, if_neg (show ¬('A' ≤ c ∧ c ≤ 'Z') from hCapital), hLower]

/-- Equality up to case is equality of the lowered texts. -/
theorem equalFoldAscii_iff {s t : String} :
    equalFoldAscii s t = true ↔ s.toList.map Char.toLower = t.toList.map Char.toLower := by
  rw [equalFoldAscii, beq_iff_eq, funext lowerChar_eq]

end Text

/-! ## Extensions of nodes -/

namespace Node

/-- A path ends in an extension: in the last segment, slashes at the end of the path aside, the
extension follows the last point, and something precedes that point. -/
def Ends (path extension : List Char) : Prop :=
  ∃ stem, ((path.rdropWhile (· = '/')).splitOn '/').getLast? = some (stem ++ '.' :: extension) ∧
    stem ≠ [] ∧ '.' ∉ extension

/-- The extension of a name is what follows its last dot, unless the name starts with that dot. -/
theorem extensionOf_eq_some_iff {name extension : List Char} : extensionOf name = some extension ↔
    ∃ stem, name = stem ++ '.' :: extension ∧ stem ≠ [] ∧ '.' ∉ extension := by
  constructor
  · intro hFound
    rw [extensionOf] at hFound
    split at hFound
    · cases hFound
    · cases hFound
    -- the name is broken at its last point, which is the first one from its end
    · next e c stem hBroken =>
      obtain rfl := Option.some.inj hFound
      obtain ⟨hName, hNone⟩ := Text.breakOnce_eq_some_iff.mp hBroken
      refine ⟨(c :: stem).reverse, ?_, by simp, by simpa using hNone⟩
      rw [List.reverse_eq_iff.mp hName]
      simp
  · rintro ⟨stem, rfl, hStem, hNone⟩
    have hBroken : Text.breakOnce '.' (stem ++ '.' :: extension).reverse =
        some (extension.reverse, stem.reverse) := by
      rw [List.reverse_append, List.reverse_cons, List.append_assoc, List.singleton_append]
      exact Text.breakOnce_append (by simpa using hNone) _
    rw [extensionOf, hBroken]
    -- a name that starts with its only point has no extension
    cases hReverse : stem.reverse with
    | nil => exact absurd (List.reverse_eq_nil_iff.mp hReverse) hStem
    | cons c rest => exact congrArg some (List.reverse_reverse extension)

theorem getLast?_segments (path : List Char) :
    ((path.rdropWhile (· = '/')).splitOn '/').getLast? = some (lastSegment path) :=
  Text.getLast?_splitOn '/' (trimSlashes path)

/-- **The extension of a node** is the one that its path ends in. -/
theorem extension?_eq_some_iff {n : Node} {e : String} :
    n.extension? = some e ↔ Ends n.path.toList e.toList := by
  rw [Ends, getLast?_segments, extension?, Option.map_eq_some_iff]
  constructor
  · rintro ⟨extension, hFound, rfl⟩
    rw [String.toList_ofList]
    obtain ⟨stem, hName, hParts⟩ := extensionOf_eq_some_iff.mp hFound
    exact ⟨stem, congrArg some hName, hParts⟩
  · rintro ⟨stem, hName, hParts⟩
    exact ⟨e.toList, extensionOf_eq_some_iff.mpr ⟨stem, Option.some.inj hName, hParts⟩,
      String.ofList_toList⟩

end Node

/-! ## Entries of a list -/

namespace NodeTest

/-- An entry of a list is an extension with points before it, one, none or many, and with blanks
around both. -/
def Entry (list extension : List Char) : Prop :=
  ∃ entry ∈ list.splitOn ',', ∃ points,
    Text.Trimmed entry (List.replicate points '.' ++ extension) ∧
      extension.head? ≠ some '.' ∧ extension ≠ []

/-- A list has an extension among its entries, whatever the case of the letters. -/
def Wants (list extension : List Char) : Prop :=
  ∃ wanted, Entry list wanted ∧ wanted.map Char.toLower = extension.map Char.toLower

/-- The wanted extensions are the trimmed entries of the list, less the empty ones. -/
theorem mem_wantedExtensions {list e : String} :
    e ∈ wantedExtensions list ↔ Entry list.toList e.toList := by
  rw [wantedExtensions, List.mem_filterMap, Text.splitChar, Text.pieces_eq_splitOn]
  constructor
  · rintro ⟨s, hEntry, hBare⟩
    obtain ⟨entry, hMem, rfl⟩ := List.mem_map.mp hEntry
    dsimp only at hBare
    split at hBare
    · cases hBare
    -- what is left of an entry has no blanks around it and no points in front
    · next hSome =>
      obtain rfl := Option.some.inj hBare
      rw [Text.trim, String.toList_ofList, String.toList_ofList] at hSome ⊢
      obtain ⟨points, hPoints⟩ :=
        Text.exists_leading '.' (Text.dropBlanksEnd (entry.dropWhile Text.isBlank))
      rw [String.toList_ofList]
      exact ⟨entry, hMem, points, hPoints ▸ Text.trimmed_iff.mpr rfl,
        Text.head?_dropWhile_ne '.' _, by simpa using hSome⟩
  · rintro ⟨entry, hMem, points, hTrimmed, hHead, hSome⟩
    refine ⟨String.ofList entry, List.mem_map_of_mem hMem, ?_⟩
    rw [Text.trim, String.toList_ofList, String.toList_ofList, Text.trimmed_iff.mp hTrimmed,
      Text.dropWhile_replicate_append points hHead, if_neg (by simpa using hSome),
      String.ofList_toList]

/-- A node's extension is wanted exactly if an entry of the list is, up to case, the one it ends
in. -/
theorem extensionIn_iff {list : String} {n : Node} : extensionIn list n = true ↔
    ∃ extension, Node.Ends n.path.toList extension ∧ Wants list.toList extension := by
  constructor
  · intro hIn
    rw [extensionIn] at hIn
    split at hIn
    · cases hIn
    · next e hFound =>
      obtain ⟨wanted, hWanted, hSame⟩ := List.any_eq_true.mp hIn
      exact ⟨e.toList, Node.extension?_eq_some_iff.mp hFound, wanted.toList,
        mem_wantedExtensions.mp hWanted, Text.equalFoldAscii_iff.mp hSame⟩
  · rintro ⟨extension, hEnds, wanted, hWanted, hSame⟩
    have hFound : n.extension? = some (String.ofList extension) :=
      Node.extension?_eq_some_iff.mpr (by rwa [String.toList_ofList])
    rw [extensionIn, hFound]
    refine List.any_eq_true.mpr ⟨String.ofList wanted, mem_wantedExtensions.mpr ?_, ?_⟩
    · rwa [String.toList_ofList]
    · rwa [Text.equalFoldAscii_iff, String.toList_ofList, String.toList_ofList]

/-- **A test for extensions** accepts a node if its path ends in an extension that the list has, and
only then; but if the list is empty, it accepts every node. -/
theorem ofExtension_accepts (list : String) (n : Node) :
    (ofExtension list).accepts n = true ↔ list = "" ∨
      ∃ extension, Node.Ends n.path.toList extension ∧ Wants list.toList extension := by
  rw [← extensionIn_iff]
  simp [accepts, ofExtension, inRange]

end NodeTest

end Taskyard
