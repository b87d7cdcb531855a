import Taskyard.Proofs.Json.Canonical
import Taskyard.Wire.Event

/-!
# Wire — decoders against forms

A decoder that belongs to a form gives the value back exactly where the form does not nest too deep.
This is stated for one depth and one value at a time, so that it can be put together along a record:
each field is decoded exactly where its own form fits, and a record where all of its fields do.

Main definitions and results:

* `Decoder.ReadsAt` — a decoder reads a form, at a depth, as a value.
* `ReadsAt.list`, `ReadsAt.textDict`, … — values of the library's own types.
* `Record.Reads` — what is left of a record's form, against the rest of its decoding, with one lemma
  for every way in which a field is written.
* `Record.reads_object` — records.
-/

namespace Taskyard

open Wire

/-- At a depth `n`, a decoder reads what is written as `j` as the value `a`, exactly if it fits. -/
def Decoder.ReadsAt {α : Type} (d : Decoder α) (n : Nat) (j : Json) (a : α) : Prop :=
  d n j.reread = if j.fits n then some a else none

namespace Number

/-- A negative integer that fits 64 bits is one less than the opposite of what is written. -/
theorem toInt?_negSucc {i : Int} (hNegative : i < 0) (hLow : -9223372036854775808 ≤ i) :
    (negSucc (BitVec.ofNat 63 (-i - 1).toNat)).toInt? = some i := by
  rw [toInt?, BitVec.toNat_ofNat, Nat.mod_eq_of_lt (by omega)]
  congr 1
  omega

/-- Any other integer that fits 64 bits is what is written. -/
theorem toInt?_natural {i : Int} (hSign : ¬i < 0) (hHigh : i < 18446744073709551616) :
    (natural (UInt64.ofNat i.toNat)).toInt? = some i := by
  have hSize : i.toNat < UInt64.size := by
    show i.toNat < 18446744073709551616
    omega
  rw [toInt?, UInt64.toNat_ofNat_of_lt' hSize]
  congr 1
  omega

end Number

namespace Decoder.ReadsAt

variable {α β : Type} {d : Decoder α} {n : Nat}

/-! ## Scalars -/

theorem text (s : String) : Decoder.text.ReadsAt n (.string s) s := rfl

theorem truth (b : Bool) : Decoder.truth.ReadsAt n (.bool b) b := rfl

/-- A whole number within bounds is read back. -/
theorem intBetween {lo hi i : Int} {x : Number} (hx : x.reread = .number x)
    (hInt : x.toInt? = some i) (hLo : lo ≤ i) (hHi : i ≤ hi) :
    (Decoder.intBetween lo hi).ReadsAt n (.number x) i := by
  show Decoder.intBetween lo hi n (Json.number x).reread = some i
  rw [Json.reread, hx]
  show x.toInt?.filter _ = _
  rw [hInt]
  simp [Option.filter, hLo, hHi]

/-- What is read back may be mapped. -/
theorem map {j : Json} {a : α} (h : d.ReadsAt n j a) (f : α → β) :
    Decoder.ReadsAt (fun n j => (d n j).map f) n j (f a) := by
  show (d n j.reread).map f = _
  rw [h]
  split <;> rfl

/-- What is read back may be mapped by a partial function that is defined there. -/
theorem mapOption {j : Json} {a : α} {b : β} (h : d.ReadsAt n j a) {f : α → Option β}
    (hf : f a = some b) : (d.mapOption f).ReadsAt n j b := by
  show (d n j.reread).bind f = _
  rw [h]
  split
  · exact hf
  · rfl

/-- A natural number is written as it is, as far as it fits 64 bits. -/
theorem ofNat {m : Nat} {lo hi : Int} (hm : m < UInt64.size) (hLo : lo ≤ m) (hHi : m ≤ hi) :
    (Decoder.intBetween lo hi).ReadsAt n (.ofNat m) m := by
  refine intBetween (Json.reread_natural _) ?_ hLo hHi
  rw [Number.toInt?, UInt64.toNat_ofNat_of_lt' hm]

/-- Numbers of 64 bits are read back. -/
theorem int64 (i : Int64) : Decoder.int64.ReadsAt n (.ofInt64 i) i := by
  have hLo : Int64.minValue.toInt ≤ i.toInt := i.minValue_le_toInt
  have hHi : i.toInt ≤ Int64.maxValue.toInt := Int64.toInt_le i
  have hMin : Int64.minValue.toInt = -9223372036854775808 := by decide
  have hMax : Int64.maxValue.toInt = 9223372036854775807 := by decide
  rw [hMin] at hLo
  rw [hMax] at hHi
  have hRead : (Decoder.intBetween Int64.minValue.toInt Int64.maxValue.toInt).ReadsAt n
      (.ofInt64 i) i.toInt := by
    rw [hMin, hMax, Json.ofInt64]
    split
    -- the sign decides which of the two kinds of number is written
    · next hNegative =>
      exact intBetween (Json.reread_negSucc _) (Number.toInt?_negSucc hNegative hLo) hLo hHi
    · next hSign =>
      exact intBetween (Json.reread_natural _) (Number.toInt?_natural hSign (by omega)) hLo hHi
  have hMap := hRead.map Int64.ofInt
  rwa [Int64.ofInt_toInt] at hMap

theorem uint32 (u : UInt32) : Decoder.uint32.ReadsAt n (.ofNat u.toNat) u := by
  have hBound : u.toNat < 4294967296 := u.toNat_lt_size
  have hRead : (Decoder.intBetween 0 (UInt32.size - 1)).ReadsAt n (.ofNat u.toNat) u.toNat := by
    refine ofNat ?_ (by omega) ?_
    · show u.toNat < 18446744073709551616
      omega
    · show (u.toNat : Int) ≤ 4294967295
      omega
  have hMap := hRead.map fun i => UInt32.ofNat i.toNat
  rwa [Int.toNat_natCast, UInt32.ofNat_toNat] at hMap

theorem byte (b : UInt8) : Decoder.byte.ReadsAt n (.ofNat b.toNat) b := by
  have hBound : b.toNat < 256 := b.toNat_lt_size
  have hRead : (Decoder.intBetween 0 255).ReadsAt n (.ofNat b.toNat) b.toNat := by
    refine ofNat ?_ (by omega) (by omega)
    show b.toNat < 18446744073709551616
    omega
  have hMap := hRead.map fun i => UInt8.ofNat i.toNat
  rwa [Int.toNat_natCast, UInt8.ofNat_toNat] at hMap

/-- Documents are read back as their texts round them. -/
theorem document (x : Document) : Decoder.document.ReadsAt n x.json x.reread :=
  document_reread x n

/-! ## Lists and dictionaries -/

/-- Elements that are read back are read back in a list, as deep as they fit. -/
theorem mapM_reads {f : α → Json} {g : α → α} {as : List α}
    (h : ∀ a ∈ as, d.ReadsAt n (f a) (g a)) :
    (Json.rereadAll (as.map f)).mapM (d n) =
      if Json.fitsAll n (as.map f) then some (as.map g) else none := by
  induction as with
  | nil => rfl
  | cons a as ih =>
    have hHead := h a (by simp)
    have hTail := ih fun x hx => h x (List.mem_cons_of_mem _ hx)
    rw [List.map_cons, Json.rereadAll, List.mapM_cons, hHead, hTail, Json.fitsAll]
    cases (f a).fits n
    · rfl
    · cases Json.fitsAll n (as.map f) <;> rfl

/-- A list is read where each of its items is, one level further in. -/
theorem list {f : α → Json} {g : α → α} {as bs : List α}
    (h : ∀ m, n = m + 1 → ∀ a ∈ as, d.ReadsAt m (f a) (g a)) (hMap : as.map g = bs) :
    (Decoder.list d).ReadsAt n (.array (as.map f)) bs := by
  subst hMap
  cases n with
  | zero => rfl
  | succ n =>
    show (Json.rereadAll (as.map f)).mapM (d n) = _
    rw [mapM_reads (h n rfl), Json.fits]
    rfl

theorem texts (l : List String) : (Decoder.list Decoder.text).ReadsAt n (Wire.texts l) l :=
  list (fun _ _ s _ => text s) (List.map_id l)

/-- Dictionaries of texts are read back, in the order of their keys. -/
theorem textDict (x : Dict String) :
    (Decoder.dict Decoder.text).ReadsAt n (Wire.textDict x) x := by
  cases n with
  | zero => rfl
  | succ n =>
    -- every text fits at one level, and is read as itself, so the entries are too
    have hFits : ∀ l : List (String × String),
        Json.fitsMembers n (l.map fun e => (e.1, Json.string e.2)) = true := by
      intro l
      induction l with
      | nil => rfl
      | cons e l ih =>
        rw [List.map_cons, Json.fitsMembers, ih]
        rfl
    have hRead : ∀ l : List (String × String),
        (Json.rereadMembers (l.map fun e => (e.1, Json.string e.2))).mapM
          (fun m => (Decoder.text n m.2).map fun v => (m.1, v)) = some l := by
      intro l
      induction l with
      | nil => rfl
      | cons e l ih =>
        rw [List.map_cons, Json.rereadMembers, List.mapM_cons, ih]
        rfl
    show ((Json.rereadMembers (x.entries.map fun e => (e.1, Json.string e.2))).mapM
      (fun m => (Decoder.text n m.2).map fun v => (m.1, v))).map Dict.ofList = _
    have hText : (Wire.textDict x).fits (n + 1) = true := hFits x.entries
    rw [hRead, Option.map_some, Dict.ofList_entries, if_pos hText]

/-- A value that may be absent is read where it is given, unless it is written as `null`. -/
theorem optional {j : Json} {a : α} (h : d.ReadsAt n j a) (hNull : j.reread ≠ .null) :
    (Decoder.optional d).ReadsAt n j (some a) := by
  have hSome : Decoder.optional d n j.reread = (d n j.reread).map some := by
    rw [Decoder.optional]
    exact hNull
  show Decoder.optional d n j.reread = _
  rw [hSome, h]
  split <;> rfl

end Decoder.ReadsAt

/-! ## Records -/

namespace Record

variable {α : Type}

theorem filter_absent {ms : List (String × Json)} {name : String}
    (h : name ∉ ms.map (·.1)) : ms.filter (fun m => m.1 == name) = [] := by
  rw [List.filter_eq_nil_iff]
  intro m hm hEq
  have hName : m.1 = name := by simpa using hEq
  exact h (List.mem_map.mpr ⟨m, hm, hName⟩)

/-- The induction is on the labels that are still to come; in front of the members that belong to
them stand those of earlier labels. -/
theorem ofMembers?_append {labels : List Label} (before : List (String × Json))
    {ms : List (String × Json)}
    (hNames : (ms.map (·.1)).Sublist (labels.map Label.name))
    (hNodup : (labels.map Label.name).Nodup)
    (hBefore : ∀ l ∈ labels, l.name ∉ before.map (·.1))
    (hNamed : ∀ l ∈ labels, (before ++ ms).filter (fun m => l.isNamed m.1) =
      (before ++ ms).filter (fun m => m.1 == l.name)) :
    ofMembers? (before ++ ms) labels = some ms := by
  induction labels generalizing before ms with
  | nil =>
    have hNil : ms = [] := by simpa using hNames
    rw [hNil]
    rfl
  | cons l labels ih =>
    obtain ⟨hFresh, hRest⟩ := List.nodup_cons.mp hNodup
    have hAbsent := filter_absent (hBefore l (by simp))
    rw [ofMembers?, hNamed l (by simp), List.filter_append, hAbsent, List.nil_append]
    -- the member of the first label was left out, or it comes first
    rcases List.sublist_cons_iff.mp hNames with hSkipped | ⟨names, hCons, hTail⟩
    · have hNone : l.name ∉ ms.map (·.1) := fun h => hFresh (hSkipped.subset h)
      rw [filter_absent hNone]
      exact ih before hSkipped hRest (fun l' hl' => hBefore l' (List.mem_cons_of_mem _ hl'))
        fun l' hl' => hNamed l' (List.mem_cons_of_mem _ hl')
    · obtain ⟨⟨k, j⟩, ms, rfl, hName, rfl⟩ := List.map_eq_cons_iff.mp hCons
      dsimp only at hName
      subst hName
      have hNone : l.name ∉ ms.map (·.1) := fun h => hFresh (hTail.subset h)
      have hOne : ((l.name, j) :: ms).filter (fun m => m.1 == l.name) = [(l.name, j)] := by
        rw [List.filter_cons, if_pos (by simp), filter_absent hNone]
      have hShift : before ++ (l.name, j) :: ms = (before ++ [(l.name, j)]) ++ ms := by simp
      rw [hOne]
      dsimp only
      rw [hShift, ih _ hTail hRest ?_ fun l' hl' => ?_]
      · rfl
      · intro l' hl'
        have hOther : l'.name ≠ l.name := by
          intro h
          exact hFresh (h ▸ List.mem_map_of_mem hl')
        have hOld := hBefore l' (List.mem_cons_of_mem _ hl')
        simp only [List.map_append, List.map_cons, List.map_nil, List.mem_append,
          List.mem_singleton, not_or]
        exact ⟨hOld, hOther⟩
      · rw [← hShift]
        exact hNamed l' (List.mem_cons_of_mem _ hl')

/-- A record that was written in the order of its labels, some of them left out, is read as it was
written. -/
theorem ofMembers?_eq {labels : List Label} {ms : List (String × Json)}
    (hNames : (ms.map (·.1)).Sublist (labels.map Label.name))
    (hNodup : (labels.map Label.name).Nodup)
    (hAliases : ∀ l ∈ labels, ∀ a ∈ l.aliases, a ∉ labels.map Label.name) :
    ofMembers? ms labels = some ms := by
  refine ofMembers?_append [] hNames hNodup (fun _ _ h => by cases h) fun l hl => ?_
  -- No name is an alias, so only the name itself is found.
  refine List.filter_congr fun m hm => ?_
  have hName : m.1 ∈ labels.map Label.name := hNames.subset (List.mem_map_of_mem hm)
  have hAlias : m.1 ∉ l.aliases := fun h => hAliases l hl m.1 h hName
  rw [Label.isNamed]
  simp [hAlias]

end Record

/-! ## Records in the order of their labels -/

namespace Wire

variable {α β : Type}

theorem memberWhen_eq (c : Bool) (k : String) (j : Json) :
    memberWhen c k j = memberOf k id (if c then some j else none) := by
  cases c <;> rfl

/-- A name that no member has is not found. -/
theorem lookup_eq_none {k : String} {ms : List (String × Json)} (h : k ∉ ms.map (·.1)) :
    Dict.lookup k (Json.rereadMembers ms) = none := by
  induction ms with
  | nil => rfl
  | cons m ms ih =>
    obtain ⟨k', j⟩ := m
    rw [List.map_cons, List.mem_cons, not_or] at h
    rw [Json.rereadMembers, Dict.lookup, if_neg (Ne.symm h.1)]
    exact ih h.2

end Wire

namespace Record

variable {α β γ : Type} {n : Nat}

/-- Under the names that are still to be read, a record holds what is left of its form. -/
def Holds (r : Record) (ms : List (String × Json)) (names : List String) : Prop :=
  ∀ k ∈ names, Dict.lookup k r.slots = Dict.lookup k (Json.rereadMembers ms)

/-- What is left of a form, with the names that are still to be read, and the rest of a decoding,
which gives a value exactly where what is left fits. -/
structure Reads (n : Nat) (names : List String) (ms : List (String × Json))
    (body : Record → Option β) (x : β) : Prop where
  /-- The members stand in the order of the names. -/
  ordered : (ms.map (·.1)).Sublist names
  /-- The value. -/
  value (r : Record) (hDepth : r.depth = n) (hHolds : r.Holds ms names) :
    body r = if Json.fitsMembers n ms then some x else none

namespace Reads

variable {k : String} {names : List String} {ms : List (String × Json)} {d : Decoder α} {x : β}
  {rest : α → Record → Option β}

/-- Nothing is left. -/
theorem done : Reads n names [] (fun _ => some x) x where
  ordered := List.nil_sublist _
  value _ _ _ := rfl

/-- A record without its first member is a record of the others. -/
theorem holds_rest {r : Record} {f : γ → Json} {o : Option γ}
    (h : r.Holds (memberOf k f o ++ ms) (k :: names)) (hFresh : k ∉ names) :
    r.Holds ms names := by
  intro k' hk'
  have hNe : k ≠ k' := by
    rintro rfl
    exact hFresh hk'
  rw [h k' (List.mem_cons_of_mem _ hk')]
  cases o with
  | none => rfl
  | some v =>
    show Dict.lookup k' ((k, (f v).reread) :: Json.rereadMembers ms) = _
    rw [Dict.lookup, if_neg hNe]

/-- A part that may be left out: where it is, the default has to be the value. -/
theorem memberOf {f : γ → Json} {o : Option γ} {a default : α} (hFresh : k ∉ names)
    (hReads : ∀ v, o = some v → d.ReadsAt n (f v) a) (hDefault : o = none → default = a)
    (hRest : Reads n names ms (rest a) x) :
    Reads n (k :: names) (memberOf k f o ++ ms)
      (fun r => r.field k d default >>= fun a => rest a r) x where
  ordered := by
    cases o
    · exact hRest.ordered.cons k
    · exact hRest.ordered.cons_cons k
  value r hDepth hHolds := by
    have hAfter := hRest.value r hDepth (holds_rest hHolds hFresh)
    have hLookup := hHolds k (by simp)
    -- left out, the field is absent and the default is read; else it is the form of the value
    cases o with
    | none =>
      have hAbsent : k ∉ ms.map (·.1) := fun h => hFresh (hRest.ordered.subset h)
      have hNone : Dict.lookup k r.slots = none := hLookup.trans (lookup_eq_none hAbsent)
      have hField : r.field k d default = some a := by
        rw [Record.field, hNone, hDefault rfl]
      show r.field k d default >>= _ = if Json.fitsMembers n ms then some x else none
      rw [hField]
      exact hAfter
    | some v =>
      have hGiven : Dict.lookup k r.slots = some (f v).reread := by
        rw [hLookup]
        show Dict.lookup k ((k, (f v).reread) :: Json.rereadMembers ms) = _
        rw [Dict.lookup, if_pos rfl]
      have hField : r.field k d default = if (f v).fits n then some a else none := by
        rw [Record.field, hGiven, hDepth]
        exact hReads v rfl
      show r.field k d default >>= _ =
        if ((f v).fits n && Json.fitsMembers n ms) then some x else none
      rw [hField]
      cases (f v).fits n
      · rfl
      · exact hAfter

/-- A member that is left out under its default is read back as that default. -/
theorem memberWhen {c : Bool} {j : Json} {a default : α} (hFresh : k ∉ names)
    (hReads : c = true → d.ReadsAt n j a) (hDefault : c = false → default = a)
    (hRest : Reads n names ms (rest a) x) :
    Reads n (k :: names) (memberWhen c k j ++ ms)
      (fun r => r.field k d default >>= fun a => rest a r) x := by
  rw [memberWhen_eq]
  refine memberOf hFresh (fun v hv => ?_) (fun hNone => ?_) hRest
  · cases c
    · cases hv
    · cases hv
      exact hReads rfl
  · cases c
    · exact hDefault rfl
    · cases hNone

/-- A member that is always there is read back. -/
theorem member {j : Json} {a default : α} (hFresh : k ∉ names) (hReads : d.ReadsAt n j a)
    (hRest : Reads n names ms (rest a) x) :
    Reads n (k :: names) (member k j ++ ms)
      (fun r => r.field k d default >>= fun a => rest a r) x :=
  memberWhen (c := true) hFresh (fun _ => hReads) (fun h => by cases h) hRest

/-- A field that has to be given has no default, so any value serves as one. -/
theorem required {j : Json} {a : α} (hFresh : k ∉ names) (hReads : d.ReadsAt n j a)
    (hRest : Reads n names ms (rest a) x) :
    Reads n (k :: names) (Wire.member k j ++ ms)
      (fun r => r.required k d >>= fun a => rest a r) x where
  ordered := hRest.ordered.cons_cons k
  value r hDepth hHolds := by
    have hField : r.required k d = r.field k d a := by
      have hLookup : Dict.lookup k r.slots = some j.reread := by
        rw [hHolds k (by simp)]
        show Dict.lookup k ((k, j.reread) :: Json.rereadMembers ms) = _
        rw [Dict.lookup, if_pos rfl]
      rw [Record.required, Record.field, hLookup]
      rfl
    rw [hField]
    exact (member hFresh hReads hRest).value r hDepth hHolds

/-- A member of text is read back, the empty one too, which is left out. -/
theorem textMember {s : String} {rest : String → Record → Option β} (hFresh : k ∉ names)
    (hRest : Reads n names ms (rest s) x) :
    Reads n (k :: names) (textMember k s ++ ms)
      (fun r => r.field k .text "" >>= fun a => rest a r) x := by
  refine memberWhen hFresh (fun _ => .text s) (fun hEmpty => ?_) hRest
  have hEq : s = "" := by simpa using hEmpty
  exact hEq.symm

/-- A member of texts by name is read back, the empty one too, which is left out. -/
theorem dictMember {y : Dict String} {rest : Dict String → Record → Option β}
    (hFresh : k ∉ names) (hRest : Reads n names ms (rest y) x) :
    Reads n (k :: names) (dictMember k y ++ ms)
      (fun r => r.field k (.dict .text) Dict.empty >>= fun a => rest a r) x := by
  refine memberWhen hFresh (fun _ => .textDict y) (fun hEmpty => ?_) hRest
  have hEntries : y.entries = [] := by simpa [Dict.isEmpty] using hEmpty
  exact (Dict.ext_entries hEntries).symm

/-- A list that is left out when it is empty. -/
theorem listMember {f : α → Json} {g : α → α} {as bs : List α}
    {rest : List α → Record → Option β} (hFresh : k ∉ names)
    (hReads : ∀ m, n = m + 1 → ∀ a ∈ as, d.ReadsAt m (f a) (g a)) (hMap : as.map g = bs)
    (hRest : Reads n names ms (rest bs) x) :
    Reads n (k :: names) (Wire.memberWhen (!as.isEmpty) k (.array (as.map f)) ++ ms)
      (fun r => r.field k (.list d) [] >>= fun a => rest a r) x := by
  refine memberWhen hFresh (fun _ => .list hReads hMap) (fun hEmpty => ?_) hRest
  have hNil : as = [] := by simpa using hEmpty
  rw [← hMap, hNil]
  rfl

/-- A value that is left out when there is none. -/
theorem optionalMember {f : α → Json} {g : α → α} {o o' : Option α}
    {rest : Option α → Record → Option β} (hFresh : k ∉ names)
    (hReads : ∀ a, o = some a → d.ReadsAt n (f a) (g a))
    (hNull : ∀ a, (f a).reread ≠ .null) (hMap : o.map g = o')
    (hRest : Reads n names ms (rest o') x) :
    Reads n (k :: names) (Wire.memberOf k f o ++ ms)
      (fun r => r.field k (.optional d) none >>= fun a => rest a r) x := by
  subst hMap
  refine memberOf hFresh (fun a hSome => ?_) (fun hNone => ?_) hRest
  · rw [hSome]
    exact (hReads a hSome).optional (hNull a)
  · rw [hNone]
    rfl

end Reads

/-- The fields of an object that was written in the order of the labels. -/
theorem open?_object {labels : List Label} {ms : List (String × Json)}
    (hNames : (ms.map (·.1)).Sublist (labels.map Label.name))
    (hNodup : (labels.map Label.name).Nodup)
    (hAliases : ∀ l ∈ labels, ∀ a ∈ l.aliases, a ∉ labels.map Label.name) (n : Nat) :
    open? labels (n + 1) (Json.object ms).reread = some ⟨n, Json.rereadMembers ms⟩ := by
  rw [← Json.names_rereadMembers] at hNames
  show (ofMembers? (Json.rereadMembers ms) labels).map _ = _
  rw [ofMembers?_eq hNames hNodup hAliases]
  rfl

/-- An object that was written in the order of the labels is read field by field. -/
theorem reads_object {labels : List Label} {ms : List (String × Json)}
    {body : Record → Option β} {x : β}
    (hNodup : (labels.map Label.name).Nodup)
    (hAliases : ∀ l ∈ labels, ∀ a ∈ l.aliases, a ∉ labels.map Label.name)
    (hReads : ∀ m, n = m + 1 → Reads m (labels.map Label.name) (ms ++ []) body x) :
    Decoder.ReadsAt (fun depth j => open? labels depth j >>= body) n (.object ms) x := by
  cases n with
  | zero => rfl
  | succ n =>
    have hBody := hReads n rfl
    rw [List.append_nil] at hBody
    show open? labels (n + 1) (Json.object ms).reread >>= body = _
    rw [open?_object hBody.ordered hNodup hAliases]
    exact hBody.value ⟨n, Json.rereadMembers ms⟩ rfl fun _ _ => rfl

end Record

end Taskyard
