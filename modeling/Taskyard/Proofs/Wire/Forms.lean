import Taskyard.Proofs.Wire.Decoding
import Taskyard.Wire.Job

/-!
# Wire — every form is read back

The decoder of every type gives the value of a form back, exactly where the form does not nest too
deep. Three things are not what they were: the floats of free-form data, a schedule that is `null`,
which is none, and the progress of a task.

Main definitions and results:

* `Event.reread`, `Message.reread`, `Task.reread`, `Job.reread` — the values that are read back.
* `Decoder.ReadsAt.message`, `Decoder.ReadsAt.action`, … — the decoders, type by type.
* `Decoder.ReadsAt.job` — jobs without tasks.
* `Task.ofJson_reread` — tasks, of which the progress has to be finite.
-/

namespace Taskyard

open Wire Record

/-! ## Values that are read back -/

/-- Free-form data that is read back where `null` is the absence of data. -/
def Document.reread? (x : Document) : Option Document :=
  match x.json with
  | .null => none
  | _ => some x.reread

/-- The trigger that is read back. -/
def JobTrigger.reread (t : JobTrigger) : JobTrigger :=
  { t with schedule := t.schedule.bind Document.reread? }

/-- The event that is read back. -/
def Event.reread : Event → Event
  | .nodeChange c => .nodeChange c
  | .timer t => .timer t.reread

/-- The message that is read back. -/
def Message.reread (m : Message) : Message := { m with event := m.event.map Event.reread }

/-- The log that is read back. -/
def ActionLog.reread (l : ActionLog) : ActionLog :=
  { l with input := l.input.reread, output := l.output.reread }

/-- The task that is read back. Its progress is rounded once when it is written and once when it is
read. -/
def Task.reread (t : Task) : Task :=
  { t with
    progress := (Decoder.single 0 (Json.ofSingle t.progress).reread).getD t.progress
    logs := t.logs.map ActionLog.reread }

/-- The job that is read back. -/
def Job.reread (j : Job) : Job := { j with schedule := j.schedule.bind Document.reread? }

namespace Decoder.ReadsAt

variable {n : Nat}

/-! ## Nodes and users -/

theorem variant (heldBack : Bool) (s : String) :
    Decoder.ReadsAt (Wire.variant heldBack) n (.string s) s := rfl

/-- Kinds of nodes are read back from either form. -/
theorem nodeKind (heldBack : Bool) (k : NodeKind) :
    (NodeKind.ofJson heldBack).ReadsAt n k.toJson k := by
  refine mapOption (variant heldBack k.wireName) ?_
  cases k <;> decide

theorem node (x : Node) : Node.ofJson.ReadsAt n x.toJson x := by
  refine reads_object (by decide) (by decide) fun m hm => ?_
  simp only [List.append_assoc]
  refine .member (by decide) (.text _) ?_
  refine .required (by decide) (.text _) ?_
  refine .member (by decide) (.nodeKind _ _) ?_
  refine .member (by decide) (.int64 _) ?_
  refine .member (by decide) (.int64 _) ?_
  refine .member (by decide) (.text _) ?_
  exact .dictMember (by decide) .done

theorem user (u : User) : User.ofJson.ReadsAt n u.toJson u := by
  refine reads_object (by decide) (by decide) fun m hm => ?_
  simp only [List.append_assoc]
  refine .member (by decide) (.text _) ?_
  refine .required (by decide) (.text _) ?_
  refine .member (by decide) (.text _) ?_
  refine .member (by decide) (.text _) ?_
  refine .member (by decide) (.texts _) ?_
  exact .dictMember (by decide) .done

/-! ## Events and messages -/

/-- A small code is read back, if it is one. -/
theorem code {α : Type} {m : Nat} {f : Int → Option α} {a : α} (hm : m ≤ 255) (hf : f m = some a) :
    (Decoder.int32.mapOption f).ReadsAt n (.ofNat m) a := by
  refine mapOption (a := (m : Int)) (ofNat ?_ ?_ ?_) hf
  · show m < 18446744073709551616
    omega
  · show (-2147483648 : Int) ≤ m
    omega
  · show (m : Int) ≤ 2147483647
    omega

theorem changeKind (k : ChangeKind) : ChangeKind.ofJson.ReadsAt n k.toJson k := by
  have hCode : k.code ≤ 255 := by cases k <;> decide
  exact code hCode k.ofCode?_code

/-- An object is never read back as `null`. -/
theorem object_ne_null (ms : List (String × Json)) : (Json.object ms).reread ≠ .null := by
  rw [Json.reread]
  exact fun h => by cases h

/-- Changes of nodes are read back as they were. -/
theorem nodeChange (c : NodeChange) : NodeChange.ofJson.ReadsAt n c.toJson c := by
  refine reads_object (by decide) (by decide) fun m hm => ?_
  simp only [List.append_assoc]
  refine .required (by decide) (.changeKind _) ?_
  refine .optionalMember (by decide) (fun x _ => .node x) (fun x => object_ne_null _)
    Option.map_id' ?_
  refine .optionalMember (by decide) (fun x _ => .node x) (fun x => object_ne_null _)
    Option.map_id' ?_
  exact .dictMember (by decide) .done

/-- Free-form data that may be absent. -/
theorem schedule (x : Document) :
    (Decoder.optional Decoder.document).ReadsAt n x.json x.reread? := by
  obtain ⟨j, hCanonical⟩ := x
  by_cases hNull : j = .null
  · subst hNull
    rfl
  · have hSome : Document.reread? ⟨j, hCanonical⟩ = some (Document.reread ⟨j, hCanonical⟩) := by
      rw [Document.reread?]
      split
      · next h => exact absurd h hNull
      · rfl
    rw [hSome]
    refine (document ⟨j, hCanonical⟩).optional ?_
    exact Json.reread_ne_null hCanonical hNull

/-- Triggers are read back with their schedule as its text rounds it. -/
theorem trigger (t : JobTrigger) : JobTrigger.ofJson.ReadsAt n t.toJson t.reread := by
  refine reads_object (by decide) (by decide) fun m hm => ?_
  simp only [List.append_assoc]
  refine .required (by decide) (.text _) ?_
  refine .member (by decide) (.truth _) ?_
  refine .memberOf (a := t.schedule.bind Document.reread?) (by decide) (fun x hx => ?_)
    (fun hNone => ?_) .done
  · rw [hx]
    exact schedule x
  · rw [hNone]
    rfl

/-- An event is one level around its content. -/
theorem event (e : Event) : Event.ofJson.ReadsAt n e.toJson e.reread := by
  cases n with
  | zero => cases e <;> rfl
  | succ n =>
    -- the content stands one level deeper, behind the name of the variant
    cases e with
    | nodeChange c =>
      have hContent := (nodeChange c (n := n)).map Event.nodeChange
      show (NodeChange.ofJson n c.toJson.reread).map Event.nodeChange =
        if (c.toJson.fits n && true) then _ else _
      rw [Bool.and_true]
      exact hContent
    | timer t =>
      have hContent := (trigger t (n := n)).map Event.timer
      show (JobTrigger.ofJson n t.toJson.reread).map Event.timer =
        if (t.toJson.fits n && true) then _ else _
      rw [Bool.and_true]
      exact hContent

theorem output (o : Output) : Output.ofJson.ReadsAt n o.toJson o := by
  refine reads_object (by decide) (by decide) fun m hm => ?_
  simp only [List.append_assoc]
  refine .required (by decide) (.truth _) ?_
  refine .member (by decide) (.truth _) ?_
  refine .textMember (by decide) ?_
  refine .listMember (by decide) (fun _ _ b _ => .byte b) (List.map_id' _) ?_
  refine .textMember (by decide) ?_
  exact .member (by decide) (.int64 _) .done

/-- Messages are read back with their event as its text rounds it. -/
theorem message (m : Message) : Message.ofJson.ReadsAt n m.toJson m.reread := by
  have hEvent : ∀ e : Event, e.toJson.reread ≠ .null := by
    intro e
    cases e <;> exact object_ne_null _
  refine reads_object (by decide) (by decide) fun m hm => ?_
  simp only [List.append_assoc]
  refine .optionalMember (by decide) (fun e _ => .event e) hEvent rfl ?_
  refine .member (by decide) (.list (fun _ _ x _ => .node x) (List.map_id' _)) ?_
  refine .member (by decide) (.list (fun _ _ u _ => .user u) (List.map_id' _)) ?_
  exact .member (by decide) (.list (fun _ _ o _ => .output o) (List.map_id' _)) .done

/-! ## Tests -/

/-- Tests of nodes are read back, one case for each. -/
theorem nodeTest (t : NodeTest) : NodeTest.ofJson.ReadsAt n t.toJson t := by
  have hKind : ∀ k : NodeKind, k.toJson.reread ≠ .null := by
    intro k
    rw [NodeKind.toJson, Json.reread]
    exact fun h => by cases h
  -- field by field, in the order of the form
  refine reads_object (by decide) (by decide) fun m hm => ?_
  simp only [List.append_assoc]
  refine .listMember (by decide) (fun _ _ s _ => .text s) (List.map_id _) ?_
  refine .listMember (by decide) (fun _ _ s _ => .text s) (List.map_id _) ?_
  refine .textMember (by decide) ?_
  refine .textMember (by decide) ?_
  refine .member (by decide) (.int64 _) ?_
  refine .member (by decide) (.int64 _) ?_
  refine .member (by decide) (.int64 _) ?_
  refine .member (by decide) (.int64 _) ?_
  exact .optionalMember (by decide) (fun k _ => .nodeKind true k) hKind Option.map_id' .done

/-- Tests of users are read back, one case for each. -/
theorem userTest (t : UserTest) : UserTest.ofJson.ReadsAt n t.toJson t := by
  refine reads_object (by decide) (by decide) fun m hm => ?_
  simp only [List.append_assoc]
  refine .textMember (by decide) ?_
  refine .textMember (by decide) ?_
  refine .textMember (by decide) ?_
  exact .listMember (by decide) (fun _ _ s _ => .text s) (List.map_id _) .done

/-- Tests of sources are read back, one case for each. -/
theorem sourceTest (t : SourceTest) : SourceTest.ofJson.ReadsAt n t.toJson t := by
  have hBool : ∀ b : Bool, (Json.bool b).reread ≠ .null := by
    intro b h
    cases h
  refine reads_object (by decide) (by decide) fun m hm => ?_
  simp only [List.append_assoc]
  refine .textMember (by decide) ?_
  refine .textMember (by decide) ?_
  refine .textMember (by decide) ?_
  refine .textMember (by decide) ?_
  refine .optionalMember (by decide) (fun b _ => .truth b) hBool Option.map_id' ?_
  exact .textMember (by decide) .done

/-! ## Queries -/

section Queries

variable {α : Type} {d : Decoder α} {f : α → Json}

theorem operation (heldBack : Bool) (o : Operation) :
    (Operation.ofJson heldBack).ReadsAt n (.string o.wireName) o := by
  refine mapOption (variant heldBack o.wireName) ?_
  cases o <;> decide

/-- A query is read back if its clauses are, two levels further down. -/
theorem queryOfJson {clause : Decoder (Clause α)} (heldBack : Bool) (o : Operation)
    (cs : List (Clause α)) (h : ∀ m, m + 2 = n → ∀ c ∈ cs, clause.ReadsAt m (c.toJson f) c) :
    (Clause.queryOfJson clause heldBack).ReadsAt n
      (.object (member "sub_queries" (.array (cs.map (Clause.toJson f))) ++
        member "operation" (.string o.wireName))) ⟨cs, o⟩ := by
  refine reads_object (by decide) (by decide) fun m hm => ?_
  simp only [List.append_assoc]
  refine .member (by decide) (.list (fun k hk c hc => h k (by omega) c hc) (List.map_id' _)) ?_
  exact .member (by decide) (.operation heldBack o) .done

theorem allToJson_eq_map (cs : List (Clause α)) :
    Clause.allToJson f cs = cs.map (Clause.toJson f) := by
  induction cs with
  | nil => rfl
  | cons c cs ih => rw [Clause.allToJson, ih, List.map_cons]

/-- The flag of a clause and its content are told apart where the content fits. -/
theorem split?_pair (m : Nat) (negated : Bool) {name : String} (hName : name ≠ "not") (j : Json) :
    Clause.split? m [("not", .bool negated), (name, j)] =
      if j.fits m then some (negated, [(name, j)]) else none := by
  simp [Clause.split?, hName]

/-- A clause with a test is read through that test. -/
theorem ofJsonWithin_match (levels m : Nat) (negated : Bool) (j : Json) :
    Clause.ofJsonWithin d (levels + 1) (m + 1) (.object [("not", .bool negated), ("match", j)]) =
      if j.fits m then (d m j).map (Clause.test negated) else none := by
  have hName : "match" ≠ "not" := by decide
  simp only [Clause.ofJsonWithin, split?_pair m negated hName j]
  split <;> rfl

/-- A clause with a group is read through the group's query, one level less to go. -/
theorem ofJsonWithin_group (levels m : Nat) (negated : Bool) (j : Json) :
    Clause.ofJsonWithin d (levels + 1) (m + 1) (.object [("not", .bool negated), ("group", j)]) =
      if j.fits m then
        (Clause.queryOfJson (Clause.ofJsonWithin d levels) true m j).map fun q =>
          Clause.group negated q.operation q.clauses
      else none := by
  have hName : "group" ≠ "not" := by decide
  simp only [Clause.ofJsonWithin, split?_pair m negated hName j]
  split <;> rfl

/-- Holding the content back first asks for nothing more than reading it does. -/
theorem heldBack {β γ : Type} {d : Decoder β} {j : Json} {b : β} (h : d.ReadsAt n j b) (g : β → γ) :
    (if j.reread.fits n then (d n j.reread).map g else none) =
      if j.fits n then some (g b) else none := by
  rw [h]
  cases hFits : j.fits n with
  | false => split <;> rfl
  | true => rw [if_pos (Json.fits_reread hFits)]; rfl

/-- Clauses nest no deeper than the levels that are left, for each stands two levels below the
group it is in. -/
theorem clause (h : ∀ n p, d.ReadsAt n (f p) p) {levels : Nat} (hLevels : n ≤ levels)
    (c : Clause α) : (Clause.ofJsonWithin d levels).ReadsAt n (c.toJson f) c := by
  -- a group takes one of the levels, and more than one of the depth, so the levels last
  induction levels generalizing n c with
  | zero =>
    obtain rfl : n = 0 := by omega
    cases c <;> rw [Clause.toJson] <;> rfl
  | succ levels ih =>
    cases n with
    | zero => cases c <;> rw [Clause.toJson] <;> rfl
    | succ n =>
      cases c with
      | test negated p =>
        rw [Clause.toJson]
        show Clause.ofJsonWithin d (levels + 1) (n + 1)
            (.object [("not", .bool negated), ("match", (f p).reread)]) =
          if (true && ((f p).fits n && true)) then _ else _
        rw [ofJsonWithin_match, heldBack (h n p), Bool.and_true, Bool.true_and]
      | group negated o cs =>
        have hQuery := queryOfJson (n := n) true o cs
          fun m hm c _ => ih (n := m) (by omega) c
        rw [Clause.toJson, allToJson_eq_map]
        show Clause.ofJsonWithin d (levels + 1) (n + 1)
            (.object [("not", .bool negated), ("group", Json.reread (.object
              (member "sub_queries" (.array (cs.map (Clause.toJson f))) ++
                member "operation" (.string o.wireName))))]) =
          if (true && (Json.fits n (.object
              (member "sub_queries" (.array (cs.map (Clause.toJson f))) ++
                member "operation" (.string o.wireName))) && true)) then _ else _
        rw [ofJsonWithin_group, heldBack hQuery, Bool.and_true, Bool.true_and]

/-- Queries are read back, by induction on their depth. -/
theorem query (h : ∀ n p, d.ReadsAt n (f p) p) (q : Query α) :
    (Query.ofJson d).ReadsAt n (q.toJson f) q := by
  rw [Query.toJson, allToJson_eq_map]
  exact queryOfJson false q.operation q.clauses fun m hm c _ => clause h (by omega) c

theorem filter (h : ∀ n p, d.ReadsAt n (f p) p) (q : Query α) :
    (filterOfJson d).ReadsAt n (filterToJson f q) q := by
  have hField : Decoder.ReadsAt (fun depth j => Record.open? ["query"] depth j >>= fun r =>
      r.field "query" (Query.ofJson d) {} >>= some) n
      (.object (member "query" (q.toJson f))) q :=
    reads_object (by decide) (by decide) fun m _ => .member (by decide) (.query h q) .done
  simp only [Option.bind_eq_bind, Option.bind_fun_some] at hField
  exact hField

/-- Selectors are read back, when no two of their names or aliases clash. -/
theorem selector (h : ∀ n p, d.ReadsAt n (f p) p) {l : Label}
    (hNodup : (["all", l.name, "query", "multiple_selection"] : List String).Nodup)
    (hAliases : ∀ l' ∈ (["all", l, "query", "multiple_selection"] : List Label),
      ∀ a ∈ l'.aliases, a ∉ (["all", l.name, "query", "multiple_selection"] : List String))
    (s : Selector α) : (Selector.ofJson l d).ReadsAt n (s.toJson l.name f) s := by
  have hTail := List.nodup_cons.mp hNodup
  refine reads_object hNodup hAliases fun m hm => ?_
  simp only [List.append_assoc]
  refine .member hTail.1 (.truth _) ?_
  refine .listMember (List.nodup_cons.mp hTail.2).1 (fun _ _ s _ => .text s) (List.map_id _) ?_
  refine .member (by decide) (.query h _) ?_
  exact .member (by decide) (.truth _) .done

end Queries

theorem nodesSelector (s : Selector NodeTest) :
    nodesSelectorOfJson.ReadsAt n (nodesSelectorToJson s) s :=
  selector (l := ⟨"paths", ["pathes"]⟩) (fun _ t => .nodeTest t) (by decide) (by decide) s

theorem usersSelector (s : Selector UserTest) :
    usersSelectorOfJson.ReadsAt n (usersSelectorToJson s) s :=
  selector (l := "users") (fun _ t => .userTest t) (by decide) (by decide) s

/-! ## Actions -/

/-- Chained actions stand two levels below the action that they follow. -/
theorem actionWithin {levels : Nat} (hLevels : n ≤ levels) (a : Action) :
    (Action.ofJsonWithin levels).ReadsAt n a.toJson a := by
  -- a chained action takes one of the levels, and two of the depth, so the levels last
  induction levels generalizing n a with
  | zero =>
    obtain rfl : n = 0 := by omega
    cases a
    rw [Action.toJson]
    rfl
  | succ levels ih =>
    cases a
    rw [Action.toJson, Action.allToJson_eq_map]
    refine reads_object (by decide) (by decide) fun m hm => ?_
    simp only [List.append_assoc]
    refine .required (by decide) (.text _) ?_
    refine .textMember (by decide) ?_
    refine .dictMember (by decide) ?_
    refine .optionalMember (by decide) (fun s _ => .nodesSelector s)
      (fun s => object_ne_null _) Option.map_id' ?_
    refine .optionalMember (by decide) (fun s _ => .usersSelector s)
      (fun s => object_ne_null _) Option.map_id' ?_
    refine .optionalMember (by decide) (fun q _ => .filter (fun _ t => .nodeTest t) q)
      (fun q => object_ne_null _) Option.map_id' ?_
    refine .optionalMember (by decide) (fun q _ => .filter (fun _ t => .userTest t) q)
      (fun q => object_ne_null _) Option.map_id' ?_
    refine .optionalMember (by decide) (fun q _ => .filter (fun _ t => .sourceTest t) q)
      (fun q => object_ne_null _) Option.map_id' ?_
    exact .listMember (by decide) (fun k hk b _ => ih (n := k) (by omega) b) (List.map_id' _) .done

theorem action (a : Action) : Action.ofJson.ReadsAt n a.toJson a := actionWithin (le_refl n) a

theorem actions (as : List Action) :
    (Decoder.list Action.ofJson).ReadsAt n (.array (Action.allToJson as)) as := by
  rw [Action.allToJson_eq_map]
  exact list (fun _ _ a _ => .action a) (List.map_id' _)

/-! ## Jobs -/

/-- Jobs are read back without their tasks, and with the schedule as its text rounds it. -/
theorem job (j : Job) :
    Job.ofJson.ReadsAt n j.withoutTasks.toJson j.withoutTasks.reread := by
  refine reads_object (by decide) (by decide) fun m hm => ?_
  simp only [List.append_assoc]
  refine .required (by decide) (.text _) ?_
  refine .member (by decide) (.text _) ?_
  refine .member (by decide) (.text _) ?_
  refine .member (by decide) (.truth _) ?_
  refine .member (by decide) (.truth _) ?_
  refine .member (by decide) (.truth _) ?_
  refine .member (by decide) (.truth _) ?_
  refine .member (by decide) (.uint32 _) ?_
  refine .member (by decide) (.texts _) ?_
  refine .memberOf (a := j.schedule.bind Document.reread?) (by decide) (fun x hx => ?_)
    (fun hNone => ?_) ?_
  -- a schedule that is null is written, and read as none
  · rw [show j.schedule = some x from hx]
    exact schedule x
  · rw [show j.schedule = none from hNone]
    rfl
  refine .member (by decide) (.actions _) ?_
  exact .memberWhen (by decide) (fun hTasks => by cases hTasks) (fun _ => rfl) .done

/-! ## Tasks -/

theorem taskStatus (s : TaskStatus) : TaskStatus.ofJson.ReadsAt n s.toJson s := by
  have hCode : s.code ≤ 255 := by cases s <;> decide
  exact code hCode s.ofCode?_code

/-- Logs of actions are read back with the events as their texts round them. -/
theorem actionLog (l : ActionLog) : ActionLog.ofJson.ReadsAt n l.toJson l.reread := by
  refine reads_object (by decide) (by decide) fun m hm => ?_
  simp only [List.append_assoc]
  refine .required (by decide) (.action _) ?_
  refine .required (by decide) (.message _) ?_
  exact .required (by decide) (.message _) .done

end Decoder.ReadsAt

/-- A finite progress is read as some progress, any other as none at all. -/
theorem single_reread (x : Decimal.Single) (n : Nat) :
    Decoder.single n (Json.ofSingle x).reread =
      if x.isFinite then some ((Decoder.single 0 (Json.ofSingle x).reread).getD x) else none := by
  rw [Json.ofSingle]
  split
  · next hFinite =>
    obtain ⟨y, -, hReread, -⟩ := Json.reread_single hFinite
    rw [Json.reread, hReread]
    rfl
  · rfl

/-- A number of 32 bits is read back exactly if it is within bounds. -/
theorem int32_of_toInt {x : Number} {i : Int} (hx : x.reread = .number x)
    (hInt : x.toInt? = some i) (n : Nat) :
    Decoder.int32 n (Json.number x).reread =
      if -2147483648 ≤ i ∧ i ≤ 2147483647 then some i else none := by
  have hMin : Int32.minValue.toInt = -2147483648 := by decide
  have hMax : Int32.maxValue.toInt = 2147483647 := by decide
  rw [Json.reread, hx]
  show x.toInt?.filter _ = _
  rw [hInt, hMin, hMax, Option.filter]
  simp only [Bool.and_eq_true, decide_eq_true_eq]

/-- A number is read as one of 32 bits exactly if it fits. -/
theorem int32_reread (i : Int) (n : Nat) :
    Decoder.int32 n (Json.ofInt i).reread =
      if -2147483648 ≤ i ∧ i ≤ 2147483647 then some i else none := by
  have hMin : Int64.minValue.toInt = -9223372036854775808 := by decide
  have hSize : (UInt64.size : Int) = 18446744073709551616 := rfl
  rw [Json.ofInt, Number.ofInt?, hMin, hSize]
  -- beyond 64 bits there is no number to write, and 32 bits are fewer
  by_cases hSign : i < 0
  · rw [if_pos hSign]
    by_cases hLow : -9223372036854775808 ≤ i
    · rw [if_pos hLow]
      exact int32_of_toInt (Json.reread_negSucc _) (Number.toInt?_negSucc hSign hLow) n
    · rw [if_neg hLow, if_neg (by omega)]
      rfl
  · rw [if_neg hSign]
    by_cases hHigh : i < 18446744073709551616
    · rw [if_pos hHigh]
      exact int32_of_toInt (Json.reread_natural _) (Number.toInt?_natural hSign hHigh) n
    · rw [if_neg hHigh, if_neg (by omega)]
      rfl

namespace Task

/-- Whether the numbers of a task have a spelling that is read back: the progress is finite and the
number of pending actions fits 32 bits. -/
def Legible (t : Task) : Prop :=
  t.progress.isFinite = true ∧ -2147483648 ≤ t.pending ∧ t.pending ≤ 2147483647

instance (t : Task) : Decidable t.Legible :=
  inferInstanceAs (Decidable (_ ∧ _ ∧ _))

/-- A task is read back if its progress and its logs are. -/
theorem readsAt_of_legible {t : Task} (h : t.Legible) (n : Nat) :
    Task.ofJson.ReadsAt n t.toJson t.reread := by
  obtain ⟨hFinite, hPending⟩ := h
  -- only the progress and the number of references may fail to be read back
  have hProgress : ∀ m, Decoder.single.ReadsAt m (.ofSingle t.progress) t.reread.progress := by
    intro m
    have hFits : (Json.ofSingle t.progress).fits m = true := by
      rw [Json.ofSingle, if_pos hFinite]
      rfl
    rw [Decoder.ReadsAt, hFits, single_reread, if_pos hFinite]
    rfl
  have hCount : ∀ m, Decoder.int32.ReadsAt m (.ofInt t.pending) t.pending := by
    intro m
    have hRead := int32_reread t.pending m
    rw [if_pos hPending] at hRead
    have hFits : (Json.ofInt t.pending).fits m = true := by
      rw [Json.ofInt] at hRead ⊢
      split
      · rfl
      · next hNone =>
        rw [hNone] at hRead
        cases hRead
    rw [Decoder.ReadsAt, hFits]
    exact hRead
  refine reads_object (by decide) (by decide) fun m hm => ?_
  simp only [List.append_assoc]
  refine .required (by decide) (.text _) ?_
  refine .required (by decide) (.text _) ?_
  refine .required (by decide) (.taskStatus _) ?_
  refine .member (by decide) (.text _) ?_
  refine .member (by decide) (hProgress m) ?_
  refine .member (by decide) (.int64 _) ?_
  refine .member (by decide) (.int64 _) ?_
  refine .member (by decide) (.truth _) ?_
  refine .member (by decide) (.truth _) ?_
  refine .member (by decide) (.truth _) ?_
  refine .member (by decide) (.list (fun _ _ l _ => .actionLog l) rfl) ?_
  exact .member (by decide) (hCount m) .done

/-- A task of which one of the numbers is not read is not read at all. -/
theorem ofJson_eq_none {t : Task} (h : ¬t.Legible) (n : Nat) :
    Task.ofJson n t.toJson.reread = none := by
  cases n with
  | zero => rfl
  | succ n =>
    have hOpen : Record.open? ["id", "job_id", "status", "status_message", "progress",
        "start_time", "end_time", "can_stop", "can_pause", "has_progress", "action_logs", "rc"]
        (n + 1) t.toJson.reread = some ⟨n, Json.rereadMembers
          [("id", .string t.id), ("job_id", .string t.jobId), ("status", t.status.toJson),
           ("status_message", .string t.statusMessage), ("progress", .ofSingle t.progress),
           ("start_time", .ofInt64 t.startTime), ("end_time", .ofInt64 t.endTime),
           ("can_stop", .bool t.canStop), ("can_pause", .bool t.canPause),
           ("has_progress", .bool t.hasProgress),
           ("action_logs", .array (t.logs.map ActionLog.toJson)), ("rc", .ofInt t.pending)]⟩ :=
      Record.open?_object (List.Sublist.refl _) (by decide) (by decide) n
    unfold Task.ofJson
    rw [Option.bind_eq_bind, Option.bind_eq_none_iff]
    intro r hr
    have hSlots := Option.some.inj (hr.symm.trans hOpen)
    -- Whatever the other fields give, the one that is not read gives nothing.
    by_cases hFinite : t.progress.isFinite = true
    · have hCount : r.field "rc" Decoder.int32 0 = none := by
        rw [hSlots]
        show Decoder.int32 n (Json.ofInt t.pending).reread = none
        rw [int32_reread, if_neg fun hPending => h ⟨hFinite, hPending⟩]
      simp [hCount]
    · have hProgress : r.field "progress" Decoder.single (Decimal.Binary.zero .single) = none := by
        rw [hSlots]
        show Decoder.single n (Json.ofSingle t.progress).reread = none
        rw [single_reread, if_neg hFinite]
      simp [hProgress]

/-- A task is read back exactly if its numbers are legible and its form does not nest too deep. -/
theorem ofJson_reread (t : Task) (n : Nat) :
    Task.ofJson n t.toJson.reread =
      if t.Legible ∧ t.toJson.fits n = true then some t.reread else none := by
  by_cases h : t.Legible
  · simp only [h, true_and]
    exact readsAt_of_legible h n
  · simp only [h, false_and, if_false]
    exact ofJson_eq_none h n

end Task

end Taskyard
