import Taskyard.Proofs.Catalog.Readable

/-!
# Wire — decoding undoes encoding

What is encoded and decoded again is what it was, up to the floats of free-form data and up to a
schedule that is `null`: the one is read by a rule that does not always find the nearest value, and
the other stands for no schedule. Without the two, jobs and messages come back equal, exactly as
long as their encoding does not nest too deep.

Main definitions and results:

* `Decoder.ofText?` — what a text decodes to.
* `Json.floatless`, `Document.Lasting` — free-form data that comes back as it is.
* `decode_encode` — jobs without tasks and messages come back equal, also when they came from a
  text themselves, and a saved job that was read back is saved as the same row again.
* `timer_schedule_lost` — a message whose timer has a schedule of the other kind does not.
-/

namespace Taskyard

/-- What a text decodes to. -/
def Decoder.ofText? {α : Type} (d : Decoder α) (text : String) : Option α :=
  (Json.parse? text).bind (d Json.maxDepth)

/-- What is read back from a document is read back from its text, if that is not too deep. -/
theorem Decoder.ReadsAt.ofText?_compact {α : Type} {d : Decoder α} {j : Json} {a : α}
    (h : d.ReadsAt Json.maxDepth j a) :
    d.ofText? j.compact = if j.fits Json.maxDepth then some a else none := by
  rw [ofText?, Json.parse?_compact, Option.bind_some]
  exact h

/-! ## Free-form data -/

namespace Json

mutual

/-- Whether there are no floats in a value. -/
def floatless : Json → Bool
  | .number (.double _) | .number (.single _) => false
  | .array items => floatlessAll items
  | .object members => floatlessMembers members
  | _ => true

/-- Whether there are no floats in the items of a list. -/
def floatlessAll : List Json → Bool
  | [] => true
  | j :: rest => floatless j && floatlessAll rest

/-- Whether there are no floats in the members of an object. -/
def floatlessMembers : List (String × Json) → Bool
  | [] => true
  | (_, j) :: rest => floatless j && floatlessMembers rest

end

mutual

/-- A document without floats is kept by its text. -/
theorem reread_eq_self {j : Json} (hCanonical : j.canonical = true) (h : j.floatless = true) :
    j.reread = j := by
  -- only floats change on the way, so the recursion does nothing but go through the value
  cases j with
  | null | bool | string => rw [reread]
  | unreadable => cases hCanonical
  | number x =>
    cases x with
    | natural n => rw [reread, reread_natural]
    | negSucc n => rw [reread, reread_negSucc]
    | double | single => cases h
  | array items =>
    rw [canonical] at hCanonical
    rw [floatless] at h
    rw [reread, rereadAll_eq_self hCanonical h]
  | object members =>
    rw [canonical, Bool.and_eq_true] at hCanonical
    rw [floatless] at h
    rw [reread, rereadMembers_eq_self hCanonical.2 h]

theorem rereadAll_eq_self {js : List Json} (hCanonical : canonicalAll js = true)
    (h : floatlessAll js = true) : rereadAll js = js := by
  match js with
  | [] => rfl
  | j :: rest =>
    rw [canonicalAll, Bool.and_eq_true] at hCanonical
    rw [floatlessAll, Bool.and_eq_true] at h
    rw [rereadAll, reread_eq_self hCanonical.1 h.1, rereadAll_eq_self hCanonical.2 h.2]

theorem rereadMembers_eq_self {ms : List (String × Json)} (hCanonical : canonicalMembers ms = true)
    (h : floatlessMembers ms = true) : rereadMembers ms = ms := by
  match ms with
  | [] => rfl
  | (k, j) :: rest =>
    rw [canonicalMembers, Bool.and_eq_true] at hCanonical
    rw [floatlessMembers, Bool.and_eq_true] at h
    rw [rereadMembers, reread_eq_self hCanonical.1 h.1, rereadMembers_eq_self hCanonical.2 h.2]

end

end Json

/-- Free-form data that is not `null` and has no floats. -/
def Document.Lasting (x : Document) : Prop := x.json ≠ .null ∧ x.json.floatless = true

instance (x : Document) : Decidable x.Lasting :=
  match x with
  | ⟨.null, _⟩ => isFalse fun h => h.1 rfl
  | ⟨.bool _, _⟩ | ⟨.number _, _⟩ | ⟨.string _, _⟩ | ⟨.array _, _⟩ | ⟨.object _, _⟩
  | ⟨.unreadable, _⟩ => decidable_of_iff _ (and_iff_right Json.noConfusion).symm

/-- A lasting schedule is kept by its text. -/
theorem Document.reread?_of_lasting {x : Document} (h : x.Lasting) : x.reread? = some x := by
  obtain ⟨hNull, hFloatless⟩ := h
  have hSame : x.reread = x := by
    obtain ⟨j, hCanonical⟩ := x
    have hJson : j.reread = j := Json.reread_eq_self hCanonical hFloatless
    simp only [Document.reread, hJson]
  unfold Document.reread?
  split
  · next hEq => exact absurd hEq hNull
  · rw [hSame]

theorem bind_reread?_of_lasting {s : Option Document} (h : ∀ x, s = some x → x.Lasting) :
    s.bind Document.reread? = s := by
  cases s with
  | none => rfl
  | some x => exact Document.reread?_of_lasting (h x rfl)

/-! ## Jobs and messages -/

/-- A job whose schedule, if it has one, comes back as it is. -/
def Job.Lasting (j : Job) : Prop := ∀ x, j.schedule = some x → x.Lasting

/-- A message whose timer, if it was started by one, has no schedule or one that comes back as it
is. Changes of nodes are not restricted. -/
def Message.Lasting (m : Message) : Prop :=
  ∀ t x, m.event = some (.timer t) → t.schedule = some x → x.Lasting

theorem Job.reread_eq_self {j : Job} (h : j.Lasting) : j.reread = j := by
  rw [Job.reread, bind_reread?_of_lasting h]

theorem Job.withoutTasks_eq_self {j : Job} (h : j.tasks = []) : j.withoutTasks = j := by
  obtain ⟨⟩ := j
  subst h
  rfl

/-- A lasting message is kept by its text. -/
theorem Message.reread_eq_self {m : Message} (h : m.Lasting) : m.reread = m := by
  -- everything but the event is read back as it is anyway
  have hEvent : m.event.map Event.reread = m.event := by
    cases hEvent : m.event with
    | none => rfl
    | some e =>
      cases e with
      | nodeChange c => rfl
      | timer t =>
        have hSchedule : t.schedule.bind Document.reread? = t.schedule :=
          bind_reread?_of_lasting fun x hx => h t x hEvent hx
        simp only [Option.map_some, Event.reread, JobTrigger.reread, hSchedule]
  rw [Message.reread, hEvent]

/-- The text of a lasting job reads back as that job, if it is not too deep. -/
theorem Job.ofText?_compact {j : Job} (hTasks : j.tasks = []) (h : j.Lasting) :
    Job.ofJson.ofText? j.toJson.compact =
      if j.toJson.fits Json.maxDepth then some j else none := by
  have hRead := (Decoder.ReadsAt.job (n := Json.maxDepth) j).ofText?_compact
  rw [Job.withoutTasks_eq_self hTasks, Job.reread_eq_self h] at hRead
  exact hRead

/-- The text of a lasting message reads back as that message, if it is not too deep. -/
theorem Message.ofText?_compact {m : Message} (h : m.Lasting) :
    Message.ofJson.ofText? m.toJson.compact =
      if m.toJson.fits Json.maxDepth then some m else none := by
  have hRead := (Decoder.ReadsAt.message (n := Json.maxDepth) m).ofText?_compact
  rw [Message.reread_eq_self h] at hRead
  exact hRead

/-- The row of a job is read as the job, and the job that was read has that row. -/
theorem Job.read_row_of_lasting {j : Job} (hTasks : j.tasks = []) (h : j.Lasting)
    (hFits : j.toJson.fits Json.maxDepth = true) : j.row.read = .ok j := by
  have hStorable : j.Storable := by
    rw [Job.Storable, Job.withoutTasks_eq_self hTasks]
    exact hFits
  rw [Job.read_row, if_pos hStorable, Job.withoutTasks_eq_self hTasks, Job.reread_eq_self h]

/-- **Decoding undoes encoding.** A job without tasks whose schedule is not `null` and has no
floats, and a message whose timer has no other schedule, are decoded from their encoding as what
they were, exactly if the encoding does not nest too deep. So it is for those that were decoded from
any text in the first place; a catalog that has the row of such a job gives the job back, and saving
it again leaves the catalog as it is. -/
theorem decode_encode :
    (∀ j : Job, j.tasks = [] → j.Lasting →
      (Job.ofJson.ofText? j.toJson.compact = some j ↔ j.toJson.fits Json.maxDepth = true)) ∧
    (∀ m : Message, m.Lasting →
      (Message.ofJson.ofText? m.toJson.compact = some m ↔ m.toJson.fits Json.maxDepth = true)) ∧
    (∀ text j, Job.ofJson.ofText? text = some j → j.tasks = [] → j.Lasting →
      j.toJson.fits Json.maxDepth = true → Job.ofJson.ofText? j.toJson.compact = some j ∧
        ∀ c : Catalog, c.jobs.get? j.id = some j.row → c.findJob j.id = .ok j ∧ c.putJob j = c) ∧
    (∀ text m, Message.ofJson.ofText? text = some m → m.Lasting →
      m.toJson.fits Json.maxDepth = true → Message.ofJson.ofText? m.toJson.compact = some m) := by
  -- what is decoded is lasting, so the last two parts are cases of the first two
  refine ⟨fun j hTasks h => ?_, fun m h => ?_,
    fun text j _ hTasks h hFits => ⟨?_, fun c hRow => ⟨?_, ?_⟩⟩, fun text m _ h hFits => ?_⟩
  · rw [Job.ofText?_compact hTasks h]
    simp
  · rw [Message.ofText?_compact h]
    simp
  · rw [Job.ofText?_compact hTasks h, if_pos hFits]
  · rw [Catalog.findJob, hRow]
    exact Job.read_row_of_lasting hTasks h hFits
  · have hJobs : c.jobs.insert j.id j.row = c.jobs := by
      refine Dict.ext_get? fun id => ?_
      rw [Dict.get?_insert]
      split
      · next hId => rw [← hId, hRow]
      · rfl
    rw [Catalog.putJob, hJobs]
  · rw [Message.ofText?_compact h, if_pos hFits]

/-! ## A job and a message that come back -/

/-- A job with a schedule, a chained action and a filter with a group in it. -/
def nestedJob : Job where
  id := "j"
  eventNames := ["NODE_CHANGE:0"]
  schedule := some ⟨.object [("every", .string "1h"), ("times", .number (.natural 3))], by decide⟩
  actions := [{
    id := "a"
    nodesFilter := some {
      clauses := [.test true { extension := "jpg" }, .group false .any [.test false { minSize := 9 }]]
      operation := .all }
    chained := [{ id := "b", usersSelector := some { literals := ["u"], collect := true } }] }]

/-- A message of a change that has passed an action. -/
def changedMessage : Message where
  event := some (.nodeChange { kind := .updateContent, target := some { path := "/a/b.jpg" } })
  nodes := [{ path := "/a/b.jpg", kind := .leaf, size := 12 }]
  outputs := [{ success := true, text := "done", time := 7 }]

theorem decode_encode_nestedJob :
    (nestedJob.tasks = [] ∧ nestedJob.Lasting ∧ nestedJob.toJson.fits Json.maxDepth = true ∧
      Job.ofJson.ofText? nestedJob.toJson.compact = some nestedJob ∧
      (Catalog.empty.putJob nestedJob).findJob "j" = .ok nestedJob ∧
      (Catalog.empty.putJob nestedJob).putJob nestedJob = Catalog.empty.putJob nestedJob) ∧
    changedMessage.Lasting ∧ changedMessage.toJson.fits Json.maxDepth = true ∧
    Message.ofJson.ofText? changedMessage.toJson.compact = some changedMessage := by
  obtain ⟨hJob, hMessage, hSaved, hRead⟩ := decode_encode
  have hLasting : nestedJob.Lasting := by
    intro x hx
    obtain rfl := Option.some.inj hx
    decide
  have hJobFits : nestedJob.toJson.fits Json.maxDepth = true := by decide +kernel
  have hChange : changedMessage.Lasting := by
    intro t x hEvent _
    exact absurd hEvent (by simp [changedMessage])
  have hMessageFits : changedMessage.toJson.fits Json.maxDepth = true := by decide +kernel
  have hText := (hJob nestedJob rfl hLasting).mpr hJobFits
  -- the text of the job is itself a text that decodes to it, so it can be saved again
  obtain ⟨-, hCatalog⟩ := hSaved nestedJob.toJson.compact nestedJob hText rfl hLasting hJobFits
  obtain ⟨hFound, hSame⟩ := hCatalog (Catalog.empty.putJob nestedJob) rfl
  have hMessageText := (hMessage changedMessage hChange).mpr hMessageFits
  exact ⟨⟨rfl, hLasting, hJobFits, hText, hFound, hSame⟩, hChange, hMessageFits,
    hRead changedMessage.toJson.compact changedMessage hMessageText hChange hMessageFits⟩

/-! ## Timers whose schedule changes -/

/-- A message that was started by a timer with the schedule `null`. -/
def nullTimer : Message where
  event := some (.timer { jobId := "j", schedule := some ⟨.null, rfl⟩ })

/-- A text of a message that was started by a timer, with a float as the schedule. -/
def tinyTimer : String :=
  "\x7b\"event\":\x7b\"timer\":\x7b\"job_id\":\"j\",\"schedule\":100e-27\x7d\x7d\x7d"

/-- The schedule of the timer of a message, if it is a float. -/
def Message.floatSchedule? (m : Message) : Option Decimal.Double :=
  match m.event with
  | some (.timer { schedule := some ⟨.number (.double x), _⟩, .. }) => some x
  | _ => none

/-- The first message comes back without a schedule. The second text gives the double value nearest
to `1e-25`, which is written with these digits; but they are read as the value below it. -/
theorem timer_schedule_lost :
    (nullTimer.toJson.fits Json.maxDepth = true ∧
      Message.ofJson.ofText? nullTimer.toJson.compact ≠ some nullTimer) ∧
    ∃ m, Message.ofJson.ofText? tinyTimer = some m ∧ m.toJson.fits Json.maxDepth = true ∧
      Message.ofJson.ofText? m.toJson.compact ≠ some m := by
  have hNull : Message.ofJson.ofText? nullTimer.toJson.compact = some nullTimer.reread :=
    (Decoder.ReadsAt.message (n := Json.maxDepth) nullTimer).ofText?_compact.trans
      (if_pos (by decide +kernel))
  -- the double is computed: it is written and read once more
  have hTiny : (Message.ofJson.ofText? tinyTimer).any (fun m => m.toJson.fits Json.maxDepth &&
      decide ((Message.ofJson.ofText? m.toJson.compact).bind Message.floatSchedule? ≠
        m.floatSchedule?)) = true := by decide +kernel
  refine ⟨⟨by decide +kernel, fun hSame => ?_⟩, ?_⟩
  · have hEvent := congrArg Message.event (Option.some.inj (hNull.symm.trans hSame))
    cases hEvent
  · cases hText : Message.ofJson.ofText? tinyTimer with
    | none =>
      rw [hText] at hTiny
      cases hTiny
    | some m =>
      rw [hText, Option.any_some] at hTiny
      obtain ⟨hFits, hOther⟩ := Bool.and_eq_true_iff.mp hTiny
      refine ⟨m, rfl, hFits, fun hSame => of_decide_eq_true hOther ?_⟩
      rw [hSame]
      rfl

end Taskyard
