import IdlFormat.Proofs.Clean
import IdlFormat.Proofs.JsonRoundTrip
import IdlFormat.Proofs.Logging
import IdlFormat.Proofs.Place
import IdlFormat.Proofs.Utf8

/-!
# Reading a log back

Whatever sinks write to a log is read back in the order in which it was written, behind what the log
held before (`read_perform`). A line of the log is a value on one line, so it is neither cut nor
joined with another one when the log is taken apart, and `parse_render` gives the value back.

What the log held before is what is read at its path once its directory is there. A path that goes
through a missing directory and back, such as `x/../log`, leads nowhere at first and to the log
behind it as soon as the directory is made, so for such a path the old events appear with the first
new one (`not_read_perform`). A path that only leads down is steady (`steady_of_down`).
-/

namespace IdlFormat

namespace Text

/-- Each line of the text is ended. -/
def Whole (text : Text) : Prop :=
  text = [] ∨ text.getLast? = some '\n'

theorem Whole.append {text : Text} (whole : Whole text) {more : Text} (ended : Whole more) :
    Whole (text ++ more) := by
  rcases ended with rfl | last
  · simpa using whole
  · exact .inr (by simp [List.getLast?_append, last])

theorem normalizeBreaks_cons {c : Char} {rest : Text}
    (single : c ≠ '\r' ∨ rest.head? ≠ some '\n') :
    normalizeBreaks (c :: rest) = (if c = '\r' then '\n' else c) :: normalizeBreaks rest := by
  apply normalizeBreaks.eq_3
  rintro tail rfl rfl
  simp at single

theorem normalizeBreaks_append {text : Text} (ends : text.getLast? ≠ some '\r') (more : Text) :
    normalizeBreaks (text ++ more) = normalizeBreaks text ++ normalizeBreaks more := by
  fun_induction normalizeBreaks text with
  | case1 => rfl
  | case2 rest ih =>
      have inner : rest.getLast? ≠ some '\r' := by
        cases rest with
        | nil => simp
        | cons c rest => simpa using ends
      rw [List.cons_append, List.cons_append, normalizeBreaks, ih inner, List.cons_append]
  | case3 c rest single ih =>
      cases rest with
      | nil =>
          have other : c ≠ '\r' := by simpa using ends
          rw [List.singleton_append, normalizeBreaks_cons (.inl other)]
          rfl
      | cons d rest =>
          have apart : c ≠ '\r' ∨ (d :: rest ++ more).head? ≠ some '\n' := by
            by_contra both
            simp only [not_or, not_not, List.cons_append, List.head?_cons, Option.some.injEq] at both
            exact single rest both.1 (by rw [both.2])
          rw [List.cons_append, normalizeBreaks_cons apart, ih (by simpa using ends),
            List.cons_append]

theorem getLast?_normalizeBreaks {text : Text} (ends : text.getLast? = some '\n') :
    text.normalizeBreaks.getLast? = some '\n' := by
  fun_induction normalizeBreaks text with
  | case1 => simp at ends
  | case2 rest ih =>
      cases rest with
      | nil => rfl
      | cons c rest => rw [List.getLast?_cons, ih (by simpa using ends), Option.getD_some]
  | case3 c rest single ih =>
      cases rest with
      | nil =>
          obtain rfl : c = '\n' := by simpa using ends
          rfl
      | cons d rest => rw [List.getLast?_cons, ih (by simpa using ends), Option.getD_some]

end Text

namespace Log

open FileTree

/-! ## Lines -/

/-- The events on the lines of a text. -/
def events (text : Text) : Except Fault (List Json) :=
  ofLines (Text.splitOn '\n' text.normalizeBreaks)

theorem ofLines_append {more : List Text} {found : List Json} (read : ofLines more = .ok found)
    (lines : List Text) : ofLines (lines ++ more) = (ofLines lines).map (· ++ found) := by
  induction lines with
  | nil => rw [List.nil_append, read]; rfl
  | cons line lines ih =>
      rw [List.cons_append, ofLines, ofLines, ih]
      split
      · cases ofLines lines <;> rfl
      · rfl
      · rfl
      · rfl

theorem events_append {before rest : Text} {found : List Json} (whole : before.Whole)
    (noReturn : '\r' ∉ rest) (read : events rest = .ok found) :
    events (before ++ rest) = (events before).map (· ++ found) := by
  rw [events, Text.normalizeBreaks_eq_self noReturn] at read
  rcases whole with rfl | last
  · rw [events, List.nil_append, Text.normalizeBreaks_eq_self noReturn, read]
    rfl
  · rcases List.getLast?_eq_some_iff.1 (Text.getLast?_normalizeBreaks last) with ⟨ended, shape⟩
    have blank : ofLines [[]] = .ok [] := rfl
    rw [events, events, Text.normalizeBreaks_append (by simp [last]),
      Text.normalizeBreaks_eq_self noReturn, shape, List.append_assoc, List.singleton_append,
      Text.splitOn_append, Text.splitOn_append, ofLines_append read, Text.splitOn,
      ofLines_append blank]
    cases ofLines (Text.splitOn '\n' ended) <;> simp [Except.map]

theorem trim_render_object (fields : List (Text × Json)) :
    (Json.render (.object fields)).trim = Json.render (.object fields) := by
  have shape : Json.render (.object fields) =
      '\x7b' :: Text.join [',', ' '] (Json.writeFields .unicode .line fields) ++ ['\x7d'] :=
    Json.bracketed_line _ _ _
  have start (text : Text) : Text.trimStart ('\x7b' :: text) = '\x7b' :: text := rfl
  rw [shape, Text.trim, List.cons_append, start, ← List.cons_append, Text.trimEnd_append]
  · rfl
  · decide

theorem not_mem_render {json : Json} (legible : json.Legible) {c : Char} (control : c.toNat < 0x20) :
    c ∉ json.render := by
  intro member
  have inline := List.all_eq_true.1 (Json.all_isInline_render legible) c member
  simp only [Json.isInline, decide_eq_true_eq] at inline
  omega

theorem events_render {fields : List (Text × Json)} (legible : Json.Legible (.object fields))
    (written : Json.refusal? 0 (.object fields) = none) :
    events (Json.render (.object fields) ++ ['\n']) = .ok [.object fields] := by
  have noReturn : '\r' ∉ Json.render (.object fields) ++ ['\n'] := by
    simp [not_mem_render legible (show '\r'.toNat < 0x20 by decide)]
  have noBreak : '\n' ∉ Json.render (.object fields) := not_mem_render legible (by decide)
  rw [events, Text.normalizeBreaks_eq_self noReturn, Text.splitOn_append,
    Text.splitOn_of_not_mem noBreak, List.singleton_append, ofLines, trim_render_object,
    Json.parse_render legible written]
  rfl

/-! ## Calls -/

/-- Something that a sink logs at a time. -/
structure Call where
  /-- The sink. -/
  sink : Sink
  /-- The time. -/
  now : Float
  /-- The kind of what happened. -/
  kind : Text
  /-- What is told about it. -/
  data : Table Json

namespace Call

/-- The entry of a call in the log. -/
def entry (call : Call) : Json :=
  Log.entry call.now call.sink.run call.kind call.data

/-- Carries a call out. -/
def perform (tree : FileTree) (call : Call) : Except Sink.Refusal FileTree :=
  call.sink.record tree call.now call.kind call.data

/-- The line of a call in the log. -/
def line (call : Call) : Text :=
  call.sink.line call.now call.kind call.data

end Call

/-- The calls of sinks that write. -/
def enabled (calls : List Call) : List Call :=
  calls.filter (·.sink.enabled)

/-- The calls write to the log at a path, and what they write can be written and read back. -/
def Recordable (path : Path) (calls : List Call) : Prop :=
  ∀ call ∈ enabled calls,
    call.sink.path = path ∧ call.entry.Legible ∧ call.entry.refusal? 0 = none

variable {tree grown after : FileTree} {path : Path} {place : Place} {calls : List Call}

theorem legible_entry {now : Float} (time : Json.parse (Json.writeFloat now) = .ok (.float now))
    {data : Table Json} (legible : Json.Legible (.object data)) (run kind : Text) :
    (entry now run kind data).Legible := by
  apply Json.Legible.object (by simp [Json.table])
  simp [Json.table, Json.Legible.float time, Json.Legible.string, legible]

theorem events_line {call : Call} (legible : call.entry.Legible)
    (written : call.entry.refusal? 0 = none) : events call.line = .ok [call.entry] :=
  events_render legible written

theorem whole_line (call : Call) : call.line.Whole :=
  .inr (by simp [Call.line, Sink.line])

theorem return_not_mem_line {call : Call} (legible : call.entry.Legible) : '\r' ∉ call.line := by
  have clean := not_mem_render legible (show '\r'.toNat < 0x20 by decide)
  simpa [Call.line, Sink.line, Call.entry] using clean

theorem events_flatMap_line {before : Text} (whole : before.Whole)
    (each : ∀ call ∈ calls, call.entry.Legible ∧ call.entry.refusal? 0 = none) :
    events (before ++ calls.flatMap Call.line) =
      (events before).map (· ++ calls.map Call.entry) := by
  induction calls generalizing before with
  | nil => cases shape : events before <;> simp [shape, Except.map]
  | cons call calls ih =>
      rw [List.forall_mem_cons] at each
      have first := events_append whole (return_not_mem_line each.1.1)
        (events_line each.1.1 each.1.2)
      rw [List.flatMap_cons, ← List.append_assoc, ih (whole.append (whole_line call)) each.2, first]
      cases events before <;> simp [Except.map]

/-! ## Runs of calls -/

theorem perform_of_disabled {call : Call} (silent : call.sink.enabled = false) (tree : FileTree) :
    call.perform tree = .ok tree := by
  simp [Call.perform, Sink.record, silent]

theorem perform_of_append {call : Call} (active : call.sink.enabled = true)
    (written : call.entry.refusal? 0 = none)
    (appended : call.sink.append tree call.now call.line = .ok after) :
    call.perform tree = .ok after := by
  rw [Call.line] at appended
  rw [Call.entry] at written
  simp [Call.perform, Sink.record, active, appended, written, Except.mapError, bind, Except.bind,
    pure, Except.pure]

/-- A log that is open takes the lines of all calls, one behind the other. -/
theorem foldlM_perform (opens : Opens tree path place) {before : Text}
    (decoded : Utf8.decode (tree.contentAt place) = .ok before)
    (recordable : Recordable path calls) :
    ∃ after, calls.foldlM Call.perform tree = .ok after ∧ Opens after path place ∧
      Utf8.decode (after.contentAt place) = .ok (before ++ (enabled calls).flatMap Call.line) ∧
      ((tree.file? place).isSome ∨ enabled calls ≠ [] → (after.file? place).isSome) := by
  induction calls generalizing tree before with
  | nil => exact ⟨tree, rfl, opens, by simpa [enabled] using decoded, by simp [enabled]⟩
  | cons call calls ih =>
      rw [List.foldlM_cons]
      cases active : call.sink.enabled with
      | false =>
          have skipped : enabled (call :: calls) = enabled calls := by simp [enabled, active]
          rw [Recordable, skipped] at recordable
          rw [perform_of_disabled active, skipped]
          exact ih opens decoded recordable
      | true =>
          have taken : enabled (call :: calls) = call :: enabled calls := by simp [enabled, active]
          rw [Recordable, taken, List.forall_mem_cons] at recordable
          rcases recordable with ⟨⟨rfl, legible, written⟩, recordable⟩
          have step := perform_of_append active written (opens.append call.now call.line)
          have grown := Utf8.decode_append_encode decoded call.line
          have content : (appendAt tree place call.now (Utf8.encode call.line)).contentAt place =
              tree.contentAt place ++ Utf8.encode call.line := contentAt_putFile _ _ _
          rcases ih (opens.of_sameDirectories (opens.sameDirectories_appendAt _ _))
            (content ▸ grown) recordable with ⟨after, done, stays, decodes, there⟩
          rw [step, taken]
          refine ⟨after, done, stays, by simpa using decodes, fun _ => there (.inl ?_)⟩
          simp [appendAt, file?_putFile]

/-! ## Reading -/

theorem Opens.openFile (opens : Opens tree path place) :
    tree.read path = match tree.file? place with
      | some file => .ok file.content
      | none => .error .missing := by
  have entered : tree.entry place = match tree.file? place with
      | some file => .ok (some file)
      | none => .error .missing := by
    rw [FileTree.entry, opens.isFile]
    rfl
  simp only [FileTree.read, opens.leads, FileTree.openFile, bind, Except.bind, entered]
  cases tree.file? place <;> rfl

theorem read_of_openFile {bytes : Bytes} (opened : tree.read path = .ok bytes) {text : Text}
    (decoded : Utf8.decode bytes = .ok text) : Log.read tree path = events text := by
  have there : tree.hasEntry path = .ok true := by
    rcases bind_eq_ok_iff.1 opened with ⟨place, leads, opened⟩
    rcases bind_eq_ok_iff.1 opened with ⟨file, opened, -⟩
    rcases bind_eq_ok_iff.1 opened with ⟨found, entered, -⟩
    simp [hasEntry, leads, Except.bind, entered]
  simp [Log.read, there, opened, Utf8.decodeStream, decoded, events, Except.mapError, bind,
    Except.bind]

/-- What is read from an open log are the events on its lines. -/
theorem Opens.read (opens : Opens tree path place) (there : (tree.file? place).isSome)
    {text : Text} (decoded : Utf8.decode (tree.contentAt place) = .ok text) :
    Log.read tree path = events text := by
  rcases Option.isSome_iff_exists.1 there with ⟨file, found⟩
  have content : tree.contentAt place = file.content := by simp [contentAt, found]
  apply read_of_openFile _ (content ▸ decoded)
  rw [opens.openFile, found]

/-- Making the directory of the log does not change what is read at its path. -/
def Steady (tree : FileTree) (path : Path) : Prop :=
  ∀ grown, tree.ensureParent path = .ok grown →
    (grown.read path).toOption = (tree.read path).toOption

/-- A path that only leads down is steady. -/
theorem steady_of_down (proper : path.Proper) (down : ['.', '.'] ∉ path.parts) :
    Steady tree path := by
  intro grown made
  exact (widens_ensureFolders made).1.toOption_read_eq_of_down proper down

/-- The log at a path is missing, or it is a text whose lines are all ended. -/
def WellEnded (tree : FileTree) (path : Path) : Prop :=
  ∀ bytes, tree.read path = .ok bytes → ∃ text, Utf8.decode bytes = .ok text ∧ text.Whole

/-- A log that is missing has no events. -/
theorem read_of_missing (made : tree.ensureParent path = .ok grown) (opens : Opens grown path place)
    (unopened : (tree.read path).toOption = none) : Log.read tree path = .ok [] := by
  have more := (widens_ensureFolders made).1.toExtends
  have absent : tree.hasEntry path = .ok false := by
    unfold hasEntry
    split
    · next found entered =>
        rcases bind_eq_ok_iff.1 entered with ⟨location, leads, entered⟩
        obtain rfl : location = place := Except.ok.inj ((more.locate leads).symm.trans opens.leads)
        unfold FileTree.entry at entered
        split at entered
        · next isDirectory =>
            have same := more.isDirectory location isDirectory
            rw [opens.isFile] at same
            cases same
        · next isFile =>
            split at entered
            · next file inside =>
                simp [FileTree.read, leads, FileTree.openFile, FileTree.entry, isFile, inside, bind,
                  Except.bind, pure, Except.pure, Except.toOption] at unopened
            · cases entered
    · next entered =>
        have stops : tree.locate path = .error .tooLong := by
          rcases bind_eq_error_iff.1 entered with stops | ⟨location, -, missing⟩
          · exact stops
          · unfold FileTree.entry at missing
            repeat' split at missing
            all_goals cases missing
        have same : grown.locate path = tree.locate path :=
          more.locate_eq (by simp [stops]) (by simp [stops])
        rw [opens.leads, stops] at same
        cases same
    · rfl
  simp [Log.read, absent, Except.mapError, bind, Except.bind, pure, Except.pure]

/-- What is read from a log before it is opened is on the lines that it holds then. -/
theorem exists_events_eq_read (steady : Steady tree path) (ended : WellEnded tree path)
    (made : tree.ensureParent path = .ok grown) (opens : Opens grown path place) :
    ∃ before, Utf8.decode (grown.contentAt place) = .ok before ∧ before.Whole ∧
      Log.read tree path = events before := by
  have same := steady grown made
  rw [opens.openFile] at same
  cases found : grown.file? place with
  | none =>
      rw [found] at same
      have content : grown.contentAt place = [] := by simp [contentAt, found]
      refine ⟨[], ?_, .inl rfl, ?_⟩
      · rw [content]
        rfl
      · exact read_of_missing made opens same.symm
  | some file =>
      rw [found] at same
      have content : grown.contentAt place = file.content := by simp [contentAt, found]
      have opened : tree.read path = .ok file.content := toOption_eq_some_iff.1 same.symm
      rcases ended file.content opened with ⟨before, decoded, whole⟩
      exact ⟨before, content ▸ decoded, whole, read_of_openFile opened decoded⟩

/-- What is logged is read back, behind what was read before. -/
theorem read_perform (canOpen : enabled calls ≠ [] → CanOpen tree path)
    (steady : Steady tree path) (ended : WellEnded tree path)
    (recordable : Recordable path calls) :
    ∃ after, calls.foldlM Call.perform tree = .ok after ∧
      Log.read after path = (Log.read tree path).map (· ++ (enabled calls).map Call.entry) := by
  induction calls with
  | nil => exact ⟨tree, rfl, by cases Log.read tree path <;> simp [enabled, Except.map]⟩
  | cons call calls ih =>
      rw [List.foldlM_cons]
      cases active : call.sink.enabled with
      | false =>
          have skipped : enabled (call :: calls) = enabled calls := by simp [enabled, active]
          rw [Recordable, skipped] at recordable
          rw [skipped] at canOpen
          rw [perform_of_disabled active, skipped]
          exact ih canOpen recordable
      | true =>
          have taken : enabled (call :: calls) = call :: enabled calls := by simp [enabled, active]
          -- The first call that writes opens the log; all calls are then made on the open log.
          rcases canOpen (by simp [taken]) with ⟨grown, place, made, opens⟩
          rcases exists_events_eq_read steady ended made opens with ⟨before, decoded, whole, read⟩
          rcases foldlM_perform opens decoded recordable with ⟨after, done, stays, decodes, there⟩
          have own := recordable call (by simp [taken])
          have step : call.perform tree = call.perform grown := by
            rcases own with ⟨rfl, -, written⟩
            rw [perform_of_append active written (append_of_ensureParent made opens _ _),
              perform_of_append active written (opens.append _ _)]
          refine ⟨after, by rw [step, ← List.foldlM_cons, done], ?_⟩
          rw [stays.read (there (.inr (by simp [taken]))) decodes, read]
          exact events_flatMap_line whole fun call member => (recordable call member).2

/-- A log with one event, seen from the root. -/
def oneEvent : FileTree where
  files := [(["log".toList], ⟨Utf8.encode "\x7b\"a\": 1\x7d\n".toList, 0.0⟩)]

/-- The name of a run is logged, with a quote, a line break and a character outside ASCII in it. -/
def quotedCall (path : Path) : Call where
  sink := ⟨true, path, "a\"\n\\é".toList⟩
  now := 0.5
  kind := "run_started".toList
  data := [("paths".toList, .array [.string ['\t'], .bool true, .int (-7)])]

theorem recordable_quotedCall (path : Path) : Recordable path [quotedCall path] := by
  intro call member
  obtain rfl : call = quotedCall path := by simpa [enabled, quotedCall] using member
  refine ⟨rfl, ?_, rfl⟩
  apply legible_entry (rfl : Json.parse (Json.writeFloat 0.5) = .ok (.float 0.5))
  apply Json.Legible.object (by simp [quotedCall])
  intro field inside
  obtain rfl := List.mem_singleton.1 inside
  apply Json.Legible.array
  simp [Json.Legible.string, Json.Legible.bool, Json.Legible.int]

/-- A text with every kind of escape is read back behind the event that the log held. -/
theorem read_perform_quotedCall :
    let path := Path.ofText "log".toList
    let silent := { quotedCall path with sink := ⟨false, path, []⟩ }
    ∃ after, [quotedCall path, silent].foldlM Call.perform oneEvent = .ok after ∧
      Log.read after path =
        .ok [.object [(['a'], .int 1)], (quotedCall path).entry] := by
  intro path silent
  have opens : Opens oneEvent path ["log".toList] := ⟨rfl, rfl, .inl rfl⟩
  refine @read_perform oneEvent path [quotedCall path, silent] ?_ ?_ ?_ ?_
  · exact fun _ => ⟨oneEvent, _, rfl, opens⟩
  · exact steady_of_down (proper_ofText _) (by decide)
  · intro bytes opened
    rw [← Except.ok.inj opened]
    exact ⟨_, rfl, .inr rfl⟩
  · exact recordable_quotedCall path

/-- A log that is reached through a missing directory turns up once the directory is made. -/
theorem not_read_perform :
    ¬ ∀ (tree : FileTree) (path : Path) (calls : List Call), CanOpen tree path →
      WellEnded tree path → Recordable path calls →
      ∃ after, calls.foldlM Call.perform tree = .ok after ∧
        Log.read after path = (Log.read tree path).map (· ++ (enabled calls).map Call.entry) := by
  intro claim
  let path := Path.ofText "x/../log".toList
  have opens : Opens { oneEvent with folders := [["x".toList]] } path ["log".toList] :=
    ⟨rfl, rfl, .inr rfl⟩
  have unread : oneEvent.read path = .error .missing := rfl
  have before : Log.read oneEvent path = .ok [] := rfl
  have two : (([quotedCall path].foldlM Call.perform oneEvent).toOption.bind fun after =>
      (Log.read after path).toOption.map List.length) = some 2 := by decide +kernel
  have ended : WellEnded oneEvent path := by
    intro bytes opened
    rw [unread] at opened
    cases opened
  rcases claim oneEvent path [quotedCall path] ⟨_, _, rfl, opens⟩ ended
    (recordable_quotedCall path) with ⟨after, done, read⟩
  rw [done] at two
  simp only [Except.toOption, Option.bind_some, read, before, Except.map] at two
  simp [enabled, quotedCall] at two

end Log

end IdlFormat
