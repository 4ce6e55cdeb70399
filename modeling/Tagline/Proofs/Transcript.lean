import Tagline.Proofs.LogEntries
import Tagline.Proofs.Runs
import Tagline.Scanner.Source

/-!
# The log as a transcript

The log of a scan tells the whole history of the open scopes. Replaying it means to read its entries
one by one, to open and to close what they say, and to refuse an entry that does not fit: the depth of
a scope that is opened is the number of those around it, and what is closed is the innermost scope.
Replaying never fails, and leads to the open scopes of the scan behind every line:

    replay? [] (s.log {} lines) = some ((s.stateAfter {} lines).scopes.map Scope.name)   (replay?_log)

The entries about tags are those of the tags that are found. The line of a tag starts its log with the
entry about the scope of the definition, and the entry about the tag follows (events_of_tag).
-/

namespace Tagline

/-! ## Definitions -/

namespace LogEntry

/-- The names of the open scopes behind an entry, innermost first, if it fits those before it. -/
def replayStep? (names : List Text) : LogEntry → Option (List Text)
  | .enter name depth => if depth = names.length then some (name :: names) else none
  | .leave name depth =>
    match names with
    | [] => none
    | innermost :: outer => if name = innermost ∧ depth = outer.length then some outer else none
  | .tag _ _ _ | .other => some names

/-- The names of the open scopes behind the entries of a log. -/
def replay? (names log : List Text) : Option (List Text) :=
  log.foldlM (fun names entry => (read? entry).bind (replayStep? names)) names

end LogEntry

def Event.isTagged : Event → Bool
  | .tagged .. => true
  | _ => false

/-- The event that reports a tag. -/
def Tag.event (t : Tag) : Event := .tagged t.kind t.name t.position

def Scanner.log (s : Scanner) (state : ScanState) (lines : List Text) : List Text :=
  (s.eventsFrom state lines).map Event.entry

/-! ## Replaying -/

namespace LogEntry

theorem replay?_append (names log log' : List Text) :
    replay? names (log ++ log') = (replay? names log).bind fun names => replay? names log' :=
  List.foldlM_append

theorem replay?_cons (names : List Text) (e : Event) (log : List Text) :
    replay? names (e.entry :: log) =
      (replayStep? names (ofEvent e)).bind fun names => replay? names log := by
  unfold replay?
  rw [List.foldlM_cons, read?_entry]
  rfl

/-- **The events of some changes** are replayed to what the changes do. -/
theorem replay?_events (stack : ScopeStack) (changes : List ScopeChange) :
    replay? (stack.map Scope.name) ((stack.events changes).map Event.entry) =
      some ((stack.afterAll changes).map Scope.name) := by
  induction changes generalizing stack with
  | nil => rfl
  | cons change changes ih =>
    cases change with
    | enter scope =>
      have hdepth : stack.length = (stack.map Scope.name).length := (List.length_map _).symm
      show replay? _ ((Event.entered scope stack.length).entry :: _) = _
      rw [replay?_cons, ofEvent, replayStep?, if_pos hdepth, Option.bind_some]
      exact ih (scope :: stack)
    | leave =>
      cases stack with
      | nil => exact ih []
      | cons scope stack =>
        have hfits : scope.name = scope.name ∧ stack.length = (stack.map Scope.name).length :=
          ⟨rfl, (List.length_map _).symm⟩
        show replay? _ ((Event.left scope stack.length).entry :: _) = _
        rw [replay?_cons, ofEvent, List.map_cons, replayStep?, if_pos hfits, Option.bind_some]
        exact ih stack

end LogEntry

namespace Scanner

theorem replay?_headingEvent (s : Scanner) (number : Nat) (line : Text) (heading : Option Heading)
    (names : List Text) :
    LogEntry.replay? names
      ((heading.map (s.headingEvent number line)).toList.map Event.entry) = some names := by
  cases heading with
  | none => rfl
  | some heading =>
    show LogEntry.replay? names [(s.headingEvent number line heading).entry] = some names
    rw [LogEntry.replay?_cons]
    cases heading with
    | unnamed kind => rfl
    | named kind name offset =>
      by_cases henabled : s.config.isEnabled kind = true
      · simp [headingEvent, henabled, LogEntry.ofEvent, LogEntry.replayStep?, LogEntry.replay?]
      · simp [headingEvent, henabled, LogEntry.ofEvent, LogEntry.replayStep?, LogEntry.replay?]

/-- **The events of a line** are replayed to the open scopes behind it. -/
theorem replay?_scanLine (s : Scanner) (state : ScanState) (line : Text) :
    LogEntry.replay? (state.scopes.map Scope.name) ((s.scanLine state line).events.map Event.entry) =
      some ((s.scanLine state line).state.scopes.map Scope.name) := by
  unfold scanLine
  cases s.lexicon.marker? line with
  | some marker =>
    cases marker with
    | commentStart => exact LogEntry.replay?_cons _ (.commentStarted _) []
    | commentEnd => exact LogEntry.replay?_cons _ (.commentEnded _) []
  | none =>
    cases state.mode with
    | comment => rfl
    | code =>
      simp only [scanCode, List.map_append, LogEntry.replay?_append, LogEntry.replay?_events,
        replay?_headingEvent, Option.bind_some]

/-! ## Runs -/

variable {s : Scanner} {state : ScanState} {line : Text} {lines : List Text} {t : Tag}

/-- **The log is replayed** to the open scopes behind the lines. -/
theorem replay?_log (s : Scanner) (state : ScanState) (lines : List Text) :
    LogEntry.replay? (state.scopes.map Scope.name) (s.log state lines) =
      some ((s.stateAfter state lines).scopes.map Scope.name) := by
  induction lines generalizing state with
  | nil => rfl
  | cons line lines ih =>
    unfold log
    rw [eventsFrom_cons, List.map_append, LogEntry.replay?_append, replay?_scanLine, Option.bind_some]
    exact ih _

/-- **The log of a source** is replayed in the same way, also if the source has failed. -/
theorem replay?_scanDelivery (s : Scanner) (delivery : Delivery) :
    LogEntry.replay? [] ((s.scanDelivery delivery).events.map Event.entry) =
      some ((s.stateAfter {} (delivery.lines.map decodeLine)).scopes.map Scope.name) := by
  have hlines := replay?_log s {} (delivery.lines.map decodeLine)
  unfold log at hlines
  unfold scanDelivery
  rw [List.map_append, LogEntry.replay?_append]
  -- before the first line no scope is open
  show Option.bind (LogEntry.replay? (([] : ScopeStack).map Scope.name) _) _ = _
  rw [hlines, Option.bind_some]
  cases delivery.failure with
  | none => exact LogEntry.replay?_cons _ (.finished _) []
  | some failure => rfl

/-- The log of the first lines is the beginning of the log. -/
theorem log_take_isPrefix (s : Scanner) (state : ScanState) (lines : List Text) (k : Nat) :
    s.log state (lines.take k) <+: s.log state lines := by
  obtain ⟨behind, h⟩ := List.take_prefix k lines
  conv_rhs => rw [← h]
  unfold log
  rw [eventsFrom_append, List.map_append]
  exact List.prefix_append _ _

end Scanner

/-! ## The entries about tags -/

namespace LogEntry

theorem exists_tag_of_readTag? {t : Text} {entry : LogEntry} (h : readTag? t = some entry) :
    ∃ kind name p, entry = .tag kind name p := by
  obtain ⟨p, -, h⟩ := Option.bind_eq_some_iff.1 h
  obtain ⟨q, -, h⟩ := Option.bind_eq_some_iff.1 h
  obtain ⟨r, -, h⟩ := Option.map_eq_some_iff.1 h
  exact ⟨r.1, r.2, ⟨q.2, p.2⟩, h.symm⟩

/-- Only the entries about tags start as they do. -/
theorem isPrefixOf_tagLabel (e : Event) : tagLabel.isPrefixOf e.entry = e.isTagged := by
  rw [Bool.eq_iff_iff, List.isPrefixOf_iff_prefix]
  constructor
  · rintro ⟨t, ht⟩
    have hread := read?_entry e
    rw [← ht, read?_tag] at hread
    obtain ⟨kind, name, p, htag⟩ := exists_tag_of_readTag? hread
    cases e with
    | tagged => rfl
    | _ => cases htag
  · intro h
    cases e with
    | tagged kind name p =>
      rw [entry_tagged]
      exact List.prefix_append _ _
    | _ => cases h

end LogEntry

theorem ScopeStack.isTagged_of_mem_events {stack : ScopeStack} {changes : List ScopeChange} {e : Event}
    (h : e ∈ stack.events changes) : e.isTagged = false := by
  obtain ⟨scope, depth, rfl | rfl⟩ := exists_of_mem_events h
  · rfl
  · rfl

/-- No control word stands in front of a definition. -/
theorem CodeLine.lead_eq_nil_of_heading {lexicon : Lexicon} (h : lexicon.Regular) {line : Text}
    {heading : Heading} (hh : (CodeLine.read lexicon line).heading = some heading) :
    (CodeLine.read lexicon line).lead = [] := by
  cases hd : (Cursor.ofLine line).skipBlank.eatAny? lexicon.controls with
  | none =>
    rw [read_of_not_control h hd]
    rfl
  | some found =>
    obtain ⟨word, d⟩ := found
    rw [read_of_control h hd] at hh
    cases hh

namespace Scanner

variable {s : Scanner} {state : ScanState} {line : Text} {lines : List Text} {t : Tag}

/-- **The events of a line with a tag**: the scope of the definition is opened inside those that were
open before the line, and the tag is reported. -/
theorem events_of_tag (h : s.lexicon.Regular) (ht : (s.scanLine state line).tag = some t) :
    ∃ behind, (s.scanLine state line).events =
        .entered (.named t.name) state.scopes.length :: t.event :: behind ∧
      (∀ e ∈ behind, e.isTagged = false) ∧ t.scope = state.scopes.tagScope? := by
  obtain ⟨hline, hmode, kind, name, offset, hh, henabled, rfl⟩ := scanLine_tag_eq_some ht
  have hlead := CodeLine.lead_eq_nil_of_heading h hh
  have hopened : (CodeLine.read s.lexicon line).opened = [.enter (.named name)] := by
    unfold CodeLine.opened
    rw [hh]
  have hevent : s.headingEvent (state.line + 1) line (.named kind name offset) =
      .tagged kind name (Position.inLine (state.line + 1) line offset) := by
    simp [headingEvent, henabled]
  rw [scanLine_of_code hline hmode, hlead]
  simp only [scanCode, hlead, hopened, hh, Option.map_some, hevent]
  exact ⟨_, rfl, fun e he => ScopeStack.isTagged_of_mem_events he, rfl⟩

/-- A line without a tag reports none. -/
theorem isTagged_of_no_tag (ht : (s.scanLine state line).tag = none) :
    ∀ e ∈ (s.scanLine state line).events, e.isTagged = false := by
  intro e he
  rcases cases_of_mem_events he with rfl | rfl | ⟨scope, depth, rfl | rfl⟩ | ⟨heading, hm, hmode, hh, rfl⟩
  · rfl
  · rfl
  · rfl
  · rfl
  · rw [scanLine_of_code hm hmode] at ht
    simp only [scanCode, hh, Option.bind_some] at ht
    cases heading with
    | unnamed kind => rfl
    | named kind name offset =>
      by_cases henabled : s.config.isEnabled kind = true
      · simp [tag?, henabled] at ht
      · simp [headingEvent, henabled, Event.isTagged]

theorem filter_events_scanLine (h : s.lexicon.Regular) (state : ScanState) (line : Text) :
    (s.scanLine state line).events.filter Event.isTagged =
      (s.scanLine state line).tag.toList.map Tag.event := by
  cases ht : (s.scanLine state line).tag with
  | none =>
    rw [List.filter_eq_nil_iff.2]
    · rfl
    · intro e he
      simp [isTagged_of_no_tag ht e he]
  | some t =>
    obtain ⟨behind, hevents, hbehind, -⟩ := events_of_tag h ht
    have hnone : behind.filter Event.isTagged = [] := by
      rw [List.filter_eq_nil_iff]
      intro e he
      simp [hbehind e he]
    rw [hevents, List.filter_cons_of_neg (by simp [Event.isTagged]), List.filter_cons_of_pos rfl, hnone]
    rfl

/-- **The tags that a run reports** are those that it finds. -/
theorem filter_eventsFrom (h : s.lexicon.Regular) (state : ScanState) (lines : List Text) :
    (s.eventsFrom state lines).filter Event.isTagged = (s.tagsFrom state lines).map Tag.event := by
  induction lines generalizing state with
  | nil => rfl
  | cons line lines ih =>
    rw [eventsFrom_cons, List.filter_append, filter_events_scanLine h, ih, tagsFrom_cons,
      List.map_append]

/-- The line that an event of a run belongs to. -/
theorem exists_line_of_event {before behind : List Event} {e : Event}
    (h : s.eventsFrom state lines = before ++ e :: behind) :
    ∃ i line earlier later, lines[i]? = some line ∧
      before = s.eventsFrom state (lines.take i) ++ earlier ∧
      (s.scanLine (s.stateAfter state (lines.take i)) line).events = earlier ++ e :: later := by
  induction lines generalizing state before with
  | nil => simp [eventsFrom] at h
  | cons line lines ih =>
    rw [eventsFrom_cons] at h
    -- the event belongs to the first line or to a later one
    rcases append_eq_append_cons h with ⟨later, hhere, -⟩ | ⟨inner, rfl, hrest⟩
    · exact ⟨0, line, before, later, rfl, rfl, hhere⟩
    · obtain ⟨i, l, earlier, later, hl, rfl, hevents⟩ := ih hrest
      refine ⟨i + 1, l, earlier, later, hl, ?_, hevents⟩
      rw [List.take_succ_cons, eventsFrom_cons, List.append_assoc]

/-- **An event that reports a tag** belongs to the line of the tag, and the event right before it opens
the scope of the definition inside those that are open behind the lines before. -/
theorem exists_tag_of_event (h : s.lexicon.Regular) {before behind : List Event} {e : Event}
    (hsplit : s.eventsFrom state lines = before ++ e :: behind) (he : e.isTagged = true) :
    ∃ i t, (s.results state lines)[i]?.bind LineResult.tag = some t ∧ e = t.event ∧
      before = s.eventsFrom state (lines.take i) ++
        [.entered (.named t.name) (s.stateAfter state (lines.take i)).scopes.length] ∧
      t.scope = (s.stateAfter state (lines.take i)).scopes.tagScope? := by
  obtain ⟨i, line, earlier, later, hline, rfl, hevents⟩ := exists_line_of_event hsplit
  have hmem : e ∈ (s.scanLine (s.stateAfter state (lines.take i)) line).events := by
    rw [hevents]
    simp
  cases ht : (s.scanLine (s.stateAfter state (lines.take i)) line).tag with
  | none => simp [isTagged_of_no_tag ht e hmem] at he
  | some t =>
    obtain ⟨others, heq, hothers, hscope⟩ := events_of_tag h ht
    have hresult : (s.results state lines)[i]?.bind LineResult.tag = some t := by
      rw [getElem?_results, hline]
      exact ht
    rw [hevents] at heq
    -- the event is the second one of its line
    cases earlier with
    | nil =>
      obtain ⟨rfl, -⟩ := List.cons.inj heq
      cases he
    | cons first earlier =>
      obtain ⟨rfl, hbehind⟩ := List.cons.inj heq
      cases earlier with
      | nil =>
        obtain ⟨hevent, -⟩ := List.cons.inj hbehind
        exact ⟨i, t, hresult, hevent, rfl, hscope⟩
      | cons second earlier =>
        obtain ⟨-, hrest⟩ := List.cons.inj hbehind
        have hother : e ∈ others := by
          rw [← hrest]
          exact List.mem_append_right _ List.mem_cons_self
        simp [hothers e hother] at he

/-! ## Top theorem -/

/-- **The log is a faithful transcript.** Replaying the log of the first lines, for any number of them,
never fails, and leads to the names of the open scopes behind these lines. The entries that start like
those about a tag are the entries of the tags that are found, in their order. Each of them stands right
behind the entry that opens the scope of its name, whose depth is the number of the scopes that are open
behind the lines before; these are the scopes that the tag carries as its path. -/
theorem log_is_transcript (config : Config) (lines : List Text) :
    let s : Scanner := { config }
    (∀ k, s.log {} (lines.take k) <+: s.log {} lines ∧
        LogEntry.replay? [] (s.log {} (lines.take k)) =
          some ((s.stateAfter {} (lines.take k)).scopes.map Scope.name)) ∧
      (s.log {} lines).filter (LogEntry.tagLabel.isPrefixOf ·) =
        (s.scanLines lines).map (fun t => t.event.entry) ∧
      ∀ before entry behind, s.log {} lines = before ++ entry :: behind →
        LogEntry.tagLabel.isPrefixOf entry = true →
          ∃ i t, (s.results {} lines)[i]?.bind LineResult.tag = some t ∧ entry = t.event.entry ∧
            let scopes := (s.stateAfter {} (lines.take i)).scopes
            before = s.log {} (lines.take i) ++
                [(Event.entered (.named t.name) scopes.length).entry] ∧
              t.scope = scopes.tagScope? := by
  intro s
  have h : s.lexicon.Regular := Lexicon.julia_regular
  refine ⟨?_, ?_, ?_⟩
  · intro k
    exact ⟨log_take_isPrefix s {} lines k, replay?_log s {} (lines.take k)⟩
  · have hlabel : (LogEntry.tagLabel.isPrefixOf ·) ∘ Event.entry = Event.isTagged :=
      funext LogEntry.isPrefixOf_tagLabel
    unfold log
    rw [List.filter_map, hlabel, filter_eventsFrom h, List.map_map]
    rfl
  · intro before entry behind hsplit hentry
    obtain ⟨earlier, rest, hevents, rfl, hrest⟩ := List.map_eq_append_iff.1 hsplit
    obtain ⟨e, later, rfl, rfl, -⟩ := List.map_eq_cons_iff.1 hrest
    rw [LogEntry.isPrefixOf_tagLabel] at hentry
    obtain ⟨i, t, hresult, rfl, rfl, hscope⟩ := exists_tag_of_event h hevents hentry
    refine ⟨i, t, hresult, rfl, ?_, hscope⟩
    rw [List.map_append]
    rfl

/-- The title of the outer block holds quotes and what looks like the end of an entry. -/
theorem log_is_transcript_quotes :
    let lines := ["describe it's 'a' at depth 7", "if x", "end", "function f(x) do"].map String.toList
    let title := "it's 'a' at depth 7".toList
    let entry := "DEBUG Tag function 'f' at line: 4, column: 10".toList
    let before := ["TRACE Enter scope 'it's 'a' at depth 7' at depth 0",
      "DEBUG Tag describe 'it's 'a' at depth 7' at line: 1, column: 10",
      "TRACE Enter anonymous scope at depth 1", "TRACE Leave scope '' at depth 1",
      "TRACE Enter scope 'f' at depth 1"].map String.toList
    let behind := ["TRACE Enter anonymous scope at depth 2".toList]
    log {} {} lines = before ++ entry :: behind ∧
      LogEntry.replay? [] (before ++ entry :: behind) = some [[], "f".toList, title] ∧
      ∃ (i : Nat) (t : Tag), (results {} {} lines)[i]?.bind LineResult.tag = some t ∧
        entry = t.event.entry ∧
        before = log {} {} (lines.take i) ++ [(Event.entered (.named t.name)
          (stateAfter {} {} (lines.take i)).scopes.length).entry] := by
  intro lines title entry before behind
  obtain ⟨hreplay, -, htag⟩ := log_is_transcript {} lines
  have hlog : log {} {} lines = before ++ entry :: behind := by decide +kernel
  have hlabel : LogEntry.tagLabel.isPrefixOf entry = true := by decide +kernel
  have hnames : (stateAfter {} {} lines).scopes.map Scope.name = [[], "f".toList, title] := by
    decide +kernel
  refine ⟨hlog, ?_, ?_⟩
  · rw [← hlog, ← hnames]
    exact (hreplay lines.length).2
  · obtain ⟨i, t, hresult, hentry, hbefore, -⟩ := htag before entry behind hlog hlabel
    exact ⟨i, t, hresult, hentry, hbefore⟩

end Scanner

end Tagline
