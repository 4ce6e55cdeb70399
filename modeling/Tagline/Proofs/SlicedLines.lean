import Tagline.Proofs.Moves
import Tagline.Proofs.Runs
import Tagline.Proofs.SlicedNames
import Tagline.Proofs.Walks

/-!
# Lines in slices

A line is scanned off slices in the order in which its words stand there: a marker, a control word, the
heading, and then the blocks with the open scopes at hand, where the closer is looked for only while a
scope is open. A slice that is cut inside a character fails, and so does the position of a name whose
offset is not between two characters. Neither occurs in any line, so the scan gives what the scan with
a cursor gives:

    (scanLine s state).run' (Slicer.ofLine line) =
      some (s.scanLine state line)                                 (run_scanLine)
-/

namespace Tagline

namespace Slicing

/-! ## Definitions -/

/-- The position of an offset in the line. No column is made up: it fails where no character starts. -/
def position (number offset : Nat) : Slicing Position := fun s =>
  (Utf8.cut? s.bytes offset).map fun (before, _) => (⟨number, before.length + 1⟩, s)

def definition : List (Text × Kind) → Slicing (Option Kind)
  | [] => return none
  | (word, kind) :: definitions => do
    if ← eat word then return some kind
    else definition definitions

/-- Reads the definition word at the offset and the name behind it. -/
def readHeading (lexicon : Lexicon) : Slicing (Option Heading) := do
  match ← definition lexicon.definitions with
  | none => return none
  | some kind =>
    if (← peek).any Text.isBlank then
      return some ((← readName lexicon.operators kind).heading kind)
    else return none

/-- Passes the closer. It is looked for only while a scope is open. -/
def close (lexicon : Lexicon) (stack : ScopeStack) : Slicing Bool :=
  if stack = [] then return false else eat lexicon.closer

/-- Passes a string up to its closing quote, or a character with the word behind it. -/
def pass (a : Char) : Slicing Unit := do
  let _ ← bump
  skipWhile (if a = '"' then (· != '"') else Text.isWord)

/-- Passes the closer, or else what stands there. -/
def closeOrPass (lexicon : Lexicon) (stack : ScopeStack) (a : Char) : Slicing (Option ScopeChange) := do
  if ← close lexicon stack then return some .leave
  else
    pass a
    return none

/-- Passes the piece at the offset, which starts with a character, and gives what it does to the open
scopes. -/
def piece (lexicon : Lexicon) (stack : ScopeStack) (a : Char) : Slicing (Option ScopeChange) := do
  if Text.isBlank a then
    let _ ← bump
    return none
  else if a = '#' then
    skipToEnd
    return none
  else if (← eatAny lexicon.openers).isSome then return some (.enter .anonymous)
  else closeOrPass lexicon stack a

/-- Passes a piece, if the line goes on. The state is the open scopes and the events of the changes so
far. -/
def blocksStep (lexicon : Lexicon) (state : ScopeStack × List Event) :
    Slicing ((ScopeStack × List Event) ⊕ (ScopeStack × List Event)) := do
  match ← peek with
  | none => return .inr state
  | some a =>
    let change ← piece lexicon state.1 a
    return .inl (state.1.afterAll change.toList, state.2 ++ state.1.events change.toList)

def blocks (lexicon : Lexicon) (state : ScopeStack × List Event) : Slicing (ScopeStack × List Event) :=
  loop (blocksStep lexicon) state

/-- What a heading does: the scope that it opens, the tag that is reported, and the event. The position
of a name is worked out whether its kind is reported or not. -/
def emit (s : Scanner) (number : Nat) (scopes : ScopeStack) :
    Option Heading → Slicing (List ScopeChange × Option Tag × List Event)
  | none => return ([], none, [])
  | some (.unnamed kind) => return ([], none, [.nameMissing kind number])
  | some (.named kind name offset) => do
    let position ← position number offset
    if s.config.isEnabled kind then
      return ([.enter (.named name)], some ⟨name, kind, position, scopes.tagScope?⟩,
        [.tagged kind name position])
    else return ([.enter (.named name)], none, [.skipped kind name])

def scanCode (s : Scanner) (number : Nat) (scopes : ScopeStack) : Slicing LineResult := do
  skipBlank
  let lead := if (← eatAny s.lexicon.controls).isSome then [.enter .anonymous] else []
  let outer := scopes.afterAll lead
  let (opened, tag, events) ← emit s number outer (← readHeading s.lexicon)
  let (last, behind) ← blocks s.lexicon (outer.afterAll opened, [])
  return ⟨⟨number, last, .code⟩, tag,
    scopes.events lead ++ outer.events opened ++ events ++ behind⟩

def scanLine (s : Scanner) (state : ScanState) : Slicing LineResult := do
  let number := state.line + 1
  if ← eat s.lexicon.commentStart then
    return ⟨⟨number, state.scopes, .comment⟩, none, [.commentStarted number]⟩
  else if ← eat s.lexicon.commentEnd then
    return ⟨⟨number, state.scopes, .code⟩, none, [.commentEnded number]⟩
  else
    match state.mode with
    | .comment => return ⟨⟨number, state.scopes, .comment⟩, none, []⟩
    | .code => scanCode s number state.scopes

variable {line : Text} {c d : Cursor}

theorem follows_position (number : Nat) (hc : c.StandsIn line) {before behind : Text}
    (hline : line = before ++ behind) :
    Follows line (position number (Text.byteSize before)) c
      (Position.inLine number line (Text.byteSize before)) c where
  run_eq := by
    show (Utf8.cut? (Utf8.encode line) (Text.byteSize before)).map _ = _
    rw [Utf8.cut?_encode, hline, Text.splitAtByte?_byteSize_append, Position.inLine_byteSize_append,
      ← hline]
    rfl
  standsIn := hc

/-! ## Headings -/

/-- The definition word that is found, and the cursor behind it. -/
theorem follows_definition (lexicon : Lexicon) (hc : c.StandsIn line) :
    Follows line (definition lexicon.definitions) c ((lexicon.definition? c).map (·.1))
      (((lexicon.definition? c).map (·.2)).getD c) := by
  unfold Lexicon.definition?
  induction lexicon.definitions with
  | nil => exact .pure hc none
  | cons entry definitions ih =>
    obtain ⟨word, kind⟩ := entry
    refine (follows_eat word hc).bind ?_
    simp only [List.findSome?_cons]
    cases hd : c.eat? word with
    | none => exact ih
    | some d => exact .pure (hc.eat? hd) (some kind)

/-- **Headings** are read off slices as they are read by a cursor. -/
theorem follows_readHeading (lexicon : Lexicon) (hc : c.StandsIn line) :
    Follows line (readHeading lexicon) c (lexicon.readHeading c).1 (lexicon.readHeading c).2 := by
  have hword := follows_definition lexicon hc
  cases hd : lexicon.definition? c with
  | none =>
    rw [hd] at hword
    rw [Lexicon.readHeading_of_none hd]
    exact hword.bind (.pure hc none)
  | some found =>
    obtain ⟨kind, d⟩ := found
    rw [hd] at hword
    refine hword.bind ((follows_peek hword.standsIn).bind ?_)
    show Follows line (if d.peek?.any Text.isBlank = true then _ else _) d _ _
    by_cases hblank : d.peek?.any Text.isBlank = true
    · have hname := follows_readName kind lexicon.operators hword.standsIn
      rw [if_pos hblank, Lexicon.readHeading_of_blank hd hblank]
      exact hname.bind (.pure hname.standsIn _)
    · rw [if_neg hblank, Lexicon.readHeading_of_not_blank hd hblank]
      exact .pure hword.standsIn none

/-! ## Blocks -/

theorem follows_pass (a : Char) (hc : c.StandsIn line) : Follows line (pass a) c ()
    (c.bump.skipWhile (if a = '"' then (· != '"') else Text.isWord)) :=
  (follows_bump hc).bind (follows_skipWhile _ hc.bump)

section
variable {lexicon : Lexicon} {stack : ScopeStack}

theorem follows_close_refused (hc : c.StandsIn line)
    (hnone : stack ≠ [] → c.eat? lexicon.closer = none) :
    Follows line (close lexicon stack) c false c := by
  unfold close
  by_cases hstack : stack = []
  · rw [if_pos hstack]
    exact .pure hc false
  · have heat := follows_eat lexicon.closer hc
    rw [hnone hstack] at heat
    rw [if_neg hstack]
    exact heat

theorem follows_close_done (hc : c.StandsIn line) (hstack : stack ≠ [])
    (hclose : c.eat? lexicon.closer = some d) : Follows line (close lexicon stack) c true d := by
  have heat := follows_eat lexicon.closer hc
  rw [hclose] at heat
  unfold close
  rw [if_neg hstack]
  exact heat

/-- Where the closer is not found, what stands there is passed. -/
theorem follows_closeOrPass_refused (a : Char) (hc : c.StandsIn line)
    (hnone : stack ≠ [] → c.eat? lexicon.closer = none) :
    Follows line (closeOrPass lexicon stack a) c none
      (c.bump.skipWhile (if a = '"' then (· != '"') else Text.isWord)) := by
  have hpass := follows_pass a hc
  exact (follows_close_refused hc hnone).bind (hpass.bind (.pure hpass.standsIn none))

end

section
variable {lexicon : Lexicon} (h : lexicon.Regular)

include h

/-- Where the closer stands, the innermost scope is left, if one is open. -/
theorem follows_closeOrPass (stack : ScopeStack) (hc : c.StandsIn line) {a : Char} {t : Text}
    (hrest : c.rest = a :: t) (hclose : c.eat? lexicon.closer = some d) :
    ∃ done, Follows line (closeOrPass lexicon stack a) c done d ∧
      stack.afterAll done.toList = stack.afterAll [.leave] ∧
      stack.events done.toList = stack.events [.leave] := by
  cases stack with
  | nil =>
    -- the closer is a word like any other, and closing nothing changes nothing
    obtain ⟨hquote, hend⟩ := Lexicon.pass_closer h hrest hclose
    have hpassed : Follows line (closeOrPass lexicon [] a) c none
        (c.bump.skipWhile (if a = '"' then (· != '"') else Text.isWord)) :=
      follows_closeOrPass_refused a hc fun hne => absurd rfl hne
    rw [if_neg hquote, hend] at hpassed
    exact ⟨none, hpassed, rfl, rfl⟩
  | cons scope outer =>
    have hclosed := follows_close_done hc (List.cons_ne_nil scope outer) hclose
    exact ⟨some .leave, hclosed.bind (.pure hclosed.standsIn _), rfl, rfl⟩

/-- A piece does to the open scopes what it does without looking at them. -/
theorem follows_piece (stack : ScopeStack) (hc : c.StandsIn line) {a : Char} {t : Text}
    (hrest : c.rest = a :: t) {change : Option ScopeChange}
    (hpiece : lexicon.blockStep c = some (change, d)) :
    ∃ done, Follows line (piece lexicon stack a) c done d ∧
      stack.afterAll done.toList = stack.afterAll change.toList ∧
      stack.events done.toList = stack.events change.toList := by
  unfold Lexicon.blockStep at hpiece
  rw [hrest] at hpiece
  unfold piece
  by_cases hblank : Text.isBlank a = true
  · simp only [if_pos hblank, Option.some.injEq, Prod.mk.injEq] at hpiece
    obtain ⟨rfl, rfl⟩ := hpiece
    rw [if_pos hblank]
    exact ⟨none, (follows_bump hc).bind (.pure hc.bump none), rfl, rfl⟩
  by_cases hcomment : a = '#'
  · simp only [if_neg hblank, if_pos hcomment, Option.some.injEq, Prod.mk.injEq] at hpiece
    obtain ⟨rfl, rfl⟩ := hpiece
    have hend := follows_skipToEnd hc
    rw [if_neg hblank, if_pos hcomment]
    exact ⟨none, hend.bind (.pure hend.standsIn none), rfl, rfl⟩
  simp only [if_neg hblank, if_neg hcomment] at hpiece
  rw [if_neg hblank, if_neg hcomment]
  have hopen := follows_eatAny lexicon.openers hc
  cases hopener : c.eatAny? lexicon.openers with
  | some found =>
    rw [hopener] at hpiece hopen
    obtain ⟨word, e⟩ := found
    simp only [Option.some.injEq, Prod.mk.injEq] at hpiece
    obtain ⟨rfl, rfl⟩ := hpiece
    exact ⟨some (.enter .anonymous), hopen.bind (.pure hopen.standsIn _), rfl, rfl⟩
  | none =>
    rw [hopener] at hpiece hopen
    cases hclose : c.eat? lexicon.closer with
    | some e =>
      simp only [hclose, Option.some.injEq, Prod.mk.injEq] at hpiece
      obtain ⟨rfl, rfl⟩ := hpiece
      obtain ⟨done, hdone, hchange⟩ := follows_closeOrPass h stack hc hrest hclose
      exact ⟨done, hopen.bind hdone, hchange⟩
    | none =>
      have hpassed : Follows line (closeOrPass lexicon stack a) c none
          (c.bump.skipWhile (if a = '"' then (· != '"') else Text.isWord)) :=
        follows_closeOrPass_refused a hc fun _ => hclose
      rw [hclose] at hpiece
      by_cases hquote : a = '"'
      · simp only [if_pos hquote, Option.some.injEq, Prod.mk.injEq] at hpiece hpassed
        obtain ⟨rfl, rfl⟩ := hpiece
        exact ⟨none, hopen.bind hpassed, rfl, rfl⟩
      · simp only [if_neg hquote, Option.some.injEq, Prod.mk.injEq] at hpiece hpassed
        obtain ⟨rfl, rfl⟩ := hpiece
        exact ⟨none, hopen.bind hpassed, rfl, rfl⟩

/-- **The rest of a line** is read off slices as it is read by a cursor. -/
theorem follows_blocks (stack : ScopeStack) (events : List Event) (hc : c.StandsIn line) :
    Follows line (blocks lexicon (stack, events)) c
      (stack.afterAll (lexicon.blockChanges c).1, events ++ stack.events (lexicon.blockChanges c).1)
      (lexicon.blockChanges c).2 := by
  fun_induction Lexicon.blockChanges lexicon c generalizing stack events with
  | case1 c hend =>
    refine .loop_done ((follows_peek hc).bind ?_)
    rw [Cursor.peek?_of_nil (Lexicon.rest_eq_nil_of_blockStep hend), ScopeStack.events,
      List.append_nil]
    exact .pure hc _
  | case2 c change d hpiece behind ih =>
    cases hrest : c.rest with
    | nil => simp [Lexicon.blockStep, hrest] at hpiece
    | cons a t =>
      obtain ⟨done, hdone, hafter, hevents⟩ := follows_piece h stack hc hrest hpiece
      have hround : Follows line (blocksStep lexicon (stack, events)) c
          (.inl (stack.afterAll done.toList, events ++ stack.events done.toList)) d := by
        refine (follows_peek hc).bind ?_
        rw [Cursor.peek?_of_cons hrest]
        exact hdone.bind (.pure hdone.standsIn _)
      rw [ScopeStack.afterAll_append, ScopeStack.events_append, ← hafter, ← hevents,
        ← List.append_assoc]
      exact hround.loop_round hc (Lexicon.length_rest_blockStep_lt hpiece) (ih _ _ hdone.standsIn)

end

/-! ## Lines -/

/-- What a heading whose name stands in the line does. -/
theorem follows_emit (s : Scanner) (number : Nat) (scopes : ScopeStack) (hc : c.StandsIn line)
    (code : CodeLine) (hplace : ∀ kind name offset, code.heading = some (.named kind name offset) →
      ∃ before behind, line = before ++ behind ∧ Text.byteSize before = offset) :
    Follows line (emit s number scopes code.heading) c
      (code.opened, code.heading.bind (s.tag? number line scopes),
        (code.heading.map (s.headingEvent number line)).toList) c := by
  obtain ⟨control, heading, blocks⟩ := code
  cases heading with
  | none => exact .pure hc _
  | some heading =>
    cases heading with
    | unnamed kind => exact .pure hc _
    | named kind name offset =>
      obtain ⟨before, behind, hline, rfl⟩ := hplace kind name offset rfl
      refine (follows_position number hc hline).bind ?_
      dsimp only [CodeLine.opened, Option.bind_some, Option.map_some, Scanner.tag?,
        Scanner.headingEvent]
      by_cases henabled : s.config.isEnabled kind = true
      · simp only [if_pos henabled]
        exact .pure hc _
      · simp only [if_neg henabled]
        exact .pure hc _

theorem follows_scanCode (s : Scanner) (h : s.lexicon.Regular) (number : Nat) (scopes : ScopeStack)
    (line : Text) : ∃ d,
    Follows line (scanCode s number scopes) (Cursor.ofLine line) (s.scanCode number scopes line) d := by
  have hline := Cursor.StandsIn.ofLine line
  have hcontrol := follows_eatAny s.lexicon.controls hline.skipBlank
  have hheading := follows_readHeading s.lexicon hcontrol.standsIn
  have hemit := follows_emit s number (scopes.afterAll (CodeLine.read s.lexicon line).lead)
    hheading.standsIn (CodeLine.read s.lexicon line) (by
      intro kind name offset hh
      obtain ⟨before, behind, hline, hsize⟩ := CodeLine.exists_before_of_heading h hh
      exact ⟨before, name ++ behind, hline, hsize⟩)
  have hblocks := follows_blocks h
    ((scopes.afterAll (CodeLine.read s.lexicon line).lead).afterAll (CodeLine.read s.lexicon line).opened)
    [] hheading.standsIn
  refine (follows_skipBlank hline).exists_bind (hcontrol.exists_bind ?_)
  rw [Option.isSome_map]
  exact ⟨_, hheading.bind (hemit.bind (hblocks.bind (.pure hblocks.standsIn _)))⟩

theorem follows_scanLine (s : Scanner) (h : s.lexicon.Regular) (state : ScanState) (line : Text) : ∃ d,
    Follows line (scanLine s state) (Cursor.ofLine line) (s.scanLine state line) d := by
  have hline := Cursor.StandsIn.ofLine line
  have hstart := follows_eat s.lexicon.commentStart hline
  have hend := follows_eat s.lexicon.commentEnd hline
  have hdrop : ∀ w, (Text.dropToken? w line).isSome = ((Cursor.ofLine line).eat? w).isSome := by
    intro w
    rw [Cursor.eat?, Option.isSome_map]
    rfl
  unfold Scanner.scanLine Lexicon.marker?
  rw [hdrop, hdrop]
  refine hstart.exists_bind ?_
  cases hs : (Cursor.ofLine line).eat? s.lexicon.commentStart with
  | some d => exact ⟨_, .pure (hline.eat? hs) _⟩
  | none =>
    refine hend.exists_bind ?_
    cases he : (Cursor.ofLine line).eat? s.lexicon.commentEnd with
    | some d => exact ⟨_, .pure (hline.eat? he) _⟩
    | none =>
      cases state.mode with
      | comment => exact ⟨_, .pure hline _⟩
      | code => exact follows_scanCode s h _ _ line

/-- **The scan of a line.** -/
theorem run_scanLine (s : Scanner) (h : s.lexicon.Regular) (state : ScanState) (line : Text) :
    (scanLine s state).run' (Slicer.ofLine line) = some (s.scanLine state line) := by
  obtain ⟨d, hd⟩ := follows_scanLine s h state line
  show (scanLine s state (Slicer.ofLine line)).map _ = _
  rw [← Cursor.slicer_ofLine, hd.run_eq]
  rfl

end Slicing

/-! ## Top theorem -/

/-- **Slices never fail.** Whatever moves are made in a line, of any characters, the bytes of the line
are never cut inside a character or past their end, and the slicer gives what a cursor gives. The place
where the moves end is between two characters, no move from there goes back, and one that eats nothing
stays there. So the name that a heading reads starts at its offset, and in whatever state a line is
scanned, the scan works with slices alone and never makes up a column. -/
theorem slices_never_fail (line : Text) :
    (∀ moves : List Move,
        let answers := ((Cursor.ofLine line).moveAll moves).1
        let c := ((Cursor.ofLine line).moveAll moves).2
        Slicing.moveAll moves (Slicer.ofLine line) = some (answers, c.slicer line) ∧
          c.OnBoundary line ∧
          ∀ m, c.offset ≤ (c.move m).2.offset ∧
            ((c.move m).1.isRefusal = true → (c.move m).2 = c)) ∧
      (∀ kind name offset,
        (CodeLine.read Lexicon.julia line).heading = some (.named kind name offset) →
          ∃ before behind, line.splitAtByte? offset = some (before, name ++ behind)) ∧
      ∀ (config : Config) (state : ScanState),
        (Slicing.scanLine { config } state).run' (Slicer.ofLine line) =
          some (Scanner.scanLine { config } state line) := by
  refine ⟨fun moves => ?_, fun kind name offset hheading => ?_, fun config state => ?_⟩
  · have hmoves := Slicing.follows_moveAll moves (Cursor.StandsIn.ofLine line)
    rw [← Cursor.slicer_ofLine]
    exact ⟨hmoves.run_eq, hmoves.standsIn.onBoundary, fun m =>
      ⟨Cursor.offset_le_move _ m, Cursor.move_of_isRefusal⟩⟩
  · obtain ⟨before, behind, hline, rfl⟩ :=
      CodeLine.exists_before_of_heading Lexicon.julia_regular hheading
    refine ⟨before, behind, ?_⟩
    rw [hline]
    exact Text.splitAtByte?_byteSize_append before (name ++ behind)
  · exact Slicing.run_scanLine { config } Lexicon.julia_regular state line

/-- A receiver and a name with characters of two bytes, and a word that is only the beginning of what
stands at the cursor. -/
theorem slices_never_fail_multibyte :
    let line : Text := "  function σ.größe!(x)".toList
    let moves : List Move := [.skipBlank, .eatAny ["if".toList, "function".toList], .bump, .peek,
      .skipWhile Text.isWord, .bump]
    let c : Cursor := ⟨14, "größe!(x)".toList⟩
    let refused : Move := .eat "grö".toList
    Slicing.moveAll moves (Slicer.ofLine line) =
        some ([.nothing, .literal (some "function".toList), .character (some ' '),
          .character (some 'σ'), .nothing, .character (some '.')], c.slicer line) ∧
      c.OnBoundary line ∧
      (c.move refused).1 = .eaten false ∧ (c.move refused).2 = c ∧
      (∃ before behind, line.splitAtByte? 14 = some (before, "größe!".toList ++ behind)) ∧
      ((Slicing.scanLine {} {}).run' (Slicer.ofLine line)).map (·.tag) =
        some (some ⟨"größe!".toList, .singletonMethod, ⟨1, 14⟩, none⟩) := by
  intro line moves c refused
  obtain ⟨hmoves, hheading, hscan⟩ := slices_never_fail line
  obtain ⟨hrun, hplace, hmove⟩ := hmoves moves
  have hend : (Cursor.ofLine line).moveAll moves =
      ([.nothing, .literal (some "function".toList), .character (some ' '), .character (some 'σ'),
        .nothing, .character (some '.')], c) := by decide +kernel
  rw [hend] at hrun hplace hmove
  have hrefused : (c.move refused).1 = .eaten false := by decide +kernel
  have hread : (CodeLine.read Lexicon.julia line).heading =
      some (.named .singletonMethod "größe!".toList 14) := by decide +kernel
  have htag : (Scanner.scanLine {} {} line).tag =
      some ⟨"größe!".toList, .singletonMethod, ⟨1, 14⟩, none⟩ := by decide +kernel
  refine ⟨hrun, hplace, hrefused, (hmove refused).2 ?_, hheading _ _ _ hread, ?_⟩
  · rw [hrefused]
    rfl
  · rw [hscan {} {}, Option.map_some, htag]


end Tagline
