import Tagline.Scanner.Run

/-!
# Tags on demand

A stream of tags takes lines only as it is asked for tags: it stops behind the line of the tag that it
returns, and goes on from there the next time.
-/

namespace Tagline

/-- The first tag of the lines, with the state and the lines behind it. -/
def Scanner.nextTag (s : Scanner) (state : ScanState) :
    List Text → Option Tag × ScanState × List Text
  | [] => (none, state, [])
  | line :: lines =>
    match (s.scanLine state line).tag with
    | some t => (some t, (s.scanLine state line).state, lines)
    | none => nextTag s (s.scanLine state line).state lines

/-- The tags of some lines, found one by one. -/
structure TagStream where
  scanner : Scanner
  /-- The state behind the lines taken so far. -/
  state : ScanState
  /-- The lines not yet taken. -/
  lines : List Text

namespace TagStream

def ofLines (s : Scanner) (lines : List Text) : TagStream := ⟨s, {}, lines⟩

def ofText (s : Scanner) (t : Text) : TagStream := ofLines s (Text.lines t)

def next (stream : TagStream) : Option Tag × TagStream :=
  let found := stream.scanner.nextTag stream.state stream.lines
  (found.1, ⟨stream.scanner, found.2.1, found.2.2⟩)

end TagStream

/-! ## Lemmas -/

theorem Scanner.length_nextTag_lt {s : Scanner} {state : ScanState} {lines : List Text} {t : Tag}
    (h : (s.nextTag state lines).1 = some t) :
    (s.nextTag state lines).2.2.length < lines.length := by
  induction lines generalizing state with
  | nil => simp [nextTag] at h
  | cons line lines ih =>
    simp only [nextTag] at h ⊢
    split at h
    · simp
    · next ht =>
      have := ih h
      simp only [List.length_cons]
      omega

namespace TagStream

def toList (stream : TagStream) : List Tag :=
  match _h : stream.next with
  | (none, _) => []
  | (some t, behind) => t :: toList behind
termination_by stream.lines.length
decreasing_by
  have h1 : stream.next.1 = some t := by rw [_h]
  have h2 : behind = stream.next.2 := by rw [_h]
  rw [h2]
  exact Scanner.length_nextTag_lt h1

end TagStream

end Tagline
