import Tagline.Scanner.Basic
import Tagline.Text.Lines

/-!
# Scanning lines and texts

A scan starts with no open scope, and the end of the lines ends it, whatever is still open. Its tags
can be collected, or handed one by one to a sink.
-/

namespace Tagline.Scanner

/-- What each of the lines does, one after another. -/
def results (s : Scanner) (state : ScanState) : List Text → List LineResult
  | [] => []
  | line :: lines => s.scanLine state line :: results s (s.scanLine state line).state lines

def stateAfter (s : Scanner) (state : ScanState) (lines : List Text) : ScanState :=
  lines.foldl (fun state line => (s.scanLine state line).state) state

def tagsFrom (s : Scanner) (state : ScanState) (lines : List Text) : List Tag :=
  (s.results state lines).filterMap (·.tag)

def eventsFrom (s : Scanner) (state : ScanState) (lines : List Text) : List Event :=
  (s.results state lines).flatMap (·.events)

/-- The tags of all lines of an input. -/
def scanLines (s : Scanner) (lines : List Text) : List Tag := s.tagsFrom {} lines

def scanText (s : Scanner) (t : Text) : List Tag := s.scanLines (Text.lines t)

/-- Hands the tags of the lines to a sink, which takes them up one after another. -/
def scanInto {σ : Type} (s : Scanner) (sink : σ → Tag → σ) (start : σ) (lines : List Text) : σ :=
  (s.scanLines lines).foldl sink start

/-! ## Lemmas -/

@[simp] theorem results_nil (s : Scanner) (state : ScanState) : s.results state [] = [] := rfl

theorem results_append (s : Scanner) (state : ScanState) (ls ms : List Text) :
    s.results state (ls ++ ms) = s.results state ls ++ s.results (s.stateAfter state ls) ms := by
  induction ls generalizing state with
  | nil => rfl
  | cons line ls ih =>
    simp only [List.cons_append, results, ih]
    rfl

theorem tagsFrom_append (s : Scanner) (state : ScanState) (ls ms : List Text) :
    s.tagsFrom state (ls ++ ms) = s.tagsFrom state ls ++ s.tagsFrom (s.stateAfter state ls) ms := by
  unfold tagsFrom
  rw [results_append, List.filterMap_append]

end Tagline.Scanner
