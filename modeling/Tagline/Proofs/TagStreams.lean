import Tagline.Proofs.Runs
import Tagline.Scanner.Stream

/-!
# Streams of tags

A stream of tags hands out the tags that are found when all lines are scanned at once, and takes no
line before it has to. A call takes lines that give just the tag it returns (exists_taken). So behind
`n` calls the lines taken are those that give the first `n` tags (HandedOut), and the call behind them

    ((ofLines s lines).behind n).next.1 = (s.scanLines lines)[n]?

has taken the lines up to that of its tag, or all lines if there is no further tag
(tags_on_demand). Collecting a stream is scanning its lines (toList_eq_tagsFrom).
-/

namespace Tagline

/-! ## Definitions -/

namespace TagStream

def behind (stream : TagStream) : Nat → TagStream
  | 0 => stream
  | n + 1 => (stream.behind n).next.2

/-- A stream over some lines has handed out their first `n` tags: the lines it has taken give just
these, and it stands behind them. -/
structure HandedOut (s : Scanner) (lines taken : List Text) (n : Nat) (stream : TagStream) : Prop where
  scanner : stream.scanner = s
  split : lines = taken ++ stream.lines
  state : stream.state = s.stateAfter {} taken
  tags : s.tagsFrom {} taken = (s.scanLines lines).take n

end TagStream

/-! ## One call -/

/-- **A call** takes lines that give the tag it returns and no other one. The last of them is the line
of the tag, and where no tag is left, they are all lines. -/
theorem Scanner.exists_taken (s : Scanner) (state : ScanState) (lines : List Text) :
    ∃ taken, lines = taken ++ (s.nextTag state lines).2.2 ∧
      (s.nextTag state lines).2.1 = s.stateAfter state taken ∧
      s.tagsFrom state taken = (s.nextTag state lines).1.toList ∧
      match (s.nextTag state lines).1 with
      | some t => t.line = state.line + taken.length
      | none => (s.nextTag state lines).2.2 = [] := by
  induction lines generalizing state with
  | nil => exact ⟨[], rfl, rfl, rfl, rfl⟩
  | cons line lines ih =>
    cases htag : (s.scanLine state line).tag with
    | some t =>
      have hnext : s.nextTag state (line :: lines) =
          (some t, (s.scanLine state line).state, lines) := by
        simp only [nextTag, htag]
      rw [hnext]
      refine ⟨[line], rfl, rfl, ?_, line_of_scanLine_tag htag⟩
      rw [tagsFrom_cons, htag]
      rfl
    | none =>
      have hnext : s.nextTag state (line :: lines) =
          s.nextTag (s.scanLine state line).state lines := by
        simp only [nextTag, htag]
      obtain ⟨taken, hlines, hstate, htags, hlast⟩ := ih (s.scanLine state line).state
      rw [hnext]
      refine ⟨line :: taken, ?_, hstate, ?_, ?_⟩
      · rw [List.cons_append, ← hlines]
      · rw [tagsFrom_cons, htag, htags]
        rfl
      · cases hfound : (s.nextTag (s.scanLine state line).state lines).1 with
        | none => rwa [hfound] at hlast
        | some t =>
          rw [hfound] at hlast
          dsimp only at hlast ⊢
          rw [hlast, line_scanLine, List.length_cons]
          omega

namespace TagStream

/-- A call returns the first of the tags that are left. -/
theorem next_fst (stream : TagStream) :
    stream.next.1 = (stream.scanner.tagsFrom stream.state stream.lines).head? := by
  obtain ⟨taken, hlines, hstate, htags, hlast⟩ :=
    stream.scanner.exists_taken stream.state stream.lines
  show (stream.scanner.nextTag stream.state stream.lines).1 = _
  cases hfound : (stream.scanner.nextTag stream.state stream.lines).1 with
  | some t =>
    rw [hlines, Scanner.tagsFrom_append, htags, hfound]
    rfl
  | none =>
    rw [hfound] at htags hlast
    rw [hlines, hlast, List.append_nil, htags]
    rfl

/-! ## Any number of calls -/

section
variable {s : Scanner} {lines taken : List Text} {n : Nat} {stream : TagStream}

/-- The tags that are left are those not yet handed out. -/
theorem HandedOut.tagsFrom_eq_drop (h : HandedOut s lines taken n stream) :
    s.tagsFrom stream.state stream.lines = (s.scanLines lines).drop n := by
  have hall : s.scanLines lines = s.tagsFrom {} taken ++ s.tagsFrom stream.state stream.lines := by
    rw [h.state, ← Scanner.tagsFrom_append, ← h.split]
    rfl
  rw [h.tags] at hall
  exact (List.append_cancel_left ((List.take_append_drop n _).trans hall)).symm

/-- The next tag that is handed out. -/
theorem HandedOut.next_fst (h : HandedOut s lines taken n stream) :
    stream.next.1 = (s.scanLines lines)[n]? := by
  rw [TagStream.next_fst, h.scanner, h.tagsFrom_eq_drop, List.head?_drop]

/-- **One more call** hands out one more tag, and takes the lines up to that of the tag. -/
theorem HandedOut.exists_next (h : HandedOut s lines taken n stream) :
    ∃ taken', HandedOut s lines taken' (n + 1) stream.next.2 ∧
      match stream.next.1 with
      | some t => t.line = taken'.length
      | none => stream.next.2.lines = [] := by
  obtain ⟨more, hlines, hstate, htags, hlast⟩ := s.exists_taken stream.state stream.lines
  have hnext : stream.next.1 = (s.nextTag stream.state stream.lines).1 := by
    unfold next
    rw [h.scanner]
  have hbehind : stream.next.2 = ⟨s, (s.nextTag stream.state stream.lines).2.1,
      (s.nextTag stream.state stream.lines).2.2⟩ := by
    unfold next
    rw [h.scanner]
  refine ⟨taken ++ more, ⟨?_, ?_, ?_, ?_⟩, ?_⟩
  · rw [hbehind]
  · rw [hbehind, List.append_assoc, ← hlines]
    exact h.split
  · rw [hbehind, Scanner.stateAfter_append, ← h.state]
    exact hstate
  · rw [Scanner.tagsFrom_append, h.tags, ← h.state, htags, ← hnext, h.next_fst,
      List.take_add_one]
  · rw [hnext, hbehind]
    cases hfound : (s.nextTag stream.state stream.lines).1 with
    | none => rwa [hfound] at hlast
    | some t =>
      rw [hfound] at hlast
      dsimp only at hlast ⊢
      rw [hlast, h.state, Scanner.line_stateAfter_start, List.length_append]

end

/-- **Behind any number of calls** the tags handed out are the first ones. -/
theorem exists_handedOut (s : Scanner) (lines : List Text) (n : Nat) :
    ∃ taken, HandedOut s lines taken n ((ofLines s lines).behind n) := by
  induction n with
  | zero => exact ⟨[], rfl, rfl, rfl, rfl⟩
  | succ n ih =>
    obtain ⟨taken, h⟩ := ih
    obtain ⟨taken', h', -⟩ := h.exists_next
    exact ⟨taken', h'⟩

/-- A call returns the tag with its number. -/
theorem behind_next_fst (s : Scanner) (lines : List Text) (n : Nat) :
    ((ofLines s lines).behind n).next.1 = (s.scanLines lines)[n]? := by
  obtain ⟨taken, h⟩ := exists_handedOut s lines n
  exact h.next_fst

/-- The lines that are left behind a call that returns a tag. The lines taken give the tags so far. -/
theorem behind_of_tag {s : Scanner} {lines : List Text} {n : Nat} {t : Tag}
    (ht : (s.scanLines lines)[n]? = some t) :
    t.line ≤ lines.length ∧ ((ofLines s lines).behind (n + 1)).lines = lines.drop t.line ∧
      s.tagsFrom {} (lines.take t.line) = (s.scanLines lines).take (n + 1) := by
  obtain ⟨taken, h⟩ := exists_handedOut s lines n
  obtain ⟨taken', h', hlast⟩ := h.exists_next
  rw [h.next_fst, ht] at hlast
  dsimp only at hlast
  have hlines : lines = taken' ++ ((ofLines s lines).behind (n + 1)).lines := h'.split
  have htake : lines.take t.line = taken' :=
    (congrArg (List.take t.line) hlines).trans (List.take_left' hlast.symm)
  have hdrop : lines.drop t.line = ((ofLines s lines).behind (n + 1)).lines :=
    (congrArg (List.drop t.line) hlines).trans (List.drop_left' hlast.symm)
  refine ⟨?_, hdrop.symm, ?_⟩
  · have hlength := congrArg List.length hlines
    rw [List.length_append] at hlength
    omega
  · rw [htake]
    exact h'.tags

/-- Where no tag is left, all lines are taken. -/
theorem behind_of_none {s : Scanner} {lines : List Text} {n : Nat}
    (hnone : (s.scanLines lines)[n]? = none) : ((ofLines s lines).behind (n + 1)).lines = [] := by
  obtain ⟨taken, h⟩ := exists_handedOut s lines n
  obtain ⟨taken', -, hlast⟩ := h.exists_next
  rw [h.next_fst, hnone] at hlast
  exact hlast

/-- Behind the line of a tag there can be any other lines: the same tags are handed out before. -/
theorem behind_of_other {s : Scanner} {lines : List Text} {n : Nat} {t : Tag}
    (ht : (s.scanLines lines)[n]? = some t) (other : List Text) :
    (s.scanLines (lines.take t.line ++ other)).take (n + 1) = (s.scanLines lines).take (n + 1) ∧
      ((ofLines s (lines.take t.line ++ other)).behind (n + 1)).lines = other := by
  obtain ⟨hle, -, htags⟩ := behind_of_tag ht
  have hn : n < (s.scanLines lines).length := (List.getElem?_eq_some_iff.1 ht).1
  have hlength : ((s.scanLines lines).take (n + 1)).length = n + 1 := by
    rw [List.length_take]
    omega
  have hsame : (s.scanLines (lines.take t.line ++ other)).take (n + 1) =
      (s.scanLines lines).take (n + 1) := by
    show (s.tagsFrom {} (lines.take t.line ++ other)).take (n + 1) = _
    rw [Scanner.tagsFrom_append, htags]
    exact List.take_left' hlength
  have ht' : (s.scanLines (lines.take t.line ++ other))[n]? = some t := by
    rw [← List.getElem?_take_of_lt (Nat.lt_succ_self n), hsame,
      List.getElem?_take_of_lt (Nat.lt_succ_self n), ht]
  refine ⟨hsame, ?_⟩
  rw [(behind_of_tag ht').2.1]
  have hcut : (lines.take t.line).length = t.line := by
    rw [List.length_take]
    omega
  exact List.drop_left' hcut

/-! ## Collecting -/

/-- **Collecting a stream** is scanning its lines. -/
theorem toList_eq_tagsFrom (stream : TagStream) :
    stream.toList = stream.scanner.tagsFrom stream.state stream.lines := by
  fun_induction toList stream with
  | case1 stream behind hnext =>
    have hhead := stream.next_fst
    rw [hnext] at hhead
    exact (List.head?_eq_none_iff.1 hhead.symm).symm
  | case2 stream t behind hnext ih =>
    obtain ⟨taken, hlines, hstate, htags, -⟩ :=
      stream.scanner.exists_taken stream.state stream.lines
    have hfound : (stream.scanner.nextTag stream.state stream.lines).1 = some t :=
      congrArg Prod.fst hnext
    have hbehind : behind = stream.next.2 := by rw [hnext]
    rw [ih, hlines, Scanner.tagsFrom_append, htags, hfound, hbehind, ← hstate]
    rfl

/-! ## Top theorem -/

/-- **Tags on demand.** Calls are counted from zero. A call returns the tag with its number among the
tags of all lines. If there is one, the lines taken so far are those up to the line of the tag; what
stands behind that line has no part in the tags returned so far, and is left as it is. If there is
none, all lines are taken, and every later call returns none as well. -/
theorem tags_on_demand (config : Config) (lines : List Text) (n : Nat) :
    let s : Scanner := { config }
    let call := ((ofLines s lines).behind n).next
    call.1 = (s.scanLines lines)[n]? ∧
      match call.1 with
      | some t =>
        t.line ≤ lines.length ∧ call.2.lines = lines.drop t.line ∧
          ∀ other, let again := ofLines s (lines.take t.line ++ other)
            (List.range (n + 1)).map (fun i => (again.behind i).next.1) =
                (List.range (n + 1)).map (fun i => ((ofLines s lines).behind i).next.1) ∧
              (again.behind (n + 1)).lines = other
      | none => call.2.lines = [] ∧ ∀ m, ((ofLines s lines).behind (n + m)).next.1 = none := by
  intro s call
  have hcall : call.1 = (s.scanLines lines)[n]? := behind_next_fst s lines n
  refine ⟨hcall, ?_⟩
  rw [hcall]
  cases ht : (s.scanLines lines)[n]? with
  | some t =>
    obtain ⟨hle, hdrop, -⟩ := behind_of_tag ht
    refine ⟨hle, hdrop, ?_⟩
    intro other again
    obtain ⟨hsame, hleft⟩ := behind_of_other ht other
    refine ⟨?_, hleft⟩
    apply List.map_congr_left
    intro i hi
    have hi : i < n + 1 := List.mem_range.1 hi
    rw [behind_next_fst, behind_next_fst, ← List.getElem?_take_of_lt hi, hsame,
      List.getElem?_take_of_lt hi]
  | none =>
    refine ⟨behind_of_none ht, ?_⟩
    intro m
    rw [behind_next_fst, List.getElem?_eq_none_iff]
    have hle := List.getElem?_eq_none_iff.1 ht
    omega

/-- The second call stops behind the line of the second tag. -/
example : ((ofLines {} (["module A", "x = 1", "function f(x)", "z = 3"].map String.toList)).behind
    2).lines = ["z = 3".toList] := by
  decide +kernel

end TagStream

end Tagline
