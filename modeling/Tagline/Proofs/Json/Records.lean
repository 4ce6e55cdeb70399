import Tagline.Proofs.Json.Strings

/-!
# Records and lists

An object is read back as a record if each of its members is a field of the record whose value is read
(Fills), and what the members fill in is complete

    (record field start complete? fields).Takes (object members) a  (record_takes)

and an array of objects as the list of what its elements are read as

    (list d).Takes (array (as.map text)) as                         (list_takes)

The loop over the members, or over the elements, goes round once for each of them, with the comma in
front of it if it is not the first.
-/

namespace Tagline.Json

/-! ## Definitions -/

/-- A part of an object or array, with the comma in front of it if it is not the first. -/
def part (first : Bool) (t : Text) : Text := if first then t else ',' :: t

def parts : Bool → List Text → Text
  | _, [] => []
  | first, t :: ts => part first t ++ parts false ts

/-- Members fill in a record: each of them is a field of it, and its value is read. -/
inductive Fills {σ : Type} (field : Text → σ → Member σ) : σ → List Text → σ → Prop
  | nil (s : σ) : Fills field s [] s
  | cons {s s' s'' : σ} {key value : Text} {d : Decoder σ} {members : List Text}
    (hkey : field key s = .field d) (hvalue : d.Reads value s') (hrest : Fills field s' members s'') :
    Fills field s (member key value :: members) s''

/-! ## Parts -/

theorem parts_cons_append (first : Bool) (t u : Text) (ts : List Text) :
    parts first (t :: u :: ts) = part first t ++ [','] ++ parts true (u :: ts) := by
  simp only [parts, part, Bool.false_eq_true, if_false, if_true, List.append_assoc, List.cons_append,
    List.nil_append]

/-- All parts are joined by commas. -/
theorem intercalate_eq_parts (ts : List Text) : [','].intercalate ts = parts true ts := by
  induction ts with
  | nil => rfl
  | cons t ts ih =>
    cases ts with
    | nil => rfl
    | cons u ts =>
      rw [List.intercalate_cons_cons, ih, parts_cons_append]
      rfl

/-- What follows a part shows where it ends. -/
theorem Input.Delimits.prepend_parts {i : Input} (hi : i.Delimits) (ts : List Text) :
    (i.prepend (parts false ts)).Delimits := by
  cases ts with
  | nil => exact hi
  | cons t ts =>
    show (i.prepend (',' :: (t ++ parts false ts))).Delimits
    rw [Input.prepend_cons _ _ (by decide)]
    exact Input.delimits_push _ (.inl rfl)

theorem size_lt_prepend_part (i : Input) (first : Bool) {t : Text} (ht : t ≠ []) :
    i.size < (i.prepend (part first t)).size := by
  refine i.size_lt_prepend _ ?_
  cases first with
  | true => exact ht
  | false => exact List.cons_ne_nil _ _

namespace Decoder

variable {α β σ : Type}

theorem Reads.map {d : Decoder α} {t : Text} {a : α} (h : d.Reads t a) (f : α → β) :
    (f <$> d).Reads t (f a) := fun rest hrest => map_of_ok (h rest hrest)

/-! ## Objects -/

section
variable {field : Text → σ → Member σ} {s s' : σ}

/-- Behind a comma a member is read like the first. -/
theorem memberStep_comma (i : Input) :
    memberStep field (false, s) ((i.push (ascii '"')).push (ascii ',')) =
      memberStep field (true, s) (i.push (ascii '"')) := by
  rw [memberStep, bind_of_ok (token_push _ (by decide)), if_neg (by decide)]
  show (expect (ascii ',') >>= _) _ = _
  rw [bind_of_ok (expect_push _ (by decide))]
  symm
  rw [memberStep, bind_of_ok (token_push _ (by decide)), if_neg (by decide)]
  rfl

theorem memberStep_close (first : Bool) (i : Input) :
    memberStep field (first, s) (i.push (ascii '\x7d')) = .ok (.inr s, i.push (ascii '\x7d')) := by
  rw [memberStep, bind_of_ok (token_push _ (by decide)), if_pos rfl, pure_apply]

theorem memberStep_field {key value : Text} {d : Decoder σ} {i : Input} (hi : i.Delimits)
    (hkey : field key s = .field d) (hvalue : d.Reads value s') (first : Bool) :
    memberStep field (first, s) (i.prepend (part first (member key value))) =
      .ok (.inl (false, s'), i) := by
  have hquote : member key value = '"' :: ((key.flatMap escapeChar ++ ['"']) ++ ':' :: value) := by
    rw [member, quote, List.cons_append, List.cons_append]
  have hfirst : memberStep field (true, s) (i.prepend (member key value)) = .ok (.inl (false, s'), i) := by
    rw [hquote, Input.prepend_cons _ _ (by decide), Input.prepend_append, memberStep,
      bind_of_ok (token_push _ (by decide)), if_neg (by decide)]
    show (expect (ascii '"') >>= _) _ = _
    rw [bind_of_ok (expect_push _ (by decide)), bind_of_ok (stringTail_takes key _), hkey,
      Input.prepend_cons _ _ (by decide)]
    show (expect (ascii ':') >>= _) _ = _
    rw [bind_of_ok (expect_push _ (by decide)), bind_of_ok (hvalue i hi), pure_apply]
  cases first with
  | true => exact hfirst
  | false =>
    rw [hquote, Input.prepend_cons _ _ (by decide)] at hfirst
    rw [part, if_neg (by decide), hquote, Input.prepend_cons _ _ (by decide),
      Input.prepend_cons _ _ (by decide), memberStep_comma, hfirst]

/-- The loop over the members ends at the closing bracket. -/
theorem loop_memberStep {members : List Text} (h : Fills field s members s') (first : Bool)
    (rest : Input) :
    loop (memberStep field) (first, s) ((rest.push (ascii '\x7d')).prepend (parts first members)) =
      .ok (s', rest.push (ascii '\x7d')) := by
  have hclose : (rest.push (ascii '\x7d')).Delimits := Input.delimits_push _ (.inr (.inl rfl))
  induction h generalizing first with
  | nil s => exact loop_of_inr (memberStep_close first rest)
  | @cons s s' s'' key value d members hkey hvalue _ ih =>
    have hstep := memberStep_field (hclose.prepend_parts members) hkey hvalue first
    rw [parts, Input.prepend_append,
      loop_of_inl hstep (size_lt_prepend_part _ first (List.cons_ne_nil _ _))]
    exact ih false

/-- **A record** is read back from an object. -/
theorem record_takes {start : σ} {complete? : σ → Option α} {fields : Decoder α} {members : List Text}
    {a : α} (h : Fills field start members s) (ha : complete? s = some a) :
    (record field start complete? fields).Takes (object members) a := by
  intro rest
  have hloop := loop_memberStep h true rest
  rw [object, intercalate_eq_parts, List.cons_append, Input.prepend_cons _ _ (by decide),
    Input.prepend_append, Input.prepend_cons _ _ (by decide), Input.prepend_nil, record,
    bind_of_ok (token_push _ (by decide)), if_pos rfl, bind_of_ok (drop_push _), bind_of_ok hloop, ha]
  show (expect (ascii '\x7d') >>= _) _ = _
  rw [bind_of_ok (expect_push _ (by decide)), pure_apply]

end

/-! ## Arrays -/

section
variable {d : Decoder α} {t : Text} {a : α}

/-- An element that is an object. -/
theorem element?_part {i : Input} (hi : i.Delimits) (ha : d.Reads ('\x7b' :: t) a) (first : Bool) :
    element? first d (i.prepend (part first ('\x7b' :: t))) = .ok (some a, i) := by
  have hread := ha i hi
  rw [Input.prepend_cons _ _ (by decide)] at hread
  cases first with
  | true =>
    rw [part, if_pos rfl, Input.prepend_cons _ _ (by decide), element?,
      bind_of_ok (token_push _ (by decide)), if_neg (by decide), if_pos rfl, bind_of_ok hread,
      pure_apply]
  | false =>
    rw [part, if_neg (by decide), Input.prepend_cons _ _ (by decide),
      Input.prepend_cons _ _ (by decide), element?, bind_of_ok (token_push _ (by decide)),
      if_neg (by decide), if_neg (by decide), if_pos rfl, bind_of_ok (drop_push _),
      bind_of_ok (token_push _ (by decide))]
    show (check true >>= _) _ = _
    rw [bind_of_ok (check_true _), bind_of_ok hread, pure_apply]

/-- The loop over the elements ends at the closing bracket. -/
theorem loop_listStep {text : α → Text} {as : List α}
    (h : ∀ a ∈ as, ∃ t, text a = '\x7b' :: t ∧ d.Reads ('\x7b' :: t) a) (before : List α) (rest : Input) :
    loop (listStep d) before ((rest.push (ascii ']')).prepend (parts before.isEmpty (as.map text))) =
      .ok (before.reverse ++ as, rest.push (ascii ']')) := by
  have hclose : (rest.push (ascii ']')).Delimits := Input.delimits_push _ (.inr (.inr rfl))
  induction as generalizing before with
  | nil =>
    have helement : element? before.isEmpty d (rest.push (ascii ']')) =
        .ok (none, rest.push (ascii ']')) := by
      rw [element?, bind_of_ok (token_push _ (by decide)), if_pos rfl, pure_apply]
    have hstep : listStep d before (rest.push (ascii ']')) =
        .ok (.inr before.reverse, rest.push (ascii ']')) := by
      rw [listStep, bind_of_ok helement]
      rfl
    rw [List.append_nil]
    exact loop_of_inr hstep
  | cons a as ih =>
    obtain ⟨t, ht, ha⟩ := h a List.mem_cons_self
    have helement := element?_part (hclose.prepend_parts (as.map text)) ha before.isEmpty
    have hstep : listStep d before (((rest.push (ascii ']')).prepend (parts false (as.map text))).prepend
        (part before.isEmpty (text a))) =
        .ok (.inl (a :: before), (rest.push (ascii ']')).prepend (parts false (as.map text))) := by
      rw [ht, listStep, bind_of_ok helement]
      rfl
    have hne : text a ≠ [] := by rw [ht]; exact List.cons_ne_nil _ _
    rw [List.map_cons, parts, Input.prepend_append,
      loop_of_inl hstep (size_lt_prepend_part _ before.isEmpty hne)]
    have hrest := ih (fun b hb => h b (List.mem_cons_of_mem a hb)) (a :: before)
    rwa [List.reverse_cons, List.append_assoc, List.singleton_append] at hrest

/-- **A list** of records is read back from an array. -/
theorem list_takes {text : α → Text} {as : List α}
    (h : ∀ a ∈ as, ∃ t, text a = '\x7b' :: t ∧ d.Reads ('\x7b' :: t) a) :
    (list d).Takes (array (as.map text)) as := by
  intro rest
  have hloop : loop (listStep d) [] ((rest.push (ascii ']')).prepend (parts true (as.map text))) =
      .ok (as, rest.push (ascii ']')) := loop_listStep h [] rest
  rw [array, intercalate_eq_parts, List.cons_append, Input.prepend_cons _ _ (by decide),
    Input.prepend_append, Input.prepend_cons _ _ (by decide), Input.prepend_nil, list,
    bind_of_ok (token_push _ (by decide)), if_pos rfl, bind_of_ok (drop_push _), bind_of_ok hloop,
    bind_of_ok (expect_push _ (by decide)), pure_apply]

theorem optional_takes (h : d.Takes ('\x7b' :: t) a) : (optional d).Takes ('\x7b' :: t) (some a) := by
  intro rest
  have hread := h rest
  rw [Input.prepend_cons _ _ (by decide)] at hread ⊢
  rw [optional, bind_of_ok (token_push _ (by decide)), if_neg (by decide), bind_of_ok hread, pure_apply]

end

/-! ## Whole texts -/

/-- A text that a decoder takes is decoded. -/
theorem decode_of_takes {d : Decoder α} {t : Text} {a : α} (h : d.Takes t a) : decode d t = .ok a := by
  have hend : token? (.ofText []) = .ok (none, .ofText []) := by
    rw [token?, bind_of_ok (takeWhile_ofText_nil isSpace)]
    rfl
  rw [decode, run, Input.ofText_eq_prepend, h]
  show (token? (.ofText [])).bind _ = _
  rw [hend]
  rfl

end Decoder

end Tagline.Json
