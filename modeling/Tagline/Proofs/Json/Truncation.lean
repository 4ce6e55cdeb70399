import Tagline.Proofs.Json.TagTexts

/-!
# Texts that break off

Where the last bytes of a text are missing (Input.Lacks), a decoder cannot tell what was written, and
it asks for more

    i.Lacks t missing → missing ≠ [] → d i = .error .unfinished     (Decoder.Breaks)

A numeral that breaks off is a numeral again, of a smaller number, so it is taken for that; but then
all of the input is used up, and what reads on asks for more (Decoder.Drains). An object or array ends
with a bracket, which is missing wherever it breaks off, so it is never taken for a smaller one
(record_breaks, list_breaks).
-/

namespace Tagline.Json

/-! ## Definitions -/

/-- The input ends where some bytes are missing that would complete the text. -/
structure Input.Lacks (i : Input) (t : Text) (missing : List UInt8) : Prop where
  source : i.source = []
  bytes : i.bytes ++ missing = Utf8.encode t

namespace Decoder

variable {α σ : Type}

/-- Where the text breaks off, the decoder asks for more. -/
def Breaks (d : Decoder α) (t : Text) : Prop :=
  ∀ i missing, Input.Lacks i t missing → missing ≠ [] → d i = .error .unfinished

/-- Wherever the text ends, the decoder asks for more or takes all that is there. -/
def Drains (d : Decoder α) (t : Text) : Prop :=
  ∀ i missing, Input.Lacks i t missing →
    d i = .error .unfinished ∨ ∃ a, d i = .ok (a, .ofText [])

/-- The decoder reads the text where the value is delimited, and where the text ends it reads no
further. -/
structure Follows (d : Decoder α) (t : Text) (a : α) : Prop where
  reads : d.Reads t a
  drains : d.Drains t

/-- A step of a loop takes the text and goes on, and where the text ends it reads no further. -/
structure Round (step : σ → Decoder (σ ⊕ α)) (s : σ) (t : Text) (s' : σ) : Prop where
  ne_nil : t ≠ []
  reads : (step s).Reads t (.inl s')
  drains : ∀ i missing, Input.Lacks i t missing →
    step s i = .error .unfinished ∨ ∃ s'', step s i = .ok (.inl s'', .ofText [])

/-- A loop goes through the parts of an object or array, one round for each. -/
inductive Rounds (step : σ → Decoder (σ ⊕ α)) : Bool → σ → List Text → σ → Prop
  | nil (first : Bool) (s : σ) : Rounds step first s [] s
  | cons {first : Bool} {s s' s'' : σ} {t : Text} {ts : List Text}
    (hround : Round step s (part first t) s') (hrest : Rounds step false s' ts s'') :
    Rounds step first s (t :: ts) s''

end Decoder

/-! ## Where a text ends -/

namespace Input.Lacks

variable {i : Input} {s t : Text} {c : Char} {missing : List UInt8}

theorem eq_ofText (h : i.Lacks t []) : i = ofText t := by
  obtain ⟨bytes, source⟩ := i
  obtain ⟨hsource, hbytes⟩ := h
  dsimp only at hsource hbytes
  rw [List.append_nil] at hbytes
  rw [hsource, hbytes]
  rfl

theorem of_nil (h : i.Lacks [] missing) : i = ofText [] ∧ missing = [] := by
  have hbytes : i.bytes ++ missing = [] := h.bytes
  obtain rfl : missing = [] := (List.append_eq_nil_iff.1 hbytes).2
  exact ⟨h.eq_ofText, rfl⟩

/-- Of two texts, the first breaks off, or it is complete and the second one ends. -/
theorem of_append (h : i.Lacks (s ++ t) missing) :
    (∃ more, more ≠ [] ∧ i.Lacks s more) ∨ ∃ j, Lacks j t missing ∧ i = j.prepend s := by
  have hbytes := h.bytes
  rw [Utf8.encode_append, List.append_eq_append_iff] at hbytes
  rcases hbytes with ⟨more, hs, hmissing⟩ | ⟨bytes, hi, ht⟩
  · by_cases hmore : more = []
    · right
      refine ⟨ofText [], ⟨rfl, ?_⟩, ?_⟩
      · rw [hmissing, hmore]
        rfl
      · rw [hmore, List.append_nil] at hs
        have hwhole : i.Lacks s [] := ⟨h.source, by rw [List.append_nil, hs]⟩
        rw [hwhole.eq_ofText, ofText_eq_prepend]
    · exact Or.inl ⟨more, hmore, h.source, hs.symm⟩
  · right
    refine ⟨⟨bytes, []⟩, ⟨rfl, ht.symm⟩, ?_⟩
    obtain ⟨ibytes, isource⟩ := i
    have hsource : isource = [] := h.source
    have hbytes : ibytes = Utf8.encode s ++ bytes := hi
    rw [hsource, hbytes]
    rfl

/-- Behind a character of one byte, either nothing is there or a part of the text. -/
theorem of_cons (hc : c.toNat < 0x80) (h : i.Lacks (c :: t) missing) :
    i = ofText [] ∧ missing ≠ [] ∨ ∃ j, Lacks j t missing ∧ i = j.push (ascii c) := by
  have hbytes := h.bytes
  rw [Utf8.encode_cons, utf8EncodeChar_of_ascii hc] at hbytes
  cases hi : i.bytes with
  | nil =>
    left
    rw [hi] at hbytes
    have hempty : i.Lacks [] [] := ⟨h.source, by rw [hi]; rfl⟩
    refine ⟨hempty.eq_ofText, ?_⟩
    intro hmissing
    rw [hmissing] at hbytes
    cases hbytes
  | cons b bytes =>
    right
    rw [hi, List.cons_append, List.singleton_append, List.cons.injEq] at hbytes
    refine ⟨{ i with bytes := bytes }, ⟨h.source, hbytes.2⟩, ?_⟩
    show i = ⟨ascii c :: bytes, i.source⟩
    rw [← hbytes.1, ← hi]

/-- A text that ends before a bracket or a part of one shows where a value in front of it ends. -/
theorem delimits_parts {close : Char} (hclose : close = '\x7d' ∨ close = ']') {ts : List Text}
    (h : i.Lacks (parts false ts ++ [close]) missing) : i = ofText [] ∨ i.Delimits := by
  cases ts with
  | nil =>
    have hlow : close.toNat < 0x80 := by rcases hclose with rfl | rfl <;> decide
    rcases h.of_cons hlow with ⟨rfl, -⟩ | ⟨j, -, rfl⟩
    · exact Or.inl rfl
    · right
      apply delimits_push
      rcases hclose with rfl | rfl
      · exact Or.inr (Or.inl rfl)
      · exact Or.inr (Or.inr rfl)
  | cons t ts =>
    have hcomma : i.Lacks (',' :: (t ++ parts false ts ++ [close])) missing := h
    rcases hcomma.of_cons (by decide) with ⟨rfl, -⟩ | ⟨j, -, rfl⟩
    · exact Or.inl rfl
    · exact Or.inr (delimits_push j (Or.inl rfl))

end Input.Lacks

namespace Decoder

variable {α β σ : Type}

/-! ## What follows a text -/

section
variable {d : Decoder α} {t : Text} {a : α}

theorem Takes.follows (h : d.Takes t a) (hbreaks : d.Breaks t) : d.Follows t a where
  reads := h.reads
  drains := by
    intro i missing hi
    by_cases hmissing : missing = []
    · right
      rw [hmissing] at hi
      rw [hi.eq_ofText, Input.ofText_eq_prepend]
      exact ⟨a, h (.ofText [])⟩
    · exact Or.inl (hbreaks i missing hi hmissing)

theorem Follows.map (h : d.Follows t a) (f : α → β) : (f <$> d).Follows t (f a) where
  reads := h.reads.map f
  drains := by
    intro i missing hi
    rcases h.drains i missing hi with hend | ⟨b, hb⟩
    · exact Or.inl (map_of_error hend)
    · exact Or.inr ⟨f b, map_of_ok hb⟩

end

/-! ## Numerals -/

/-- The first digits of a numeral are the numeral of a number that is not larger. -/
theorem exists_decimal_of_append (n : Nat) {t u : Text} (h : Text.decimal n = t ++ u) :
    t = [] ∨ ∃ m ≤ n, t = Text.decimal m := by
  induction n using Nat.strongRecOn generalizing u with
  | ind n ih =>
    rcases List.eq_nil_or_concat u with rfl | ⟨u, c, rfl⟩
    · right
      rw [List.append_nil] at h
      exact ⟨n, Nat.le_refl n, h.symm⟩
    · rw [List.concat_eq_append] at h
      by_cases hlt : n < 10
      · left
        have hone : Text.decimal n = [n.digitChar] := Nat.toDigits_of_lt_base hlt
        have hlength := congrArg List.length (hone.symm.trans h)
        simp only [List.length_append, List.length_cons, List.length_nil] at hlength
        exact List.eq_nil_of_length_eq_zero (by omega)
      · have hsplit : Text.decimal n = Text.decimal (n / 10) ++ [(n % 10).digitChar] :=
          Nat.toDigits_of_base_le (by decide) (by omega)
        rw [hsplit, ← List.append_assoc] at h
        rcases ih (n / 10) (by omega) (List.append_inj_left' h rfl) with ht | ⟨m, hm, ht⟩
        · exact Or.inl ht
        · exact Or.inr ⟨m, by omega, ht⟩

theorem natural_drains {n : Nat} (hn : n ≤ naturalLimit) : natural.Drains (Text.decimal n) := by
  intro i missing hi
  have hascii : ∀ c ∈ Text.decimal n, c.toNat < 0x80 := by
    intro c hc
    exact digit_lt (Text.isDigit_of_mem_decimal hc)
  have hbytes : i.bytes ++ missing = (Text.decimal n).map ascii := by
    have hencoded := congrArg Input.bytes ((Input.ofText []).prepend_of_ascii hascii)
    rw [← Input.ofText_eq_prepend] at hencoded
    rw [hi.bytes]
    exact hencoded.trans (List.append_nil _)
  obtain ⟨t, u, hdecimal, ht, -⟩ := List.append_eq_map_iff.1 hbytes
  have hinput : i = (Input.ofText []).prepend t := by
    rw [Input.prepend_of_ascii _ fun c hc => hascii c (by rw [hdecimal]; exact List.mem_append_left u hc),
      ht]
    show i = ⟨i.bytes ++ [], []⟩
    rw [List.append_nil, ← hi.source]
  rw [hinput]
  rcases exists_decimal_of_append n hdecimal with rfl | ⟨m, hm, rfl⟩
  · exact Or.inl (token_bind_ofText_nil _)
  · right
    exact ⟨m, natural_decimal Input.endsNumber_ofText_nil (Nat.le_trans hm hn)⟩

theorem natural_follows {n : Nat} (hn : n ≤ naturalLimit) : natural.Follows (Text.decimal n) n :=
  ⟨natural_reads hn, natural_drains hn⟩

/-! ## Strings -/

/-- A digit of an escape that is missing. -/
theorem hexUnit_breaks {a b c d : Char} (ha : a.toNat < 0x80) (hb : b.toNat < 0x80)
    (hc : c.toNat < 0x80) (hd : d.toNat < 0x80) : hexUnit.Breaks [a, b, c, d] := by
  intro i missing hi hne
  rcases hi.of_cons ha with ⟨rfl, -⟩ | ⟨j, hj, rfl⟩
  · rfl
  rcases hj.of_cons hb with ⟨rfl, -⟩ | ⟨k, hk, rfl⟩
  · rfl
  rcases hk.of_cons hc with ⟨rfl, -⟩ | ⟨l, hl, rfl⟩
  · rfl
  rcases hl.of_cons hd with ⟨rfl, -⟩ | ⟨m, hm, rfl⟩
  · rfl
  · exact absurd hm.of_nil.2 hne

theorem escape_breaks_letter {letter : Char} (hletter : letter.toNat < 0x80) :
    escape.Breaks [letter] := by
  intro i missing hi hne
  rcases hi.of_cons hletter with ⟨rfl, -⟩ | ⟨j, hj, rfl⟩
  · rfl
  · exact absurd hj.of_nil.2 hne

theorem escape_breaks_unicode {n : Nat} (hn : n < 0x100) :
    escape.Breaks ['u', '0', '0', hexDigit (n / 16), hexDigit (n % 16)] := by
  intro i missing hi hne
  rcases hi.of_cons (by decide) with ⟨rfl, -⟩ | ⟨j, hj, rfl⟩
  · rfl
  · have hdigits := hexUnit_breaks (by decide) (by decide) (hexDigit_lt (n := n / 16) (by omega))
      (hexDigit_lt (n := n % 16) (by omega)) j missing hj hne
    rw [escape, bind_of_ok (next_push j), if_pos rfl, unicodeEscape, bind_of_error hdigits]

/-- At the end of the text, a string is not finished. -/
theorem loop_stringPiece_nil (before : List UInt8) :
    loop stringPiece before (.ofText []) = .error .unfinished := loop_of_error rfl

theorem loop_escape_breaks {t : Text} (h : escape.Breaks t) (before : List UInt8) {i : Input}
    {missing : List UInt8} (hi : i.Lacks ('\\' :: t) missing) (hne : missing ≠ []) :
    loop stringPiece before i = .error .unfinished := by
  rcases hi.of_cons (by decide) with ⟨rfl, -⟩ | ⟨j, hj, rfl⟩
  · exact loop_stringPiece_nil before
  · apply loop_of_error
    rw [stringPiece, bind_of_ok (next_push j), if_neg (by decide), if_pos rfl,
      bind_of_error (h j missing hj hne)]

/-- A written character that breaks off leaves the string unfinished. -/
theorem loop_escapeChar_breaks (c : Char) (before : List UInt8) {i : Input} {missing : List UInt8}
    (hi : i.Lacks (escapeChar c) missing) (hne : missing ≠ []) :
    loop stringPiece before i = .error .unfinished := by
  obtain ⟨letter, hlow, -, -, h⟩ | ⟨hlow, h⟩ | ⟨hquote, hslash, hcontrol, h⟩ := escapeChar_cases c
  · rw [h] at hi
    exact loop_escape_breaks (escape_breaks_letter hlow) before hi hne
  · rw [h] at hi
    exact loop_escape_breaks (escape_breaks_unicode (n := c.toNat) (by omega)) before hi hne
  · rw [h] at hi
    have hbytes : i.bytes ++ missing = String.utf8EncodeChar c :=
      hi.bytes.trans (List.append_nil _)
    have hplain : ∀ b ∈ i.bytes, IsPlain b := by
      intro b hb
      apply isPlain_of_mem hquote hslash hcontrol
      rw [← hbytes]
      exact List.mem_append_left missing hb
    have hinput : i = { Input.ofText [] with bytes := i.bytes ++ (Input.ofText []).bytes } := by
      show i = ⟨i.bytes ++ [], []⟩
      rw [List.append_nil, ← hi.source]
    rw [hinput, loop_plain before (.ofText []) i.bytes hplain, loop_stringPiece_nil]

theorem loop_stringPiece_breaks (t : Text) (before : List UInt8) {i : Input} {missing : List UInt8}
    (hi : i.Lacks (t.flatMap escapeChar ++ ['"']) missing) (hne : missing ≠ []) :
    loop stringPiece before i = .error .unfinished := by
  induction t generalizing before i with
  | nil =>
    rcases hi.of_cons (c := '"') (by decide) with ⟨rfl, -⟩ | ⟨j, hj, rfl⟩
    · exact loop_stringPiece_nil before
    · exact absurd hj.of_nil.2 hne
  | cons c t ih =>
    rw [List.flatMap_cons, List.append_assoc] at hi
    rcases hi.of_append with ⟨more, hmore, hc⟩ | ⟨j, hj, rfl⟩
    · exact loop_escapeChar_breaks c before hc hmore
    · rw [loop_escapeChar]
      exact ih _ hj

theorem stringTail_breaks (t : Text) : stringTail.Breaks (t.flatMap escapeChar ++ ['"']) := by
  intro i missing hi hne
  rw [stringTail, bind_of_error (loop_stringPiece_breaks t [] hi hne)]

/-- **A quoted text** that breaks off is not finished. -/
theorem string_breaks (t : Text) : string.Breaks (quote t) := by
  intro i missing hi hne
  rcases hi.of_cons (c := '"') (by decide) with ⟨rfl, -⟩ | ⟨j, hj, rfl⟩
  · exact token_bind_ofText_nil _
  · have htail := stringTail_breaks t j missing hj hne
    rw [string, bind_of_ok (token_push _ (by decide)), if_pos rfl, bind_of_ok (drop_push _), htail]

theorem string_follows (t : Text) : string.Follows (quote t) t := (string_takes t).follows (string_breaks t)

/-! ## Loops -/

section
variable {step : σ → Decoder (σ ⊕ α)} (hempty : ∀ s, step s (.ofText []) = .error .unfinished)

include hempty

/-- A loop whose last round drains the input asks for more. -/
theorem loop_of_round {s s' : σ} {t : Text} (h : Round step s t s') {i : Input}
    {missing : List UInt8} (hi : i.Lacks t missing) : loop step s i = .error .unfinished := by
  rcases h.drains i missing hi with hend | ⟨s'', hs⟩
  · exact loop_of_error hend
  · cases hbytes : i.bytes with
    | nil =>
      have hnil : i = .ofText [] := Input.Lacks.eq_ofText ⟨hi.source, by rw [hbytes]; rfl⟩
      rw [hnil]
      exact loop_of_error (hempty s)
    | cons b bytes =>
      have hsize : (Input.ofText []).size < i.size := by
        rw [Input.size, Input.size, hbytes, List.length_cons]
        exact Nat.lt_of_lt_of_le (Nat.succ_pos _) (Nat.le_add_right _ _)
      rw [loop_of_inl hs hsize]
      exact loop_of_error (hempty s'')

/-- **A loop over parts that break off** asks for more. -/
theorem loop_of_rounds {first : Bool} {s s' : σ} {ts : List Text} (h : Rounds step first s ts s')
    {close : Char} (hclose : close = '\x7d' ∨ close = ']') {i : Input} {missing : List UInt8}
    (hi : i.Lacks (parts first ts ++ [close]) missing) (hmissing : missing ≠ []) :
    loop step s i = .error .unfinished := by
  induction h generalizing i with
  | nil first s =>
    have hlow : close.toNat < 0x80 := by rcases hclose with rfl | rfl <;> decide
    rcases hi.of_cons hlow with ⟨rfl, -⟩ | ⟨j, hj, rfl⟩
    · exact loop_of_error (hempty s)
    · exact absurd hj.of_nil.2 hmissing
  | @cons first s s' s'' t ts hround hrest ih =>
    rw [parts, List.append_assoc] at hi
    rcases hi.of_append with ⟨more, -, ht⟩ | ⟨j, hj, rfl⟩
    · exact loop_of_round hempty hround ht
    · -- what is left behind the part is nothing, or shows where the part ends
      rcases hj.delimits_parts hclose with rfl | hdelimits
      · have hwhole : Input.Lacks ((Input.ofText []).prepend (part first t)) (part first t) [] := by
          rw [← Input.ofText_eq_prepend]
          exact ⟨rfl, List.append_nil _⟩
        exact loop_of_round hempty hround hwhole
      · rw [loop_of_inl (hround.reads j hdelimits) (j.size_lt_prepend _ hround.ne_nil)]
        exact ih hj

end

/-! ## Objects -/

section
variable {field : Text → σ → Member σ} {s s' : σ}

/-- A member is drained: its key, the colon, or its value may break off. -/
theorem memberStep_drains {key value : Text} {d : Decoder σ} (hkey : field key s = .field d)
    (hvalue : d.Follows value s') {i : Input} {missing : List UInt8}
    (hi : i.Lacks (member key value) missing) :
    memberStep field (true, s) i = .error .unfinished ∨
      ∃ s'', memberStep field (true, s) i = .ok (.inl s'', .ofText []) := by
  have hquote : member key value = '"' :: ((key.flatMap escapeChar ++ ['"']) ++ ':' :: value) := by
    rw [member, quote, List.cons_append, List.cons_append]
  rw [hquote] at hi
  rcases hi.of_cons (by decide) with ⟨rfl, -⟩ | ⟨j, hj, rfl⟩
  · exact Or.inl (token_bind_ofText_nil _)
  · rw [memberStep, bind_of_ok (token_push _ (by decide)), if_neg (by decide)]
    show (expect (ascii '"') >>= _) _ = _ ∨ ∃ _, (expect (ascii '"') >>= _) _ = _
    rw [bind_of_ok (expect_push _ (by decide))]
    rcases hj.of_append with ⟨more, hmore, htail⟩ | ⟨k, hk, rfl⟩
    · exact Or.inl (bind_of_error (stringTail_breaks key j more htail hmore))
    · rw [bind_of_ok (stringTail_takes key k), hkey]
      rcases hk.of_cons (by decide) with ⟨rfl, -⟩ | ⟨l, hl, rfl⟩
      · exact Or.inl (bind_of_error (token_bind_ofText_nil _))
      · show (expect (ascii ':') >>= _) _ = _ ∨ ∃ _, (expect (ascii ':') >>= _) _ = _
        rw [bind_of_ok (expect_push _ (by decide))]
        rcases hvalue.drains l missing hl with hend | ⟨s'', hs⟩
        · exact Or.inl (bind_of_error hend)
        · exact Or.inr ⟨(false, s''), bind_of_ok hs⟩

/-- A member of a record is a round of the loop over its members. -/
theorem member_round {key value : Text} {d : Decoder σ} (hkey : field key s = .field d)
    (hvalue : d.Follows value s') (first : Bool) :
    Round (memberStep field) (first, s) (part first (member key value)) (false, s') where
  ne_nil := by
    cases first with
    | true => exact List.cons_ne_nil _ _
    | false => exact List.cons_ne_nil _ _
  reads := by
    intro i hi
    exact memberStep_field hi hkey hvalue.reads first
  drains := by
    intro i missing hi
    cases first with
    | true => exact memberStep_drains hkey hvalue hi
    | false =>
      have hcomma : i.Lacks (',' :: member key value) missing := hi
      rcases hcomma.of_cons (by decide) with ⟨rfl, -⟩ | ⟨j, hj, rfl⟩
      · exact Or.inl (token_bind_ofText_nil _)
      · -- a key that is not there is asked for in the same way behind the comma
        have hmember : j.Lacks ('"' :: _) missing := hj
        rcases hmember.of_cons (by decide) with ⟨rfl, -⟩ | ⟨k, -, rfl⟩
        · left
          rw [memberStep, bind_of_ok (token_push _ (by decide)), if_neg (by decide)]
          show (expect (ascii ',') >>= _) _ = _
          rw [bind_of_ok (expect_push _ (by decide))]
          exact bind_of_error (token_bind_ofText_nil _)
        · rw [memberStep_comma]
          exact memberStep_drains hkey hvalue hj

/-- **A record** whose text breaks off is not finished. -/
theorem record_breaks {start : σ} {complete? : σ → Option α} {fields : Decoder α}
    {members : List Text} {state : Bool × σ}
    (h : Rounds (memberStep field) true (true, start) members state) :
    (record field start complete? fields).Breaks (object members) := by
  intro i missing hi hmissing
  rw [object, intercalate_eq_parts] at hi
  rcases hi.of_cons (by decide) with ⟨rfl, -⟩ | ⟨j, hj, rfl⟩
  · exact token_bind_ofText_nil _
  · have hempty : ∀ state, memberStep field state (.ofText []) = .error .unfinished :=
      fun _ => token_bind_ofText_nil _
    have hloop := loop_of_rounds hempty h (Or.inl rfl) hj hmissing
    rw [record, bind_of_ok (token_push _ (by decide)), if_pos rfl, bind_of_ok (drop_push _),
      bind_of_error hloop]

end

/-! ## Arrays -/

section
variable {d : Decoder α} {t : Text} {a : α}

/-- An element is drained, if it is an object. -/
theorem element?_drains (ha : d.Drains ('\x7b' :: t)) (first : Bool) {i : Input}
    {missing : List UInt8} (hi : i.Lacks (part first ('\x7b' :: t)) missing) :
    element? first d i = .error .unfinished ∨
      ∃ b, element? first d i = .ok (some b, .ofText []) := by
  cases first with
  | true =>
    have hobject : i.Lacks ('\x7b' :: t) missing := hi
    rcases hobject.of_cons (by decide) with ⟨rfl, -⟩ | ⟨j, -, rfl⟩
    · exact Or.inl (token_bind_ofText_nil _)
    · rw [element?, bind_of_ok (token_push _ (by decide)), if_neg (by decide), if_pos rfl]
      rcases ha _ missing hobject with hend | ⟨b, hb⟩
      · exact Or.inl (bind_of_error hend)
      · exact Or.inr ⟨b, bind_of_ok hb⟩
  | false =>
    have hcomma : i.Lacks (',' :: '\x7b' :: t) missing := hi
    rcases hcomma.of_cons (by decide) with ⟨rfl, -⟩ | ⟨j, hj, rfl⟩
    · exact Or.inl (token_bind_ofText_nil _)
    · rcases hj.of_cons (by decide) with ⟨rfl, -⟩ | ⟨k, -, rfl⟩
      · left
        rw [element?, bind_of_ok (token_push _ (by decide)), if_neg (by decide), if_neg (by decide),
          if_pos rfl, bind_of_ok (drop_push _)]
        exact token_bind_ofText_nil _
      · rw [element?, bind_of_ok (token_push _ (by decide)), if_neg (by decide), if_neg (by decide),
          if_pos rfl, bind_of_ok (drop_push _), bind_of_ok (token_push _ (by decide))]
        show (check true >>= _) _ = _ ∨ ∃ _, (check true >>= _) _ = _
        rw [bind_of_ok (check_true _)]
        rcases ha _ missing hj with hend | ⟨b, hb⟩
        · exact Or.inl (bind_of_error hend)
        · exact Or.inr ⟨b, bind_of_ok hb⟩

/-- An element of a list is a round of the loop over its elements. -/
theorem element_round (ha : d.Follows ('\x7b' :: t) a) (before : List α) :
    Round (listStep d) before (part before.isEmpty ('\x7b' :: t)) (a :: before) where
  ne_nil := by
    cases before with
    | nil => exact List.cons_ne_nil _ _
    | cons b before => exact List.cons_ne_nil _ _
  reads := by
    intro i hi
    rw [listStep, bind_of_ok (element?_part hi ha.reads before.isEmpty)]
    rfl
  drains := by
    intro i missing hi
    rcases element?_drains ha.drains before.isEmpty hi with hend | ⟨b, hb⟩
    · exact Or.inl (bind_of_error hend)
    · exact Or.inr ⟨b :: before, bind_of_ok hb⟩

theorem list_rounds {text : α → Text} {as : List α}
    (h : ∀ a ∈ as, ∃ t, text a = '\x7b' :: t ∧ d.Follows ('\x7b' :: t) a) (before : List α) :
    Rounds (listStep d) before.isEmpty before (as.map text) (as.reverse ++ before) := by
  induction as generalizing before with
  | nil => exact .nil _ before
  | cons a as ih =>
    obtain ⟨t, ht, ha⟩ := h a List.mem_cons_self
    have hrest := ih (fun b hb => h b (List.mem_cons_of_mem a hb)) (a :: before)
    rw [List.map_cons, ht, List.reverse_cons, List.append_assoc, List.singleton_append]
    exact .cons (element_round ha before) hrest

/-- **A list** of records whose text breaks off is not finished. -/
theorem list_breaks {text : α → Text} {as : List α}
    (h : ∀ a ∈ as, ∃ t, text a = '\x7b' :: t ∧ d.Follows ('\x7b' :: t) a) :
    (list d).Breaks (array (as.map text)) := by
  intro i missing hi hmissing
  rw [array, intercalate_eq_parts] at hi
  rcases hi.of_cons (by decide) with ⟨rfl, -⟩ | ⟨j, hj, rfl⟩
  · exact token_bind_ofText_nil _
  · have hempty : ∀ before, listStep d before (.ofText []) = .error .unfinished :=
      fun _ => bind_of_error (token_bind_ofText_nil _)
    have hloop := loop_of_rounds hempty (list_rounds h []) (Or.inr rfl) hj hmissing
    rw [list, bind_of_ok (token_push _ (by decide)), if_pos rfl, bind_of_ok (drop_push _),
      bind_of_error hloop]

theorem optional_breaks (h : d.Breaks ('\x7b' :: t)) : (optional d).Breaks ('\x7b' :: t) := by
  intro i missing hi hne
  rcases hi.of_cons (by decide) with ⟨rfl, -⟩ | ⟨j, -, rfl⟩
  · exact token_bind_ofText_nil _
  · rw [optional, bind_of_ok (token_push _ (by decide)), if_neg (by decide),
      bind_of_error (h _ missing hi hne)]

end

/-! ## Whole texts -/

/-- A decoder that asks for more where a text breaks off finds the first characters unfinished. -/
theorem decode_of_breaks {d : Decoder α} {t u : Text} (h : d.Breaks t) (hu : u <+: t) (hne : u ≠ t) :
    decode d u = .error .unfinished := by
  obtain ⟨more, rfl⟩ := hu
  have hmore : Utf8.encode more ≠ [] := by
    intro hnil
    have hsize : Text.byteSize more = 0 := by rw [← Utf8.length_encode, hnil, List.length_nil]
    cases more with
    | nil => exact hne (List.append_nil u).symm
    | cons c more =>
      have hpos : 0 < c.utf8Size := c.utf8Size_pos
      rw [Text.byteSize_cons] at hsize
      omega
  have hlacks : (Input.ofText u).Lacks (u ++ more) (Utf8.encode more) :=
    ⟨rfl, (Utf8.encode_append u more).symm⟩
  rw [decode, run, h _ _ hlacks hmore]
  rfl

end Decoder

end Tagline.Json

namespace Tagline

open Json Json.Decoder

/-! ## Parts of a tag -/

theorem Kind.breaks_toJson (k : Kind) : Json.Decoder.kind.Breaks k.toJson := by
  intro i missing hi hne
  have hstring := string_breaks k.key i missing hi hne
  have hquote : i.Lacks ('"' :: _) missing := hi
  rcases hquote.of_cons (by decide) with ⟨rfl, -⟩ | ⟨j, -, rfl⟩
  · exact token_bind_ofText_nil _
  · rw [Json.Decoder.kind, bind_of_ok (token_push _ (by decide)), if_pos rfl, bind_of_error hstring]

theorem Position.breaks_toJson {p : Position} (hp : p.Fits) : position.Breaks p.toJson := by
  have hline := (natural_follows hp.1).map fun n => (some n, (none : Option Nat))
  have hcolumn := (natural_follows hp.2).map fun n => (some p.line, some n)
  exact record_breaks (.cons (member_round rfl hline true) (.cons (member_round rfl hcolumn false)
    (.nil _ _)))

theorem TagScope.breaks_toJson (s : TagScope) : tagScope.Breaks s.toJson := by
  have hlabel := (string_follows s.kindLabel).map fun t => (some t, (none : Option Text))
  have hpath := (string_follows s.path).map fun t => (some s.kindLabel, some t)
  exact record_breaks (.cons (member_round rfl hlabel true) (.cons (member_round rfl hpath false)
    (.nil _ _)))

/-- A tag that breaks off is not finished, not even in front of its scope. -/
theorem Tag.breaks_toJson {t : Tag} (ht : t.position.Fits) : tag.Breaks t.toJson := by
  obtain ⟨name, kind, position, scope⟩ := t
  have hname := (string_follows name).map fun v => ({ name := some v } : TagMembers)
  have hkind := (kind.takes_toJson.follows kind.breaks_toJson).map fun v =>
    ({ name := some name, kind := some v } : TagMembers)
  have hposition := ((Position.takes_toJson ht).follows (Position.breaks_toJson ht)).map fun v =>
    ({ name := some name, kind := some kind, position := some v } : TagMembers)
  cases scope with
  | none =>
    exact record_breaks (.cons (member_round rfl hname true) (.cons (member_round rfl hkind false)
      (.cons (member_round rfl hposition false) (.nil _ _))))
  | some scope =>
    have hscope := ((optional_takes scope.takes_toJson).follows
      (optional_breaks scope.breaks_toJson)).map fun v =>
      ({ name := some name, kind := some kind, position := some position, scope := some v } : TagMembers)
    exact record_breaks (.cons (member_round rfl hname true) (.cons (member_round rfl hkind false)
      (.cons (member_round rfl hposition false) (.cons (member_round rfl hscope false) (.nil _ _)))))

/-! ## Top theorem -/

theorem Tag.breaks_listToJson {ts : List Tag} (hts : ∀ t ∈ ts, t.position.Fits) :
    (list tag).Breaks (Tag.listToJson ts) := by
  apply list_breaks
  intro t ht
  exact ⟨_, rfl, (Tag.takes_toJson (hts t ht)).follows (Tag.breaks_toJson (hts t ht))⟩

/-- **Tags that break off are not finished.** If the text of some tags, or of one, ends too early, its
decoder says so, wherever that is: it never finds a smaller list, a shorter name, a smaller number or no
scope, and never finds fault with what is there. -/
theorem truncated_tags_unfinished (ts : List Tag) (t : Tag) (hts : ∀ u ∈ ts, u.position.Fits)
    (ht : t.position.Fits) (part : Text) :
    (part <+: Tag.listToJson ts → part ≠ Tag.listToJson ts →
        decode (list tag) part = .error .unfinished) ∧
      (part <+: t.toJson → part ≠ t.toJson → decode tag part = .error .unfinished) := by
  constructor
  · intro hpart hne
    exact decode_of_breaks (Tag.breaks_listToJson hts) hpart hne
  · intro hpart hne
    exact decode_of_breaks (Tag.breaks_toJson ht) hpart hne

/-- A list that is cut inside an escape of a name; a tag that is cut inside its column, so that a smaller
number is left, and one that is cut in front of its scope. -/
theorem truncated_tags_unfinished_escape :
    let t : Tag := ⟨"\"\\é".toList, .function, ⟨12, 345⟩, some (.ofPath "M".toList)⟩
    let part : Text := (Tag.listToJson [t]).take 13
    let column : Text := t.toJson.take 67
    let scopeless : Text := t.toJson.take 69
    part = "[\x7b\"name\":\"\\\"\\".toList ∧
      column.drop 56 = "\"column\":34".toList ∧
      decode (list tag) part = .error .unfinished ∧ decode tag column = .error .unfinished ∧
      decode tag scopeless = .error .unfinished := by
  intro t part column scopeless
  have hfits : t.position.Fits := by decide
  have hall : ∀ u ∈ [t], u.position.Fits := by
    intro u hu
    rw [List.eq_of_mem_singleton hu]
    exact hfits
  refine ⟨by decide +kernel, by decide +kernel, ?_, ?_, ?_⟩
  · exact (truncated_tags_unfinished [t] t hall hfits part).1 (List.take_prefix _ _) (by decide +kernel)
  · exact (truncated_tags_unfinished [t] t hall hfits column).2 (List.take_prefix _ _) (by decide +kernel)
  · exact (truncated_tags_unfinished [t] t hall hfits scopeless).2 (List.take_prefix _ _)
      (by decide +kernel)

end Tagline
