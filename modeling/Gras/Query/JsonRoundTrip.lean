import Gras.Query.JsonParser
import Mathlib.Data.List.TakeWhile

/-!
# The round trip of a query reply

The expression sees a reply as one text.  A quote matches in two places: before
a label that is bare as a whole, and before a bare end of a label that contains
a quote.  In the first case the label becomes a literal; in the second the label
loses the quote that ends it, and no reader finds the end of the text.
-/

namespace Gras.Json

/-! ## The labels that survive -/

/-- Behind some quote in it the rest of the label is bare. -/
def cutOff : Text → Bool
  | [] => false
  | c :: s => (c = '"' && isBare s) || cutOff s

/-- A decimal that begins with a superfluous zero. -/
def leadingZero (s : Text) : Bool :=
  isDecimal s && s.head? = some '0' && (s.tail.head?.any Char.isDigit)

/-- No key is bare or cut off, and no data are cut off or have a leading
zero. -/
def Children.Safe : Children → Bool
  | nil => true
  | cons key data sub next =>
      (!isBare key && !cutOff key) && (!cutOff data && !leadingZero data) &&
        (sub.Safe && next.Safe)

/-- No key is bare. -/
def Children.noBareKey : Children → Bool
  | nil => true
  | cons key _ sub next => !isBare key && (sub.noBareKey && next.noBareKey)

/-- The token that the reader meets. -/
def Token.bare : Token → Token
  | .string s => if isBare s then .literal s else .string s
  | token => token

/-- The reader gets past the token. -/
def Token.readable : Token → Bool
  | .string s => !cutOff s && (!isBare s || isLiteral s)
  | _ => true

/-! ## Characters -/

theorem toNat_of_isLiteralChar {c : Char} (h : isLiteralChar c) :
    (48 ≤ c.toNat ∧ c.toNat ≤ 57) ∨ (65 ≤ c.toNat ∧ c.toNat ≤ 90) ∨
      (97 ≤ c.toNat ∧ c.toNat ≤ 122) ∨ c.toNat = 43 ∨ c.toNat = 45 ∨
      c.toNat = 46 := by
  delta isLiteralChar Char.isAlphanum Char.isAlpha Char.isUpper Char.isLower
    Char.isDigit at h
  simp only [Bool.or_eq_true, Bool.and_eq_true, decide_eq_true_eq, ge_iff_le,
    UInt32.le_iff_toNat_le] at h
  rcases h with ((((h | h) | h) | rfl) | rfl) | rfl
  · exact .inr (.inl h)
  · exact .inr (.inr (.inl h))
  · exact .inl h
  all_goals simp

theorem ne_of_isLiteralChar {c d : Char} (h : isLiteralChar c)
    (hd : isLiteralChar d = false) : c ≠ d := by
  rintro rfl
  rw [h] at hd
  cases hd

theorem escapeChar_of_isLiteralChar {c : Char} (h : isLiteralChar c) :
    escapeChar c = [c] := by
  have hc := toNat_of_isLiteralChar h
  simp only [escapeChar, ne_of_isLiteralChar h (d := '"') (by decide),
    ne_of_isLiteralChar h (d := '\\') (by decide),
    ne_of_isLiteralChar h (d := '/') (by decide),
    ne_of_isLiteralChar h (d := '\n') (by decide),
    ne_of_isLiteralChar h (d := '\r') (by decide),
    if_false]
  rw [if_neg (by omega), if_neg (by omega), if_neg (by omega)]

/-- A character is written as it stands or behind a backslash. -/
theorem escapeChar_cases (c : Char) :
    (escapeChar c = [c] ∧ c ≠ '"' ∧ c ≠ '\\' ∧ ¬ c.toNat < 32) ∨
      ∃ tail, escapeChar c = '\\' :: tail := by
  unfold escapeChar
  by_cases h1 : c = '"'
  · exact .inr ⟨_, if_pos h1⟩
  by_cases h2 : c = '\\'
  · exact .inr ⟨_, by rw [if_neg h1, if_pos h2]⟩
  simp only [h1, h2, if_false]
  split
  · exact .inr ⟨_, rfl⟩
  split
  · exact .inr ⟨_, rfl⟩
  split
  · exact .inr ⟨_, rfl⟩
  split
  · exact .inr ⟨_, rfl⟩
  split
  · exact .inr ⟨_, rfl⟩
  split
  · exact .inr ⟨_, rfl⟩
  · next h => exact .inl ⟨rfl, h1, h2, h⟩

theorem hexDigit_ne_quote : ∀ i < 16, hexDigits.getD i '0' ≠ '"' := by decide

theorem quote_notMem_escapeChar {c : Char} (h : c ≠ '"') :
    '"' ∉ escapeChar c := by
  unfold escapeChar
  split
  · contradiction
  split
  · simp
  split
  · simp
  split
  · simp
  split
  · simp
  split
  · simp
  split
  · simp
  split
  · have h1 := hexDigit_ne_quote (c.toNat / 16) (by omega)
    have h2 := hexDigit_ne_quote (c.toNat % 16) (by omega)
    simp only [List.mem_cons, List.not_mem_nil, or_false, not_or]
    exact ⟨by decide, by decide, by decide, by decide, h1.symm, h2.symm⟩
  · simpa using h.symm

theorem quote_notMem_createEscapes {s : Text} (h : '"' ∉ s) :
    '"' ∉ createEscapes s := by
  intro hmem
  obtain ⟨c, hc, hq⟩ := List.mem_flatMap.mp hmem
  exact quote_notMem_escapeChar (fun e => h (e ▸ hc)) hq

@[simp] theorem createEscapes_nil : createEscapes [] = [] := rfl

@[simp] theorem createEscapes_cons (c : Char) (s : Text) :
    createEscapes (c :: s) = escapeChar c ++ createEscapes s :=
  List.flatMap_cons

theorem createEscapes_of_literal {s : Text} (h : ∀ c ∈ s, isLiteralChar c) :
    createEscapes s = s := by
  induction s with
  | nil => rfl
  | cons c s ih =>
      rw [createEscapes_cons,
        escapeChar_of_isLiteralChar (h c List.mem_cons_self),
        ih fun d hd => h d (List.mem_cons_of_mem _ hd)]
      rfl

/-- Text that is written without a backslash is written as it stands. -/
theorem createEscapes_eq {s : Text} (h : '\\' ∉ createEscapes s) :
    createEscapes s = s := by
  induction s with
  | nil => rfl
  | cons c s ih =>
      rw [createEscapes_cons, List.mem_append, not_or] at h
      rcases escapeChar_cases c with ⟨hc, -⟩ | ⟨tail, hc⟩
      · rw [createEscapes_cons, hc, ih h.2]
        rfl
      · exact absurd (hc ▸ List.mem_cons_self) h.1

/-! ## Bare texts -/

theorem isLiteralChar_of_isDigit {c : Char} (h : c.isDigit) :
    isLiteralChar c := by
  simp [isLiteralChar, Char.isAlphanum, h]

theorem isFraction_chars {s : Text} (h : isFraction s) :
    ∀ c ∈ s, isLiteralChar c := by
  intro c hc
  cases s with
  | nil => cases hc
  | cons d digits =>
      simp only [isFraction, Bool.and_eq_true, decide_eq_true_eq] at h
      rcases List.mem_cons.mp hc with rfl | hc
      · rw [h.1]
        decide
      · exact isLiteralChar_of_isDigit (List.all_eq_true.mp h.2.2 c hc)

theorem isDecimal_chars {s : Text} (h : isDecimal s) :
    ∀ c ∈ s, isLiteralChar c := by
  intro c hc
  rw [isDecimal, Bool.and_eq_true] at h
  rw [← List.takeWhile_append_dropWhile (p := Char.isDigit) (l := s),
    List.mem_append] at hc
  rcases hc with hc | hc
  · exact isLiteralChar_of_isDigit (List.all_eq_true.mp List.all_takeWhile c hc)
  · exact isFraction_chars h.2 c hc

theorem isBare_chars {s : Text} (h : isBare s) : ∀ c ∈ s, isLiteralChar c := by
  simp only [isBare, Bool.or_eq_true, decide_eq_true_eq] at h
  rcases h with ((rfl | rfl) | rfl) | h
  · exact List.all_eq_true.mp rfl
  · exact List.all_eq_true.mp rfl
  · exact List.all_eq_true.mp rfl
  · exact isDecimal_chars h

/-- The first character of a bare text is no `u`: behind a backslash it is an
error, or stands for one character. -/
theorem isBare_head {s : Text} (h : isBare s) :
    ∃ c cs, s = c :: cs ∧ c ≠ 'u' := by
  simp only [isBare, Bool.or_eq_true, decide_eq_true_eq] at h
  rcases h with ((rfl | rfl) | rfl) | h
  · exact ⟨_, _, rfl, by decide⟩
  · exact ⟨_, _, rfl, by decide⟩
  · exact ⟨_, _, rfl, by decide⟩
  · cases s with
    | nil => simp [isDecimal] at h
    | cons c cs =>
        refine ⟨c, cs, rfl, ?_⟩
        rintro rfl
        simp [isDecimal] at h

theorem quote_notMem_of_isBare {s : Text} (h : isBare s) : '"' ∉ s :=
  fun hq => absurd (isBare_chars h _ hq) (by decide)

theorem cutOff_of_notMem {s : Text} (h : '"' ∉ s) : cutOff s = false := by
  induction s with
  | nil => rfl
  | cons c s ih =>
      rw [List.mem_cons, not_or] at h
      simp [cutOff, Ne.symm h.1, ih h.2]

theorem cutOff_of_isBare {s : Text} (h : isBare s) : cutOff s = false :=
  cutOff_of_notMem (quote_notMem_of_isBare h)

/-! ## What the expression does -/

theorem regexReplace_cons {c : Char} (cs : Text) (h : c ≠ '"') :
    regexReplace (c :: cs) = c :: regexReplace cs := by
  rw [regexReplace, if_neg h]

theorem regexReplace_append {xs : Text} (rest : Text) (h : '"' ∉ xs) :
    regexReplace (xs ++ rest) = xs ++ regexReplace rest := by
  induction xs with
  | nil => rfl
  | cons c xs ih =>
      rw [List.mem_cons, not_or] at h
      rw [List.cons_append, regexReplace_cons _ (Ne.symm h.1), ih h.2,
        List.cons_append]

theorem regexReplace_some {cs run rest : Text}
    (h : matchBare cs = some (run, rest)) :
    regexReplace ('"' :: cs) = run ++ regexReplace rest := by
  rw [regexReplace, if_pos rfl]
  split
  · next heq => rw [h] at heq; cases heq; rfl
  · next heq => rw [h] at heq; cases heq

theorem regexReplace_none {cs : Text} (h : matchBare cs = none) :
    regexReplace ('"' :: cs) = '"' :: regexReplace cs := by
  rw [regexReplace, if_pos rfl]
  split
  · next heq => rw [h] at heq; cases heq
  · rfl

/-- The expression does not match where white space or punctuation follows the
quote. -/
theorem matchBare_delimiter {c : Char} (cs : Text) (hq : c ≠ '"')
    (hc : isLiteralChar c = false) : matchBare (c :: cs) = none := by
  unfold matchBare
  split
  · rfl
  · rw [if_neg]
    intro h
    have := isBare_chars h c (by simp [hq])
    rw [hc] at this
    cases this

theorem takeWhile_append_quote {xs : Text} (rest : Text) (h : '"' ∉ xs) :
    (xs ++ '"' :: rest).takeWhile (· ≠ '"') = xs := by
  have hne : ∀ a ∈ xs, decide (a ≠ '"') = true :=
    fun a ha => decide_eq_true fun e => h (e ▸ ha)
  rw [List.takeWhile_append_of_pos hne]
  simp

theorem dropWhile_append_quote {xs : Text} (rest : Text) (h : '"' ∉ xs) :
    (xs ++ '"' :: rest).dropWhile (· ≠ '"') = '"' :: rest := by
  have hne : ∀ a ∈ xs, decide (a ≠ '"') = true :=
    fun a ha => decide_eq_true fun e => h (e ▸ ha)
  rw [List.dropWhile_append_of_pos hne]
  simp

/-- Before the first quote of a label that contains one there is a backslash. -/
theorem backslash_mem_takeWhile {s : Text} (rest : Text) (h : '"' ∈ s) :
    '\\' ∈ (createEscapes s ++ rest).takeWhile (· ≠ '"') := by
  induction s with
  | nil => cases h
  | cons c s ih =>
      rcases escapeChar_cases c with ⟨hc, hq, -, -⟩ | ⟨tail, hc⟩
      · have hs : '"' ∈ s := (List.mem_cons.mp h).resolve_left (Ne.symm hq)
        simp only [createEscapes_cons, hc, List.cons_append, List.nil_append]
        rw [List.takeWhile_cons_of_pos (by simpa using hq)]
        exact List.mem_cons_of_mem _ (ih hs)
      · simp only [createEscapes_cons, hc, List.cons_append]
        rw [List.takeWhile_cons_of_pos (by decide)]
        exact List.mem_cons_self

/-- Behind the quote before a label, or before the rest of one. -/
theorem matchBare_createEscapes (s rest : Text) :
    matchBare (createEscapes s ++ '"' :: rest) = if isBare s then some (s, rest)
      else none := by
  by_cases hq : '"' ∈ s
  · -- The run ends at the backslash of the quote in the label.
    have hs : isBare s = false := by
      by_contra h
      exact quote_notMem_of_isBare (by simpa using h) hq
    rw [hs]
    unfold matchBare
    split
    · rfl
    · rw [if_neg]
      · rfl
      · intro h
        exact absurd
          (isBare_chars h _ (backslash_mem_takeWhile _ hq)) (by decide)
  · have hes := quote_notMem_createEscapes hq
    unfold matchBare
    rw [dropWhile_append_quote rest hes, takeWhile_append_quote rest hes]
    by_cases hs : isBare s
    · simp [createEscapes_of_literal (isBare_chars hs), hs]
    · have : ¬ isBare (createEscapes s) := by
        intro h
        have he := createEscapes_eq fun hb =>
          absurd (isBare_chars h _ hb) (by decide)
        exact hs (he ▸ h)
      simp [this, hs]

/-- The rest of a label behind its first quote, as the expression leaves it. -/
def replaceLabel : Text → Text
  | [] => ['"']
  | c :: s => if c = '"' && isBare s then '\\' :: s else escapeChar c ++ replaceLabel s

theorem replaceLabel_eq {s : Text} (h : cutOff s = false) :
    replaceLabel s = createEscapes s ++ ['"'] := by
  induction s with
  | nil => rfl
  | cons c s ih =>
      rw [cutOff, Bool.or_eq_false_iff] at h
      simp [replaceLabel, h.1, ih h.2]

theorem regexReplace_label (s : Text) {rest : Text}
    (hr : matchBare rest = none) :
    regexReplace (createEscapes s ++ '"' :: rest) =
      replaceLabel s ++ regexReplace rest := by
  induction s with
  | nil => exact regexReplace_none hr
  | cons c s ih =>
      rw [createEscapes_cons, replaceLabel, List.append_assoc]
      by_cases hc : c = '"'
      · subst hc
        have hm := matchBare_createEscapes s rest
        rw [show escapeChar '"' = ['\\', '"'] from rfl]
        simp only [List.cons_append, List.nil_append]
        rw [regexReplace_cons _ (by decide)]
        by_cases hs : isBare s
        · rw [if_pos hs] at hm
          simp [regexReplace_some hm, hs]
        · rw [if_neg hs] at hm
          simp [regexReplace_none hm, hs, ih]
      · rw [regexReplace_append _ (quote_notMem_escapeChar hc), ih]
        simp [hc]

/-- A label with its quotes. -/
theorem regexReplace_string (s : Text) {rest : Text}
    (hr : matchBare rest = none) :
    regexReplace ('"' :: (createEscapes s ++ '"' :: rest)) =
      if isBare s then s ++ regexReplace rest
      else '"' :: (replaceLabel s ++ regexReplace rest) := by
  have hm := matchBare_createEscapes s rest
  by_cases hs : isBare s
  · rw [if_pos hs] at hm
    rw [regexReplace_some hm, if_pos hs]
  · rw [if_neg hs] at hm
    rw [regexReplace_none hm, if_neg hs, regexReplace_label s hr]

/-! ## Scanning -/

section Characters

variable (run : Text) (c : Char) (cs : Text)

theorem scan_between_cons : scan .between (c :: cs) = (do
    let (tokens, mode) ← begins c
    let more ← scan mode cs
    return tokens ++ more) := rfl

theorem scan_literal_cons : scan (.literal run) (c :: cs) =
    if isLiteralChar c then scan (.literal (run ++ [c])) cs
    else if isLiteral run then do
      let (tokens, mode) ← begins c
      let more ← scan mode cs
      return .literal run :: (tokens ++ more)
    else none := rfl

theorem scan_string_cons : scan (.string run) (c :: cs) =
    if c = '"' then do
      let more ← scan .between cs
      return .string run :: more
    else if c = '\\' then scan (.escape run) cs
    else if c.toNat < 32 then none
    else scan (.string (run ++ [c])) cs := rfl

theorem scan_escape_cons : scan (.escape run) (c :: cs) =
    if c = 'u' then scan (.unicode run 0 0) cs
    else (do
      let d ← unescape c
      scan (.string (run ++ [d])) cs) := rfl

theorem scan_unicode_cons (digits value : Nat) :
    scan (.unicode run digits value) (c :: cs) = (do
      let d ← hexValue c
      if digits = 3 then
        scan (.string (run ++ [Char.ofNat (16 * value + d)])) cs
      else scan (.unicode run (digits + 1) (16 * value + d)) cs) := rfl

end Characters

@[simp] theorem punctOf_char (p : Punct) : punctOf p.char = some p := by
  rcases p with (_ | _) | (_ | _) | _ | _ <;> rfl

@[simp] theorem isBlank_char (p : Punct) : isBlank p.char = false := by
  rcases p with (_ | _) | (_ | _) | _ | _ <;> rfl

@[simp] theorem isLiteralChar_char (p : Punct) :
    isLiteralChar p.char = false := by
  rcases p with (_ | _) | (_ | _) | _ | _ <;> rfl

theorem Punct.char_ne (p : Punct) {c : Char} (hc : punctOf c = none) :
    p.char ≠ c := by
  rintro rfl
  rw [punctOf_char] at hc
  cases hc

theorem Layout.notMem_gap (layout : Layout) (n : Nat) {c : Char}
    (hc : isBlank c = false) : c ∉ layout.gap n := by
  intro h
  rw [layout.blank n c h] at hc
  cases hc

theorem isLiteralChar_of_isBlank {c : Char} (h : isBlank c) :
    isLiteralChar c = false := by
  simp only [isBlank, Bool.or_eq_true, decide_eq_true_eq] at h
  rcases h with ((rfl | rfl) | rfl) | rfl <;> decide

/-- What follows a label begins with white space or punctuation. -/
theorem render_punct (layout : Layout) (n : Nat) (p : Punct)
    (tokens : List Token) :
    ∃ c cs, render layout n (.punct p :: tokens) = c :: cs ∧ c ≠ '"' ∧
      isLiteralChar c = false := by
  rw [render]
  cases hg : layout.gap n with
  | nil => exact ⟨_, _, rfl, p.char_ne (by decide), isLiteralChar_char p⟩
  | cons c cs =>
      have hc : isBlank c := layout.blank n c (hg ▸ List.mem_cons_self)
      exact ⟨_, _, rfl, fun e => absurd (e ▸ hc) (by decide),
        isLiteralChar_of_isBlank hc⟩

theorem matchBare_render (layout : Layout) (n : Nat) (p : Punct)
    (tokens : List Token) :
    matchBare (render layout n (.punct p :: tokens)) = none := by
  obtain ⟨c, cs, h, hq, hc⟩ := render_punct layout n p tokens
  rw [h]
  exact matchBare_delimiter cs hq hc

theorem regexReplace_gap (layout : Layout) (n : Nat) (rest : Text) :
    regexReplace (layout.gap n ++ rest) = layout.gap n ++ regexReplace rest :=
  regexReplace_append _ (layout.notMem_gap n (by decide))

theorem regexReplace_punct (p : Punct) (rest : Text) :
    regexReplace (p.char :: rest) = p.char :: regexReplace rest :=
  regexReplace_cons _ (p.char_ne (by decide))

theorem scan_blank {ws : Text} (rest : Text) (h : ∀ c ∈ ws, isBlank c) :
    scan .between (ws ++ rest) = scan .between rest := by
  induction ws with
  | nil => rfl
  | cons c ws ih =>
      rw [List.cons_append, scan_between_cons, begins,
        if_pos (h c List.mem_cons_self)]
      simp [ih fun d hd => h d (List.mem_cons_of_mem _ hd)]

theorem scan_punct (p : Punct) (rest : Text) :
    scan .between (p.char :: rest) =
      (scan .between rest).map (.punct p :: ·) := by
  rw [scan_between_cons, begins]
  cases h : scan .between rest <;> simp [h]

theorem scan_quote (rest : Text) :
    scan .between ('"' :: rest) = scan (.string []) rest := by
  rw [scan_between_cons]
  cases h : scan (.string []) rest <;> simp [begins, isBlank, punctOf, h]

theorem scan_literal_append (run : Text) {s : Text} (rest : Text)
    (h : ∀ c ∈ s, isLiteralChar c) :
    scan (.literal run) (s ++ rest) = scan (.literal (run ++ s)) rest := by
  induction s generalizing run with
  | nil => simp
  | cons c s ih =>
      rw [List.cons_append, scan_literal_cons, if_pos (h c List.mem_cons_self),
        ih _ fun d hd => h d (List.mem_cons_of_mem _ hd), List.append_assoc]
      rfl

/-- A literal ends where another character does. -/
theorem scan_literal_end (run : Text) {c : Char} (cs : Text)
    (hc : isLiteralChar c = false) :
    scan (.literal run) (c :: cs) =
      if isLiteral run then (scan .between (c :: cs)).map (.literal run :: ·)
        else none := by
  rw [scan_literal_cons, scan_between_cons, if_neg (by simp [hc])]
  by_cases hr : isLiteral run
  · rw [if_pos hr, if_pos hr]
    cases begins c with
    | none => rfl
    | some r => cases h : scan r.2 cs <;> simp [h]
  · rw [if_neg hr, if_neg hr]

theorem begins_of_isLiteralChar {c : Char} (h : isLiteralChar c) :
    begins c = some ([], .literal [c]) := by
  have hb : isBlank c = false := by
    by_contra hb
    rw [isLiteralChar_of_isBlank (by simpa using hb)] at h
    cases h
  have hp : punctOf c = none := by
    simp only [punctOf, ne_of_isLiteralChar h (d := '{') rfl,
      ne_of_isLiteralChar h (d := '}') rfl,
      ne_of_isLiteralChar h (d := '[') rfl,
      ne_of_isLiteralChar h (d := ']') rfl,
      ne_of_isLiteralChar h (d := ',') rfl,
      ne_of_isLiteralChar h (d := ':') rfl, if_false]
  rw [begins, hb, hp]
  simp [h, ne_of_isLiteralChar h (d := '"') (by decide)]

/-- A literal between delimiters. -/
theorem scan_literal {s : Text} (hs : ∀ c ∈ s, isLiteralChar c) (hne : s ≠ [])
    {c : Char} (cs : Text) (hc : isLiteralChar c = false) :
    scan .between (s ++ c :: cs) =
      if isLiteral s then (scan .between (c :: cs)).map (.literal s :: ·)
        else none := by
  cases s with
  | nil => exact absurd rfl hne
  | cons d s =>
      have hd := begins_of_isLiteralChar (hs d List.mem_cons_self)
      have hrun := scan_literal_append [d] (c :: cs) fun e he =>
        hs e (List.mem_cons_of_mem _ he)
      rw [← scan_literal_end (d :: s) cs hc, List.cons_append,
        scan_between_cons, hd]
      simp only [List.cons_append, List.nil_append] at hrun
      cases h : scan (.literal (d :: s)) (c :: cs) <;> simp [hrun, h]

theorem hexValue_hexDigit :
    ∀ i < 16, hexValue (hexDigits.getD i '0') = some i := by decide

/-- Inside a string a written character stands for itself. -/
theorem scan_escapeChar (run rest : Text) (c : Char) :
    scan (.string run) (escapeChar c ++ rest) =
      scan (.string (run ++ [c])) rest := by
  have short : ∀ e, e ≠ 'u' → unescape e = some c →
      scan (.string run) (['\\', e] ++ rest) =
        scan (.string (run ++ [c])) rest := by
    intro e he hu
    simp [scan_string_cons, scan_escape_cons, he, hu]
  unfold escapeChar
  split
  · next h => subst h; exact short _ (by decide) rfl
  split
  · next h => subst h; exact short _ (by decide) rfl
  split
  · next h => subst h; exact short _ (by decide) rfl
  split
  · next h => subst h; exact short _ (by decide) rfl
  split
  · next h => subst h; exact short _ (by decide) rfl
  split
  · next h => exact short _ (by decide) (by rw [← Char.ofNat_toNat c, h]; rfl)
  split
  · next h => exact short _ (by decide) (by rw [← Char.ofNat_toNat c, h]; rfl)
  split
  · -- Four hexadecimal digits, the first two of which are zero.
    have h1 := hexValue_hexDigit (c.toNat / 16) (by omega)
    have h2 := hexValue_hexDigit (c.toNat % 16) (by omega)
    have hv : 16 * (c.toNat / 16) + c.toNat % 16 = c.toNat := by omega
    have h0 : hexValue '0' = some 0 := rfl
    simp [scan_string_cons, scan_escape_cons, scan_unicode_cons, h0, h1, h2, hv,
      -List.getD_eq_getElem?_getD]
  · next h1 h2 _ _ _ _ _ h => simp [scan_string_cons, h1, h2, h]

theorem scan_createEscapes (run s rest : Text) :
    scan (.string run) (createEscapes s ++ rest) =
      scan (.string (run ++ s)) rest := by
  induction s generalizing run with
  | nil => simp
  | cons c s ih =>
      rw [createEscapes_cons, List.append_assoc, scan_escapeChar, ih,
        List.append_assoc]
      rfl

/-- A string. -/
theorem scan_string (s rest : Text) :
    scan .between ('"' :: (createEscapes s ++ '"' :: rest)) =
      (scan .between rest).map (.string s :: ·) := by
  rw [scan_quote, scan_createEscapes, scan_string_cons]
  cases scan .between rest <;> simp

/-! ## A string without an end -/

/-- A string that is open before the text never ends in it. -/
def Unclosed (text : Text) : Prop := ∀ run, scan (.string run) text = none

theorem unclosed_nil : Unclosed [] := fun _ => rfl

theorem unclosed_cons {c : Char} {text : Text} (hq : c ≠ '"') (hb : c ≠ '\\')
    (h : Unclosed text) : Unclosed (c :: text) := by
  intro run
  rw [scan_string_cons, if_neg hq, if_neg hb]
  split
  · rfl
  · exact h _

theorem unclosed_append {xs text : Text} (hq : '"' ∉ xs) (hb : '\\' ∉ xs)
    (h : Unclosed text) : Unclosed (xs ++ text) := by
  induction xs with
  | nil => exact h
  | cons c xs ih =>
      rw [List.mem_cons, not_or] at hq hb
      exact unclosed_cons (Ne.symm hq.1) (Ne.symm hb.1) (ih hq.2 hb.2)

/-- Outside a string. -/
def Mode.Outside : Mode → Prop
  | .between | .literal _ => True
  | _ => False

theorem begins_outside {c : Char} (hq : c ≠ '"') {tokens : List Token}
    {m : Mode} (h : begins c = some (tokens, m)) : m.Outside := by
  unfold begins at h
  split at h
  · cases h; exact trivial
  · split at h
    · cases h; exact trivial
    · split at h
      · cases h; exact trivial
      · cases h

theorem begins_none {c : Char} {text : Text} (hq : c ≠ '"')
    (h : ∀ m, Mode.Outside m → scan m text = none) :
    scan .between (c :: text) = none := by
  rw [scan_between_cons]
  cases hb : begins c with
  | none => rfl
  | some r =>
      have := h r.2 (begins_outside hq hb)
      simp [this]

/-- Outside strings no character but a quote begins one. -/
theorem scan_outside {m : Mode} (hm : m.Outside) {c : Char} {text : Text}
    (hq : c ≠ '"') (h : ∀ m', Mode.Outside m' → scan m' text = none) :
    scan m (c :: text) = none := by
  cases m with
  | between => exact begins_none hq h
  | literal run =>
      by_cases hc : isLiteralChar c
      · rw [scan_literal_cons, if_pos hc]
        exact h _ trivial
      · rw [scan_literal_end run text (by simpa using hc), begins_none hq h]
        split <;> rfl
  | string run => cases hm
  | escape run => cases hm
  | unicode run digits value => cases hm

theorem scan_outside_backslash {m : Mode} (hm : m.Outside) (text : Text) :
    scan m ('\\' :: text) = none := by
  cases m with
  | between => rfl
  | literal run =>
      rw [scan_literal_end run text rfl]
      split <;> rfl
  | string run => cases hm
  | escape run => cases hm
  | unicode run digits value => cases hm

theorem scan_outside_quote {m : Mode} (hm : m.Outside) {text : Text}
    (h : Unclosed text) : scan m ('"' :: text) = none := by
  cases m with
  | between => rw [scan_quote, h]
  | literal run =>
      rw [scan_literal_end run text rfl, scan_quote, h]
      split <;> rfl
  | string run => cases hm
  | escape run => cases hm
  | unicode run digits value => cases hm

/-- The rest of a label that is met outside a string: a backslash is an error,
and without one the last quote begins a string. -/
theorem scan_outside_label {m : Mode} (hm : m.Outside) (s : Text) {text : Text}
    (h : Unclosed text) : scan m (replaceLabel s ++ text) = none := by
  induction s generalizing m with
  | nil => exact scan_outside_quote hm h
  | cons c s ih =>
      rw [replaceLabel]
      split
      · exact scan_outside_backslash hm _
      · rcases escapeChar_cases c with ⟨hc, hq, -⟩ | ⟨tail, hc⟩
        · rw [hc]
          exact scan_outside hm hq fun m' hm' => ih hm'
        · rw [hc]
          exact scan_outside_backslash hm _

/-- A bare text behind a backslash. -/
theorem scan_escape_bare {s text : Text} (hs : isBare s) (h : Unclosed text)
    (run : Text) : scan (.escape run) (s ++ text) = none := by
  obtain ⟨c, cs, rfl, hu⟩ := isBare_head hs
  have hchars := isBare_chars hs
  have htail : Unclosed (cs ++ text) := by
    apply unclosed_append _ _ h
    · exact fun hq => absurd (hchars _ (List.mem_cons_of_mem _ hq)) (by decide)
    · exact fun hb => absurd (hchars _ (List.mem_cons_of_mem _ hb)) (by decide)
  rw [List.cons_append, scan_escape_cons, if_neg hu]
  cases unescape c with
  | none => rfl
  | some d => exact htail _

/-- A label that is cut off does not end. -/
theorem scan_cutOff {s text : Text} (hs : cutOff s) (h : Unclosed text)
    (run : Text) : scan (.string run) (replaceLabel s ++ text) = none := by
  induction s generalizing run with
  | nil => cases hs
  | cons c s ih =>
      rw [replaceLabel]
      split
      · next hc =>
          rw [Bool.and_eq_true] at hc
          rw [List.cons_append, scan_string_cons,
            if_neg (by decide), if_pos rfl]
          exact scan_escape_bare hc.2 h run
      · next hc =>
          rw [cutOff, Bool.or_eq_true] at hs
          rw [List.append_assoc, scan_escapeChar]
          exact ih (hs.resolve_left hc) _

/-! ## The reply as the reader meets it -/

/-- No two labels without punctuation between them. -/
inductive Separated : List Token → Prop where
  | nil : Separated []
  | punct (p : Punct) {tokens : List Token} (h : Separated tokens) :
      Separated (.punct p :: tokens)
  | label (s : Text) (p : Punct) {tokens : List Token}
    (h : Separated (.punct p :: tokens)) :
      Separated (.string s :: .punct p :: tokens)

theorem render_cons (layout : Layout) (n : Nat) (token : Token)
    (tokens : List Token) :
    render layout n (token :: tokens) =
      layout.gap n ++ (token.spell ++ render layout (n + 1) tokens) := rfl

/-- A label in front of punctuation, as the expression leaves it. -/
theorem regexReplace_render (layout : Layout) (n : Nat) (s : Text) (p : Punct)
    (tokens : List Token) :
    regexReplace (render layout n (.string s :: .punct p :: tokens)) =
      layout.gap n ++
        (if isBare s then
          s ++ regexReplace (render layout (n + 1) (.punct p :: tokens))
          else '"' ::
            (replaceLabel s ++ regexReplace
              (render layout (n + 1) (.punct p :: tokens)))) := by
  rw [render_cons, regexReplace_gap,
    ← regexReplace_string s (matchBare_render _ _ p tokens)]
  simp [Token.spell]

theorem regexReplace_render_nil (layout : Layout) (n : Nat) :
    regexReplace (render layout n []) = layout.gap n ++ [] := by
  have h := regexReplace_gap layout n []
  rwa [List.append_nil, regexReplace] at h

/-- Once a string is open that has lost its end, none of the rest closes it. -/
theorem unclosed_render (layout : Layout) {tokens : List Token}
    (h : Separated tokens) (n : Nat) :
    Unclosed (regexReplace (render layout n tokens)) := by
  induction h generalizing n with
  | nil =>
      rw [regexReplace_render_nil]
      exact unclosed_append (layout.notMem_gap n rfl)
        (layout.notMem_gap n rfl) unclosed_nil
  | punct p h ih =>
      rw [render_cons, regexReplace_gap]
      apply unclosed_append (layout.notMem_gap n rfl) (layout.notMem_gap n rfl)
      rw [Token.spell, List.singleton_append, regexReplace_punct]
      exact unclosed_cons (p.char_ne rfl) (p.char_ne rfl) (ih _)
  | label s p h ih =>
      rw [regexReplace_render]
      apply unclosed_append (layout.notMem_gap n rfl) (layout.notMem_gap n rfl)
      split
      · next hs =>
          have hchars := isBare_chars hs
          apply unclosed_append _ _ (ih _)
          · exact fun hq => absurd (hchars _ hq) (by decide)
          · exact fun hb => absurd (hchars _ hb) (by decide)
      · intro run
        rw [scan_string_cons, if_pos rfl,
          scan_outside_label (m := .between) trivial s (ih _)]
        rfl

/-- The reader meets the tokens of the tree with the bare ones made literals, or
gets stuck. -/
theorem scan_render (layout : Layout) {tokens : List Token}
    (h : Separated tokens) (n : Nat) :
    scan .between (regexReplace (render layout n tokens)) =
      if tokens.all Token.readable then some (tokens.map Token.bare)
        else none := by
  induction h generalizing n with
  | nil =>
      rw [regexReplace_render_nil, scan_blank _ (layout.blank n)]
      rfl
  | @punct p tokens h ih =>
      rw [render_cons, regexReplace_gap, scan_blank _ (layout.blank n),
        Token.spell, List.singleton_append, regexReplace_punct, scan_punct, ih]
      by_cases ht : tokens.all Token.readable <;>
        simp [ht, Token.readable, Token.bare]
  | @label s p tokens h ih =>
      have hscan := ih (n + 1)
      rw [regexReplace_render, scan_blank _ (layout.blank n), List.all_cons,
        List.map_cons]
      by_cases hs : isBare s
      · -- The label becomes a literal; the next character ends it.
        obtain ⟨c, cs, hc, hq, hlit⟩ := render_punct layout (n + 1) p tokens
        obtain ⟨d, ds, hd, -⟩ := isBare_head hs
        rw [if_pos hs]
        rw [hc, regexReplace_cons _ hq] at hscan ⊢
        rw [scan_literal (isBare_chars hs) (by simp [hd]) _ hlit, hscan]
        by_cases hl : isLiteral s <;>
          by_cases ht : (Token.punct p :: tokens).all Token.readable <;>
          simp [Token.readable, Token.bare, cutOff_of_isBare hs, hs, hl, ht]
      · rw [if_neg hs]
        by_cases hcut : cutOff s
        · rw [scan_quote, scan_cutOff hcut (unclosed_render layout h _)]
          simp [Token.readable, hcut]
        · rw [replaceLabel_eq (by simpa using hcut), List.append_assoc,
            List.singleton_append, scan_string, hscan]
          by_cases ht : (Token.punct p :: tokens).all Token.readable <;>
            simp [Token.readable, Token.bare, hs, hcut, ht]

/-! ## The tokens of a tree -/

open Children

theorem nodeTokens_nil (data : Text) (inner : List Token) :
    nodeTokens data .nil inner = [.string data] := rfl

theorem nodeTokens_of_ne {sub : Children} (h : sub ≠ nil) (data : Text)
    (inner : List Token) :
    nodeTokens data sub inner =
      .punct (.opening sub.kind) ::
        (inner ++ [Token.punct (.closing sub.kind)]) := if_neg h

theorem separated_tokens (c : Children) (kind : Kind) (p : Punct)
    {rest : List Token} (h : Separated (.punct p :: rest)) :
    Separated (c.tokens kind ++ .punct p :: rest) := by
  induction c generalizing kind p rest with
  | nil => exact h
  | cons key data sub next ihs ihn =>
      -- Behind the node there is a comma, or what follows the children.
      obtain ⟨q, more, htail, hmore⟩ : ∃ q more,
          (if next = nil then [] else Token.punct .comma :: next.tokens kind) ++
            .punct p :: rest =
            .punct q :: more ∧ Separated (.punct q :: more) := by
        split
        · exact ⟨p, rest, rfl, h⟩
        · exact ⟨.comma, _, rfl, .punct .comma (ihn kind p h)⟩
      have hnode : Separated
          (nodeTokens data sub (sub.tokens sub.kind) ++ .punct q :: more) := by
        by_cases hs : sub = nil
        · rw [hs, nodeTokens_nil]
          exact .label data q hmore
        · rw [nodeTokens_of_ne hs, List.cons_append, List.append_assoc]
          exact .punct _ (ihs _ _ (.punct _ hmore))
      rw [tokens, List.append_assoc, List.append_assoc, htail]
      cases kind with
      | object => exact .label key .colon (.punct .colon hnode)
      | array => exact hnode

theorem PTree.separated (t : PTree) : Separated t.tokens :=
  .punct _ (separated_tokens _ _ _ (.punct _ .nil))

/-- The first token of a node's children is no closing bracket. -/
theorem head_tokens {c : Children} (h : c ≠ nil) (kind kind' : Kind)
    (rest : List Token) :
    ((c.tokens kind).map Token.bare ++ rest).head? ≠
      some (.punct (.closing kind')) := by
  have hbare : ∀ s, (Token.string s).bare ≠ .punct (.closing kind') := by
    intro s
    rw [Token.bare]
    split <;> simp
  cases c with
  | nil => exact absurd rfl h
  | cons key data sub next =>
      cases kind with
      | object => simpa [tokens, keyTokens] using hbare key
      | array =>
          by_cases hs : sub = nil
          · simpa [tokens, keyTokens, hs, nodeTokens_nil] using hbare data
          · simp [tokens, keyTokens, nodeTokens_of_ne hs, Token.bare]

/-! ## Parsing -/

/-- What parsing the children of a node gives: nothing when a key has become a
literal. -/
def ParsesChildren (c : Children) (kind : Kind) : Prop :=
  ∀ fuel rest, 2 * (c.tokens kind).length + 1 ≤ fuel →
    parseChildren fuel kind
      ((c.tokens kind).map Token.bare ++ .punct (.closing kind) :: rest) =
      if c.noBareKey then some (c, rest) else none

theorem parseValue_node {data : Text} {sub : Children}
    (hacc : data = [] ∨ sub = nil)
    (hsub : sub ≠ nil → ParsesChildren sub sub.kind) {fuel : Nat}
    (rest : List Token)
    (hf : 2 * (nodeTokens data sub (sub.tokens sub.kind)).length ≤ fuel) :
    parseValue fuel
      ((nodeTokens data sub (sub.tokens sub.kind)).map Token.bare ++ rest) =
      if sub.noBareKey then some (⟨data, sub⟩, rest) else none := by
  by_cases hs : sub = nil
  · subst hs
    obtain ⟨f, rfl⟩ : ∃ f, fuel = f + 1 := by
      rw [nodeTokens_nil] at hf
      simp at hf
      exact ⟨fuel - 1, by omega⟩
    rw [nodeTokens_nil, List.map_singleton, List.singleton_append, Token.bare]
    split <;> simp [parseValue, noBareKey]
  · have hd : data = [] := hacc.resolve_right hs
    rw [nodeTokens_of_ne hs] at hf ⊢
    simp only [List.length_cons, List.length_append, List.length_nil] at hf
    obtain ⟨f, rfl⟩ : ∃ f, fuel = f + 1 := ⟨fuel - 1, by omega⟩
    have hhead :=
      head_tokens hs sub.kind sub.kind (.punct (.closing sub.kind) :: rest)
    have hparse := hsub hs f rest (by omega)
    simp only [List.map_cons, List.map_append, List.map_nil, Token.bare,
      List.cons_append, List.append_assoc, List.nil_append]
    rw [parseValue, if_neg hhead, hparse]
    by_cases hk : sub.noBareKey <;> simp [hk, hd]

/-- A key that has become a literal is no key. -/
theorem parseKey_keyTokens {kind : Kind} {key : Text}
    (hkind : kind = .array → key = []) (rest : List Token) :
    parseKey kind ((keyTokens kind key).map Token.bare ++ rest) =
      if isBare key then none else some (key, rest) := by
  cases kind with
  | object => by_cases hk : isBare key <;> simp [keyTokens, Token.bare, hk, parseKey]
  | array =>
      rw [hkind rfl]
      rfl

theorem parsesChildren {c : Children} (hne : c ≠ nil) (hacc : c.Accepted)
    {kind : Kind} (hkind : kind = .array → c.keyless) :
    ParsesChildren c kind := by
  induction c generalizing kind with
  | nil => exact absurd rfl hne
  | cons key data sub next ihs ihn =>
      intro fuel rest hf
      obtain ⟨hd, hsubacc, hnextacc⟩ := hacc
      have hsub : sub ≠ nil → ParsesChildren sub sub.kind := by
        intro hs
        apply ihs hs hsubacc
        intro hk
        by_contra h
        simp [Children.kind, h] at hk
      have hkey : kind = .array → key = [] := by
        intro hk
        have := hkind hk
        simp only [keyless, Bool.and_eq_true, List.isEmpty_iff] at this
        exact this.1
      have hnext : next ≠ nil → ParsesChildren next kind := by
        intro hn
        apply ihn hn hnextacc
        intro hk
        have := hkind hk
        simp only [keyless, Bool.and_eq_true] at this
        exact this.2
      have hnode : 0 < (nodeTokens data sub (sub.tokens sub.kind)).length := by
        unfold nodeTokens
        split <;> simp
      rw [tokens] at hf ⊢
      simp only [List.length_append] at hf
      obtain ⟨f, rfl⟩ : ∃ f, fuel = f + 1 := ⟨fuel - 1, by omega⟩
      simp only [List.map_append, List.append_assoc]
      rw [parseChildren, parseKey_keyTokens hkey]
      by_cases hk : isBare key
      · simp [hk, noBareKey]
      · rw [if_neg hk]
        simp only [Option.bind_eq_bind, Option.bind_some]
        rw [parseValue_node hd hsub _ (by omega)]
        by_cases hsb : sub.noBareKey
        · rw [if_pos hsb]
          simp only [Option.bind_some]
          by_cases hn : next = nil
          · subst hn
            simp [hk, hsb, noBareKey]
          · rw [if_neg hn] at hf ⊢
            simp only [List.length_cons] at hf
            have hmore := hnext hn f rest (by omega)
            simp only [List.map_cons, List.cons_append, Token.bare,
              List.head?_cons, List.tail_cons]
            rw [if_neg (by simp), if_pos trivial, hmore]
            by_cases hnb : next.noBareKey <;> simp [hk, hsb, hnb, noBareKey]
        · simp [hk, hsb, noBareKey]

theorem parse_tokens {t : PTree} (h : t.Accepted) :
    parse (t.tokens.map Token.bare) = if t.children.noBareKey then some t
      else none := by
  obtain ⟨data, children⟩ := t
  obtain ⟨rfl, hacc⟩ := h
  by_cases hc : children = nil
  · subst hc
    rfl
  · have hparse := @parsesChildren _ hc hacc .object (by simp)
      (2 * (children.tokens .object).length + 3) [] (by omega)
    have hhead := head_tokens hc .object .object [.punct (.closing .object)]
    rw [parse, PTree.tokens]
    simp only [List.map_cons, List.map_append, List.map_nil, Token.bare,
      List.length_cons, List.length_append, List.length_map, List.length_nil]
    rw [show 2 * ((children.tokens .object).length + (0 + 1) + 1) =
        2 * (children.tokens .object).length + 3 +
          1 by omega, parseValue, if_neg hhead, hparse]
    by_cases hk : children.noBareKey <;> simp [hk]

/-! ## Labels and trees -/

theorem isFractionExponent_of_isFraction {s : Text} (h : isFraction s) :
    isFractionExponent s := by
  cases s with
  | nil => rfl
  | cons c digits =>
      simp only [isFraction, Bool.and_eq_true, decide_eq_true_eq] at h
      obtain ⟨rfl, hne, hall⟩ := h
      have htake : digits.takeWhile Char.isDigit = digits :=
        List.takeWhile_eq_self_iff.mpr (List.all_eq_true.mp hall)
      have hdrop : digits.dropWhile Char.isDigit = [] :=
        List.dropWhile_eq_nil_iff.mpr (List.all_eq_true.mp hall)
      rw [isFractionExponent, if_pos rfl, htake, hdrop, hne]
      rfl

/-- A decimal is a number unless it has a superfluous leading zero. -/
theorem isUnsigned_of_isDecimal {c : Char} {rest : Text} (hc : c.isDigit)
    (h : isDecimal (c :: rest)) :
    isUnsigned (c :: rest) = !leadingZero (c :: rest) := by
  have hdec := h
  rw [isDecimal, Bool.and_eq_true] at h
  have htail : rest.takeWhile Char.isDigit = [] ↔
      ¬ rest.head?.any Char.isDigit := by
    cases rest with
    | nil => simp
    | cons d ds => by_cases hd : d.isDigit <;> simp [hd]
  rw [isUnsigned, isFractionExponent_of_isFraction h.2, leadingZero, hdec,
    isWhole, List.takeWhile_cons_of_pos hc]
  by_cases h0 : c = '0' <;> by_cases ht : rest.head?.any Char.isDigit <;>
    simp [h0, ht, htail]

theorem isLiteral_of_isBare {s : Text} (h : isBare s) :
    isLiteral s = !leadingZero s := by
  simp only [isBare, Bool.or_eq_true, decide_eq_true_eq] at h
  rcases h with ((rfl | rfl) | rfl) | h
  · decide
  · decide
  · decide
  · cases s with
    | nil => cases h
    | cons c rest =>
        have hc : c.isDigit := by
          by_contra hc
          simp [isDecimal, hc] at h
        have hne : ∀ d : Char, d.isDigit = false → c ≠ d := by
          rintro d hd rfl
          rw [hc] at hd
          cases hd
        rw [← isUnsigned_of_isDecimal hc h, isLiteral]
        simp [hne 'n' rfl, hne 't' rfl, hne 'f' rfl, hne '-' rfl]

theorem readable_string (s : Text) :
    (Token.string s).readable = (!cutOff s && !leadingZero s) := by
  rw [Token.readable]
  by_cases hs : isBare s
  · rw [isLiteral_of_isBare hs, hs]
    rfl
  · have : leadingZero s = false := by
      by_contra h
      simp only [leadingZero, Bool.not_eq_false, Bool.and_eq_true] at h
      exact hs (by simp [isBare, h.1.1])
    simp [hs, this]

/-- A tree whose tokens are readable and whose keys are strings is one with safe
labels. -/
theorem readable_and_noBareKey {c : Children} (hacc : c.Accepted) {kind : Kind}
    (hkind : kind = .array → c.keyless) :
    ((c.tokens kind).all Token.readable && c.noBareKey) = c.Safe := by
  induction c generalizing kind with
  | nil => rfl
  | cons key data sub next ihs ihn =>
      obtain ⟨hd, hsubacc, hnextacc⟩ := hacc
      have hsub := @ihs hsubacc sub.kind (by
        intro hk
        by_contra h
        simp [Children.kind, h] at hk)
      have hkey : kind = .array → key = [] := by
        intro hk
        have := hkind hk
        simp only [keyless, Bool.and_eq_true, List.isEmpty_iff] at this
        exact this.1
      have hnext := @ihn hnextacc kind (by
        intro hk
        have := hkind hk
        simp only [keyless, Bool.and_eq_true] at this
        exact this.2)
      have hkeys : ((keyTokens kind key).all Token.readable && !isBare key) =
          (!isBare key && !cutOff key) := by
        cases kind with
        | object =>
            by_cases hb : isBare key <;> by_cases hc : cutOff key <;>
              simp [keyTokens, Token.readable, hb, hc]
        | array =>
            rw [hkey rfl]
            rfl
      have hnode :
          (nodeTokens data sub (sub.tokens sub.kind)).all Token.readable =
          ((!cutOff data && !leadingZero data) &&
            (sub.tokens sub.kind).all Token.readable) := by
        by_cases hs : sub = nil
        · rw [hs, nodeTokens_nil]
          simp [readable_string, tokens]
        · rw [hd.resolve_right hs, nodeTokens_of_ne hs]
          simp [Token.readable, cutOff, leadingZero, isDecimal]
      have htail :
          (if next = nil then []
            else Token.punct .comma :: next.tokens kind).all
          Token.readable = (next.tokens kind).all Token.readable := by
        by_cases hn : next = nil
        · rw [hn]
          rfl
        · rw [if_neg hn]
          rfl
      rw [tokens, noBareKey, Safe, ← hkeys, ← hsub, ← hnext, List.all_append,
        List.all_append, hnode, htail]
      ac_rfl

/-! ## The round trip -/

theorem jsonToPtree_ptreeToJson (layout : Layout) {t : PTree} (h : t.Accepted) :
    jsonToPtree (ptreeToJson layout t) = if t.children.Safe then some t
      else none := by
  have hsafe := @readable_and_noBareKey _ h.2 .object (by simp)
  have hall : t.tokens.all Token.readable =
      (t.children.tokens .object).all Token.readable := by
    simp [PTree.tokens, Token.readable]
  rw [jsonToPtree, ptreeToJson, writeJson, scan_render layout t.separated,
    hall, ← hsafe]
  by_cases hr : (t.children.tokens .object).all Token.readable
  · simp [hr, parse_tokens h]
  · simp [hr]

/-- A reply is valid JSON and reads back as the tree it was made from if and
only if no key of the tree is bare, no key or data are cut off, and no data are
a decimal with a superfluous leading zero. -/
theorem json_roundtrip (layout : Layout) (t : PTree) (h : t.Accepted) :
    (ValidJson (ptreeToJson layout t) ∧
      jsonToPtree (ptreeToJson layout t) = some t) ↔
      t.children.Safe := by
  rw [ValidJson, jsonToPtree_ptreeToJson layout h]
  by_cases hs : t.children.Safe <;> simp [hs]

/-- The text without white space. -/
def compact : Layout := ⟨fun _ => [], by simp⟩

/-- What `/blocks.json` replies for one block that is called `src0` and has a
call `get`. -/
def blocksReply : PTree :=
  ⟨[], .cons "blocks".toList [] (.cons "src0".toList []
    (.cons "call".toList "get".toList .nil .nil) .nil) .nil⟩

theorem json_roundtrip_blocksReply :
    ValidJson (ptreeToJson compact blocksReply) ∧
      jsonToPtree (ptreeToJson compact blocksReply) = some blocksReply :=
  (json_roundtrip compact blocksReply
    ⟨rfl, by simp [blocksReply, Children.Accepted]⟩).mpr
    (by decide)

/-- The same for a block that is called `7`. -/
def digitReply : PTree :=
  ⟨[], .cons "blocks".toList [] (.cons "7".toList []
    (.cons "call".toList "get".toList .nil .nil) .nil) .nil⟩

/-- The reply is `{"blocks":{7:{"call":"get"}}}`. -/
theorem json_roundtrip_digitReply :
    digitReply.Accepted ∧
      ¬ (ValidJson (ptreeToJson compact digitReply) ∧
        jsonToPtree (ptreeToJson compact digitReply) = some digitReply) := by
  have hacc : digitReply.Accepted :=
    ⟨rfl, by simp [digitReply, Children.Accepted]⟩
  refine ⟨hacc, fun h => ?_⟩
  have hread := h.2
  rw [jsonToPtree_ptreeToJson compact hacc] at hread
  exact absurd hread (by decide)

end Gras.Json
