import FormulaEngine.Json.Token
import FormulaEngine.Json.Writer
import FormulaEngine.Proofs.Json.Plain

/-!
# Scanning what was written

The compact text of a plain document is scanned as the tokens of the document. A word or a numeral
ends where the text ends or where punctuation follows, which is all that ever stands behind a part
of a document.
-/

namespace FormulaEngine.Json

/-! ### The tokens of a document -/

mutual

def tokens : Json → List Token
  | .null => [.null]
  | .bool b => [.bool b]
  | .number n => [.number n]
  | .string s => [.string (some s)]
  | .array items => .beginArray :: itemTokens items ++ [.endArray]
  | .object members => .beginObject :: memberTokens members ++ [.endObject]
  | .unreadable => [.null]

def itemTokens : List Json → List Token
  | [] => []
  | [j] => tokens j
  | j :: rest => tokens j ++ .comma :: itemTokens rest

def memberTokens : List (String × Json) → List Token
  | [] => []
  | [(name, j)] => .string (some name) :: .colon :: tokens j
  | (name, j) :: rest =>
    .string (some name) :: .colon :: tokens j ++ .comma :: memberTokens rest

end

theorem itemTokens_cons_cons (j k : Json) (rest : List Json) :
    itemTokens (j :: k :: rest) = j.tokens ++ .comma :: itemTokens (k :: rest) := rfl

theorem memberTokens_cons_cons (name : String) (j : Json) (m : String × Json)
    (rest : List (String × Json)) : memberTokens ((name, j) :: m :: rest) =
      .string (some name) :: .colon :: (j.tokens ++ .comma :: memberTokens (m :: rest)) := rfl

namespace Token

variable {mode mode' : Mode} {c : Char} {chars rest : List Char} {found : List Token}
  {token : Token}

theorem scanFrom_cons (mode : Mode) (c : Char) (rest : List Char) :
    scanFrom mode (c :: rest) =
      (step mode c).bind fun next => (scanFrom next.2 rest).map (next.1 ++ ·) := by
  rw [scanFrom]
  cases step mode c with
  | none => rfl
  | some next => cases hlater : scanFrom next.2 rest <;> simp [hlater]

/-- A character that goes on with what has begun. -/
theorem scanFrom_cons_of_step (h : step mode c = some ([], mode')) :
    scanFrom mode (c :: rest) = scanFrom mode' rest := by
  rw [scanFrom_cons, h]
  cases hlater : scanFrom mode' rest <;> simp [hlater]

/-- A character that is a token, or ends one. -/
theorem scanFrom_cons_of_token (h : step mode c = some ([token], .between)) :
    scanFrom mode (c :: rest) = (scanFrom .between rest).map (token :: ·) := by
  rw [scanFrom_cons, h]
  rfl

/-- Nothing follows, or what follows is part of neither a word nor a numeral. -/
def Delimits (rest : List Char) : Prop :=
  ∀ c, rest.head? = some c → c.isLower = false ∧ isNumeric c = false

theorem delimits_nil : Delimits [] := by
  simp [Delimits]

theorem delimits_cons (h : c.isLower = false ∧ isNumeric c = false) : Delimits (c :: rest) := by
  rintro _ heq
  obtain rfl := Option.some.inj heq
  exact h

/-! ### Words and numerals -/

/-- What ends with the next character is a token in front of what that character begins. -/
theorem scanFrom_of_ends (hfinish : finish mode = some [token])
    (hstep : ∀ c, rest.head? = some c →
      step mode c = (start c).map fun next => (token :: next.1, next.2)) :
    scanFrom mode rest = (scanFrom .between rest).map (token :: ·) := by
  cases rest with
  | nil => exact hfinish
  | cons c later =>
    have hbetween : step .between c = start c := rfl
    rw [scanFrom_cons, scanFrom_cons, hstep c rfl, hbetween]
    cases start c with
    | none => rfl
    | some next => cases hlater : scanFrom next.2 later <;> simp [hlater]

theorem scanFrom_word (hclose : close (.word chars) = some token) (hrest : Delimits rest) :
    scanFrom (.word chars) rest = (scanFrom .between rest).map (token :: ·) := by
  apply scanFrom_of_ends
  · simp [finish, hclose]
  · intro c hc
    have hlower := (hrest c hc).1
    cases hstart : start c <;> simp [step, hlower, hclose, hstart]

theorem scanFrom_number (hclose : close (.number chars) = some token) (hrest : Delimits rest) :
    scanFrom (.number chars) rest = (scanFrom .between rest).map (token :: ·) := by
  apply scanFrom_of_ends
  · simp [finish, hclose]
  · intro c hc
    have hnumeric := (hrest c hc).2
    cases hstart : start c <;> simp [step, hnumeric, hclose, hstart]

theorem scanFrom_number_append {digits : List Char} (h : ∀ c ∈ digits, isNumeric c) :
    scanFrom (.number chars) (digits ++ rest) =
      scanFrom (.number (digits.reverse ++ chars)) rest := by
  induction digits generalizing chars with
  | nil => rfl
  | cons c later ih =>
    have hc : isNumeric c = true := h c List.mem_cons_self
    have hstep : step (.number chars) c = some ([], .number (c :: chars)) := by
      simp [step, hc]
    rw [List.cons_append, scanFrom_cons_of_step hstep,
      ih fun d hd => h d (List.mem_cons_of_mem _ hd)]
    simp

/-! ### Strings -/

variable {units : List Nat}

theorem hexValue?_hexDigit : ∀ d < 16, hexValue? (hexDigit d) = some d := by
  decide

theorem scanFrom_escape {e : Char} (hchar : escaped? e = some c) (hu : e ≠ 'u') :
    scanFrom (.string units) ('\\' :: e :: rest) =
      scanFrom (.string (c.toNat :: units)) rest := by
  have hstep : step (.escape units) e = some ([], .string (c.toNat :: units)) := by
    simp [step, hu, hchar]
  rw [scanFrom_cons_of_step rfl, scanFrom_cons_of_step hstep]

theorem scanFrom_unicode {hex : Char} {value digit count : Nat} (h : hexValue? hex = some digit)
    (hcount : count ≠ 3) : scanFrom (.unicode units value count) (hex :: rest) =
      scanFrom (.unicode units (16 * value + digit) (count + 1)) rest := by
  apply scanFrom_cons_of_step
  simp [step, h, hcount]

theorem scanFrom_unicode_last {hex : Char} {value digit : Nat} (h : hexValue? hex = some digit) :
    scanFrom (.unicode units value 3) (hex :: rest) =
      scanFrom (.string ((16 * value + digit) :: units)) rest := by
  apply scanFrom_cons_of_step
  simp [step, h]

theorem scanFrom_control (h : c.toNat < 0x20) :
    scanFrom (.string units) ('\\' :: 'u' :: '0' :: '0' :: hexDigit (c.toNat / 16) ::
      hexDigit (c.toNat % 16) :: rest) = scanFrom (.string (c.toNat :: units)) rest := by
  have hhigh : hexValue? (hexDigit (c.toNat / 16)) = some (c.toNat / 16) :=
    hexValue?_hexDigit _ (by omega)
  have hlow : hexValue? (hexDigit (c.toNat % 16)) = some (c.toNat % 16) :=
    hexValue?_hexDigit _ (by omega)
  have hzero : hexValue? '0' = some 0 := rfl
  have hvalue : 16 * (16 * (16 * (16 * 0 + 0) + 0) + c.toNat / 16) + c.toNat % 16 = c.toNat := by
    omega
  rw [scanFrom_cons_of_step rfl, scanFrom_cons_of_step rfl, scanFrom_unicode hzero (by decide),
    scanFrom_unicode hzero (by decide), scanFrom_unicode hhigh (by decide),
    scanFrom_unicode_last hlow, hvalue]

/-- However a character stands in a string, it is read as itself. -/
theorem scanFrom_escapeChar (c : Char) : scanFrom (.string units) (escapeChar c ++ rest) =
    scanFrom (.string (c.toNat :: units)) rest := by
  by_cases hquote : c = '"'
  · subst hquote
    exact scanFrom_escape rfl (by decide)
  by_cases hbackslash : c = '\\'
  · subst hbackslash
    exact scanFrom_escape rfl (by decide)
  rw [escapeChar, if_neg hquote, if_neg hbackslash]
  -- Five controls have an escape of their own.
  iterate 5
    split
    · next h =>
      subst h
      exact scanFrom_escape rfl (by decide)
  split
  case isTrue h => exact scanFrom_control h
  case isFalse h =>
    apply scanFrom_cons_of_step
    simp only [step, if_neg hquote, if_neg hbackslash, if_neg h]

theorem scanFrom_flatMap_escapeChar (cs : List Char) :
    scanFrom (.string units) (cs.flatMap escapeChar ++ rest) =
      scanFrom (.string ((cs.map Char.toNat).reverse ++ units)) rest := by
  induction cs generalizing units with
  | nil => rfl
  | cons c later ih =>
    rw [List.flatMap_cons, List.append_assoc, scanFrom_escapeChar, ih]
    simp

/-- A character is not half of a surrogate pair. -/
theorem isHigh_or_isLow_toNat (c : Char) : (isHigh c.toNat || isLow c.toNat) = false := by
  have hvalid : c.toNat < 0xD800 ∨ 0xDFFF < c.toNat := by
    rcases c.valid with h | h
    · exact .inl h
    · exact .inr h.1
  rw [Bool.or_eq_false_iff]
  unfold isHigh isLow
  constructor <;> simp <;> omega

theorem joinUnits_map_toNat (cs : List Char) : joinUnits (cs.map Char.toNat) = some cs := by
  induction cs with
  | nil => rfl
  | cons c later ih =>
    have hc := isHigh_or_isLow_toNat c
    obtain ⟨hhigh, hlow⟩ := Bool.or_eq_false_iff.mp hc
    cases later with
    | nil => simp [joinUnits, hhigh, hlow]
    | cons d later =>
      rw [List.map_cons, List.map_cons, joinUnits, ← List.map_cons, ih]
      simp [hhigh, hlow]

theorem scanFrom_writeString (s : String) : scanFrom .between (writeString s ++ rest) =
    (scanFrom .between rest).map (.string (some s) :: ·) := by
  have hclose : close (.string ((s.toList.map Char.toNat).reverse ++ [])) =
      some (.string (some s)) := by
    simp [close, joinUnits_map_toNat]
  have hend : step (.string ((s.toList.map Char.toNat).reverse ++ [])) '"' =
      some ([.string (some s)], .between) := by
    simp only [step, if_true, hclose, Option.map_some]
  have hsplit : writeString s ++ rest = '"' :: (s.toList.flatMap escapeChar ++ '"' :: rest) := by
    simp [writeString]
  rw [hsplit, scanFrom_cons_of_step rfl, scanFrom_flatMap_escapeChar, scanFrom_cons_of_token hend]

/-! ### Documents -/

/-- A text is scanned as some tokens, wherever it ends. -/
def Scans (text : List Char) (found : List Token) : Prop :=
  ∀ rest, Delimits rest →
    scanFrom .between (text ++ rest) = (scanFrom .between rest).map (found ++ ·)

variable {text text' : List Char} {found' : List Token}

theorem scans_nil : Scans [] [] := by
  intro rest _
  simp

theorem scans_writeString (s : String) : Scans (writeString s) [.string (some s)] :=
  fun _ _ => scanFrom_writeString s

/-- A character that is a token by itself, in front of a text. -/
theorem Scans.cons (hc : step .between c = some ([token], .between)) (h : Scans text found) :
    Scans (c :: text) (token :: found) := by
  intro rest hrest
  rw [List.cons_append, scanFrom_cons_of_token hc, h rest hrest, Option.map_map]
  rfl

/-- Two texts with punctuation between them. -/
theorem Scans.append (h : Scans text found) (hc : step .between c = some ([token], .between))
    (hends : c.isLower = false ∧ isNumeric c = false) (h' : Scans text' found') :
    Scans (text ++ c :: text') (found ++ token :: found') := by
  intro rest hrest
  have hafter : scanFrom .between (c :: text' ++ rest) =
      (scanFrom .between rest).map (token :: found' ++ ·) := Scans.cons hc h' rest hrest
  rw [List.append_assoc, h (c :: text' ++ rest) (delimits_cons hends), hafter, Option.map_map]
  simp [Function.comp_def]

theorem scans_null : Scans "null".toList [.null] := by
  intro rest hrest
  change scanFrom .between ('n' :: 'u' :: 'l' :: 'l' :: rest) = _
  rw [scanFrom_cons_of_step rfl, scanFrom_cons_of_step rfl, scanFrom_cons_of_step rfl,
    scanFrom_cons_of_step rfl, scanFrom_word rfl hrest]
  rfl

theorem scans_writeBool (b : Bool) : Scans (writeBool b) [.bool b] := by
  intro rest hrest
  cases b with
  | true =>
    change scanFrom .between ('t' :: 'r' :: 'u' :: 'e' :: rest) = _
    rw [scanFrom_cons_of_step rfl, scanFrom_cons_of_step rfl, scanFrom_cons_of_step rfl,
      scanFrom_cons_of_step rfl, scanFrom_word rfl hrest]
    rfl
  | false =>
    change scanFrom .between ('f' :: 'a' :: 'l' :: 's' :: 'e' :: rest) = _
    rw [scanFrom_cons_of_step rfl, scanFrom_cons_of_step rfl, scanFrom_cons_of_step rfl,
      scanFrom_cons_of_step rfl, scanFrom_cons_of_step rfl, scanFrom_word rfl hrest]
    rfl

theorem isNumeric_of_mem_toChars {n : Numeral} (h : n.IsWritten) (hc : c ∈ n.toChars) :
    isNumeric c := by
  have hdigit : ∀ d : Char, d.isDigit → isNumeric d := fun d hd => by simp [isNumeric, hd]
  simp only [Numeral.toChars_eq, List.mem_append] at hc
  rcases hc with hc | hc | hc | hc
  · split at hc
    · rw [List.mem_singleton.mp hc]
      decide
    · exact absurd hc List.not_mem_nil
  · exact hdigit c (h.whole_isDigit c hc)
  · unfold Numeral.fractionChars at hc
    split at hc
    · exact absurd hc List.not_mem_nil
    · rcases List.mem_cons.mp hc with rfl | hc
      · decide
      · exact hdigit c (h.fraction_isDigit c hc)
  · cases hexponent : n.exponent with
    | none => simp [Numeral.exponentChars, hexponent] at hc
    | some written =>
      obtain ⟨negative, digits⟩ := written
      rw [hexponent] at hc
      rcases List.mem_cons.mp hc with rfl | hc
      · decide
      rcases List.mem_cons.mp hc with rfl | hc
      · cases negative <;> decide
      · exact hdigit c ((h.exponent_isDigit negative digits hexponent).2 c hc)

theorem step_of_isDigit (h : c.isDigit ∨ c = '-') :
    step .between c = some ([], .number [c]) := by
  have hspace : isSpace c = false := by
    rw [Bool.eq_false_iff]
    intro hspace
    simp only [isSpace, Bool.or_eq_true, beq_iff_eq] at hspace
    rcases hspace with ((rfl | rfl) | rfl) | rfl <;> revert h <;> decide
  have hquote : c ≠ '"' := by
    rintro rfl
    revert h
    decide
  have hbegins : (c.isDigit || decide (c = '-')) = true := by simpa using h
  simp only [step, start, hspace, if_neg hquote, hbegins]
  rfl

theorem scans_toChars {n : Numeral} (h : n.IsWritten) : Scans n.toChars [.number n] := by
  obtain ⟨c, others, hcons, hbegins⟩ := h.exists_toChars_eq_cons
  have hnumeric : ∀ d ∈ others, isNumeric d := fun d hd =>
    isNumeric_of_mem_toChars h (hcons ▸ List.mem_cons_of_mem _ hd)
  have hclose : close (.number (others.reverse ++ [c])) = some (.number n) := by
    have hread := h.ofChars?_toChars
    rw [hcons] at hread
    simp [close, hread]
  intro rest hrest
  rw [hcons, List.cons_append, scanFrom_cons_of_step (step_of_isDigit hbegins),
    scanFrom_number_append hnumeric, scanFrom_number hclose hrest]
  rfl

theorem scans_compactItems {items : List Json} (h : ∀ j ∈ items, Scans j.compactChars j.tokens) :
    Scans (compactItems items) (itemTokens items) := by
  induction items with
  | nil => exact scans_nil
  | cons j rest ih =>
    have hj := h j List.mem_cons_self
    cases rest with
    | nil => exact hj
    | cons k rest =>
      exact hj.append rfl (by decide) (ih fun i hi => h i (List.mem_cons_of_mem _ hi))

theorem scans_compactMembers {members : List (String × Json)}
    (h : ∀ m ∈ members, Scans m.2.compactChars m.2.tokens) :
    Scans (compactMembers members) (memberTokens members) := by
  induction members with
  | nil => exact scans_nil
  | cons m rest ih =>
    obtain ⟨name, j⟩ := m
    have hj : Scans (writeString name ++ ':' :: j.compactChars)
        (.string (some name) :: .colon :: j.tokens) :=
      (scans_writeString name).append rfl (by decide) (h _ List.mem_cons_self)
    cases rest with
    | nil => exact hj
    | cons k rest =>
      exact hj.append rfl (by decide) (ih fun i hi => h i (List.mem_cons_of_mem _ hi))

/-- The text of a plain document has the tokens of the document. -/
theorem scans_compactChars {j : Json} (h : j.Plain) : Scans j.compactChars j.tokens := by
  induction h with
  | null => exact scans_null
  | bool b => exact scans_writeBool b
  | number hwritten _ => exact scans_toChars hwritten
  | string s => exact scans_writeString s
  | array _ ih => exact .cons rfl ((scans_compactItems ih).append rfl (by decide) scans_nil)
  | object _ ih => exact .cons rfl ((scans_compactMembers ih).append rfl (by decide) scans_nil)

theorem scan_compactChars {j : Json} (h : j.Plain) : scan j.compactChars = some j.tokens := by
  have hscan := scans_compactChars h [] delimits_nil
  rw [List.append_nil] at hscan
  exact hscan.trans (congrArg some (List.append_nil _))

end Token

end FormulaEngine.Json
