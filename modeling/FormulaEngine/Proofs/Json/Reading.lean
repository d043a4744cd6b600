import FormulaEngine.Json.Reader
import FormulaEngine.Proofs.Json.Scanning

/-!
# Reading what was written

Whatever is open around it, a plain document is read from its tokens as itself, and so the compact
text of a plain document is the text of that document.
-/

namespace FormulaEngine.Json

namespace Reader

variable {j : Json} {items : List Json} {members done : List (String × Json)}
  {frames : List Frame} {rest : List Token} {token : Token}

/-- The tokens of a document are read as that document, with whatever follows read behind it. -/
def Reads (j : Json) : Prop :=
  ∀ frames rest, run ⟨frames, .value⟩ (j.tokens ++ rest) = (put j frames).bind (run · rest)

theorem run_cons (r : Reader) (token : Token) (rest : List Token) :
    r.run (token :: rest) = (r.step token).bind (run · rest) := rfl

/-! ### Arrays -/

theorem exists_tokens_eq_cons (j : Json) :
    ∃ token rest, j.tokens = token :: rest ∧ token ≠ .endArray := by
  cases j with
  | array items => exact ⟨.beginArray, _, rfl, by simp⟩
  | object members => exact ⟨.beginObject, _, rfl, by simp⟩
  | _ => exact ⟨_, [], rfl, by simp⟩

/-- Where an item or the end may come, an item is read as a value. -/
theorem run_itemOrEnd (j : Json) (rest : List Token) :
    run ⟨frames, .itemOrEnd⟩ (j.tokens ++ rest) = run ⟨frames, .value⟩ (j.tokens ++ rest) := by
  obtain ⟨token, others, htokens, hne⟩ := exists_tokens_eq_cons j
  have hstep : step ⟨frames, .itemOrEnd⟩ token = step ⟨frames, .value⟩ token := by
    cases token with
    | endArray => exact absurd rfl hne
    | _ => rfl
  rw [htokens, List.cons_append, run_cons, run_cons, hstep]

theorem run_itemTokens (hj : Reads j) (h : ∀ i ∈ items, Reads i) (before : List Json) :
    run ⟨.array before.reverse :: frames, .value⟩ (itemTokens (j :: items) ++ .endArray :: rest) =
      (put (.array (before ++ j :: items)) frames).bind (run · rest) := by
  induction items generalizing j before with
  | nil =>
    rw [itemTokens, hj, put, Option.bind_some, run_cons]
    simp [step, afterValue, endArray]
  | cons k items ih =>
    have hk := ih (h k List.mem_cons_self) (fun i hi => h i (List.mem_cons_of_mem _ hi))
      (before ++ [j])
    rw [List.append_assoc] at hk
    rw [itemTokens_cons_cons, List.append_assoc, hj, put, Option.bind_some, List.cons_append,
      run_cons]
    rw [List.reverse_append] at hk
    exact hk

theorem Reads.array (h : ∀ i ∈ items, Reads i) : Reads (.array items) := by
  intro frames rest
  cases items with
  | nil => rfl
  | cons j items =>
    have hitems := @run_itemTokens j items frames rest (h j List.mem_cons_self)
      (fun i hi => h i (List.mem_cons_of_mem _ hi)) []
    obtain ⟨more, hmore⟩ : ∃ more, itemTokens (j :: items) = j.tokens ++ more := by
      cases items with
      | nil => exact ⟨[], (List.append_nil _).symm⟩
      | cons k items => exact ⟨_, itemTokens_cons_cons j k items⟩
    have htokens : (Json.array (j :: items)).tokens ++ rest =
        .beginArray :: (j.tokens ++ (more ++ .endArray :: rest)) := by
      simp [tokens, hmore]
    rw [hmore, List.append_assoc] at hitems
    rw [htokens, run_cons]
    change run ⟨.array [] :: frames, .itemOrEnd⟩ _ = _
    rw [run_itemOrEnd]
    exact hitems

/-! ### Objects -/

/-- Members as they are kept while an object is read. -/
def kept (members : List (String × Json)) : List (Option String × Json) :=
  (members.map fun m => (some m.1, m.2)).reverse

theorem objectOf_reverse_kept (members : List (String × Json)) :
    objectOf (kept members).reverse = .object members := by
  have hnamed : (members.map fun m => (some m.1, m.2)).mapM
      (fun m : Option String × Json => m.1.map fun name => (name, m.2)) = some members := by
    induction members with
    | nil => rfl
    | cons m rest ih =>
      rw [List.map_cons, List.mapM_cons, ih]
      rfl
  rw [kept, List.reverse_reverse, objectOf, hnamed]

/-- A member is a name and a colon, and then a value. -/
theorem run_member (hj : Reads j) (name : String) (before : List (String × Json)) :
    run ⟨.object (kept before) :: frames, .name⟩
        (.string (some name) :: .colon :: (j.tokens ++ rest)) =
      run ⟨.object (kept (before ++ [(name, j)])) :: frames, .commaOrEnd⟩ rest := by
  have hkept : (some name, j) :: kept before = kept (before ++ [(name, j)]) := by
    simp [kept]
  change run ⟨.member (kept before) (some name) :: frames, .value⟩ (j.tokens ++ rest) = _
  rw [hj, put, Option.bind_some, hkept]

theorem run_memberTokens {name : String} (hj : Reads j) (h : ∀ m ∈ members, Reads m.2)
    (before : List (String × Json)) :
    run ⟨.object (kept before) :: frames, .name⟩
        (memberTokens ((name, j) :: members) ++ .endObject :: rest) =
      (put (.object (before ++ (name, j) :: members)) frames).bind (run · rest) := by
  induction members generalizing name j before with
  | nil =>
    have hend : step ⟨.object (kept (before ++ [(name, j)])) :: frames, .commaOrEnd⟩ .endObject =
        put (.object (before ++ [(name, j)])) frames := by
      change put (objectOf _) frames = _
      rw [objectOf_reverse_kept]
    exact (run_member hj name before).trans (by rw [run_cons, hend])
  | cons m members ih =>
    obtain ⟨name', k⟩ := m
    have hk := @ih k name' (h _ List.mem_cons_self) (fun i hi => h i (List.mem_cons_of_mem _ hi))
      (before ++ [(name, j)])
    rw [List.append_assoc] at hk
    rw [memberTokens_cons_cons, List.cons_append, List.cons_append, List.append_assoc,
      run_member hj name before, List.cons_append, run_cons]
    exact hk

theorem Reads.object (h : ∀ m ∈ members, Reads m.2) : Reads (.object members) := by
  intro frames rest
  cases members with
  | nil => rfl
  | cons m members =>
    obtain ⟨name, j⟩ := m
    have hmembers := @run_memberTokens j members frames rest name (h _ List.mem_cons_self)
      (fun i hi => h i (List.mem_cons_of_mem _ hi)) []
    obtain ⟨more, hmore⟩ : ∃ more, memberTokens ((name, j) :: members) =
        .string (some name) :: more := by
      cases members with
      | nil => exact ⟨_, rfl⟩
      | cons k members => exact ⟨_, memberTokens_cons_cons name j k members⟩
    have htokens : (Json.object ((name, j) :: members)).tokens ++ rest =
        .beginObject :: .string (some name) :: (more ++ .endObject :: rest) := by
      simp [tokens, hmore]
    rw [hmore, List.cons_append] at hmembers
    rw [htokens]
    exact hmembers

/-! ### Documents -/

theorem reads_of_plain (h : j.Plain) : Reads j := by
  induction h with
  | null | bool _ | number _ _ | string _ => exact fun _ _ => rfl
  | array _ ih => exact .array ih
  | object _ ih => exact .object ih

end Reader

/-- The text of a plain document is read as that document. -/
theorem parse?_compact {j : Json} (h : j.Plain) : parse? j.compact = some j := by
  have hrun := Reader.reads_of_plain h [] []
  rw [List.append_nil] at hrun
  rw [parse?, compact, String.toList_ofList, read?, Token.scan_compactChars h]
  change (Reader.run ⟨[], .value⟩ j.tokens).bind Reader.document? = _
  rw [hrun]
  rfl

end FormulaEngine.Json
