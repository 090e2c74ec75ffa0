import WikiMind.Base.JsonReading
import WikiMind.Llm.JsonReplies

/-!
# Raw control characters in responses

What `parse_json_response` (`engine/llm_router.py:635`) makes of the text of an object or an array
that has control characters in its strings, bare or in a code fence. The repair
`_sanitize_json_control_chars` (`engine/llm_router.py:132`) stays aligned with the literals of
every text, but only the outermost object gets it, and a line of three backticks ends the block
also where it is in a string.
-/

namespace WikiMind.Llm

open WikiMind.Base
open WikiMind.Base.Json (strict kept Body Denotes Reading Symbol Units brackets isBlank isControl
  isPunct)

/-- Line breaks and tabs are kept, other control characters are replaced by a space. -/
def repaired : Reading := fun c ↦ some (if c = '\n' ∨ c = '\r' ∨ c = '\t' then c else ' ')

section Literals

variable {body rest : List Char} {us : List Nat}

/-- What the repair writes for a character. -/
theorem replaceControlChars_cons (c : Char) (s : List Char) :
    replaceControlChars (c :: s) = replaceControlChars [c] ++ replaceControlChars s := by
  rw [replaceControlChars, List.flatMap_cons, replaceControlChars, List.flatMap_singleton]
  rfl

private theorem replaceControlChars_plain {c : Char} (h : isControl c = false) :
    replaceControlChars [c] = [c] := by
  have hcontrol : ¬ c.toNat < 32 := of_decide_eq_false h
  have hne : ∀ {d : Char}, d.toNat < 32 → c ≠ d := by
    rintro d hd rfl
    exact hcontrol hd
  rw [replaceControlChars, List.flatMap_singleton, if_neg (hne (by decide)),
    if_neg (hne (by decide)), if_neg (hne (by decide)), if_neg hcontrol]

/-- A control character becomes a space or an escape. -/
theorem replaceControlChars_control {c : Char} (h : isControl c = true) :
    (∃ e d, replaceControlChars [c] = ['\\', e] ∧ Json.shortEscapes.lookup e = some d ∧
        repaired c = some d ∧ e ≠ '"' ∧ e ≠ '\\') ∨
      replaceControlChars [c] = [' '] ∧ repaired c = some ' ' := by
  by_cases hnewline : c = '\n'
  · subst hnewline
    exact .inl ⟨'n', '\n', rfl, rfl, rfl, by decide⟩
  by_cases hreturn : c = '\r'
  · subst hreturn
    exact .inl ⟨'r', '\r', rfl, rfl, rfl, by decide⟩
  by_cases htab : c = '\t'
  · subst htab
    exact .inl ⟨'t', '\t', rfl, rfl, rfl, by decide⟩
  · have hcontrol : c.toNat < 32 := of_decide_eq_true h
    refine .inr ⟨?_, ?_⟩
    · rw [replaceControlChars, List.flatMap_singleton, if_neg hnewline, if_neg hreturn,
        if_neg htab, if_pos hcontrol]
    · rw [repaired, if_neg (by simp [hnewline, hreturn, htab])]

/-- The repaired text of a literal is read as JSON like the text was before. -/
theorem units_replaceControlChars (h : Units repaired body us) :
    Units strict (replaceControlChars body) us := by
  induction h with
  | nil => exact .nil
  | plain hback hplain _ ih =>
    rw [replaceControlChars_cons, replaceControlChars_plain hplain]
    exact .plain hback hplain ih
  | control hcontrol hread _ ih =>
    rw [replaceControlChars_cons]
    rcases replaceControlChars_control hcontrol with ⟨e, d, he, hshort, hd, -⟩ | ⟨hspace, hd⟩
    · rw [he]
      cases hread.symm.trans hd
      exact .short hshort ih
    · rw [hspace]
      cases hread.symm.trans hd
      exact .plain (by decide) rfl ih
  | short hshort _ ih =>
    rw [replaceControlChars_cons, replaceControlChars_plain rfl, replaceControlChars_cons,
      replaceControlChars_plain (Json.not_isControl_of_lookup hshort)]
    exact .short hshort ih
  | @unit a b c d n rest us hunit _ ih =>
    have hdigits : ∀ x ∈ [a, b, c, d], replaceControlChars [x] = [x] := fun x hx ↦
      (Json.hexValue_of_unitValue hunit x hx).elim fun _ h ↦
        replaceControlChars_plain (Json.not_isControl_of_hexValue h)
    simp only [List.forall_mem_cons] at hdigits
    rw [replaceControlChars_cons, replaceControlChars_plain rfl, replaceControlChars_cons,
      replaceControlChars_plain rfl, replaceControlChars_cons, hdigits.1, replaceControlChars_cons,
      hdigits.2.1, replaceControlChars_cons, hdigits.2.2.1, replaceControlChars_cons,
      hdigits.2.2.2.1]
    exact .unit hunit ih

/-- The repaired text of a literal is one. -/
theorem body_replaceControlChars (h : Body body) : Body (replaceControlChars body) := by
  induction h with
  | nil => exact .nil
  | @plain c rest hquote hback _ ih =>
    rw [replaceControlChars_cons]
    by_cases hcontrol : isControl c = true
    · rcases replaceControlChars_control hcontrol with ⟨e, d, he, -⟩ | ⟨hspace, -⟩
      · rw [he]
        exact .escape ih
      · rw [hspace]
        exact .plain (by decide) (by decide) ih
    · rw [replaceControlChars_plain (by simpa using hcontrol)]
      exact .plain hquote hback ih
  | @escape c rest _ ih =>
    rw [replaceControlChars_cons, replaceControlChars_plain rfl, replaceControlChars_cons]
    by_cases hcontrol : isControl c = true
    · rcases replaceControlChars_control hcontrol with ⟨e, d, he, -, -, hplain⟩ | ⟨hspace, -⟩
      · rw [he]
        exact .escape (.plain hplain.1 hplain.2 ih)
      · rw [hspace]
        exact .escape ih
    · rw [replaceControlChars_plain (by simpa using hcontrol)]
      exact .escape ih

private theorem literalRest_plain {c : Char} (hquote : c ≠ '"') (hback : c ≠ '\\') (s : List Char) :
    literalRest (c :: s) = (literalRest s).map (c :: ·) := by
  rw [literalRest, if_neg hback]
  · exact fun h ↦ absurd h hquote
  · exact fun _ _ h ↦ absurd h hback

private theorem literalRest_escape {c : Char} (hbreak : c ≠ '\n') (s : List Char) :
    literalRest ('\\' :: c :: s) = (literalRest s).map fun rest ↦ '\\' :: c :: rest := by
  rw [literalRest, if_neg hbreak]

/-- The pattern finds the end of a literal that is read. -/
theorem literalRest_eq (hbody : Body body) (h : Units repaired body us) :
    literalRest (body ++ '"' :: rest) = some (body ++ ['"']) := by
  induction h with
  | nil => rfl
  | plain hback _ _ ih =>
    cases hbody with
    | plain hquote _ hbody => rw [List.cons_append, literalRest_plain hquote hback, ih hbody]; rfl
    | escape => exact absurd rfl hback
  | control hcontrol _ _ ih =>
    cases hbody with
    | plain hquote hback hbody =>
      rw [List.cons_append, literalRest_plain hquote hback, ih hbody]
      rfl
    | escape => cases hcontrol
  | @short e _ _ _ hshort _ ih =>
    cases hbody with
    | plain _ hback => exact absurd rfl hback
    | escape hbody =>
      have hbreak : e ≠ '\n' := by
        rintro rfl
        cases hshort
      rw [List.cons_append, List.cons_append, literalRest_escape hbreak, ih hbody]
      rfl
  | @unit a b c d _ _ _ hunit _ ih =>
    have hdigit : ∀ x ∈ [a, b, c, d], x ≠ '"' ∧ x ≠ '\\' := by
      intro x hx
      obtain ⟨k, hk⟩ := Json.hexValue_of_unitValue hunit x hx
      constructor
      · rintro rfl
        cases hk
      · rintro rfl
        cases hk
    have hdrop : ∀ {x : Char} {s : List Char}, x ∈ [a, b, c, d] → Body (x :: s) → Body s := by
      intro x s hx hs
      cases hs with
      | plain _ _ hs => exact hs
      | escape => exact absurd rfl (hdigit _ hx).2
    cases hbody with
    | plain _ hback => exact absurd rfl hback
    | escape hbody =>
      have hrest := hdrop (by simp) (hdrop (by simp) (hdrop (by simp) (hdrop (by simp) hbody)))
      simp only [List.forall_mem_cons] at hdigit
      obtain ⟨ha, hb, hc, hd, -⟩ := hdigit
      simp only [List.cons_append]
      rw [literalRest_escape (by decide), literalRest_plain ha.1 ha.2,
        literalRest_plain hb.1 hb.2, literalRest_plain hc.1 hc.2, literalRest_plain hd.1 hd.2,
        ih hrest]
      rfl

/-- No literal is found where none is closed. -/
theorem literalRest_open (hbody : Body body) {tail : List Char}
    (htail : tail = [] ∨ tail = ['\\']) : literalRest (body ++ tail) = none := by
  induction hbody with
  | nil => rcases htail with rfl | rfl <;> rfl
  | plain hquote hback _ ih =>
    rw [List.cons_append, literalRest_plain hquote hback, ih]
    rfl
  | @escape c _ _ ih =>
    rw [List.cons_append, List.cons_append, literalRest]
    split
    · rfl
    · rw [ih]
      rfl

private theorem jsonLiteral_eq_none {c : Char} (hquote : c ≠ '"') (s : List Char) :
    jsonLiteral (c :: s) = none := by
  rw [jsonLiteral]
  exact fun _ h ↦ hquote (List.cons.inj h).1

/-- There nothing is repaired. -/
theorem sanitize_open (hbody : Body body) {tail : List Char}
    (htail : tail = [] ∨ tail = ['\\']) :
    sanitizeJsonControlChars (body ++ tail) = body ++ tail := by
  induction hbody with
  | nil => rcases htail with rfl | rfl <;> rfl
  | plain hquote _ _ ih =>
    rw [List.cons_append, sanitizeJsonControlChars, rewrite_keep (jsonLiteral_eq_none hquote _)]
    exact congrArg _ ih
  | @escape c rest hrest ih =>
    have hkeep : jsonLiteral (c :: (rest ++ tail)) = none := by
      by_cases hquote : c = '"'
      · rw [hquote, jsonLiteral, literalRest_open hrest htail]
        rfl
      · exact jsonLiteral_eq_none hquote _
    rw [List.cons_append, List.cons_append, sanitizeJsonControlChars,
      rewrite_keep (jsonLiteral_eq_none (by decide) _), rewrite_keep hkeep]
    exact congrArg (fun s ↦ '\\' :: c :: s) ih

/-- What the repair makes of a symbol. -/
def repairSymbol : Symbol → Symbol
  | .char c => .char c
  | .literal body => .literal (replaceControlChars body)

private theorem sanitize_literal (hbody : Body body) (h : Units repaired body us) :
    sanitizeJsonControlChars ('"' :: (body ++ '"' :: rest)) =
      '"' :: (replaceControlChars body ++ '"' :: sanitizeJsonControlChars rest) := by
  have hfound : jsonLiteral ('"' :: (body ++ '"' :: rest)) =
      some ((body ++ ['"']).length, replaceControlChars ('"' :: (body ++ ['"']))) := by
    rw [jsonLiteral, literalRest_eq hbody h]
    rfl
  have hdrop : (body ++ '"' :: rest).drop (body ++ ['"']).length = rest := by
    have hsplit : body ++ '"' :: rest = (body ++ ['"']) ++ rest := List.append_cons _ _ _
    rw [hsplit, List.drop_left]
  have hquotes : replaceControlChars ('"' :: (body ++ ['"'])) =
      '"' :: (replaceControlChars body ++ ['"']) := by
    simp only [replaceControlChars, List.flatMap_cons, List.flatMap_append]
    rfl
  rw [sanitizeJsonControlChars, rewrite_replace hfound, hdrop, hquotes, List.cons_append,
    List.append_assoc]
  rfl

/-- The repair goes along with the literals of a text. -/
theorem scan_sanitize {s : List Char}
    (h : ∀ body, .literal body ∈ (Json.scan .outside s).1 → ∃ us, Units repaired body us) :
    Json.scan .outside (sanitizeJsonControlChars s) =
      (Json.scan .outside s).map (List.map repairSymbol) id := by
  induction hn : s.length using Nat.strong_induction_on generalizing s with
  | _ n ih =>
    cases s with
    | nil => rfl
    | cons c s =>
      rw [List.length_cons] at hn
      by_cases hquote : c = '"'
      · subst hquote
        rcases Json.exists_body s with ⟨body, rest, rfl, hbody⟩ | ⟨body, tail, rfl, hbody, htail⟩
        · rw [hbody.scan_literal] at h ⊢
          simp only [Prod.map_fst, List.mem_cons] at h
          obtain ⟨us, hus⟩ := h body (.inl rfl)
          rw [List.length_append, List.length_cons] at hn
          rw [sanitize_literal hbody hus, (body_replaceControlChars hbody).scan_literal,
            ih _ (by omega) (fun b hb ↦ h b (.inr hb)) rfl]
          rfl
        · obtain ⟨mode, -, hscan⟩ := hbody.scan_open htail
          have hkeep : jsonLiteral ('"' :: (body ++ tail)) = none := by
            rw [jsonLiteral, literalRest_open hbody htail]
            rfl
          have hsame := sanitize_open hbody htail
          rw [sanitizeJsonControlChars, rewrite_keep hkeep, ← sanitizeJsonControlChars, hsame,
            hscan]
          rfl
      · have hscan : ∀ t, Json.scan .outside (c :: t) =
            (Json.scan .outside t).map (.char c :: ·) id := by
          intro t
          rw [Json.scan, if_neg hquote]
        rw [hscan] at h ⊢
        simp only [Prod.map_fst, List.mem_cons] at h
        rw [sanitizeJsonControlChars, rewrite_keep (jsonLiteral_eq_none hquote _), hscan,
          ← sanitizeJsonControlChars, ih _ (by omega) (fun b hb ↦ h b (.inr hb)) rfl]
        rfl

/-- Repaired symbols have the tokens of the symbols. -/
theorem tokens_repairSymbol {word : List Char} {symbols : List Symbol}
    (h : ∀ body, .literal body ∈ symbols → ∃ us, Units repaired body us) :
    Json.tokens strict word (symbols.map repairSymbol) = Json.tokens repaired word symbols := by
  induction word, symbols using Json.tokens.induct with
  | case1 word => rfl
  | case2 word x rest c hx ih =>
    have hsame : repairSymbol x = x := by
      cases x with
      | char => rfl
      | literal => cases hx
    rw [List.map_cons, hsame, Json.tokens_word hx, Json.tokens_word hx]
    exact ih fun b hb ↦ h b (List.mem_cons_of_mem _ hb)
  | case3 word x rest hx ih =>
    have hread : (repairSymbol x).read strict = x.read repaired := by
      cases x with
      | char => rfl
      | literal body =>
        obtain ⟨us, hus⟩ := h body List.mem_cons_self
        rw [repairSymbol, Symbol.read, Symbol.read, Json.readLiteral, Json.readLiteral,
          Json.units_eq_some_iff.mpr hus,
          Json.units_eq_some_iff.mpr (units_replaceControlChars hus)]
    have hword : (repairSymbol x).word? = none := by
      cases x with
      | char => exact hx
      | literal => rfl
    have hrest := ih fun b hb ↦ h b (List.mem_cons_of_mem _ hb)
    ext ts
    rw [List.map_cons, Json.tokens_cons hword, Json.tokens_cons hx, hread, hrest]

/-- A repaired text is JSON as the text is with its control characters. -/
theorem denotes_sanitize {s : List Char} {v : JsonValue}
    (h : ∀ body, .literal body ∈ (Json.scan .outside s).1 → ∃ us, Units repaired body us) :
    Denotes strict (sanitizeJsonControlChars s) v ↔ Denotes repaired s v := by
  have hlex : Json.lex strict (sanitizeJsonControlChars s) = Json.lex repaired s := by
    ext ts
    rw [Json.lex_eq_some_iff, Json.lex_eq_some_iff, scan_sanitize h, Prod.map_fst, Prod.map_snd,
      tokens_repairSymbol h]
    rfl
  rw [Denotes, Denotes, hlex]

end Literals

section Recovery

variable {before inner after content : List Char} {left right : Char} {v w : JsonValue}

/-- What JSON reads is read so in the repaired way too. -/
theorem denotes_repaired (h : Denotes strict content w) : Denotes repaired content w :=
  h.mono fun _ _ hread ↦ by cases hread

/-- The literals of a text with a value are read. -/
theorem units_of_denotes (h : Denotes repaired content v) :
    ∀ body, .literal body ∈ (Json.scan .outside content).1 → ∃ us, Units repaired body us := by
  obtain ⟨ts, hts, -⟩ := h
  exact fun _ ↦ Json.tokens_literal (Json.lex_eq_some_iff.mp hts).2

/-- An object is found with its control characters repaired, an array only without any. -/
theorem raw_recovers_iff (h : Framed repaired v content before left inner right after)
    (hone : ∀ w, Denotes strict content w → w = v) :
    (Denotes strict content v ∨
        (∀ w, ¬ Denotes strict content w) ∧ parseOutermost jsonLoads content = .ok v) ↔
      v.isObj = true ∨ ∃ w, Denotes strict content w := by
  by_cases hsome : ∃ w, Denotes strict content w
  · obtain ⟨w, hw⟩ := hsome
    exact iff_of_true (.inl (hone w hw ▸ hw)) (.inr ⟨w, hw⟩)
  have hnone : ∀ w, ¬ Denotes strict content w := not_exists.mp hsome
  obtain ⟨hv, hscan, hcore, hcontent, hbefore, hafter⟩ := h
  cases v with
  | obj fields =>
    cases hv
    refine iff_of_true (.inr ⟨hnone, ?_⟩) (.inl rfl)
    have hcut : outermostObject content = some ('{' :: (inner ++ ['}'])) := by
      rw [hcontent]
      exact outermostObject_eq (hbefore.not_mem (by simp)) (hafter.not_mem (by simp))
    unfold parseOutermost
    rw [hcut]
    dsimp only
    by_cases hread : ∃ w, Denotes strict ('{' :: (inner ++ ['}'])) w
    · obtain ⟨w, hw⟩ := hread
      rw [jsonLoads_eq_ok_iff.mpr hw, (denotes_repaired hw).unique hcore]
    · rw [jsonLoads_eq_error (not_exists.mp hread)]
      exact jsonLoads_eq_ok_iff.mpr ((denotes_sanitize (units_of_denotes hcore)).mpr hcore)
  | arr xs =>
    refine iff_of_false ?_ ?_
    · rintro (h | ⟨-, h⟩)
      · exact hnone _ h
      · exact parseOutermost_arr hnone h
    · rintro (h | h)
      · cases h
      · exact hsome h
  | _ => cases hv

/-- Nothing is found in a text that is cut in front of a character that is no white space. -/
theorem not_recovers_of_cut {cut : List Char} {c : Char}
    (h : Framed repaired v (content ++ cut) before left inner right after)
    (hblank : ∀ d ∈ before ++ after, isBlank d = true) (hc : c ∈ cut) (hcut : isBlank c = false) :
    ¬ (Denotes strict content v ∨
      (∀ w, ¬ Denotes strict content w) ∧ parseOutermost jsonLoads content = .ok v) := by
  rw [List.forall_mem_append] at hblank
  have hwhole : Denotes repaired (content ++ cut) v := by
    rw [h.text]
    exact h.core.blank_around hblank.1 hblank.2
  have hsome : (brackets v).isSome = true := by
    rw [h.brackets]
    rfl
  rintro (hfirst | ⟨hnone, hlater⟩)
  · rw [(denotes_repaired hfirst).blank_of_append hsome hwhole c hc] at hcut
    cases hcut
  have hleft : left = '{' := by
    have hv := h.brackets
    cases v with
    | obj => exact (congrArg Prod.fst (Option.some.inj hv)).symm
    | arr => exact absurd hlater (parseOutermost_arr hnone)
    | _ => cases hv
  unfold parseOutermost at hlater
  split at hlater
  · exact hnone _ (jsonLoads_eq_ok_iff.mp hlater)
  next extracted hextracted =>
  obtain ⟨front, inner', rest, hcontent, hshape, hfront, -⟩ := eq_of_outermostObject hextracted
  have hpad : ∀ d ∈ front, isBlank d = true := by
    have hstarts : front <+: before ++ left :: (inner ++ [right] ++ after) := by
      have htext := h.text
      rw [hcontent, List.append_assoc] at htext
      exact ⟨_, by simpa using htext⟩
    rw [← hleft] at hfront
    exact fun d hd ↦ hblank.1 d ((prefix_of_prefix_append_cons hfront hstarts).subset hd)
  have hrest : Denotes repaired (extracted ++ (rest ++ cut)) v := by
    obtain ⟨ts, hts, hvalue⟩ := hwhole
    rw [hcontent, List.append_assoc, Json.lex_blank_append hpad, List.append_assoc] at hts
    exact ⟨ts, hts, hvalue⟩
  have hextract : Denotes repaired extracted v := by
    split at hlater
    · refine (denotes_sanitize fun body hbody ↦ units_of_denotes hrest body ?_).mp
        (jsonLoads_eq_ok_iff.mp hlater)
      rw [Json.scan_append]
      exact List.mem_append_left _ hbody
    · exact denotes_repaired (jsonLoads_eq_ok_iff.mp hlater)
  have hbehind := hextract.blank_of_append hsome hrest c (List.mem_append_right _ hc)
  rw [hbehind] at hcut
  cases hcut

end Recovery

/-! ### Replies -/

/-- No prose. -/
def silence : Prose := ⟨[], plain_nil, unfenced_nil⟩

/-- A response with the text of an object or an array that has control characters in strings,
bare or in a code fence. -/
structure RawReply where
  value : JsonValue
  structured : (brackets value).isSome = true
  text : List Char
  written : Denotes kept text value
  fence : Option CodeFence

namespace RawReply

variable (r : RawReply)

/-- The text of the response. -/
def content : List Char :=
  match r.fence with
  | none => r.text
  | some fence => (Wrapper.fenced fence silence silence (.inl rfl) (.inl rfl)).wrap r.text

/-- Only objects are repaired: an array has to be JSON as it is, and a fence around it has to be
closed by three backticks. In a fence of backticks no line of the text is three of them. -/
def Repaired : Prop :=
  (r.value.isObj = true ∨
    (∃ w, Denotes strict r.text w) ∧ ∀ f ∈ r.fence, isFenceLine f.closing = true) ∧
  ∀ f ∈ r.fence, f.fence.char = '`' → ∀ l ∈ r.text.splitOn '\n', isFenceLine l = false

end RawReply

section Replies

variable {text before inner after : List Char} {left right : Char} {v : JsonValue}
  {response : CompletionResponse}

/-- The first line of three backticks, and with it what is behind, is cut off. -/
theorem exists_cut {i : Nat} (h : (text.splitOn '\n').findIdx? isFenceLine = some i) :
    ∃ cut, text = ['\n'].intercalate ((text.splitOn '\n').take i) ++ cut ∧ '`' ∈ cut := by
  obtain ⟨x, l, y, hsplit, rfl, hl, -⟩ := exists_of_findIdx? h
  obtain ⟨cut, hcut, hwithin⟩ := intercalate_append_cons ['\n'] x l y
  rw [← hsplit, List.intercalate_splitOn] at hcut
  refine ⟨cut, ?_, ((fence_infix_of_isFenceLine hl).trans hwithin).subset (by simp)⟩
  rw [hsplit, List.take_left]
  exact hcut

/-- White space around the brackets does not count. -/
theorem Framed.denotes_iff (h : Framed repaired v text before left inner right after)
    (hblank : ∀ c ∈ before ++ after, isBlank c = true)
    {raw : Reading} {w : JsonValue} :
    Denotes raw text w ↔ Denotes raw (left :: (inner ++ [right])) w := by
  obtain ⟨ts, hts, -⟩ := h.core
  rw [List.forall_mem_append] at hblank
  rw [h.text, Json.denotes_blank_around hblank.1 (Json.lex_eq_some_iff.mp hts).1 hblank.2]

private theorem Framed.eq_of_strict (h : Framed repaired v text before left inner right after)
    (hblank : ∀ c ∈ before ++ after, isBlank c = true)
    {w : JsonValue} (hw : Denotes strict text w) : w = v :=
  (denotes_repaired hw).unique ((h.denotes_iff hblank).mpr h.core)

/-- A bare text. -/
theorem parse_raw_bare (h : Framed repaired v text before left inner right after)
    (hblank : ∀ c ∈ before ++ after, isBlank c = true)
    (hcontent : response.content.toList = text) :
    parseJsonResponse jsonLoads response = .ok v ↔
      v.isObj = true ∨ ∃ w, Denotes strict text w := by
  have hstrip := h.strip
  have hrest : ∀ c ∈ before.dropWhile isSpace ++ after.rdropWhile isSpace, isBlank c = true := by
    rw [List.forall_mem_append] at hblank ⊢
    exact ⟨fun c hc ↦ hblank.1 c ((List.dropWhile_suffix _).subset hc),
      fun c hc ↦ hblank.2 c ((List.rdropWhile_prefix _ _).subset hc)⟩
  have hunfenced : ¬ "```".toList <:+: before.dropWhile isSpace := by
    intro hwithin
    cases hrest '`' (List.mem_append_left _ (hwithin.subset (by simp)))
  have htext : stripFences (strip response.content.toList) = strip text := by
    rw [hcontent, stripFences_eq_self (hstrip.not_startsWith hunfenced)]
  rw [parse_eq_ok_iff htext, raw_recovers_iff hstrip fun w hw ↦ hstrip.eq_of_strict hrest hw]
  simp only [hstrip.denotes_iff hrest, h.denotes_iff hblank]

/-- A text in a code fence. -/
theorem parse_raw_fenced (h : Framed repaired v text before left inner right after)
    (hblank : ∀ c ∈ before ++ after, isBlank c = true) {fence : CodeFence}
    (hcontent : response.content.toList =
      (Wrapper.fenced fence silence silence (.inl rfl) (.inl rfl)).wrap text) :
    parseJsonResponse jsonLoads response = .ok v ↔
      (v.isObj = true ∨ (∃ w, Denotes strict text w) ∧ isFenceLine fence.closing = true) ∧
        (fence.fence.char = '`' → ∀ l ∈ text.splitOn '\n', isFenceLine l = false) := by
  obtain ⟨front, closing, rest, hstripped, hstrip⟩ :=
    strip_wrap fence silence silence (.inl rfl) (.inl rfl) text
  rw [← hcontent] at hstrip
  have hsilent : ∀ c ∈ silence.text, isSpace c = true := List.forall_mem_nil _
  by_cases hcut : fence.fence.char = '`' ∧ ∃ l ∈ text.splitOn '\n', isFenceLine l = true
  · -- the text ends at its first line of three backticks
    obtain ⟨hchar, l, hl, hfence⟩ := hcut
    obtain ⟨i, hi⟩ : ∃ i, (text.splitOn '\n').findIdx? isFenceLine = some i := by
      rw [← Option.isSome_iff_exists, List.findIdx?_isSome]
      exact List.any_eq_true.mpr ⟨l, hl, hfence⟩
    obtain ⟨cut, htext, htick⟩ := exists_cut hi
    refine iff_of_false ?_ ?_
    · have hkept : stripFences (strip response.content.toList) =
          ['\n'].intercalate ((text.splitOn '\n').take i) := by
        obtain ⟨hline, hstart⟩ := hstripped.first hsilent
        obtain ⟨lines, hlines, -⟩ :=
          splitOn_closing text hstripped.closingLine hstripped.lines
        have hlength := (List.findIdx?_eq_some_iff_getElem.mp hi).1
        rw [hstrip, stripFences_eq hline (by rw [hstart]; exact decide_eq_true hchar), hlines,
          List.findIdx?_append, hi]
        dsimp only [Option.or]
        rw [List.take_append_of_le_length hlength.le]
      rw [parse_eq_ok_iff hkept]
      rw [htext] at h
      exact not_recovers_of_cut h hblank htick rfl
    · rintro ⟨-, hnone⟩
      rw [hnone hchar l hl] at hfence
      cases hfence
  · have hbody : fence.fence.char = '`' → ∀ l ∈ text.splitOn '\n', isFenceLine l = false := by
      intro hchar l hl
      by_contra hfence
      exact hcut ⟨hchar, l, hl, by simpa using hfence⟩
    rw [and_iff_left hbody]
    by_cases hclosing : isFenceLine fence.closing = true
    · have htext := hstripped.stripFences_eq hsilent hclosing
        (hbody (fence.char_of_isFenceLine hclosing))
      rw [← hstrip] at htext
      rw [parse_eq_ok_iff htext, raw_recovers_iff h fun w hw ↦ h.eq_of_strict hblank hw]
      simp [hclosing]
    · -- the whole response is left as it is
      have htext : stripFences (strip response.content.toList) =
          strip response.content.toList := by
        rw [hstrip]
        by_cases hchar : fence.fence.char = '`'
        · exact hstripped.stripFences_eq_self silence.unfenced (fun hopen ↦ hclosing hopen.1)
            (hbody hchar)
        · refine stripFences_eq_self ?_
          rw [(hstripped.first hsilent).2]
          exact decide_eq_false hchar
      have hbreak : Plain ['\n'] := by simp [Plain]
      have hwhole := h.around (hstripped.plain.1.append hbreak) (hbreak.append hstripped.plain.2)
      have hshape : front ++ ['\n'] ++ (text ++ (['\n'] ++ (closing ++ rest))) =
          front ++ '\n' :: (text ++ '\n' :: (closing ++ rest)) := by simp
      rw [hshape, ← hstrip] at hwhole
      have hnone : ∀ w, ¬ Denotes strict (strip response.content.toList) w := by
        rw [hstrip]
        exact hstripped.not_denotes (Json.isPunct_brackets h.brackets).1 (by rw [h.text]; simp)
      rw [parse_eq_ok_iff htext, raw_recovers_iff hwhole fun w hw ↦ absurd hw (hnone w)]
      simp [hclosing, hnone]

private theorem isObj_eq_true_iff {v : JsonValue} :
    v.isObj = true ↔ brackets v = some ('{', '}') := by
  cases v <;> simp [JsonValue.isObj, brackets]


/-- A response that is such a text. -/
theorem parse_raw (r : RawReply) (hcontent : response.content.toList = r.content) :
    ∃ expected, Denotes repaired r.text expected ∧
      (parseJsonResponse jsonLoads response = .ok expected ↔ r.Repaired) := by
  obtain ⟨value, hstructured, text, hwritten, fence⟩ := r
  have hreads : ∀ c, ∃ d, repaired c = some d := fun c ↦ ⟨_, rfl⟩
  obtain ⟨expected, hexpected, hbrackets⟩ := hwritten.reread hreads
  refine ⟨expected, hexpected, ?_⟩
  obtain ⟨⟨left, right⟩, hv⟩ := Option.isSome_iff_exists.mp hstructured
  obtain ⟨before, inner, after, htext, hbefore, hafter, hscan, hcore⟩ :=
    hexpected.eq_brackets (hbrackets.trans hv)
  have hblank : ∀ c ∈ before ++ after, isBlank c = true :=
    List.forall_mem_append.mpr ⟨hbefore, hafter⟩
  have hframed : Framed repaired expected text before left inner right after :=
    ⟨hbrackets.trans hv, hscan, hcore, htext, plain_of_isBlank hbefore, plain_of_isBlank hafter⟩
  have hobj : expected.isObj = value.isObj := by
    rw [Bool.eq_iff_iff, isObj_eq_true_iff, isObj_eq_true_iff, hbrackets]
  cases fence with
  | none =>
    rw [parse_raw_bare hframed hblank hcontent, hobj]
    simp [RawReply.Repaired]
  | some fence =>
    rw [parse_raw_fenced hframed hblank hcontent, hobj]
    simp [RawReply.Repaired]

end Replies

/-- A response with control characters in strings gives the repaired value exactly if that is
found. -/
theorem parse_rawReply (r : RawReply) (response : CompletionResponse) :
    ∃ expected, Denotes repaired r.text expected ∧
      (parseJsonResponse jsonLoads { response with content := String.ofList r.content } =
        .ok expected ↔ r.Repaired) :=
  parse_raw r String.toList_ofList

/-- An array of one string of two lines. -/
def linesReply : RawReply where
  value := .arr [.str "one\ntwo"]
  structured := rfl
  text := "[\"one\ntwo\"]".toList
  written := Json.read_eq_some_iff.mp rfl
  fence := none

/-- It is not read. -/
theorem parse_linesReply {response : CompletionResponse}
    (hcontent : response.content.toList = linesReply.content) (v : JsonValue) :
    parseJsonResponse jsonLoads response ≠ .ok v := by
  have htext : stripFences (strip response.content.toList) = linesReply.text := by
    rw [hcontent]
    rfl
  have hread : Json.read strict linesReply.text = none := rfl
  have hnone : ∀ w, ¬ Denotes strict linesReply.text w := by
    intro w hw
    rw [Json.read_eq_some_iff.mpr hw] at hread
    cases hread
  have hcut : outermostObject linesReply.text = none := rfl
  rw [Ne, parse_eq_ok_iff htext, parseOutermost, hcut]
  rintro (h | ⟨-, h⟩)
  · exact hnone v h
  · exact hnone v (jsonLoads_eq_ok_iff.mp h)

theorem rawReply_lost : ¬ ∀ (r : RawReply) (response : CompletionResponse),
    ∃ expected, Denotes repaired r.text expected ∧
      parseJsonResponse jsonLoads { response with content := String.ofList r.content } =
        .ok expected := by
  intro h
  obtain ⟨expected, -, hparse⟩ := h linesReply ⟨"", .mock, "", 0, 0, 0, 0⟩
  refine parse_linesReply ?_ expected hparse
  exact String.toList_ofList

end WikiMind.Llm
