import Mathlib
import WikiMind.Base.JsonGrammar
import WikiMind.Base.Markdown
import WikiMind.Llm.Responses

/-!
# Objects and arrays in responses

What `parse_json_response` (`engine/llm_router.py:635`) makes of a response that holds the text of
an object or an array, with prose around it or a code fence. From prose it cuts what stands
between the first opening and the last closing brace, which is the text of an object; an array
is read only if nothing is left around it.
-/

namespace WikiMind.Llm

open WikiMind.Base
open WikiMind.Base.Json (strict Denotes Reading brackets isBlank isPunct)

/-- `json.loads` as JSON has it: numbers are exact, and no value is too large or too deep. -/
def jsonLoads : Loads := fun text ↦
  match Json.read strict text with
  | some v => .ok v
  | none => .error .decodeError

section Loading

variable {raw : Reading} {text rest : List Char} {v w : JsonValue}

theorem jsonLoads_eq_ok_iff : jsonLoads text = .ok v ↔ Denotes strict text v := by
  rw [← Json.read_eq_some_iff]
  unfold jsonLoads
  cases Json.read strict text <;> simp

theorem jsonLoads_eq_error (h : ∀ v, ¬ Denotes strict text v) :
    jsonLoads text = .error .decodeError := by
  cases hread : jsonLoads text with
  | ok v => exact absurd (jsonLoads_eq_ok_iff.mp hread) (h v)
  | error e =>
    unfold jsonLoads at hread
    split at hread <;> cases hread
    rfl

/-- The outcome of `parse_json_response` is that of its first try or of the later ones. -/
theorem parse_eq_ok_iff {response : CompletionResponse}
    (htext : stripFences (strip response.content.toList) = text) :
    parseJsonResponse jsonLoads response = .ok v ↔ Denotes strict text v ∨
      (∀ w, ¬ Denotes strict text w) ∧ parseOutermost jsonLoads text = .ok v := by
  unfold parseJsonResponse
  dsimp only
  rw [htext]
  by_cases hsome : ∃ w, Denotes strict text w
  · obtain ⟨w, hw⟩ := hsome
    rw [jsonLoads_eq_ok_iff.mpr hw]
    constructor
    · intro h
      cases h
      exact .inl hw
    · rintro (h | ⟨h, -⟩)
      · rw [h.unique hw]
        rfl
      · exact absurd hw (h w)
  · rw [not_exists] at hsome
    rw [jsonLoads_eq_error hsome]
    dsimp only
    constructor
    · intro h
      refine .inr ⟨hsome, ?_⟩
      cases houtcome : parseOutermost jsonLoads text with
      | ok w =>
        rw [houtcome] at h
        cases h
        rfl
      | error e =>
        rw [houtcome] at h
        cases h
    · rintro (h | ⟨-, h⟩)
      · exact absurd h (hsome v)
      · rw [h]
        rfl

end Loading

section Outermost

variable {raw : Reading} {before inner after content extracted : List Char} {v w : JsonValue}

private theorem findIdx?_append_cons {α : Type} {p : α → Bool} {x y : List α} {c : α}
    (hx : ∀ d ∈ x, p d = false) (hc : p c = true) : (x ++ c :: y).findIdx? p = some x.length := by
  have hnone : x.findIdx? p = none := List.findIdx?_eq_none_iff.mpr hx
  rw [List.findIdx?_append, hnone, List.findIdx?_cons, hc]
  simp

/-- From the first opening to the last closing brace. -/
theorem outermostObject_eq (hbefore : '{' ∉ before) (hafter : '}' ∉ after) :
    outermostObject (before ++ ('{' :: (inner ++ ['}']) ++ after)) =
      some ('{' :: (inner ++ ['}'])) := by
  have hfirst : (before ++ ('{' :: (inner ++ ['}']) ++ after)).findIdx? (· = '{') =
      some before.length :=
    findIdx?_append_cons (fun d hd ↦ decide_eq_false fun heq ↦ hbefore (heq ▸ hd)) rfl
  have hlast : (before ++ ('{' :: (inner ++ ['}']) ++ after)).reverse.findIdx? (· = '}') =
      some after.length := by
    have hreverse : (before ++ ('{' :: (inner ++ ['}']) ++ after)).reverse =
        after.reverse ++ '}' :: (inner.reverse ++ '{' :: before.reverse) := by simp
    rw [hreverse, findIdx?_append_cons _ rfl, List.length_reverse]
    exact fun d hd ↦ decide_eq_false fun heq ↦ hafter (heq ▸ List.mem_reverse.mp hd)
  have hlength : (before ++ ('{' :: (inner ++ ['}']) ++ after)).length - 1 - after.length =
      before.length + (inner.length + 1) := by
    simp only [List.length_append, List.length_cons, List.length_nil]
    omega
  have htake : (before ++ ('{' :: (inner ++ ['}']) ++ after)).take
      (before.length + (inner.length + 1) + 1) = before ++ '{' :: (inner ++ ['}']) := by
    rw [← List.append_assoc]
    apply List.take_left'
    simp only [List.length_append, List.length_cons, List.length_nil]
    omega
  unfold outermostObject
  rw [hfirst, hlast]
  dsimp only [Option.bind_eq_bind, Option.bind_some]
  rw [hlength, if_pos (by omega), htake, List.drop_left]

theorem exists_of_findIdx? {α : Type} {p : α → Bool} {s : List α} {i : Nat}
    (h : s.findIdx? p = some i) :
    ∃ x c y, s = x ++ c :: y ∧ x.length = i ∧ p c = true ∧ ∀ d ∈ x, p d = false := by
  obtain ⟨hlength, hc, hfirst⟩ := List.findIdx?_eq_some_iff_getElem.mp h
  refine ⟨s.take i, s[i], s.drop (i + 1), ?_, ?_, hc, ?_⟩
  · rw [← List.drop_eq_getElem_cons hlength, List.take_append_drop]
  · rw [List.length_take]
    omega
  · intro d hd
    obtain ⟨j, hj, rfl⟩ := List.mem_iff_getElem.mp hd
    rw [List.getElem_take]
    rw [List.length_take] at hj
    simpa using hfirst j (by omega)

/-- What is cut out. -/
theorem eq_of_outermostObject (h : outermostObject content = some extracted) :
    ∃ before inner after, content = before ++ (extracted ++ after) ∧
      extracted = '{' :: (inner ++ ['}']) ∧ '{' ∉ before ∧ '}' ∉ after := by
  have hcut := h
  unfold outermostObject at hcut
  obtain ⟨i, hi, hcut⟩ := Option.bind_eq_some_iff.mp hcut
  obtain ⟨j, hj, hcut⟩ := Option.bind_eq_some_iff.mp hcut
  obtain ⟨before, c, rest, hfirst, rfl, hc, hbefore⟩ := exists_of_findIdx? hi
  obtain ⟨behind, d, front, hlast, rfl, hd, hbehind⟩ := exists_of_findIdx? hj
  obtain rfl : c = '{' := by simpa using hc
  obtain rfl : d = '}' := by simpa using hd
  have hback : content = front.reverse ++ '}' :: behind.reverse := by
    have hreverse := congrArg List.reverse hlast
    simpa using hreverse
  have hlt : before.length < front.reverse.length := by
    dsimp only at hcut
    split at hcut
    · next hlt =>
      rw [hback] at hlt
      simp only [List.length_append, List.length_cons, List.length_reverse] at hlt ⊢
      omega
    · cases hcut
  obtain ⟨inner, hinner⟩ : ∃ inner, front.reverse = before ++ '{' :: inner := by
    rw [hfirst] at hback
    rcases List.append_eq_append_iff.mp hback with ⟨z, hz, hrest⟩ | ⟨z, hz, -⟩
    · cases z with
      | nil => simp [hz] at hlt
      | cons e z =>
        rw [← (List.cons.inj hrest).1] at hz
        exact ⟨z, hz⟩
    · simp [hz] at hlt
  have hshape : content = before ++ ('{' :: (inner ++ ['}']) ++ behind.reverse) := by
    rw [hback, hinner]
    simp
  have hnotBefore : '{' ∉ before := fun hmem ↦ by simpa using hbefore _ hmem
  have hnotBehind : '}' ∉ behind.reverse :=
    fun hmem ↦ by simpa using hbehind _ (List.mem_reverse.mp hmem)
  rw [hshape, outermostObject_eq hnotBefore hnotBehind, Option.some.injEq] at h
  exact ⟨before, inner, behind.reverse, by rw [hshape, ← h], h.symm, hnotBefore, hnotBehind⟩

private theorem sanitize_brace (rest : List Char) :
    sanitizeJsonControlChars ('{' :: rest) = '{' :: sanitizeJsonControlChars rest :=
  rewrite_keep rfl

/-- No brackets are in a text. -/
def Plain (text : List Char) : Prop := ∀ c ∈ text, c ∉ ['[', ']', '{', '}']

theorem Plain.not_mem {text : List Char} (h : Plain text) {c : Char}
    (hc : c ∈ ['[', ']', '{', '}']) : c ∉ text := fun hmem ↦ h c hmem hc

theorem plain_nil : Plain [] := List.forall_mem_nil _

theorem Plain.append {a b : List Char} (ha : Plain a) (hb : Plain b) : Plain (a ++ b) :=
  fun c hc ↦ (List.mem_append.mp hc).elim (ha c) (hb c)

private theorem Plain.of_subset {a b : List Char} (hb : Plain b) (h : a ⊆ b) : Plain a :=
  fun c hc ↦ hb c (h hc)

theorem plain_of_isBlank {text : List Char} (h : ∀ c ∈ text, isBlank c = true) : Plain text := by
  intro c hc hmem
  have hblank := h c hc
  simp only [List.mem_cons, List.not_mem_nil, or_false] at hmem
  rcases hmem with rfl | rfl | rfl | rfl <;> cases hblank

/-- The tries behind the first one give objects only. -/
theorem parseOutermost_arr {xs : List JsonValue} (hnone : ∀ w, ¬ Denotes strict content w) :
    parseOutermost jsonLoads content ≠ .ok (.arr xs) := by
  intro h
  unfold parseOutermost at h
  split at h
  · exact hnone _ (jsonLoads_eq_ok_iff.mp h)
  · next extracted hextracted =>
    obtain ⟨-, inner, -, -, rfl, -⟩ := eq_of_outermostObject hextracted
    split at h
    · rw [sanitize_brace] at h
      cases (jsonLoads_eq_ok_iff.mp h).brackets_of_brace
    · cases (jsonLoads_eq_ok_iff.mp h).brackets_of_brace

/-- An object is cut out of what is around it. -/
theorem parseOutermost_obj (hcore : Denotes strict ('{' :: (inner ++ ['}'])) v)
    (hbefore : Plain before) (hafter : Plain after) :
    parseOutermost jsonLoads (before ++ ('{' :: (inner ++ ['}']) ++ after)) = .ok v := by
  unfold parseOutermost
  rw [outermostObject_eq (hbefore.not_mem (by simp)) (hafter.not_mem (by simp))]
  dsimp only
  rw [jsonLoads_eq_ok_iff.mpr hcore]

/-- The parts of a text that has the text of an object or an array in it. -/
structure Framed (raw : Reading) (v : JsonValue) (text before : List Char) (left : Char)
    (inner : List Char) (right : Char) (after : List Char) : Prop where
  brackets : brackets v = some (left, right)
  scan : (Json.scan .outside (left :: inner)).2 = .outside
  core : Denotes raw (left :: (inner ++ [right])) v
  text : text = before ++ (left :: (inner ++ [right]) ++ after)
  plain : Plain before ∧ Plain after

/-- An object is found in a text that is no string itself, an array in white space. -/
theorem recovers_iff {left right : Char}
    (h : Framed strict v content before left inner right after) :
    (Denotes strict content v ∨
        (∀ w, ¬ Denotes strict content w) ∧ parseOutermost jsonLoads content = .ok v) ↔
      if v.isObj then ¬ ∃ s, Denotes strict content (.str s)
      else ∀ c ∈ before ++ after, isBlank c = true := by
  obtain ⟨hv, hscan, hcore, hcontent, hbefore, hafter⟩ := h
  have hframed : ∀ {w}, Denotes strict content w → ((∀ c ∈ before, isBlank c = true) ∧
      (∀ c ∈ after, isBlank c = true) ∧ w = v) ∨ ∃ s, w = .str s := by
    intro w hw
    rw [hcontent] at hw
    exact hcore.framed hv hscan ⟨hbefore.not_mem (by simp), hbefore.not_mem (by simp)⟩ hw
  cases v with
  | obj fields =>
    cases hv
    have hobj : (JsonValue.obj fields).isObj = true := rfl
    rw [if_pos hobj]
    constructor
    · rintro (h | ⟨hnone, -⟩) ⟨s, hs⟩
      · cases h.unique hs
      · exact hnone _ hs
    · intro hstr
      by_cases hsome : ∃ w, Denotes strict content w
      · obtain ⟨w, hw⟩ := hsome
        rcases hframed hw with ⟨-, -, rfl⟩ | ⟨s, rfl⟩
        · exact .inl hw
        · exact absurd ⟨s, hw⟩ hstr
      · refine .inr ⟨not_exists.mp hsome, ?_⟩
        rw [hcontent]
        exact parseOutermost_obj hcore hbefore hafter
  | arr xs =>
    cases hv
    rw [if_neg (by simp [JsonValue.isObj]), List.forall_mem_append]
    constructor
    · rintro (h | ⟨hnone, h⟩)
      · rcases hframed h with ⟨hpad, hrest, -⟩ | ⟨s, hs⟩
        · exact ⟨hpad, hrest⟩
        · cases hs
      · exact absurd h (parseOutermost_arr hnone)
    · intro hblank
      rw [hcontent]
      exact .inl (hcore.blank_around hblank.1 hblank.2)
  | _ => cases hv

end Outermost

/-! ### Code fences -/

/-- The line of a closing fence of three backticks, as the code looks for it. -/
def isFenceLine (line : List Char) : Bool := strip line = "```".toList

section Fences

variable {opening body closing after : List Char}

theorem stripFences_eq_self (h : startsWith body "```" = false) : stripFences body = body := by
  rw [stripFences, if_neg (by simp [h])]

/-- Behind a first line with backticks a line of three is looked for. -/
theorem stripFences_eq (hline : '\n' ∉ opening)
    (hstart : startsWith (opening ++ '\n' :: body) "```" = true) :
    stripFences (opening ++ '\n' :: body) =
      match (body.splitOn '\n').findIdx? isFenceLine with
      | some i => ['\n'].intercalate ((body.splitOn '\n').take i)
      | none => opening ++ '\n' :: body := by
  have htail : ((opening ++ '\n' :: body).splitOn '\n').tail = body.splitOn '\n' := by
    rw [List.splitOn_append_cons_self_of_not_mem hline, List.tail_cons]
  unfold stripFences
  rw [if_pos hstart, htail]
  rfl

/-- The lines of a text, of a closing fence and behind that. -/
theorem splitOn_closing (body : List Char) (hclosing : '\n' ∉ closing)
    (hafter : after = [] ∨ ∃ rest, after = '\n' :: rest) :
    ∃ lines : List (List Char),
      (body ++ '\n' :: (closing ++ after)).splitOn '\n' =
        body.splitOn '\n' ++ closing :: lines ∧ ∀ l ∈ lines, l <:+: after := by
  rw [List.splitOn_append_cons_self]
  rcases hafter with rfl | ⟨rest, rfl⟩
  · rw [List.append_nil, List.splitOn_eq_singleton hclosing]
    exact ⟨[], rfl, List.forall_mem_nil _⟩
  · rw [List.splitOn_append_cons_self_of_not_mem hclosing]
    exact ⟨_, rfl, fun l hl ↦ (infix_of_mem_splitOn hl).trans ⟨['\n'], [], by simp⟩⟩

/-- A line of three backticks has nothing else but white space. -/
theorem mem_of_isFenceLine {line : List Char} (h : isFenceLine line = true) {c : Char}
    (hc : c ∈ line) : c = '`' ∨ isSpace c = true := by
  have hstrip : strip line = "```".toList := of_decide_eq_true h
  obtain ⟨before, behind, hline, hbefore, hbehind⟩ := eq_append_strip line
  rw [hline, hstrip, List.mem_append, List.mem_append] at hc
  rcases hc with hc | hc | hc
  · exact .inr (hbefore c hc)
  · exact .inl (by simpa using hc)
  · exact .inr (hbehind c hc)

theorem fence_infix_of_isFenceLine {line : List Char} (h : isFenceLine line = true) :
    "```".toList <:+: line := by
  have hstrip : strip line = "```".toList := of_decide_eq_true h
  obtain ⟨before, behind, hline, -, -⟩ := eq_append_strip line
  exact ⟨before, behind, by rw [hline, hstrip, List.append_assoc]⟩

/-- Between literals of the text of a value no line is a closing fence. -/
theorem not_isFenceLine_of_lex {raw : Reading} {line : List Char} {q ts : List Json.Token}
    {v : JsonValue} (hq : Json.lex raw line = some q) (hsub : q ⊆ ts) (hvalue : Json.Value ts v) :
    isFenceLine line = false := by
  by_contra hfence
  rw [Bool.not_eq_false] at hfence
  have hquote : '"' ∉ line := by
    intro hmem
    rcases mem_of_isFenceLine hfence hmem with h | h <;> cases h
  obtain ⟨before, behind, hline⟩ := fence_infix_of_isFenceLine hfence
  have htick : '`' ∈ line := by
    rw [← hline]
    simp
  obtain ⟨w, hw, hmem⟩ := Json.mem_word_lex hquote hq htick (by decide)
  cases hvalue.isWordChar (hsub hw) '`' hmem

/-- No line of prose is a closing fence. -/
theorem not_isFenceLine_of_infix {line text : List Char} (hline : line <:+: text)
    (htext : ¬ "```".toList <:+: text) : isFenceLine line = false := by
  by_contra hfence
  rw [Bool.not_eq_false] at hfence
  exact htext ((fence_infix_of_isFenceLine hfence).trans hline)

private theorem isSpace_of_isPunct {c : Char} (h : isPunct c = true) : isSpace c = false := by
  simp only [isPunct, Bool.or_eq_true, decide_eq_true_eq] at h
  rcases h with ((((rfl | rfl) | rfl) | rfl) | rfl) | rfl <;> rfl

private theorem not_isFenceLine_of_punct {line : List Char} {c : Char} (hc : isPunct c = true)
    (hmem : c ∈ line) : isFenceLine line = false := by
  by_contra hfence
  rw [Bool.not_eq_false] at hfence
  rcases mem_of_isFenceLine hfence hmem with rfl | h
  · cases hc
  · rw [isSpace_of_isPunct hc] at h
    cases h

/-- No line of the text of an object or an array between prose is a closing fence. -/
theorem Framed.not_isFenceLine {left right : Char} {text before inner behind : List Char}
    {v : JsonValue} (h : Framed strict v text before left inner right behind)
    (hbefore : ¬ "```".toList <:+: before) (hbehind : ¬ "```".toList <:+: behind) :
    ∀ l ∈ text.splitOn '\n', isFenceLine l = false := by
  obtain ⟨hv, hscan, hcore, rfl, -⟩ := h
  obtain ⟨hleft, hright⟩ := Json.isPunct_brackets hv
  have hne : ∀ {c : Char}, isPunct c = true → c ≠ '\n' := by
    rintro c hc rfl
    cases hc
  intro l hl
  have hshape : before ++ (left :: (inner ++ [right]) ++ behind) =
      before ++ left :: (inner ++ right :: behind) := by simp
  rw [hshape] at hl
  rcases mem_splitOn_append_cons (hne hleft) hl with hl | hl | hl
  · exact not_isFenceLine_of_infix (infix_of_mem_splitOn hl) hbefore
  · exact not_isFenceLine_of_punct hleft hl
  rcases mem_splitOn_append_cons (hne hright) hl with hl | hl | hl
  · -- the line is in the text between the brackets
    obtain ⟨ts, hts, hvalue⟩ := hcore
    rw [← List.cons_append] at hts
    obtain ⟨p, q, hp, -, rfl⟩ := (Json.lex_break (Json.isBreak_of_isPunct hright) hscan).mp hts
    obtain ⟨r, hr, rfl⟩ := (Json.lex_cons_break (Json.isBreak_of_isPunct hleft)).mp hp
    obtain ⟨u, hu, hsub⟩ := Json.lex_lines hr hl
    refine not_isFenceLine_of_lex hu (fun t ht ↦ ?_) hvalue
    simp [hsub ht]
  · exact not_isFenceLine_of_punct hright hl
  · exact not_isFenceLine_of_infix (infix_of_mem_splitOn hl) hbehind

end Fences

/-! ### Replies -/

/-- Prose: no brackets, no braces and no code fence. -/
structure Prose where
  text : List Char
  plain : Plain text
  unfenced : ¬ "```".toList <:+: text

theorem unfenced_nil : ¬ "```".toList <:+: [] := by decide

/-- The first and the last line of a fenced block. -/
structure CodeFence where
  fence : Markdown.Fence
  opening : List Char
  closing : List Char
  opens : Markdown.openFence opening = some fence
  closes : fence.closedBy closing = true
  oneLine : '\n' ∉ opening ∧ '\n' ∉ closing
  plain : Plain opening

/-- What is around a text: nothing, or a code fence with lines of prose before and behind it. -/
inductive Wrapper where
  | bare
  | fenced (fence : CodeFence) (before after : Prose)
      (hbefore : before.text = [] ∨ ∃ lines, before.text = lines ++ ['\n'])
      (hafter : after.text = [] ∨ ∃ lines, after.text = '\n' :: lines)

/-- A text in its wrapper. -/
def Wrapper.wrap : Wrapper → List Char → List Char
  | .bare, body => body
  | .fenced fence before after _ _, body =>
    before.text ++ (fence.opening ++ '\n' :: (body ++ '\n' :: (fence.closing ++ after.text)))

/-- A response with a text of an object or an array, prose around it and all that in a wrapper. -/
structure Reply where
  value : JsonValue
  structured : (brackets value).isSome = true
  text : List Char
  written : Denotes strict text value
  before : Prose
  after : Prose
  wrapper : Wrapper

namespace Reply

variable (r : Reply)

/-- The text with its prose. -/
def body : List Char := r.before.text ++ (r.text ++ r.after.text)

/-- The text of the response. -/
def content : List Char := r.wrapper.wrap r.body

/-- The prose around the text. -/
def around : List Char := r.before.text ++ r.after.text

/-- An object is found unless what is parsed first is a string, an array if there is only white
space around it, and with a fence only if that begins the response and is closed by three
backticks. -/
def Found : Prop :=
  match r.wrapper with
  | .bare =>
    if r.value.isObj then ¬ ∃ s, Denotes strict (strip r.body) (.str s)
    else ∀ c ∈ r.around, isSpace c = true
  | .fenced fence before _ _ _ =>
    if isFenceLine fence.closing = true ∧ ∀ c ∈ before.text, isSpace c = true then
      if r.value.isObj then ¬ ∃ s, Denotes strict r.body (.str s)
      else ∀ c ∈ r.around, isBlank c = true
    else r.value.isObj = true

end Reply

section Parsing

variable {r : Reply} {response : CompletionResponse}

private theorem isSpace_of_isBlank {c : Char} (h : isBlank c = true) : isSpace c = true := by
  simp only [isBlank, Bool.or_eq_true, decide_eq_true_eq] at h
  rcases h with ((rfl | rfl) | rfl) | rfl <;> rfl

private theorem isBlank_dropWhile_iff {x : List Char} :
    (∀ c ∈ x.dropWhile isSpace, isBlank c = true) ↔ ∀ c ∈ x, isSpace c = true := by
  constructor
  · intro h
    rw [← List.dropWhile_eq_nil_iff]
    cases hdrop : x.dropWhile isSpace with
    | nil => rfl
    | cons d rest =>
      have hhead := List.head?_dropWhile_not isSpace x
      rw [hdrop, List.head?_cons] at hhead
      rw [hdrop] at h
      have hspace := isSpace_of_isBlank (h d List.mem_cons_self)
      simp [hspace] at hhead
  · intro h
    rw [List.dropWhile_eq_nil_iff.mpr h]
    exact List.forall_mem_nil _

private theorem isBlank_rdropWhile_iff {x : List Char} :
    (∀ c ∈ x.rdropWhile isSpace, isBlank c = true) ↔ ∀ c ∈ x, isSpace c = true := by
  have h := isBlank_dropWhile_iff (x := x.reverse)
  simpa [List.rdropWhile] using h

section Framing

variable {raw : Reading} {v : JsonValue} {text before inner after x y : List Char}
  {left right : Char}

/-- More around a text. -/
theorem Framed.around (h : Framed raw v text before left inner right after) (hx : Plain x)
    (hy : Plain y) :
    Framed raw v (x ++ (text ++ y)) (x ++ before) left inner right (after ++ y) where
  brackets := h.brackets
  scan := h.scan
  core := h.core
  text := by
    rw [h.text]
    simp
  plain := ⟨hx.append h.plain.1, h.plain.2.append hy⟩

/-- A text without white space at its ends. -/
theorem Framed.strip (h : Framed raw v text before left inner right after) :
    Framed raw v (strip text) (before.dropWhile isSpace) left inner right
      (after.rdropWhile isSpace) where
  brackets := h.brackets
  scan := h.scan
  core := h.core
  text := by
    obtain ⟨hleft, hright⟩ := Json.isPunct_brackets h.brackets
    rw [h.text, strip_around (isSpace_of_isPunct hleft) (isSpace_of_isPunct hright)]
  plain := ⟨h.plain.1.of_subset (List.dropWhile_suffix _).subset,
    h.plain.2.of_subset (List.rdropWhile_prefix _ _).subset⟩

/-- A text does not begin with a code fence if what is in front has none. -/
theorem Framed.not_startsWith (h : Framed raw v text before left inner right after)
    (hbefore : ¬ "```".toList <:+: before) : startsWith text "```" = false := by
  by_contra hstart
  rw [Bool.not_eq_false, startsWith, List.isPrefixOf_iff_prefix, h.text, List.cons_append] at hstart
  obtain ⟨hleft, -⟩ := Json.isPunct_brackets h.brackets
  refine hbefore (prefix_of_prefix_append_cons ?_ hstart).isInfix
  intro hmem
  obtain rfl : left = '`' := by simpa using hmem
  cases hleft

end Framing

/-- The parts of a text with prose. -/
theorem framed_body (r : Reply) : ∃ before left inner right after,
    Framed strict r.value r.body (r.before.text ++ before) left inner right
      (after ++ r.after.text) ∧
      (∀ c ∈ before, isBlank c = true) ∧ ∀ c ∈ after, isBlank c = true := by
  obtain ⟨⟨left, right⟩, hv⟩ := Option.isSome_iff_exists.mp r.structured
  obtain ⟨before, inner, after, htext, hbefore, hafter, hscan, hcore⟩ :=
    r.written.eq_brackets hv
  have hframed : Framed strict r.value r.text before left inner right after :=
    ⟨hv, hscan, hcore, htext, plain_of_isBlank hbefore, plain_of_isBlank hafter⟩
  exact ⟨before, left, inner, right, after, hframed.around r.before.plain r.after.plain, hbefore,
    hafter⟩

/-- White space behind prose makes no code fence of it. -/
theorem unfenced_append {x y : List Char} (hx : ¬ "```".toList <:+: x)
    (hy : ∀ c ∈ y, isBlank c = true) : ¬ "```".toList <:+: x ++ y := by
  intro h
  refine hx (infix_of_infix_append (by decide) (fun d hd hmem ↦ ?_) h)
  obtain rfl : d = '`' := by simpa using hd
  cases hy _ hmem

private theorem unfenced_prepend {x y : List Char} (hx : ¬ "```".toList <:+: x)
    (hy : ∀ c ∈ y, isBlank c = true) : ¬ "```".toList <:+: y ++ x := by
  rw [← List.reverse_infix] at hx ⊢
  rw [List.reverse_append]
  exact unfenced_append hx fun c hc ↦ hy c (List.mem_reverse.mp hc)

private theorem not_infix_of_within {t x y : List Char} (hx : ¬ t <:+: x) (h : y <:+: x) :
    ¬ t <:+: y :=
  fun hy ↦ hx (hy.trans h)

/-- A bare reply. -/
theorem parse_bare (r : Reply) {response : CompletionResponse}
    (hcontent : response.content.toList = r.body) :
    parseJsonResponse jsonLoads response = .ok r.value ↔
      if r.value.isObj then ¬ ∃ s, Denotes strict (strip r.body) (.str s)
      else ∀ c ∈ r.around, isSpace c = true := by
  obtain ⟨before, left, inner, right, after, hframed, hbefore, hafter⟩ := framed_body r
  have hstrip := hframed.strip
  have hunfenced : ¬ "```".toList <:+: (r.before.text ++ before).dropWhile isSpace :=
    not_infix_of_within (unfenced_append r.before.unfenced hbefore)
      (List.dropWhile_suffix _).isInfix
  have htext : stripFences (strip response.content.toList) = strip r.body := by
    rw [hcontent, stripFences_eq_self (hstrip.not_startsWith hunfenced)]
  rw [parse_eq_ok_iff htext, recovers_iff hstrip]
  have hspace : ∀ {x : List Char}, (∀ c ∈ x, isBlank c = true) → ∀ c ∈ x, isSpace c = true :=
    fun hx c hc ↦ isSpace_of_isBlank (hx c hc)
  have haround : (∀ c ∈ (r.before.text ++ before).dropWhile isSpace ++
      (after ++ r.after.text).rdropWhile isSpace, isBlank c = true) ↔
        ∀ c ∈ r.around, isSpace c = true := by
    rw [List.forall_mem_append, isBlank_dropWhile_iff, isBlank_rdropWhile_iff,
      List.forall_mem_append, List.forall_mem_append, Reply.around, List.forall_mem_append]
    exact ⟨fun h ↦ ⟨h.1.1, h.2.2⟩, fun h ↦ ⟨⟨h.1, hspace hbefore⟩, hspace hafter, h.2⟩⟩
  split
  · rfl
  · exact haround

section Fenced

variable {fence : CodeFence}

/-- Both lines of a fence have characters that are no white space. -/
theorem CodeFence.opening_ne (fence : CodeFence) : ∃ rest : List Char,
    fence.opening.dropWhile isSpace =
      List.replicate fence.fence.length fence.fence.char ++ rest := by
  obtain ⟨pad, rest, hopening, hpad⟩ := Markdown.eq_of_openFence fence.opens
  have hthree := fence.fence.three
  have hchar : isSpace fence.fence.char = false := by
    rcases fence.fence.known with h | h <;> rw [h] <;> rfl
  refine ⟨rest, ?_⟩
  rw [hopening, List.dropWhile_append_of_pos fun c hc ↦ by rw [hpad c hc]; rfl]
  obtain ⟨n, hn⟩ : ∃ n, fence.fence.length = n + 1 := ⟨fence.fence.length - 1, by omega⟩
  rw [hn, List.replicate_succ, List.cons_append, List.dropWhile_cons_of_neg (by simp [hchar])]

private theorem CodeFence.strip_closing (fence : CodeFence) :
    ∃ n, fence.fence.length ≤ n ∧ strip fence.closing = List.replicate n fence.fence.char := by
  obtain ⟨pad, tail, n, hclosing, hn, hpad, htail⟩ := Markdown.Fence.eq_of_closedBy fence.closes
  refine ⟨n, hn, ?_⟩
  have hthree := fence.fence.three
  have hchar : isSpace fence.fence.char = false := by
    rcases fence.fence.known with h | h <;> rw [h] <;> rfl
  have hspaces : ∀ c ∈ pad, isSpace c = true := fun c hc ↦ by rw [hpad c hc]; rfl
  have htabs : ∀ c ∈ tail, isSpace c = true := by
    intro c hc
    rcases htail c hc with h | h <;> rw [h] <;> rfl
  obtain ⟨k, rfl⟩ : ∃ k, n = k + 1 + 1 := ⟨n - 2, by omega⟩
  have hends := strip_around hchar hchar [] (List.replicate k fence.fence.char) []
  rw [← List.replicate_succ', ← List.replicate_succ] at hends
  rw [hclosing, strip_append_space hspaces _ htabs]
  simpa using hends

/-- What is left of a fence's last line and the prose behind it without white space at the end. -/
theorem rdropWhile_closing (fence : CodeFence) {after : List Char}
    (hafter : after = [] ∨ ∃ lines, after = '\n' :: lines) :
    ∃ closing rest : List Char, (fence.closing ++ after).rdropWhile isSpace = closing ++ rest ∧
      '\n' ∉ closing ∧ isFenceLine closing = isFenceLine fence.closing ∧
      (rest = [] ∨ ∃ lines, rest = '\n' :: lines) ∧ rest <+: after ∧ closing ++ rest ≠ [] := by
  obtain ⟨n, hn, hstrip⟩ := fence.strip_closing
  have hthree := fence.fence.three
  have hne : fence.closing.rdropWhile isSpace ≠ [] := by
    intro hnil
    have hblank := strip_rstrip fence.closing
    rw [hnil, hstrip] at hblank
    have hzero := congrArg List.length hblank
    rw [List.length_replicate] at hzero
    have : (strip []).length = 0 := rfl
    omega
  by_cases hspace : after.rdropWhile isSpace = []
  · have hall : ∀ c ∈ after, isSpace c = true := List.rdropWhile_eq_nil_iff.mp hspace
    refine ⟨fence.closing.rdropWhile isSpace, [], ?_, ?_, ?_, .inl rfl, List.nil_prefix, ?_⟩
    · rw [rdropWhile_append_space hall, List.append_nil]
    · exact fun hmem ↦ fence.oneLine.2 ((List.rdropWhile_prefix _ _).subset hmem)
    · rw [isFenceLine, strip_rstrip]
      rfl
    · rwa [List.append_nil]
  · have hstarts := List.rdropWhile_prefix isSpace after
    refine ⟨fence.closing, after.rdropWhile isSpace, rdropWhile_append_of_ne_nil hspace _,
      fence.oneLine.2, rfl, .inr ?_, hstarts, ?_⟩
    · obtain ⟨lines, rfl⟩ := hafter.resolve_left fun hnil ↦ hspace (by rw [hnil]; rfl)
      obtain ⟨c, rest, hrest⟩ := List.exists_cons_of_ne_nil hspace
      rw [hrest] at hstarts ⊢
      rw [(List.cons_prefix_cons.mp hstarts).1]
      exact ⟨rest, rfl⟩
    · intro hnil
      exact hspace (List.append_eq_nil_iff.mp hnil).2

private theorem CodeFence.plain_closing (fence : CodeFence) : Plain fence.closing := by
  obtain ⟨pad, tail, n, hclosing, -, hpad, htail⟩ :=
    Markdown.Fence.eq_of_closedBy fence.closes
  intro c hc hmem
  rw [hclosing, List.mem_append, List.mem_append, List.mem_replicate] at hc
  simp only [List.mem_cons, List.not_mem_nil, or_false] at hmem
  rcases hc with hc | ⟨-, hc⟩ | hc
  · rw [hpad c hc] at hmem
    simp at hmem
  · rcases fence.fence.known with h | h <;> rw [hc, h] at hmem <;> simp at hmem
  · rcases htail c hc with h | h <;> rw [h] at hmem <;> simp at hmem

/-- The parts of a fenced text without white space at its ends: all up to the first line break
behind the fence, its last line and what is behind that. -/
structure Stripped (fence : CodeFence) (before after front closing rest : List Char) : Prop where
  closingLine : '\n' ∉ closing
  same : isFenceLine closing = isFenceLine fence.closing
  lines : rest = [] ∨ ∃ lines, rest = '\n' :: lines
  behind : rest <+: after
  plain : Plain front ∧ Plain (closing ++ rest)
  head : ∃ d tail, front = d :: tail ∧ isSpace d = false
  first : (∀ c ∈ before, isSpace c = true) → '\n' ∉ front ∧
    ∀ tail, startsWith (front ++ tail) "```" = decide (fence.fence.char = '`')
  later : ¬ (∀ c ∈ before, isSpace c = true) → ∀ tail, startsWith (front ++ tail) "```" = false

theorem strip_wrap (fence : CodeFence) (before after : Prose)
    (hbefore : before.text = [] ∨ ∃ lines, before.text = lines ++ ['\n'])
    (hafter : after.text = [] ∨ ∃ lines, after.text = '\n' :: lines) (body : List Char) :
    ∃ front closing rest, Stripped fence before.text after.text front closing rest ∧
      strip ((Wrapper.fenced fence before after hbefore hafter).wrap body) =
        front ++ '\n' :: (body ++ '\n' :: (closing ++ rest)) := by
  obtain ⟨closing, rest, hend, hline, hsame, hlines, hstarts, hne⟩ :=
    rdropWhile_closing fence hafter
  obtain ⟨info, hopening⟩ := fence.opening_ne
  have hthree := fence.fence.three
  obtain ⟨k, hk⟩ : ∃ k, fence.fence.length = k + 3 := ⟨fence.fence.length - 3, by omega⟩
  have hopen : fence.opening.dropWhile isSpace ≠ [] := by
    rw [hopening, hk, List.replicate_succ]
    exact List.cons_ne_nil _ _
  have hfront : (before.text ++ fence.opening).dropWhile isSpace ≠ [] := by
    rw [List.dropWhile_append]
    split
    · exact hopen
    · exact fun hnil ↦ hopen (by rw [(List.append_eq_nil_iff.mp hnil).2]; rfl)
  refine ⟨(before.text ++ fence.opening).dropWhile isSpace, closing, rest,
    ⟨hline, hsame, hlines, hstarts, ⟨?_, ?_⟩, ?_, fun hspace ↦ ?_, fun hspace tail ↦ ?_⟩, ?_⟩
  · exact (before.plain.append fence.plain).of_subset (List.dropWhile_suffix _).subset
  · refine (fence.plain_closing.append after.plain).of_subset ?_
    rw [← hend]
    exact (List.rdropWhile_prefix _ _).subset
  · obtain ⟨d, tail, htail⟩ := List.exists_cons_of_ne_nil hfront
    have hhead := List.head?_dropWhile_not isSpace (before.text ++ fence.opening)
    rw [htail, List.head?_cons] at hhead
    exact ⟨d, tail, htail, by simpa using hhead⟩
  · rw [List.dropWhile_append_of_pos hspace]
    refine ⟨fun hmem ↦ fence.oneLine.1 ((List.dropWhile_suffix _).subset hmem), fun tail ↦ ?_⟩
    rw [hopening, hk]
    rcases fence.fence.known with h | h <;> rw [h] <;> rfl
  · -- the line break behind the prose comes before the fence
    obtain ⟨lines, hbreak⟩ := hbefore.resolve_left fun hnil ↦
      hspace (by rw [hnil]; exact List.forall_mem_nil _)
    have hdrop : before.text.dropWhile isSpace ≠ [] :=
      fun hnil ↦ hspace (List.dropWhile_eq_nil_iff.mp hnil)
    rw [dropWhile_append_of_ne_nil hdrop]
    by_contra hstart
    rw [Bool.not_eq_false, startsWith, List.isPrefixOf_iff_prefix] at hstart
    have hsuffix := List.dropWhile_suffix isSpace (l := before.text)
    rw [hbreak] at hsuffix hdrop hstart
    obtain ⟨front, hline, -⟩ := (List.suffix_concat_iff.mp hsuffix).resolve_left hdrop
    have hshape : front ++ ['\n'] ++ fence.opening ++ tail =
        front ++ '\n' :: (fence.opening ++ tail) := by simp
    rw [hline, hshape] at hstart
    have hwithin := (prefix_of_prefix_append_cons (by decide) hstart).isInfix
    refine before.unfenced (hwithin.trans ?_)
    rw [hbreak]
    exact List.IsInfix.trans ⟨[], ['\n'], by rw [hline]; rfl⟩ hsuffix.isInfix
  · have hregroup : before.text ++ (fence.opening ++ '\n' :: (body ++ '\n' ::
        (fence.closing ++ after.text))) = (before.text ++ fence.opening) ++
          (('\n' :: (body ++ ['\n'])) ++ (fence.closing ++ after.text)) := by simp
    have hend' : (fence.closing ++ after.text).rdropWhile isSpace ≠ [] := by rwa [hend]
    rw [Wrapper.wrap, strip, hregroup, dropWhile_append_of_ne_nil hfront, ← List.append_assoc,
      rdropWhile_append_of_ne_nil hend', hend]
    simp

/-- Only backticks are closed by three backticks. -/
theorem CodeFence.char_of_isFenceLine (fence : CodeFence)
    (h : isFenceLine fence.closing = true) : fence.fence.char = '`' := by
  obtain ⟨n, hn, hstrip⟩ := fence.strip_closing
  have hticks : strip fence.closing = "```".toList := of_decide_eq_true h
  have hthree := fence.fence.three
  have hmem : fence.fence.char ∈ List.replicate n fence.fence.char :=
    List.mem_replicate.mpr ⟨by omega, rfl⟩
  rw [← hstrip, hticks] at hmem
  simpa using hmem

variable {before after front closing rest body : List Char}

/-- What is between the lines of a fence that begins the response. -/
theorem Stripped.stripFences_eq (h : Stripped fence before after front closing rest)
    (hbefore : ∀ c ∈ before, isSpace c = true) (hclosing : isFenceLine fence.closing = true)
    (hbody : ∀ l ∈ body.splitOn '\n', isFenceLine l = false) :
    stripFences (front ++ '\n' :: (body ++ '\n' :: (closing ++ rest))) = body := by
  obtain ⟨hline, hstart⟩ := h.first hbefore
  obtain ⟨lines, hlines, -⟩ := splitOn_closing body h.closingLine h.lines
  have hticks : startsWith (front ++ '\n' :: (body ++ '\n' :: (closing ++ rest))) "```" = true := by
    rw [hstart]
    exact decide_eq_true (fence.char_of_isFenceLine hclosing)
  rw [Llm.stripFences_eq hline hticks, hlines,
    findIdx?_append_cons hbody (by rw [h.same, hclosing])]
  dsimp only
  rw [List.take_left, List.intercalate_splitOn]

/-- Another response is left as it is. -/
theorem Stripped.stripFences_eq_self (h : Stripped fence before after front closing rest)
    (hafter : ¬ "```".toList <:+: after)
    (hopen : ¬ (isFenceLine fence.closing = true ∧ ∀ c ∈ before, isSpace c = true))
    (hbody : ∀ l ∈ body.splitOn '\n', isFenceLine l = false) :
    stripFences (front ++ '\n' :: (body ++ '\n' :: (closing ++ rest))) =
      front ++ '\n' :: (body ++ '\n' :: (closing ++ rest)) := by
  by_cases hticks : startsWith (front ++ '\n' :: (body ++ '\n' :: (closing ++ rest))) "```" = true
  · have hbefore : ∀ c ∈ before, isSpace c = true := by
      by_contra hbefore
      rw [h.later hbefore] at hticks
      cases hticks
    obtain ⟨hline, -⟩ := h.first hbefore
    obtain ⟨lines, hlines, hwithin⟩ := splitOn_closing body h.closingLine h.lines
    have hnone : ((body ++ '\n' :: (closing ++ rest)).splitOn '\n').findIdx? isFenceLine =
        none := by
      rw [hlines, List.findIdx?_eq_none_iff]
      intro l hl
      rcases List.mem_append.mp hl with hl | hl
      · exact hbody l hl
      rcases List.mem_cons.mp hl with rfl | hl
      · rw [h.same, ← Bool.not_eq_true]
        exact fun hclosing ↦ hopen ⟨hclosing, hbefore⟩
      · exact not_isFenceLine_of_infix (hwithin l hl)
          (not_infix_of_within hafter h.behind.isInfix)
    rw [Llm.stripFences_eq hline hticks, hnone]
  · exact Llm.stripFences_eq_self (by simpa using hticks)

/-- With a fence the response itself is no text of a value. -/
theorem Stripped.not_denotes (h : Stripped fence before after front closing rest) {left : Char}
    (hleft : isPunct left = true) (hbody : left ∈ body) (w : JsonValue) :
    ¬ Denotes strict (front ++ '\n' :: (body ++ '\n' :: (closing ++ rest))) w := by
  intro hw
  obtain ⟨d, tail, rfl, hd⟩ := h.head
  have hblank : isBlank d = false := by
    by_contra hblank
    rw [isSpace_of_isBlank (by simpa using hblank)] at hd
    cases hd
  have hplain : d ≠ '[' ∧ d ≠ '{' := by
    have hmem := h.plain.1 d List.mem_cons_self
    simp only [List.mem_cons, not_or] at hmem
    exact ⟨hmem.1, hmem.2.2.1⟩
  rcases hw.blank_of_newline (hw.brackets_eq_none hblank hplain) with hall | hall
  · rw [hall d List.mem_cons_self] at hblank
    cases hblank
  · have hmem := hall left (by simp [hbody])
    have hspace := isSpace_of_isPunct hleft
    rw [isSpace_of_isBlank hmem] at hspace
    cases hspace

end Fenced

/-- A reply in a code fence. -/
theorem parse_fenced (r : Reply) {response : CompletionResponse} {fence : CodeFence}
    {before after : Prose} {hbefore : before.text = [] ∨ ∃ lines, before.text = lines ++ ['\n']}
    {hafter : after.text = [] ∨ ∃ lines, after.text = '\n' :: lines}
    (hcontent : response.content.toList =
      (Wrapper.fenced fence before after hbefore hafter).wrap r.body) :
    parseJsonResponse jsonLoads response = .ok r.value ↔
      if isFenceLine fence.closing = true ∧ ∀ c ∈ before.text, isSpace c = true then
        if r.value.isObj then ¬ ∃ s, Denotes strict r.body (.str s)
        else ∀ c ∈ r.around, isBlank c = true
      else r.value.isObj = true := by
  obtain ⟨pad, left, inner, right, tail, hframed, hpad, htail⟩ := framed_body r
  obtain ⟨front, closing, rest, hstripped, hstrip⟩ := strip_wrap fence before after hbefore hafter
    r.body
  rw [← hcontent] at hstrip
  have hlines := hframed.not_isFenceLine (unfenced_append r.before.unfenced hpad)
    (unfenced_prepend r.after.unfenced htail)
  split
  · next hread =>
    have htext := hstripped.stripFences_eq hread.2 hread.1 hlines
    rw [← hstrip] at htext
    rw [parse_eq_ok_iff htext, recovers_iff hframed]
    have haround : (∀ c ∈ r.before.text ++ pad ++ (tail ++ r.after.text), isBlank c = true) ↔
        ∀ c ∈ r.around, isBlank c = true := by
      rw [List.forall_mem_append, List.forall_mem_append, List.forall_mem_append, Reply.around,
        List.forall_mem_append]
      exact ⟨fun h ↦ ⟨h.1.1, h.2.2⟩, fun h ↦ ⟨⟨h.1, hpad⟩, htail, h.2⟩⟩
    split
    · rfl
    · exact haround
  · next hopen =>
    have htext := hstripped.stripFences_eq_self after.unfenced hopen hlines
    rw [← hstrip] at htext
    have hbreak : Plain ['\n'] := by simp [Plain]
    have hwhole := hframed.around (hstripped.plain.1.append hbreak)
      (hbreak.append hstripped.plain.2)
    have hshape : front ++ ['\n'] ++ (r.body ++ (['\n'] ++ (closing ++ rest))) =
        front ++ '\n' :: (r.body ++ '\n' :: (closing ++ rest)) := by simp
    rw [hshape, ← hstrip] at hwhole
    rw [parse_eq_ok_iff htext, recovers_iff hwhole]
    split
    · next hobj =>
      refine iff_of_true ?_ hobj
      rintro ⟨s, hs⟩
      rw [hstrip] at hs
      obtain ⟨hleft, -⟩ := Json.isPunct_brackets hframed.brackets
      exact hstripped.not_denotes hleft (by rw [hframed.text]; simp) _ hs
    · next harr =>
      obtain ⟨d, front, rfl, hd⟩ := hstripped.head
      refine iff_of_false (fun hall ↦ ?_) harr
      rw [isSpace_of_isBlank (hall d (by simp))] at hd
      cases hd

/-- A response with an object or an array gives just that exactly if it is found. -/
theorem parse_reply (r : Reply) (response : CompletionResponse) :
    parseJsonResponse jsonLoads { response with content := String.ofList r.content } =
      .ok r.value ↔ r.Found := by
  obtain ⟨value, hstructured, text, hwritten, before, after, wrapper⟩ := r
  cases wrapper with
  | bare => exact parse_bare _ String.toList_ofList
  | fenced fence outerBefore outerAfter hbefore hafter =>
    exact parse_fenced _ String.toList_ofList

/-- An array of one empty object behind two words. -/
def tagsReply : Reply where
  value := .arr [.obj []]
  structured := rfl
  text := "[{}]".toList
  written := Json.read_eq_some_iff.mp rfl
  before := ⟨"Tags: ".toList, by simp [Plain], by decide⟩
  after := ⟨[], plain_nil, unfenced_nil⟩
  wrapper := .bare

/-- Its object is all that is read of it. -/
theorem parse_tagsReply {response : CompletionResponse}
    (hcontent : response.content.toList = tagsReply.content) :
    parseJsonResponse jsonLoads response = .ok (.obj []) := by
  have htext : stripFences (strip response.content.toList) = "Tags: [{}]".toList := by
    rw [hcontent]
    rfl
  refine (parse_eq_ok_iff htext).mpr (.inr ⟨fun w hw ↦ ?_, ?_⟩)
  · have hnone : Json.read strict "Tags: [{}]".toList = none := rfl
    rw [Json.read_eq_some_iff.mpr hw] at hnone
    cases hnone
  · have hcut : outermostObject "Tags: [{}]".toList = some "{}".toList := rfl
    have hloads : jsonLoads "{}".toList = .ok (.obj []) := rfl
    unfold parseOutermost
    rw [hcut]
    dsimp only
    rw [hloads]

theorem reply_reduced : ¬ ∀ (r : Reply) (response : CompletionResponse),
    parseJsonResponse jsonLoads { response with content := String.ofList r.content } =
      .ok r.value := by
  intro h
  have hvalue := h tagsReply ⟨"", .mock, "", 0, 0, 0, 0⟩
  rw [parse_tagsReply String.toList_ofList] at hvalue
  cases hvalue

end Parsing

end WikiMind.Llm
