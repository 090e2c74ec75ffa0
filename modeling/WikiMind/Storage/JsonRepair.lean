import WikiMind.Base.JsonStrings
import WikiMind.Llm.Responses

/-!
# Lists written without commas

An earlier version of the application wrote lists of strings with one double quote between the
items and no comma. `_repair_json_array` (`database.py:481`) makes JSON of such a text, after it
has found that the text is none. Some of these texts are JSON all the same: with `,1,` for its
second item a list of three reads as one of two strings and a number.
-/

namespace WikiMind.Storage

open WikiMind.Base
open WikiMind.Base.Json (strict Token Value readValue isControl strings stringTokens dumpsStrings)
open WikiMind.Llm (JsonError)

/-! ### Decoding -/

/-- What the interpreter refuses before the decoder meets an error of the text: an integer of too
many digits, or nesting that is too deep. A list of strings is refused for neither. -/
structure Limits where
  refusal : List Char → Option JsonError
  not_decodeError : ∀ text, refusal text ≠ some .decodeError
  strings : ∀ text items, Json.lex strict text = some (stringTokens items) → refusal text = none

/-- An interpreter without limits. -/
def Limits.unbounded : Limits := ⟨fun _ ↦ none, by simp, by simp⟩

/-- The words `json.loads` reads that JSON does not have. They stand for floats which are no
numbers; here they read as `null`. -/
def constants : List (List Char) := ["NaN".toList, "Infinity".toList, "-Infinity".toList]

def standIn : Token → Token
  | .word w => .word (if constants.contains w then "null".toList else w)
  | t => t

/-- `json.loads`. -/
def loads (limits : Limits) (text : List Char) : Except JsonError JsonValue :=
  match limits.refusal text with
  | some e => .error e
  | none =>
    match Json.lex strict text with
    | none => .error .decodeError
    | some ts =>
      match readValue ts.length (ts.map standIn) with
      | some (v, []) => .ok v
      | _ => .error .decodeError

/-! ### The repair -/

/-- `str.removeprefix`. -/
def removePrefix (start s : List Char) : List Char :=
  if start.isPrefixOf s then s.drop start.length else s

/-- `str.removesuffix`. -/
def removeSuffix (ending s : List Char) : List Char :=
  if ending.isSuffixOf s then s.take (s.length - ending.length) else s

/-- The items of a text that is not JSON: `database.py:496–500`. -/
def splitItems (raw : List Char) : List (List Char) :=
  let inner := removeSuffix [']'] (removePrefix ['['] (strip raw))
  (inner.splitOn '"').filter fun part ↦ strip part ≠ []

/-- `_repair_json_array`: `database.py:481`. -/
def repairJsonArray (limits : Limits) (raw : List Char) : Except JsonError (Option (List Char)) :=
  match loads limits raw with
  | .ok _ => .ok none
  | .error .decodeError => .ok (some (dumpsStrings (splitItems raw)))
  | .error e => .error e

/-- The columns of an article the repair reads and writes. -/
structure ArticleArrays where
  id : String
  conceptIds : Option (List Char)
  sourceIds : Option (List Char)
  deriving DecidableEq

section Migration

variable (limits : Limits)

/-- `_repair_json_array(raw) if raw else None`. -/
def repairColumn : Option (List Char) → Except JsonError (Option (List Char))
  | none | some [] => .ok none
  | some raw => repairJsonArray limits raw

/-- A row as the repair leaves it: `database.py:523–533`. -/
def repairRow (row : ArticleArrays) : Except JsonError ArticleArrays := do
  let repairedConcepts ← repairColumn limits row.conceptIds
  let repairedSources ← repairColumn limits row.sourceIds
  return { row with
    conceptIds := repairedConcepts.or row.conceptIds
    sourceIds := repairedSources.or row.sourceIds }

/-- `_repair_malformed_json_arrays`: `database.py:504`. It writes all rows in one transaction. -/
def repairMalformedJsonArrays (articles : List ArticleArrays) :
    Except JsonError (List ArticleArrays) :=
  articles.mapM (repairRow limits)

/-- What decoding the repaired text gives, or the text itself if there is nothing to repair. -/
def recovered (raw : List Char) : Except JsonError JsonValue := do
  let repaired ← repairJsonArray limits raw
  loads limits (repaired.getD raw)

end Migration

/-- What the earlier version wrote. -/
def written (items : List (List Char)) : List Char :=
  '[' :: '"' :: (['"'].intercalate items ++ ['"', ']'])

/-- An item without a quote, a backslash and control characters that is not blank. -/
structure Item (item : List Char) : Prop where
  quote : '"' ∉ item
  backslash : '\\' ∉ item
  plain : ∀ c ∈ item, isControl c = false
  shown : ∃ c ∈ item, isSpace c = false

section Loads

variable {limits : Limits} {text : List Char} {v : JsonValue}

private theorem loads_eq_ok_iff :
    loads limits text = .ok v ↔ limits.refusal text = none ∧
      ∃ ts, Json.lex strict text = some ts ∧ Value (ts.map standIn) v := by
  unfold loads
  cases hrefusal : limits.refusal text with
  | some e => simp
  | none =>
    cases hlex : Json.lex strict text with
    | none => simp
    | some ts =>
      simp only [true_and, Option.some.injEq, exists_eq_left']
      constructor
      · intro h
        split at h
        · next v' hread =>
          cases h
          obtain ⟨part, hpart, hvalue⟩ := Json.readValue_sound hread
          rw [List.append_nil] at hpart
          rwa [hpart]
        · cases h
      · intro h
        have hread := h.readValue (n := ts.length) (by rw [List.length_map]) []
        rw [List.append_nil] at hread
        rw [hread]

private theorem map_standIn {items : List (List Char)} :
    (stringTokens items).map standIn = stringTokens items := by
  have hparts : (Json.commaSeparated (items.map fun s ↦ [Token.str s])).map standIn =
      Json.commaSeparated (items.map fun s ↦ [Token.str s]) := by
    induction items with
    | nil => rfl
    | cons s items ih =>
      cases items with
      | nil => rfl
      | cons next items =>
        rw [List.map_cons, List.map_cons, Json.commaSeparated_cons_cons, List.map_append,
          List.map_cons]
        exact congrArg (fun ts ↦ Token.str s :: Token.punct ',' :: ts) ih
  rw [stringTokens, List.map_cons, List.map_append, hparts]
  rfl

/-- A list of strings is decoded. -/
theorem loads_of_stringTokens {items : List (List Char)}
    (h : Json.lex strict text = some (stringTokens items)) :
    loads limits text = .ok (strings items) := by
  refine loads_eq_ok_iff.mpr ⟨limits.strings _ _ h, _, h, ?_⟩
  rw [map_standIn]
  exact Json.value_stringTokens items

private theorem loads_dumpsStrings (items : List (List Char)) :
    loads limits (dumpsStrings items) = .ok (strings items) :=
  loads_of_stringTokens (Json.lex_dumpsStrings strict items)

/-- A list of strings takes two quotes for each. -/
theorem length_le_of_loads {items : List (List Char)}
    (h : loads limits text = .ok (strings items)) : 2 * items.length ≤ text.count '"' := by
  obtain ⟨-, ts, hts, hvalue⟩ := loads_eq_ok_iff.mp h
  have hcount : (ts.map standIn).countP Token.isStr = ts.countP Token.isStr := by
    rw [List.countP_map]
    refine List.countP_congr fun t _ ↦ ?_
    cases t <;> exact Iff.rfl
  rw [← hvalue.countP_strings, hcount]
  exact Json.countP_lex hts

end Loads

section Written

variable {items : List (List Char)}

private theorem count_intercalate (hne : items ≠ []) (h : ∀ item ∈ items, '"' ∉ item) :
    (['"'].intercalate items).count '"' + 1 = items.length := by
  induction items with
  | nil => exact absurd rfl hne
  | cons item items ih =>
    rw [List.forall_mem_cons] at h
    cases items with
    | nil => rw [List.intercalate_singleton, List.count_eq_zero.mpr h.1, List.length_singleton]
    | cons next items =>
      have htail := ih (List.cons_ne_nil _ _) h.2
      rw [List.intercalate_cons_cons, List.count_append, List.count_append,
        List.count_eq_zero.mpr h.1, List.length_cons, ← htail]
      simp
      omega

private theorem count_written (hne : items ≠ []) (h : ∀ item ∈ items, '"' ∉ item) :
    (written items).count '"' = items.length + 1 := by
  have hcount := count_intercalate hne h
  rw [written, List.count_cons_of_ne (by decide), List.count_cons_self, List.count_append, ← hcount]
  rfl

/-- What a single item is written as is a list of one string. -/
theorem loads_written_singleton {limits : Limits} {item : List Char} (h : Item item) :
    loads limits (written [item]) = .ok (strings [item]) := by
  refine loads_of_stringTokens ((Json.lex_cons_break rfl).mpr ⟨_, ?_, rfl⟩)
  have hbody := Json.body_plain h.quote h.backslash
  have hread : Json.readLiteral strict item = some item :=
    Json.readLiteral_plain h.backslash h.plain
  rw [List.intercalate_singleton]
  exact (Json.lex_literal hbody hread).mpr ⟨_, (Json.lex_cons_break rfl).mpr ⟨[], rfl, rfl⟩, rfl⟩

/-- The items are found between the quotes. -/
theorem splitItems_written (hne : items ≠ []) (h : ∀ item ∈ items, Item item) :
    splitItems (written items) = items := by
  have hstrip : strip (written items) = written items := by
    have haround := strip_around (c := '[') (d := ']') rfl rfl []
      ('"' :: (['"'].intercalate items ++ ['"'])) []
    simpa [written] using haround
  have hinner : removeSuffix [']'] (removePrefix ['['] (written items)) =
      '"' :: (['"'].intercalate items ++ ['"']) := by
    have hshape : (written items).drop 1 =
        ('"' :: (['"'].intercalate items ++ ['"'])) ++ [']'] := by
      simp [written]
    have hends : [']'].isSuffixOf (('"' :: (['"'].intercalate items ++ ['"'])) ++ [']']) = true :=
      List.isSuffixOf_iff_suffix.mpr (List.suffix_append _ _)
    have hstarts : ['['].isPrefixOf (written items) = true := by simp [written]
    rw [removePrefix, if_pos hstarts, List.length_singleton, hshape, removeSuffix, if_pos hends,
      List.length_append, Nat.add_sub_cancel, List.take_left']
    rfl
  have hshow : ∀ item ∈ items, decide (strip item ≠ []) = true := by
    intro item hitem
    obtain ⟨c, hc, hspace⟩ := (h item hitem).shown
    rw [decide_eq_true_eq, Ne, strip_eq_nil_iff, visible_eq_nil_iff]
    intro hall
    rw [hall c hc] at hspace
    cases hspace
  have hsplit : ('"' :: (['"'].intercalate items ++ ['"'])).splitOn '"' =
      [] :: (items ++ [[]]) := by
    have hfront : ([] ++ '"' :: (['"'].intercalate items ++ ['"'])).splitOn '"' =
        [] :: (['"'].intercalate items ++ ['"']).splitOn '"' :=
      List.splitOn_append_cons_self_of_not_mem List.not_mem_nil _
    rw [List.nil_append] at hfront
    rw [hfront, splitOn_intercalate_append hne (fun item hitem ↦ (h item hitem).quote)]
    rfl
  rw [splitItems, hstrip, hinner, hsplit, List.filter_cons_of_neg (by decide), List.filter_append,
    List.filter_eq_self.mpr hshow]
  simp [strip]

end Written

section Repair

variable {limits : Limits}

/-- What is repaired is no JSON, and its repair is. -/
theorem repairJsonArray_eq_some_iff {raw repaired : List Char} :
    repairJsonArray limits raw = .ok (some repaired) ↔
      loads limits raw = .error .decodeError ∧ repaired = dumpsStrings (splitItems raw) := by
  unfold repairJsonArray
  split
  · next v hv => simp [hv]
  · next he => simp [he, eq_comm]
  · next e hne he =>
    rw [he]
    simp only [reduceCtorEq, Except.error.injEq, false_iff, not_and]
    exact fun hdecode ↦ absurd hdecode hne

private theorem repairJsonArray_eq_none_iff {raw : List Char} :
    repairJsonArray limits raw = .ok none ↔ ∃ v, loads limits raw = .ok v := by
  unfold repairJsonArray
  split
  · next v hv => simp [hv]
  · next he => simp [he]
  · next e _ he => simp [he]

/-- A repaired text is repaired no more. -/
theorem repairJsonArray_repaired {raw repaired : List Char}
    (h : repairJsonArray limits raw = .ok (some repaired)) :
    repairJsonArray limits repaired = .ok none := by
  obtain ⟨-, rfl⟩ := repairJsonArray_eq_some_iff.mp h
  exact repairJsonArray_eq_none_iff.mpr ⟨_, loads_dumpsStrings _⟩

/-- A column that a repair has written or left is left by the next. -/
theorem repairColumn_again {column repaired : Option (List Char)}
    (h : repairColumn limits column = .ok repaired) :
    repairColumn limits (repaired.or column) = .ok none := by
  unfold repairColumn at h
  split at h
  · cases h
    rfl
  · cases h
    rfl
  · next raw hraw =>
    cases repaired with
    | none =>
      rw [Option.none_or, repairColumn, h]
      exact hraw
    | some text =>
      have hagain := repairJsonArray_repaired h
      rw [Option.some_or]
      unfold repairColumn
      split
      · rfl
      · rfl
      · next heq =>
        cases heq
        exact hagain

private theorem repairRow_again {row repaired : ArticleArrays}
    (h : repairRow limits row = .ok repaired) :
    repairRow limits repaired = .ok repaired := by
  unfold repairRow at h
  cases hconcepts : repairColumn limits row.conceptIds with
  | error e =>
    rw [hconcepts] at h
    cases h
  | ok concepts =>
    cases hsources : repairColumn limits row.sourceIds with
    | error e =>
      rw [hconcepts, hsources] at h
      cases h
    | ok sources =>
      rw [hconcepts, hsources] at h
      cases h
      unfold repairRow
      dsimp only
      rw [repairColumn_again hconcepts, repairColumn_again hsources]
      rfl

/-- After a run of the migration another changes nothing. -/
theorem repairMalformedJsonArrays_again {articles repaired : List ArticleArrays}
    (h : repairMalformedJsonArrays limits articles = .ok repaired) :
    repairMalformedJsonArrays limits repaired = .ok repaired := by
  unfold repairMalformedJsonArrays at h ⊢
  induction articles generalizing repaired with
  | nil =>
    cases h
    rfl
  | cons row articles ih =>
    rw [List.mapM_cons] at h
    cases hrow : repairRow limits row with
    | error e =>
      rw [hrow] at h
      cases h
    | ok row' =>
      cases hrest : articles.mapM (repairRow limits) with
      | error e =>
        rw [hrow, hrest] at h
        cases h
      | ok rest =>
        rw [hrow, hrest] at h
        cases h
        rw [List.mapM_cons, repairRow_again hrow, ih hrest]
        rfl

/-- The items come back unless what was written is JSON, or no JSON for another reason than its
form; one item is written as JSON. -/
theorem recovered_eq_iff {items : List (List Char)} (hne : items ≠ [])
    (h : ∀ item ∈ items, Item item) :
    recovered limits (written items) = .ok (strings items) ↔
      items.length = 1 ∨ loads limits (written items) = .error .decodeError := by
  have hquote : ∀ item ∈ items, '"' ∉ item := fun item hitem ↦ (h item hitem).quote
  constructor
  · intro hrecovered
    unfold recovered at hrecovered
    cases hloads : loads limits (written items) with
    | ok v =>
      rw [repairJsonArray_eq_none_iff.mpr ⟨v, hloads⟩] at hrecovered
      have hsame : loads limits (written items) = .ok (strings items) := hrecovered
      have hlength := length_le_of_loads hsame
      rw [count_written hne hquote] at hlength
      have hpos := List.length_pos_of_ne_nil hne
      exact .inl (by omega)
    | error e =>
      cases e with
      | decodeError => exact .inr rfl
      | valueError | recursionError =>
        rw [repairJsonArray, hloads] at hrecovered
        cases hrecovered
  · rintro (hone | hdecode)
    · obtain ⟨item, rfl⟩ := List.length_eq_one_iff.mp hone
      have hloads : loads limits (written [item]) = .ok (strings [item]) :=
        loads_written_singleton (h item List.mem_cons_self)
      rw [recovered, repairJsonArray_eq_none_iff.mpr ⟨_, hloads⟩]
      exact hloads
    · rw [recovered, repairJsonArray_eq_some_iff.mpr ⟨hdecode, rfl⟩, splitItems_written hne h]
      exact loads_dumpsStrings items

/-- The repair recovers the items of each text that is no JSON, and of a single item. It leaves
what is JSON as it is, so that a second run changes nothing. -/
theorem recovers_of_not_json (limits : Limits) :
    (∀ items : List (List Char), items ≠ [] → (∀ item ∈ items, Item item) →
      (recovered limits (written items) = .ok (strings items) ↔
        items.length = 1 ∨ loads limits (written items) = .error .decodeError)) ∧
    (∀ raw v, loads limits raw = .ok v → repairJsonArray limits raw = .ok none) ∧
    (∀ raw repaired, repairJsonArray limits raw = .ok (some repaired) →
      repairJsonArray limits repaired = .ok none) ∧
    ∀ articles repaired, repairMalformedJsonArrays limits articles = .ok repaired →
      repairMalformedJsonArrays limits repaired = .ok repaired :=
  ⟨fun _ hne h ↦ recovered_eq_iff hne h,
    fun _ v hv ↦ repairJsonArray_eq_none_iff.mpr ⟨v, hv⟩,
    fun _ _ h ↦ repairJsonArray_repaired h,
    fun _ _ h ↦ repairMalformedJsonArrays_again h⟩

/-- The ids of a test of the repair. -/
def testIds : List (List Char) := ["id1".toList, "id2".toList, "id3".toList]

theorem recovers_of_not_json_testIds :
    recovered .unbounded (written testIds) = .ok (strings testIds) :=
  ((recovers_of_not_json .unbounded).1 testIds (by decide)
    (fun _ h ↦ by
      simp only [testIds, List.mem_cons, List.not_mem_nil, or_false] at h
      rcases h with rfl | rfl | rfl <;>
        exact ⟨by decide, by decide, by simp [isControl], 'i', by decide, rfl⟩)).mpr (.inr rfl)

/-- Three items of which the second reads as a number between two commas. -/
theorem not_recovered_number :
    (∀ item ∈ ["a".toList, ",1,".toList, "b".toList], Item item) ∧
      recovered .unbounded (written ["a".toList, ",1,".toList, "b".toList]) ≠
        .ok (strings ["a".toList, ",1,".toList, "b".toList]) := by
  refine ⟨fun item h ↦ ?_, fun h ↦ ?_⟩
  · simp only [List.mem_cons, List.not_mem_nil, or_false] at h
    rcases h with rfl | rfl | rfl
    · exact ⟨by decide, by decide, by simp [isControl], 'a', by decide, rfl⟩
    · exact ⟨by decide, by decide, by simp [isControl], '1', by decide, rfl⟩
    · exact ⟨by decide, by decide, by simp [isControl], 'b', by decide, rfl⟩
  · obtain ⟨q, hloads⟩ : ∃ q, loads .unbounded (written ["a".toList, ",1,".toList, "b".toList]) =
        .ok (.arr [.str "a", .num q, .str "b"]) := ⟨_, rfl⟩
    have hsame : loads .unbounded (written ["a".toList, ",1,".toList, "b".toList]) =
        .ok (strings ["a".toList, ",1,".toList, "b".toList]) := by
      rw [recovered, repairJsonArray_eq_none_iff.mpr ⟨_, hloads⟩] at h
      exact h
    rw [hloads] at hsame
    simp [strings] at hsame

end Repair

end WikiMind.Storage
