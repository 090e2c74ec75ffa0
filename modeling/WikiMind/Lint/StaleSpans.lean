import WikiMind.Base.Tally
import WikiMind.Wiki.Citations

/-!
# Stale citations

`engine/linter/stale_spans.py`: the articles with claims that cite stale spans, one finding for
each, in the order in which the claims bring them up. After any history of ingests these are the
articles that cite a paragraph which the last document of its source has no longer.
-/

namespace WikiMind.Lint.StaleSpans

open WikiMind.Base WikiMind.Ingest WikiMind.Ingest.Spans WikiMind.Wiki.Citations

/-- `LintSeverity`: `models/enums.py:172`. -/
inductive LintSeverity where
  | info | warn | error
  deriving DecidableEq, Repr

/-- `models/tables/lint.py:74`. -/
structure StructuralFinding where
  reportId : String
  severity : LintSeverity
  description : String
  contentHash : String
  articleId : String
  violationType : String
  autoRepaired : Bool
  detail : String
  userId : String

/-- `VIOLATION_TYPE`. -/
def violationType : String := "stale_source_spans"

/-- `_content_hash`: `engine/linter/stale_spans.py:36`. -/
def contentHash (env : Env) (articleId : String) : String :=
  env.sha256 (utf8 ("structural|" ++ articleId ++ "|" ++ violationType).toList)

section Detection
variable {Score : Type}

/-- The ids of the stale spans of a user. -/
def staleSpanIds (spans : List SourceSpan) (userId : String) : List Nat :=
  (spans.filter fun r ↦ r.userId = userId ∧ r.stale).map (·.id)

/-- How often a claim cites stale spans; a malformed column counts as none. -/
def staleCount (stale : List Nat) (c : CompiledClaim Score) : Nat :=
  match c.sourceSpanIds with
  | .malformed => 0
  | .items ids => (ids.filter fun sid ↦ sid ∈ stale).length

/-- The claims of a user whose column is not the empty list. -/
def citingClaims (claims : List (CompiledClaim Score)) (userId : String) :
    List (CompiledClaim Score) :=
  claims.filter fun c ↦ c.userId = userId &&
    match c.sourceSpanIds with
    | .items [] => false
    | _ => true

/-- `articles_with_stale`. -/
def articlesWithStale (db : Db Score) (userId : String) : List (String × Nat) :=
  let stale := staleSpanIds db.spans userId
  Tally.tally (·.articleId) (staleCount stale) (0 < staleCount stale ·)
    (citingClaims db.claims userId)

/-- `detect_stale_spans`: `engine/linter/stale_spans.py:42`. -/
def detectStaleSpans (env : Env) (db : Db Score) (reportId userId : String) :
    List StructuralFinding :=
  if staleSpanIds db.spans userId = [] then []
  else (articlesWithStale db userId).map fun (articleId, n) ↦
    let title := ((db.articles.find? (·.id = articleId)).map (·.title)).getD articleId
    { reportId, severity := .warn
      description := "Article '" ++ title ++ "' has " ++ toString n ++
        " claim(s) referencing stale source spans"
      contentHash := contentHash env articleId
      articleId, violationType, autoRepaired := false
      detail := "stale_span_references=" ++ toString n
      userId }

/-- The citations of stale spans in an article. -/
def staleCitations (db : Db Score) (userId articleId : String) : Nat :=
  ((db.claims.filter fun c ↦ c.userId = userId ∧ c.articleId = articleId).map
    (staleCount (staleSpanIds db.spans userId))).sum

private theorem mem_staleSpanIds {spans : List SourceSpan} {userId : String} {sid : Nat} :
    sid ∈ staleSpanIds spans userId ↔
      ∃ r ∈ spans, r.id = sid ∧ r.userId = userId ∧ r.stale = true := by
  unfold staleSpanIds
  rw [List.mem_map]
  constructor
  · rintro ⟨r, hr, rfl⟩
    obtain ⟨hmem, hprop⟩ := List.mem_filter.mp hr
    exact ⟨r, hmem, rfl, of_decide_eq_true hprop⟩
  · rintro ⟨r, hr, rfl, hprop⟩
    exact ⟨r, List.mem_filter.mpr ⟨hr, decide_eq_true hprop⟩, rfl⟩

private theorem staleCount_eq (stale : List Nat) (c : CompiledClaim Score) :
    staleCount stale c = (c.spanIds.filter fun sid ↦ sid ∈ stale).length := by
  unfold staleCount CompiledClaim.spanIds
  cases c.sourceSpanIds with
  | malformed => rfl
  | items ids => rfl

private theorem staleCount_pos {stale : List Nat} {c : CompiledClaim Score} :
    0 < staleCount stale c ↔ ∃ sid ∈ c.spanIds, sid ∈ stale := by
  rw [staleCount_eq, List.length_pos_iff_exists_mem]
  simp only [List.mem_filter, decide_eq_true_eq]

/-- The claims that the query leaves out count nothing. -/
theorem mem_citingClaims {claims : List (CompiledClaim Score)} {userId : String}
    {c : CompiledClaim Score} {stale : List Nat} (hcount : 0 < staleCount stale c) :
    c ∈ citingClaims claims userId ↔ c ∈ claims ∧ c.userId = userId := by
  have hciting : (match c.sourceSpanIds with
      | .items [] => false
      | _ => true) = true := by
    unfold staleCount at hcount
    split at hcount
    · next h => rw [h]
    · next ids h =>
      rw [h]
      cases ids with
      | nil => simp at hcount
      | cons _ _ => rfl
  unfold citingClaims
  rw [List.mem_filter, hciting, Bool.and_true, decide_eq_true_eq]

/-- Each article is found once, with all its citations of stale spans. -/
theorem articlesWithStale_spec (db : Db Score) (userId : String) :
    ((articlesWithStale db userId).map Prod.fst).Nodup ∧
      ∀ articleId, articleId ∈ (articlesWithStale db userId).map Prod.fst ↔
        ∃ c ∈ db.claims, c.userId = userId ∧ c.articleId = articleId ∧
          ∃ sid ∈ c.spanIds, ∃ r ∈ db.spans, r.id = sid ∧ r.userId = userId ∧ r.stale = true := by
  refine ⟨Tally.nodup_tally _, fun articleId ↦ ?_⟩
  unfold articlesWithStale
  rw [Tally.mem_keys_tally]
  constructor
  · rintro ⟨c, hc, hcount, harticle⟩
    have hpos := of_decide_eq_true hcount
    obtain ⟨hmem, huser⟩ := (mem_citingClaims hpos).mp hc
    obtain ⟨sid, hsid, hstale⟩ := staleCount_pos.mp hpos
    exact ⟨c, hmem, huser, harticle, sid, hsid, mem_staleSpanIds.mp hstale⟩
  · rintro ⟨c, hmem, huser, harticle, sid, hsid, hstale⟩
    have hpos := staleCount_pos.mpr ⟨sid, hsid, mem_staleSpanIds.mpr hstale⟩
    exact ⟨c, (mem_citingClaims hpos).mpr ⟨hmem, huser⟩, decide_eq_true hpos, harticle⟩

/-- The number of an article is that of its citations of stale spans. -/
theorem get_articlesWithStale (db : Db Score) (userId articleId : String) :
    Tally.get (articlesWithStale db userId) articleId = staleCitations db userId articleId := by
  unfold articlesWithStale staleCitations citingClaims
  rw [Tally.get_tally, List.filter_filter]
  apply Tally.sum_filter_congr
  intro c _ hcount
  have hciting := @mem_citingClaims _ [c] userId _ _ hcount
  simp only [citingClaims, List.mem_filter, List.mem_singleton, true_and, Bool.and_eq_true,
    decide_eq_true_eq] at hciting
  rw [Bool.eq_iff_iff]
  simp only [Bool.and_eq_true, decide_eq_true_eq, hciting, hcount, true_and]
  exact and_comm

private theorem articleId_detectStaleSpans (env : Env) (db : Db Score) (reportId userId : String) :
    (detectStaleSpans env db reportId userId).map (·.articleId) =
      (articlesWithStale db userId).map Prod.fst := by
  unfold detectStaleSpans
  split
  · next hnone =>
    have hnot : ∀ articleId, articleId ∉ (articlesWithStale db userId).map Prod.fst := by
      intro articleId hmem
      have hcites := ((articlesWithStale_spec db userId).2 articleId).mp hmem
      obtain ⟨_, _, _, _, sid, _, hstale⟩ := hcites
      rw [← mem_staleSpanIds, hnone] at hstale
      cases hstale
    rw [List.eq_nil_iff_forall_not_mem.mpr hnot]
    rfl
  · rw [List.map_map]
    rfl

end Detection

/-- The last document of its source lacks the paragraph of a span. -/
def Gone (env : Env) (ingestions : List Ingestion) (r : SourceSpan) : Prop :=
  ∀ doc, lastDocument ingestions r.sourceId = some doc → r.fingerprint ∉ doc.fingerprints env

/-- After any ingests of documents whose paragraphs differ, the linter reports an article of a user
exactly when one of its claims cites a span of the user whose paragraph is gone from the source,
each article once, with the number of such citations. -/
theorem findings_iff {Score : Type} (env : Env) (ingestions : List Ingestion)
    (hdistinct : Distinct env ingestions) (articles : List (Article Score))
    (claims : List (CompiledClaim Score)) (reportId userId : String) :
    let db : Db Score := ⟨articles, claims, (history env ingestions).table⟩
    let findings := detectStaleSpans env db reportId userId
    (findings.map (·.articleId)).Nodup ∧
      (∀ articleId, articleId ∈ findings.map (·.articleId) ↔
        ∃ c ∈ claims, c.userId = userId ∧ c.articleId = articleId ∧
          ∃ sid ∈ c.spanIds, ∃ r ∈ (history env ingestions).table,
            r.id = sid ∧ r.userId = userId ∧ Gone env ingestions r) ∧
      ∀ f ∈ findings,
        f.detail = "stale_span_references=" ++ toString (staleCitations db userId f.articleId) := by
  intro db findings
  obtain ⟨hnodup, hmem⟩ := articlesWithStale_spec db userId
  refine ⟨?_, fun articleId ↦ ?_, fun f hf ↦ ?_⟩
  · rw [articleId_detectStaleSpans]
    exact hnodup
  · rw [articleId_detectStaleSpans, hmem]
    refine exists_congr fun c ↦ and_congr_right fun _ ↦ and_congr_right fun _ ↦
      and_congr_right fun _ ↦ exists_congr fun sid ↦ and_congr_right fun _ ↦
      exists_congr fun r ↦ and_congr_right fun hr ↦ and_congr_right fun _ ↦
      and_congr_right fun _ ↦ stale_iff hdistinct hr
  · have hf' := hf
    unfold findings detectStaleSpans at hf'
    split at hf'
    · cases hf'
    · obtain ⟨entry, hentry, rfl⟩ := List.mem_map.mp hf'
      rw [← get_articlesWithStale, Tally.get_of_mem hnodup hentry]

/-- The note once its cited paragraph is taken out. -/
def shortenedNote : List Ingestion :=
  noteIngests ++ [⟨.text "Old cats".toList, "s", "u", .asInserted⟩]

private theorem distinct_shortenedNote : Distinct asciiEnv shortenedNote := by
  unfold Distinct shortenedNote noteIngests
  simp only [List.cons_append, List.nil_append, List.forall_mem_cons]
  refine ⟨?_, ?_, ?_, fun _ h ↦ nomatch h⟩
  · decide +kernel
  · decide +kernel
  · decide +kernel

theorem findings_shortenedNote :
    let db : Db Nat := ⟨[], [noteClaim], (history asciiEnv shortenedNote).table⟩
    let findings := detectStaleSpans asciiEnv db "r" "u"
    (findings.map (·.articleId)).Nodup ∧
      (∀ articleId, articleId ∈ findings.map (·.articleId) ↔
        ∃ c ∈ [noteClaim], c.userId = "u" ∧ c.articleId = articleId ∧
          ∃ sid ∈ c.spanIds, ∃ r ∈ (history asciiEnv shortenedNote).table,
            r.id = sid ∧ r.userId = "u" ∧ Gone asciiEnv shortenedNote r) ∧
      ∀ f ∈ findings,
        f.detail = "stale_span_references=" ++ toString (staleCitations db "u" f.articleId) :=
  findings_iff asciiEnv shortenedNote distinct_shortenedNote [] [noteClaim] "r" "u"

end WikiMind.Lint.StaleSpans
