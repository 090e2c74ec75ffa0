import WikiMind.Compile.Draft

/-!
# Provenance of articles

Compiles, draft approvals and recompiles in any order, with whatever providers answer. All
of them end in `_upsert_article` (`engine/compiler.py:636`), but they find the article to
replace in different ways. A large document is compiled in chunks, and each chunk may be
answered by another provider. The state keeps, beside the tables, whose answers every save is
made of; the code does not.
-/

namespace WikiMind.Compile

open WikiMind.Base WikiMind.Llm

/-- A response to the prompt for a document or for a chunk of it. The result is used if it
parses; the compiler remembers the provider before it parses:
`engine/compiler.py:440–468`. -/
structure Answer where
  provider : Provider
  parses : Bool

/-- A successful compilation: the responses in order, the result that those which parse give
(merged, if the document was compiled in chunks: `engine/compiler.py:515`), and what the
compiler remembers of the compilation beside the provider. -/
structure Build where
  answers : List Answer
  parses : ∃ a ∈ answers, a.parses = true
  result : CompilationResult
  typedSuggestions : List (String × String)
  sourceSpans : List String

/-- The providers whose responses the result is made of. -/
def Build.providers (b : Build) : List Provider :=
  (b.answers.filter Answer.parses).map Answer.provider

/-- The compiler after the compilation: it remembers the provider of the last response. -/
def Build.compiler (b : Build) : Compiler :=
  ⟨b.answers.getLast?.map Answer.provider, b.typedSuggestions, b.sourceSpans⟩

/-- `_upsert_article`: `engine/compiler.py:636`. -/
def upsertArticle (env : TextEnv) (userId sourceId : String) (provider : Option Provider)
    (existing : Option Article) (db : Tables) (a : Attempt) : Except Exc Article × Tables :=
  match writeArticle env db userId sourceId provider existing a with
  | .error e => (.error e, { db with clock := db.clock + 1 })
  | .ok (article, resolved, written) =>
    finishArticle { written with clock := db.clock + 1 } userId sourceId a article resolved

/-- `save_article_in_place`, which takes the provider of the article:
`engine/compiler.py:582`. -/
def saveArticleInPlace (env : TextEnv) (userId sourceId : String) (existing : Article)
    (db : Tables) (a : Attempt) : Except Exc Article × Tables :=
  upsertArticle env userId sourceId existing.provider (some existing) db a

/-- `fetch_source_ids_for_article`, with the JSON column where there are no links:
`queries/articles.py:56`. -/
def fetchSourceIds (db : Tables) (article : Article) : List String :=
  match (db.articleSources.filter (·.articleId = article.id)).map ArticleSource.sourceId with
  | [] => article.sourceIds
  | ids => ids

/-- The article and the first of its sources, if there is one: `jobs/worker.py:420–430`. -/
def recompileTarget (db : Tables) (articleId : Nat) : Option (Article × String) := do
  let existing ← db.articles.find? (·.id = articleId)
  let sourceId ← (fetchSourceIds db existing).head?
  if db.sources.any (·.id = sourceId) then some (existing, sourceId) else none

/-- The drafts and tables, the providers whose responses each save is made of by the time of
the save, and those each draft is made of. -/
structure World where
  state : DraftState
  answered : List (List Provider)
  draftedBy : List (List Provider)

/-- The operations that save articles or make drafts. Each goes as far as its failures let
it. -/
inductive Operation where
  | compile (sourceId : String) (build : Build) (fails : Stage → Bool)
  | draft (sourceId : String) (build : Build)
  | approve (sourceId : String) (guided : Option Build) (fails : Stage → Bool)
  | recompile (articleId : Nat) (build : Build) (fails : Stage → Bool)

/-- The tables after a save of what these providers answered. -/
def World.saved (w : World) (tables : Tables) (providers : List Provider) : World :=
  { w with state := { w.state with tables }, answered := w.answered ++ [providers] }

/-- The providers whose responses an approval saves. -/
def approvedProviders (w : World) (draft : CompilationDraft) (guided : Option Build) :
    List Provider :=
  match guided with
  | some build => build.providers
  | none => w.draftedBy[draft.id]?.getD []

/-- The effect of an operation on behalf of a user: `jobs/worker.py:178, 135, 403`,
`services/draft.py:137`. -/
def World.apply (env : TextEnv) (userId : String) (w : World) : Operation → World
  | .compile sourceId build fails =>
    if w.state.tables.sources.any (·.id = sourceId) then
      w.saved (build.compiler.saveArticle env userId sourceId w.state.tables build.result
        fails).2 build.providers
    else w
  | .draft sourceId build =>
    { w with state := createDraft w.state userId sourceId build.result
             draftedBy := w.draftedBy ++ [build.providers] }
  | .approve sourceId guided fails =>
    match getDraftForSource w.state userId sourceId with
    | .error _ => w
    | .ok draft =>
      if w.state.tables.sources.any (·.id = sourceId) then
        { w with
          state := (approveDraft env userId sourceId w.state
            (guided.map fun build ↦ (build.compiler, build.result)) fails).2
          answered := w.answered ++ [approvedProviders w draft guided] }
      else w
  | .recompile articleId build fails =>
    match recompileTarget w.state.tables articleId with
    | none => w
    | some (existing, sourceId) =>
      w.saved (saveArticleInPlace env userId sourceId existing w.state.tables
        (build.compiler.attempt build.result fails)).2 build.providers

/-- An article is linked to a source. -/
def Tables.Links (db : Tables) (article : Article) (sourceId : String) : Prop :=
  ∃ l ∈ db.articleSources, l.articleId = article.id ∧ l.sourceId = sourceId

instance (db : Tables) (article : Article) (sourceId : String) :
    Decidable (db.Links article sourceId) :=
  inferInstanceAs (Decidable (∃ l ∈ db.articleSources, _))

/-- A provider is the one that all these responses are by, and there are some. -/
def Credits (provider : Option Provider) (providers : List Provider) : Prop :=
  providers ≠ [] ∧ ∀ p ∈ providers, provider = some p

instance (provider : Option Provider) (providers : List Provider) :
    Decidable (Credits provider providers) :=
  inferInstanceAs (Decidable (_ ∧ _))

/-- Every article names the provider whose responses its content is made of, and a source has
one linked article at most of each provider. -/
structure Attributed (db : Tables) (answered : List (List Provider)) : Prop where
  provider : ∀ x ∈ db.articles, ∃ ps ∈ answered[x.compiledAt]?, Credits x.provider ps
  unique : ∀ x ∈ db.articles, ∀ y ∈ db.articles, ∀ sourceId, x.provider = y.provider →
    x.provider ≠ none → db.Links x sourceId → db.Links y sourceId → x.id = y.id

/-- What the database and the record of answers keep in any run. -/
structure Recorded (db : Tables) (answered : List (List Provider)) : Prop where
  stamped : db.Stamped
  answered : answered.length = db.clock
  nodup : (db.articles.map Article.id).Nodup
  ids : ∀ x ∈ db.articles, x.id < db.nextId
  links : ∀ l ∈ db.articleSources, l.articleId < db.nextId

/-- An in-place save fails at its first commit or before it. -/
def StopsEarlyInPlace (env : TextEnv) (userId sourceId : String) (existing : Article)
    (db : Tables) (a : Attempt) : Prop :=
  Raises (writeArticle env db userId sourceId existing.provider (some existing) a)

/-- A save of a compilation fails at its first commit or before it, or all responses that
parse are by the provider that answered last. -/
def Build.SavedAsLast (env : TextEnv) (userId sourceId : String) (db : Tables) (b : Build)
    (fails : Stage → Bool) : Prop :=
  StopsEarly env userId sourceId b.compiler.lastProviderUsed db
      (b.compiler.attempt b.result fails) ∨
    Credits b.compiler.lastProviderUsed b.providers

/-- The providers that answer and the failures of a step, where its source is there: a
compilation that is saved has one provider, which answered last; an approval without guidance
saves nothing; an in-place recompile saves nothing or is answered by the provider of the
article, of which the source has no other article. -/
def World.Attributes (env : TextEnv) (userId : String) (w : World) : Operation → Prop
  | .compile sourceId build fails =>
    w.state.tables.sources.any (·.id = sourceId) →
      build.SavedAsLast env userId sourceId w.state.tables fails
  | .draft _ _ => True
  | .approve sourceId guided fails =>
    ∀ draft, getDraftForSource w.state userId sourceId = .ok draft →
      w.state.tables.sources.any (·.id = sourceId) →
      match guided with
      | some build => build.SavedAsLast env userId sourceId w.state.tables fails
      | none => StopsEarly env userId sourceId none w.state.tables
          (Compiler.new.attempt draft.result fails)
  | .recompile articleId build fails =>
    ∀ existing sourceId, recompileTarget w.state.tables articleId = some (existing, sourceId) →
      StopsEarlyInPlace env userId sourceId existing w.state.tables
          (build.compiler.attempt build.result fails) ∨
        (Credits existing.provider build.providers ∧
          ∀ y ∈ w.state.tables.articles, y.provider = existing.provider →
            w.state.tables.Links y sourceId → y.id = existing.id)

/-- The identifier of the article an upsert writes. -/
def targetId (db : Tables) : Option Article → Nat
  | none => db.nextId
  | some existing => existing.id

/-- The provider that the article an upsert writes has then. -/
def targetProvider (provider : Option Provider) : Option Article → Option Provider
  | none => provider
  | some existing => existing.provider

/-- What an upsert leaves once its first commit is made: the article it found, rewritten, or
a new one; the links of other articles, and its own link if that was committed. -/
structure Upserted (sourceId : String) (provider : Option Provider) (existing : Option Article)
    (db t : Tables) : Prop where
  clock : t.clock = db.clock + 1
  nextId : t.nextId = match existing with
    | none => db.nextId + 1
    | some _ => db.nextId
  articles : match existing with
    | none => ∃ new : Article, t.articles = db.articles ++ [new] ∧ new.id = db.nextId ∧
        new.provider = provider ∧ new.compiledAt = db.clock
    | some e => ∃ f : Article → Article, t.articles = Rows.modify (·.id = e.id) f db.articles ∧
        ∀ x, (f x).id = x.id ∧ (f x).provider = x.provider ∧ (f x).compiledAt = db.clock
  links : ∀ l ∈ t.articleSources, l = ⟨targetId db existing, sourceId⟩ ∨
    (l ∈ db.articleSources ∧ ∀ e, existing = some e → l.articleId ≠ e.id)

section Upsert

variable {env : TextEnv} {userId sourceId : String} {provider : Option Provider}
  {existing : Option Article} {db : Tables} {a : Attempt}

/-- What holds before some work and after the rest of the save holds of its tables. -/
theorem prop_commitStep {P : Tables → Prop} {before : Tables} {work : Except Exc Tables}
    {next : Tables → Except Exc Article × Tables} (hbefore : P before)
    (hnext : ∀ t, work = .ok t → P (next t).2) : P (commitStep before work next).2 := by
  unfold commitStep
  cases hwork : work with
  | error e => exact hbefore
  | ok t => exact hnext t hwork

/-- The tables have the next identifier and the links of others, and one more at most. -/
def AddsLink (link : ArticleSource) (db t : Tables) : Prop :=
  t.nextId = db.nextId ∧ ∀ l ∈ t.articleSources, l ∈ db.articleSources ∨ l = link

/-- The later transactions add the link of the article, if they get that far. -/
theorem addsLink_finishArticle (db : Tables) (userId sourceId : String) (a : Attempt)
    (article : Article) (resolved : List ResolvedBacklink) :
    AddsLink ⟨article.id, sourceId⟩ db
      (finishArticle db userId sourceId a article resolved).2 := by
  have hkept : ∀ {stage} {t t' : Tables},
      (do a.reach stage; return t) = Except.ok t' → t' = t := by
    intro stage t t' h
    obtain ⟨_, _, h⟩ := bind_eq_ok.mp h
    cases h
    rfl
  unfold finishArticle
  apply prop_commitStep (P := AddsLink ⟨article.id, sourceId⟩ db)
    ⟨rfl, fun _ hl ↦ .inl hl⟩
  intro linked h
  have hlinked : AddsLink ⟨article.id, sourceId⟩ db linked := by
    obtain ⟨_, _, h⟩ := bind_eq_ok.mp h
    obtain ⟨t, ht, h⟩ := bind_eq_ok.mp h
    rw [hkept h]
    unfold addLinks at ht
    dsimp only at ht
    split at ht
    · cases ht
      exact ⟨rfl, fun l hl ↦ by simpa using hl⟩
    · cases ht
  -- what follows writes neither links nor the next identifier
  apply prop_commitStep (P := AddsLink ⟨article.id, sourceId⟩ db)
  · exact hlinked
  intro t ht
  rw [hkept ht]
  apply prop_commitStep (P := AddsLink ⟨article.id, sourceId⟩ db)
  · exact hlinked
  intro t ht
  rw [hkept ht]
  apply prop_commitStep (P := AddsLink ⟨article.id, sourceId⟩ db)
  · exact hlinked
  intro t ht
  rw [hkept ht]
  apply prop_commitStep (P := AddsLink ⟨article.id, sourceId⟩ db)
  · exact hlinked
  intro t ht
  obtain ⟨_, _, ht⟩ := bind_eq_ok.mp ht
  rw [hkept ht]
  exact hlinked

/-- A first transaction that succeeds makes an upsert of the article it found or of none. -/
theorem upserted_of_writeArticle {article : Article} {resolved : List ResolvedBacklink}
    {written : Tables}
    (h : writeArticle env db userId sourceId provider existing a =
      .ok (article, resolved, written)) :
    Upserted sourceId provider existing db
      (finishArticle { written with clock := db.clock + 1 } userId sourceId a article
        resolved).2 := by
  obtain ⟨harticles, hclock⟩ := Prod.mk.inj
    (view_finishArticle { written with clock := db.clock + 1 } userId sourceId a article resolved)
  obtain ⟨hnext, hlinks⟩ :=
    addsLink_finishArticle { written with clock := db.clock + 1 } userId sourceId a article resolved
  obtain ⟨-, hwritten⟩ := writeArticle_eq_ok h
  cases existing with
  | none =>
    obtain ⟨⟨hid, hstamp, hprovider, -⟩, rfl⟩ := hwritten
    refine ⟨hclock, hnext, ⟨article, harticles, hid, hprovider, hstamp⟩, fun l hl ↦ ?_⟩
    rcases hlinks l hl with hold | rfl
    · exact .inr ⟨hold, fun e he ↦ by cases he⟩
    · exact .inl (by rw [hid]; rfl)
  | some e =>
    obtain ⟨f, rfl, hf, rfl⟩ := hwritten
    refine ⟨hclock, hnext,
      ⟨f, harticles, fun x ↦ ⟨(hf x).1, (hf x).2.2.1, (hf x).2.1⟩⟩, fun l hl ↦ ?_⟩
    rcases hlinks l hl with hold | rfl
    · obtain ⟨hmem, hother⟩ := List.mem_filter.mp hold
      refine .inr ⟨hmem, fun e' he ↦ ?_⟩
      cases he
      simpa using hother
    · exact .inl (by rw [(hf e).1]; rfl)

/-- All an upsert can do: raise and leave every row, or get to its first commit. -/
theorem upsertArticle_cases (env : TextEnv) (userId sourceId : String)
    (provider : Option Provider) (existing : Option Article) (db : Tables) (a : Attempt) :
    (Raises (writeArticle env db userId sourceId provider existing a) ∧
      (upsertArticle env userId sourceId provider existing db a).2 =
        { db with clock := db.clock + 1 }) ∨
    (¬ Raises (writeArticle env db userId sourceId provider existing a) ∧
      Upserted sourceId provider existing db
        (upsertArticle env userId sourceId provider existing db a).2) := by
  unfold upsertArticle
  cases hwrite : writeArticle env db userId sourceId provider existing a with
  | error e => exact .inl ⟨⟨e, rfl⟩, rfl⟩
  | ok saved => exact .inr ⟨raises_ok _, upserted_of_writeArticle hwrite⟩

/-- `save_article` is an upsert of the article it finds. -/
theorem saveArticle_upserts (env : TextEnv) (userId sourceId : String)
    (provider : Option Provider) (db : Tables) (a : Attempt) :
    (saveArticle env userId sourceId provider db a).2 = { db with clock := db.clock + 1 } ∨
    (¬ StopsEarly env userId sourceId provider db a ∧
      Upserted sourceId provider (findArticle db sourceId provider) db
        (saveArticle env userId sourceId provider db a).2) := by
  rw [stopsEarly_iff]
  unfold saveArticle
  cases hfind : a.reach .find with
  | error e => exact .inl rfl
  | ok u =>
    rcases upsertArticle_cases env userId sourceId provider (findArticle db sourceId provider)
      db a with ⟨_, hsame⟩ | ⟨hlate, hup⟩
    · exact .inl hsame
    · refine .inr ⟨?_, hup⟩
      rintro (hfails | hraises)
      · obtain ⟨e, he⟩ := Attempt.raises_reach.mpr hfails
        rw [hfind] at he
        cases he
      · exact hlate hraises

end Upsert

section Kept

variable {db t : Tables} {answered : List (List Provider)} {sourceId : String}
  {provider : Option Provider} {existing : Option Article} {ps : List Provider}

/-- A save that leaves the rows keeps what it took time for. -/
theorem Attributed.same (h : Attributed db answered) (hrec : Recorded db answered)
    (ps : List Provider) :
    Recorded { db with clock := db.clock + 1 } (answered ++ [ps]) ∧
      Attributed { db with clock := db.clock + 1 } (answered ++ [ps]) := by
  refine ⟨⟨?_, ?_, hrec.nodup, hrec.ids, hrec.links⟩, ⟨?_, h.unique⟩⟩
  · intro x hx
    have hpast := hrec.stamped x hx
    show x.compiledAt < db.clock + 1
    omega
  · show (answered ++ [ps]).length = db.clock + 1
    rw [List.length_append, hrec.answered]
    rfl
  · intro x hx
    have hpast := hrec.stamped x hx
    show ∃ qs ∈ (answered ++ [ps])[x.compiledAt]?, Credits x.provider qs
    rw [List.getElem?_append_left (by rw [hrec.answered]; exact hpast)]
    exact h.provider x hx

/-- The rows after an upsert: the one it wrote, at its time and with its provider, and those
of before. -/
theorem Upserted.row (hup : Upserted sourceId provider existing db t)
    (hrec : Recorded db answered) (hmem : ∀ e, existing = some e → e ∈ db.articles) :
    ∀ x ∈ t.articles,
      (x.id = targetId db existing ∧ x.provider = targetProvider provider existing ∧
        x.compiledAt = db.clock) ∨
      (x ∈ db.articles ∧ x.id ≠ targetId db existing) := by
  intro x hx
  have harticles := hup.articles
  cases existing with
  | none =>
    obtain ⟨new, hnew, hid, hprovider, htime⟩ := harticles
    rw [hnew] at hx
    rcases List.mem_append.mp hx with hold | hlast
    · exact .inr ⟨hold, Nat.ne_of_lt (hrec.ids x hold)⟩
    · rw [List.mem_singleton.mp hlast]
      exact .inl ⟨hid, hprovider, htime⟩
  | some e =>
    obtain ⟨f, hmodify, hf⟩ := harticles
    rw [hmodify] at hx
    rcases Rows.mem_modify.mp hx with ⟨y, hy, hye, rfl⟩ | ⟨hold, hne⟩
    · have hsame : y = e :=
        Rows.eq_of_nodup hrec.nodup (hmem e rfl) hy (of_decide_eq_true hye)
      subst hsame
      exact .inl (hf y)
    · exact .inr ⟨hold, of_decide_eq_false hne⟩

/-- The links after an upsert: those of the article it wrote are to its source, and those of
other articles are links of before. -/
theorem Upserted.link (hup : Upserted sourceId provider existing db t)
    (hrec : Recorded db answered) {x : Article} {s : String} (hlink : t.Links x s) :
    (x.id = targetId db existing ∧ s = sourceId) ∨
      (x.id ≠ targetId db existing ∧ db.Links x s) := by
  obtain ⟨l, hl, hid, hs⟩ := hlink
  rcases hup.links l hl with rfl | ⟨hold, hother⟩
  · exact .inl ⟨hid.symm, hs.symm⟩
  · refine .inr ⟨?_, l, hold, hid, hs⟩
    rw [← hid]
    cases existing with
    | none => exact Nat.ne_of_lt (hrec.links l hold)
    | some e => exact hother e rfl

/-- An upsert keeps the facts about identifiers, times and answers. -/
theorem Recorded.upsert (hrec : Recorded db answered)
    (hup : Upserted sourceId provider existing db t)
    (hmem : ∀ e, existing = some e → e ∈ db.articles) (ps : List Provider) :
    Recorded t (answered ++ [ps]) := by
  have hnext := hup.nextId
  have htarget : targetId db existing < t.nextId := by
    cases existing with
    | none =>
      rw [hnext]
      exact Nat.lt_succ_self _
    | some e =>
      rw [hnext]
      exact hrec.ids e (hmem e rfl)
  have hle : db.nextId ≤ t.nextId := by
    rw [hnext]
    split <;> omega
  refine ⟨?_, ?_, ?_, ?_, ?_⟩
  · intro x hx
    show x.compiledAt < t.clock
    rw [hup.clock]
    rcases hup.row hrec hmem x hx with ⟨_, _, htime⟩ | ⟨hold, _⟩
    · omega
    · have hpast := hrec.stamped x hold
      omega
  · show (answered ++ [ps]).length = t.clock
    rw [List.length_append, hrec.answered, hup.clock]
    rfl
  · have harticles := hup.articles
    show (t.articles.map Article.id).Nodup
    cases existing with
    | none =>
      obtain ⟨new, hnew, hid, _⟩ := harticles
      rw [hnew, Rows.nodup_map_concat, hid]
      exact ⟨hrec.nodup, fun x hx ↦ Nat.ne_of_lt (hrec.ids x hx)⟩
    | some e =>
      obtain ⟨f, hmodify, hf⟩ := harticles
      have hids : t.articles.map Article.id = db.articles.map Article.id := by
        rw [hmodify]
        exact Rows.map_modify fun x _ _ ↦ (hf x).1
      rw [hids]
      exact hrec.nodup
  · intro x hx
    rcases hup.row hrec hmem x hx with ⟨hid, _⟩ | ⟨hold, _⟩
    · rw [hid]
      exact htarget
    · exact Nat.lt_of_lt_of_le (hrec.ids x hold) hle
  · intro l hl
    rcases hup.links l hl with rfl | ⟨hold, _⟩
    · exact htarget
    · exact Nat.lt_of_lt_of_le (hrec.links l hold) hle

/-- An upsert keeps the attribution if its provider gave all responses and the source has no
other article of that provider. -/
theorem Attributed.upsert (h : Attributed db answered) (hrec : Recorded db answered)
    (hup : Upserted sourceId provider existing db t)
    (hmem : ∀ e, existing = some e → e ∈ db.articles)
    (hps : Credits (targetProvider provider existing) ps)
    (htwin : ∀ y ∈ db.articles, targetProvider provider existing ≠ none →
      y.provider = targetProvider provider existing →
      db.Links y sourceId → y.id = targetId db existing) :
    Attributed t (answered ++ [ps]) := by
  constructor
  · intro x hx
    show ∃ qs ∈ (answered ++ [ps])[x.compiledAt]?, Credits x.provider qs
    rcases hup.row hrec hmem x hx with ⟨_, hprovider, htime⟩ | ⟨hold, _⟩
    · rw [htime, ← hrec.answered, List.getElem?_concat_length, hprovider]
      exact ⟨ps, rfl, hps⟩
    · have hpast := hrec.stamped x hold
      rw [List.getElem?_append_left (by rw [hrec.answered]; exact hpast)]
      exact h.provider x hold
  · intro x hx y hy s hsame hsome hxs hys
    have hother : ∀ x y : Article, x.provider = y.provider → x.provider ≠ none →
        x.id = targetId db existing → x.provider = targetProvider provider existing →
        s = sourceId → y ∈ db.articles → db.Links y s → x.id = y.id := by
      intro x y hsame hsome hid hprovider hs hy hys
      subst hs
      rw [hprovider] at hsame hsome
      rw [hid]
      exact (htwin y hy hsome hsame.symm hys).symm
    rcases hup.row hrec hmem x hx with ⟨hxid, hxp, _⟩ | ⟨hxold, hxne⟩
    · rcases hup.row hrec hmem y hy with ⟨hyid, _⟩ | ⟨hyold, hyne⟩
      · rw [hxid, hyid]
      · rcases hup.link hrec hxs with ⟨_, hs⟩ | ⟨hne, _⟩
        · rcases hup.link hrec hys with ⟨heq, _⟩ | ⟨_, hys⟩
          · exact absurd heq hyne
          · exact hother x y hsame hsome hxid hxp hs hyold hys
        · exact absurd hxid hne
    · rcases hup.link hrec hxs with ⟨heq, _⟩ | ⟨_, hxs⟩
      · exact absurd heq hxne
      rcases hup.row hrec hmem y hy with ⟨hyid, hyp, _⟩ | ⟨hyold, hyne⟩
      · rcases hup.link hrec hys with ⟨_, hs⟩ | ⟨hne, _⟩
        · exact (hother y x hsame.symm (hsame ▸ hsome) hyid hyp hs hxold hxs).symm
        · exact absurd hyid hne
      · rcases hup.link hrec hys with ⟨heq, _⟩ | ⟨_, hys⟩
        · exact absurd heq hyne
        · exact h.unique x hxold y hyold s hsame hsome hxs hys

/-- A save keeps the attribution if it saves nothing or its provider gave all responses: the
article it finds is the only one of the provider. -/
theorem Attributed.save {env : TextEnv} {userId : String} {a : Attempt}
    (h : Attributed db answered) (hrec : Recorded db answered)
    (hguard : StopsEarly env userId sourceId provider db a ∨ Credits provider ps) :
    Recorded (saveArticle env userId sourceId provider db a).2 (answered ++ [ps]) ∧
      Attributed (saveArticle env userId sourceId provider db a).2 (answered ++ [ps]) := by
  rcases saveArticle_upserts env userId sourceId provider db a with hsame | ⟨hlate, hup⟩
  · rw [hsame]
    exact h.same hrec _
  rcases hguard with hearly | hps
  · exact absurd hearly hlate
  have hmem : ∀ e, findArticle db sourceId provider = some e → e ∈ db.articles :=
    fun e he ↦ (findArticle_eq_some he).1
  have htarget : targetProvider provider (findArticle db sourceId provider) = provider := by
    cases hfind : findArticle db sourceId provider with
    | none => rfl
    | some e => exact (findArticle_eq_some hfind).2.2.1
  refine ⟨hrec.upsert hup hmem _, h.upsert hrec hup hmem (by rwa [htarget]) ?_⟩
  rw [htarget]
  intro y hy hsome hyp hlink
  cases hfind : findArticle db sourceId provider with
  | none => exact absurd hlink (findArticle_eq_none hfind hsome hy hyp)
  | some e =>
    obtain ⟨he, _, hep, helink⟩ := findArticle_eq_some hfind
    exact h.unique y hy e he sourceId (hyp.trans hep.symm) (hyp ▸ hsome) hlink helink

/-- An in-place save keeps the attribution if it saves nothing, or if the provider of the
article gave all responses and the source has no other article of it. -/
theorem Attributed.saveInPlace {env : TextEnv} {userId : String} {e : Article} {a : Attempt}
    (h : Attributed db answered) (hrec : Recorded db answered) (he : e ∈ db.articles)
    (hguard : StopsEarlyInPlace env userId sourceId e db a ∨ (Credits e.provider ps ∧
      ∀ y ∈ db.articles, y.provider = e.provider → db.Links y sourceId → y.id = e.id)) :
    Recorded (saveArticleInPlace env userId sourceId e db a).2 (answered ++ [ps]) ∧
      Attributed (saveArticleInPlace env userId sourceId e db a).2 (answered ++ [ps]) := by
  unfold saveArticleInPlace
  rcases upsertArticle_cases env userId sourceId e.provider (some e) db a with
    ⟨_, hsame⟩ | ⟨hlate, hup⟩
  · rw [hsame]
    exact h.same hrec _
  rcases hguard with hearly | ⟨hps, htwin⟩
  · exact absurd hearly hlate
  have hmem : ∀ x, some e = some x → x ∈ db.articles := fun x hx ↦ by cases hx; exact he
  exact ⟨hrec.upsert hup hmem _,
    h.upsert hrec hup hmem hps fun y hy _ hyp hlink ↦ htwin y hy hyp hlink⟩

end Kept

/-- The target of a recompile is an article. -/
theorem mem_of_recompileTarget {db : Tables} {articleId : Nat} {e : Article} {sourceId : String}
    (h : recompileTarget db articleId = some (e, sourceId)) : e ∈ db.articles := by
  unfold recompileTarget at h
  obtain ⟨x, hx, h⟩ := Option.bind_eq_some_iff.mp h
  obtain ⟨s, _, h⟩ := Option.bind_eq_some_iff.mp h
  split at h
  · cases h
    exact List.mem_of_find?_eq_some hx
  · cases h

/-- The system of the operations on behalf of a user. -/
def provenance (env : TextEnv) (userId : String) : Machine World Operation :=
  .ofFun (World.apply env userId)

/-- Attribution of the articles of a world, over what every run keeps. -/
def World.Good (w : World) : Prop :=
  Recorded w.state.tables w.answered ∧ Attributed w.state.tables w.answered

/-- A step with the condition keeps the attribution. -/
theorem World.Good.apply {env : TextEnv} {userId : String} {w : World} {op : Operation}
    (h : w.Good) (hop : w.Attributes env userId op) : (w.apply env userId op).Good := by
  obtain ⟨hrec, hattr⟩ := h
  cases op with
  | compile sourceId build fails =>
    unfold World.apply
    dsimp only
    split
    · next hany => exact hattr.save hrec (hop hany)
    · exact ⟨hrec, hattr⟩
  | draft sourceId build => exact ⟨hrec, hattr⟩
  | approve sourceId guided fails =>
    unfold World.apply
    dsimp only
    split
    · exact ⟨hrec, hattr⟩
    · next draft hdraft =>
      split
      · next hany =>
        have hsource : ∃ x ∈ w.state.tables.sources, x.id = sourceId := by simpa using hany
        have hguard := hop draft hdraft hany
        unfold World.Good
        dsimp only
        rw [tables_approveDraft hdraft hsource]
        cases guided with
        | some build => exact hattr.save hrec hguard
        | none => exact hattr.save hrec (.inl hguard)
      · exact ⟨hrec, hattr⟩
  | recompile articleId build fails =>
    unfold World.apply
    dsimp only
    split
    · exact ⟨hrec, hattr⟩
    · next existing sourceId htarget =>
      exact hattr.saveInPlace hrec (mem_of_recompileTarget htarget) (hop existing sourceId htarget)

/-- In a run whose steps all meet the condition, every state attributes its articles to the
providers of their content, and a source has one linked article at most of each provider. -/
theorem provenance_attributed {env : TextEnv} {userId : String} {w : World}
    {ops : List Operation} (hrec : Recorded w.state.tables w.answered)
    (hattr : Attributed w.state.tables w.answered)
    (hops : (provenance env userId).Guarded (World.Attributes env userId) w ops) :
    (provenance env userId).Always (fun w ↦ Attributed w.state.tables w.answered) w ops := by
  have hgood := (provenance env userId).always_of_guarded (I := World.Good) ?_ ⟨hrec, hattr⟩ hops
  · exact hgood.mono _ fun _ h ↦ h.2
  · intro w op w' h hop hstep
    cases hstep
    exact h.apply hop

/-- One source, and nothing compiled. -/
def freshWorld : World := ⟨⟨emptyTables, []⟩, [], []⟩

/-- A compilation that a provider answers, with a result of these concepts. -/
def sampleBuild (p : Provider) (concepts : List String) : Build :=
  ⟨[⟨p, true⟩], ⟨_, List.mem_singleton_self _, rfl⟩, ⟨"Title", "Summary", [], concepts, []⟩,
    [], []⟩

/-- A compilation in two chunks, of which the second may be answered by another provider and
may not parse. -/
def twoChunkBuild (p q : Provider) (parses : Bool) : Build :=
  ⟨[⟨p, true⟩, ⟨q, parses⟩], ⟨_, List.mem_cons_self .., rfl⟩,
    ⟨"Title", "Summary", [], ["ai"], []⟩, [], []⟩

private theorem freshWorld_good : freshWorld.Good := by
  unfold World.Good
  constructor
  · refine ⟨?_, rfl, List.nodup_nil, ?_, ?_⟩ <;> intro x hx <;> cases hx
  · refine ⟨?_, ?_⟩ <;> intro x hx <;> cases hx

/-- A compile in two chunks, and a recompile, all answered by the same provider. -/
theorem provenance_same_provider :
    (provenance plainText "u").Always (fun w ↦ Attributed w.state.tables w.answered) freshWorld
      [.compile "s" (twoChunkBuild .anthropic .anthropic true) (fun _ ↦ false),
        .recompile 0 (sampleBuild .anthropic ["ml"]) (fun _ ↦ false)] := by
  apply provenance_attributed freshWorld_good.1 freshWorld_good.2
  intro w hw
  cases hw
  refine ⟨fun _ ↦ .inr (by decide), fun w' _ ↦ ⟨fun existing sourceId htarget ↦ ?_, trivial⟩⟩
  have hmem := mem_of_recompileTarget htarget
  have harticles : ∀ x ∈ (freshWorld.apply plainText "u" (.compile "s"
      (twoChunkBuild .anthropic .anthropic true) fun _ ↦ false)).state.tables.articles,
      x.id = 0 ∧ x.provider = some .anthropic := by
    decide +kernel
  right
  rw [(harticles _ hmem).2]
  refine ⟨by decide, fun y hy _ _ ↦ ?_⟩
  rw [(harticles y hy).1, (harticles _ hmem).1]

/-- The state a run ends in. -/
def finalWorld (ops : List Operation) : World := ops.foldl (World.apply plainText "u") freshWorld

private theorem attributed_finalWorld {ops : List Operation}
    (h : (provenance plainText "u").Always (fun w ↦ Attributed w.state.tables w.answered)
      freshWorld ops) :
    Attributed (finalWorld ops).state.tables (finalWorld ops).answered :=
  (Machine.always_iff_forall _ _ _ _).mp h ops (List.prefix_refl ops) _
    (Machine.run_ofFun _ _ _)

/-- A recompile that another provider answers keeps the old provider, and an approval leaves
none; a document of two chunks is saved under the provider of the second one, also where that
response did not parse; the recompile of an article whose link was not committed gives the
source a second linked article of its provider. -/
theorem provenance_misattributes :
    (¬ (provenance plainText "u").Always (fun w ↦ Attributed w.state.tables w.answered) freshWorld
      [.compile "s" (sampleBuild .anthropic ["ai"]) (fun _ ↦ false),
        .recompile 0 (sampleBuild .openai ["ai"]) (fun _ ↦ false)]) ∧
    (¬ (provenance plainText "u").Always (fun w ↦ Attributed w.state.tables w.answered) freshWorld
      [.draft "s" (sampleBuild .anthropic ["ai"]), .approve "s" none (fun _ ↦ false)]) ∧
    (∀ parses, ¬ (provenance plainText "u").Always
      (fun w ↦ Attributed w.state.tables w.answered) freshWorld
      [.compile "s" (twoChunkBuild .anthropic .openai parses) (fun _ ↦ false)]) ∧
    (¬ (provenance plainText "u").Always (fun w ↦ Attributed w.state.tables w.answered) freshWorld
      [.compile "s" (sampleBuild .anthropic ["ai", "ai"]) (fun _ ↦ false),
        .compile "s" (sampleBuild .anthropic ["ai"]) (fun _ ↦ false),
        .recompile 0 (sampleBuild .anthropic ["ai"]) (fun _ ↦ false)]) := by
  refine ⟨fun h ↦ ?_, fun h ↦ ?_, fun parses h ↦ ?_, fun h ↦ ?_⟩
  · have hprovider := (attributed_finalWorld h).provider
    revert hprovider
    decide +kernel
  · have hprovider := (attributed_finalWorld h).provider
    revert hprovider
    decide +kernel
  · have hprovider := (attributed_finalWorld h).provider
    revert hprovider
    clear h
    revert parses
    decide +kernel
  · have hunique := fun x hx y hy ↦ (attributed_finalWorld h).unique x hx y hy "s"
    revert hunique
    decide +kernel

end WikiMind.Compile
