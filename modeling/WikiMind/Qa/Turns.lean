import WikiMind.Qa.Forks

/-!
# Questions to one conversation at the same time

`_prepare_context` reads the last index of the conversation, the model is called, and
`_persist_query` inserts the turn with the index after it (`engine/qa_agent.py:301, 469`).
Nothing is locked in between. Requests that open a conversation of their own share none and
are left out.
-/

namespace WikiMind.Qa

open WikiMind.Base WikiMind.Llm

/-- A request that waits for the model. -/
structure Asking where
  userId : String
  request : QueryRequest
  ctx : PreparedContext

/-- The tables, the requests that wait, and the answers given so far. -/
structure Server where
  db : Db
  asking : List Asking
  answered : List Query

/-- A request prepares its context; a request that waits gets a result and persists it, or
dies. -/
inductive Activity where
  | prepare (userId : String) (request : QueryRequest) (run : Surroundings)
  | persist (i : Nat) (result : QueryResult) (run : Surroundings)
  | abort (i : Nat)

/-- The columns an update sets: those that changed since the row was loaded. -/
def Conversation.flush (loaded changed row : Conversation) : Conversation :=
  { row with
    title := if changed.title = loaded.title then row.title else changed.title
    updatedAt := if changed.updatedAt = loaded.updatedAt then row.updatedAt else changed.updatedAt
    filedArticleId :=
      if changed.filedArticleId = loaded.filedArticleId then row.filedArticleId
      else changed.filedArticleId }

/-- Persist the answer of a waiting request on the tables as they are by then. -/
def Server.persist (env : QaEnv) (s : Server) (i : Nat) (a : Asking) (result : QueryResult)
    (run : Surroundings) : Server :=
  match persistQuery env s.db a.userId a.request result a.ctx run with
  | .error _ => { s with asking := s.asking.eraseIdx i }
  | .ok (query, conversation, db) =>
    { db := { db with
        conversations := Rows.modify (·.id = a.ctx.conversation.id)
          (a.ctx.conversation.flush conversation) s.db.conversations }
      asking := s.asking.eraseIdx i
      answered := s.answered ++ [query] }

/-- Requests to conversations that exist, in any interleaving. -/
def server (env : QaEnv) : Machine Server Activity where
  step s
    | .prepare userId request run =>
      match request.conversationId, prepareContext env s.db userId request run with
      | some _, .ok (ctx, _) => some { s with asking := s.asking ++ [⟨userId, request, ctx⟩] }
      | _, _ => none
    | .persist i result run => s.asking[i]?.map fun a ↦ s.persist env i a result run
    | .abort i => s.asking[i]?.map fun _ ↦ { s with asking := s.asking.eraseIdx i }

/-- Every index below the next one is that of a turn. -/
def Db.NoGaps (db : Db) : Prop :=
  ∀ id i, i < nextTurnIndex db id → ∃ q ∈ db.queries, q.conversationId = id ∧ q.turnIndex = i

/-- No request read an index beyond the next one. -/
structure Server.Sound (s : Server) : Prop where
  noGaps : s.db.NoGaps
  read : ∀ a ∈ s.asking, a.ctx.nextTurnIndex ≤ nextTurnIndex s.db a.ctx.conversation.id

/-- The turns of each conversation have different indices, and those of before and all
answers are there. -/
structure Server.InOrder (before : List Query) (s : Server) : Prop where
  distinct : ∀ id, DistinctIndices s.db id
  kept : s.db.queries = before ++ s.answered

/-- When an answer is committed, the index its request read is still the next one. -/
def ReadIsCurrent (s : Server) : Activity → Prop
  | .persist i result run => ∀ a, s.asking[i]? = some a → ¬ PersistFails a.request result run →
      a.ctx.nextTurnIndex = nextTurnIndex s.db a.ctx.conversation.id
  | .prepare .. | .abort _ => True

/-- While an answer is committed, no other request to its conversation waits. -/
def PersistsAlone (s : Server) : Activity → Prop
  | .persist i _ _ => ∀ a, s.asking[i]? = some a → ∀ b ∈ s.asking.eraseIdx i,
      b.ctx.conversation.id ≠ a.ctx.conversation.id
  | .prepare .. | .abort _ => True

/-- Every request that waits has read the next index. -/
def Server.Current (s : Server) : Prop :=
  ∀ a ∈ s.asking, a.ctx.nextTurnIndex = nextTurnIndex s.db a.ctx.conversation.id

section
variable {env : QaEnv} {db db' : Db} {s t : Server} {q : Query} {id : String} {i : Nat}
  {a : Asking} {result : QueryResult} {run : Surroundings} {before : List Query}

/-- The next index after a turn was appended. -/
theorem nextTurnIndex_append (hqueries : db'.queries = db.queries ++ [q]) :
    nextTurnIndex db' id =
      if q.conversationId = id then max (nextTurnIndex db id) (q.turnIndex + 1)
      else nextTurnIndex db id := by
  unfold nextTurnIndex
  rw [hqueries, List.filter_append]
  split
  next h => simp [h, List.foldl_append]
  next h => simp [h]

/-- An index that was read is free exactly when it is still the next one. -/
theorem distinct_append_iff (hqueries : db'.queries = db.queries ++ [q]) (hgaps : db.NoGaps)
    (hread : q.turnIndex ≤ nextTurnIndex db q.conversationId)
    (hdistinct : ∀ id, DistinctIndices db id) :
    (∀ id, DistinctIndices db' id) ↔ q.turnIndex = nextTurnIndex db q.conversationId := by
  have hother : ∀ id, q.conversationId ≠ id →
      db'.queries.filter (·.conversationId = id) = db.queries.filter (·.conversationId = id) := by
    intro id hne
    rw [hqueries, List.filter_append]
    simp [hne]
  have hown : db'.queries.filter (·.conversationId = q.conversationId) =
      db.queries.filter (·.conversationId = q.conversationId) ++ [q] := by
    rw [hqueries, List.filter_append]
    simp
  constructor
  · intro h
    have hnodup := h q.conversationId
    unfold DistinctIndices at hnodup
    rw [hown, Rows.nodup_map_concat] at hnodup
    by_contra hne
    obtain ⟨p, hp, hid, hindex⟩ := hgaps q.conversationId q.turnIndex (by omega)
    exact hnodup.2 p (List.mem_filter.mpr ⟨hp, by simpa using hid⟩) hindex
  · intro h id
    unfold DistinctIndices
    by_cases hid : q.conversationId = id
    · subst hid
      rw [hown, Rows.nodup_map_concat]
      refine ⟨hdistinct _, fun p hp ↦ ?_⟩
      obtain ⟨hmem, hpid⟩ := List.mem_filter.mp hp
      have hlt := lt_nextTurnIndex hmem
      have hpid' : p.conversationId = q.conversationId := by simpa using hpid
      rw [hpid'] at hlt
      omega
    · rw [hother id hid]
      exact hdistinct id

private theorem noGaps_append (hqueries : db'.queries = db.queries ++ [q]) (hgaps : db.NoGaps)
    (hread : q.turnIndex ≤ nextTurnIndex db q.conversationId) : db'.NoGaps := by
  intro id i hi
  rw [nextTurnIndex_append hqueries] at hi
  have hold : i < nextTurnIndex db id →
      ∃ p ∈ db'.queries, p.conversationId = id ∧ p.turnIndex = i := by
    intro hlt
    obtain ⟨p, hp, hfacts⟩ := hgaps id i hlt
    exact ⟨p, by rw [hqueries]; exact List.mem_append_left _ hp, hfacts⟩
  split at hi
  next hid =>
    by_cases hlt : i < nextTurnIndex db id
    · exact hold hlt
    · have hq : q ∈ db'.queries := by
        rw [hqueries]
        exact List.mem_append_right _ (List.mem_singleton_self q)
      refine ⟨q, hq, hid, ?_⟩
      rw [hid] at hread
      omega
  next => exact hold hi

/-- What persisting an answer does: nothing where it fails, else it appends the turn with the
index that was read. -/
theorem persist_cases (env : QaEnv) (s : Server) (i : Nat) (a : Asking) (result : QueryResult)
    (run : Surroundings) :
    (PersistFails a.request result run ∧
      s.persist env i a result run = { s with asking := s.asking.eraseIdx i }) ∨
    (¬ PersistFails a.request result run ∧ ∃ q,
      q.conversationId = a.ctx.conversation.id ∧ q.turnIndex = a.ctx.nextTurnIndex ∧
      (s.persist env i a result run).db.queries = s.db.queries ++ [q] ∧
      (s.persist env i a result run).asking = s.asking.eraseIdx i ∧
      (s.persist env i a result run).answered = s.answered ++ [q]) := by
  unfold Server.persist
  rcases persistQuery_cases env s.db a.userId a.request result a.ctx run with
    ⟨hfails, detail, herror⟩ | ⟨hok, q, conv, db', hpersist, -, -⟩
  · rw [herror]
    exact .inl ⟨hfails, rfl⟩
  · obtain ⟨-, hid, hindex, hqueries, -⟩ := persistQuery_eq_ok hpersist
    rw [hpersist]
    exact .inr ⟨hok, q, hid, hindex, hqueries, rfl, rfl⟩

theorem Server.Sound.erase (h : s.Sound) (i : Nat) :
    Server.Sound { s with asking := s.asking.eraseIdx i } :=
  ⟨h.noGaps, fun a ha ↦ h.read a (List.mem_of_mem_eraseIdx ha)⟩

theorem Server.Sound.persist (h : s.Sound) (ha : s.asking[i]? = some a) :
    (s.persist env i a result run).Sound := by
  have hmem : a ∈ s.asking := List.mem_of_getElem? ha
  rcases persist_cases env s i a result run with ⟨-, heq⟩ | ⟨-, q, hid, hindex, hqueries, hrest, -⟩
  · rw [heq]
    exact h.erase i
  · have hread : q.turnIndex ≤ nextTurnIndex s.db q.conversationId := by
      rw [hindex, hid]
      exact h.read a hmem
    refine ⟨noGaps_append hqueries h.noGaps hread, fun b hb ↦ ?_⟩
    rw [hrest] at hb
    have hb := h.read b (List.mem_of_mem_eraseIdx hb)
    rw [nextTurnIndex_append hqueries]
    split <;> omega

/-- A request to a conversation reads its next index. -/
theorem nextTurnIndex_prepareContext {userId : String} {request : QueryRequest}
    {ctx : PreparedContext} {rest : Db} (hid : request.conversationId = some id)
    (h : prepareContext env db userId request run = .ok (ctx, rest)) :
    ctx.nextTurnIndex = nextTurnIndex db ctx.conversation.id := by
  unfold prepareContext getOrCreateConversation at h
  rw [hid] at h
  dsimp only at h
  cases hfound : db.conversation id with
  | none =>
    rw [hfound] at h
    cases h
  | some found =>
    rw [hfound] at h
    cases h
    rfl

theorem sound_step {e : Activity} (h : s.Sound) (hs : (server env).step s e = some t) :
    t.Sound := by
  cases e with
  | prepare userId request run =>
    unfold server at hs
    dsimp only at hs
    split at hs
    next id ctx prepared hid hprepare =>
      cases hs
      refine ⟨h.noGaps, fun a ha ↦ ?_⟩
      rcases List.mem_append.mp ha with ha | ha
      · exact h.read a ha
      · rw [List.mem_singleton.mp ha]
        exact (nextTurnIndex_prepareContext hid hprepare).le
    next => cases hs
  | persist i result run =>
    obtain ⟨a, ha, rfl⟩ := Option.map_eq_some_iff.mp hs
    exact h.persist ha
  | abort i =>
    obtain ⟨a, ha, rfl⟩ := Option.map_eq_some_iff.mp hs
    exact h.erase i

/-- A step keeps the turns in order exactly when what it commits was read after the last
commit. -/
theorem inOrder_step_iff {e : Activity} (h : s.Sound) (horder : s.InOrder before)
    (hs : (server env).step s e = some t) : t.InOrder before ↔ ReadIsCurrent s e := by
  cases e with
  | prepare userId request run =>
    unfold server at hs
    dsimp only at hs
    split at hs
    · cases hs
      exact iff_of_true ⟨horder.distinct, horder.kept⟩ trivial
    · cases hs
  | abort i =>
    obtain ⟨a, ha, rfl⟩ := Option.map_eq_some_iff.mp hs
    exact iff_of_true ⟨horder.distinct, horder.kept⟩ trivial
  | persist i result run =>
    obtain ⟨a, ha, rfl⟩ := Option.map_eq_some_iff.mp hs
    unfold ReadIsCurrent
    simp only [ha, Option.some.injEq, forall_eq']
    rcases persist_cases env s i a result run with
      ⟨hfails, heq⟩ | ⟨hok, q, hid, hindex, hqueries, -, hanswered⟩
    · rw [heq]
      exact iff_of_true ⟨horder.distinct, horder.kept⟩ fun hnot ↦ absurd hfails hnot
    · have hread : q.turnIndex ≤ nextTurnIndex s.db q.conversationId := by
        rw [hindex, hid]
        exact h.read a (List.mem_of_getElem? ha)
      have hiff := distinct_append_iff hqueries h.noGaps hread horder.distinct
      rw [hindex, hid] at hiff
      simp only [hok, not_false_eq_true, forall_const]
      rw [← hiff]
      constructor
      · exact fun horder' ↦ horder'.distinct
      · intro hdistinct
        refine ⟨hdistinct, ?_⟩
        rw [hqueries, hanswered, horder.kept, List.append_assoc]

/-- An answer that is committed alone has read the next index, and the requests that go on waiting
have, too. -/
theorem current_step {e : Activity} (h : s.Current) (halone : PersistsAlone s e)
    (hs : (server env).step s e = some t) : t.Current ∧ ReadIsCurrent s e := by
  cases e with
  | prepare userId request run =>
    unfold server at hs
    dsimp only at hs
    split at hs
    next id ctx prepared hid hprepare =>
      cases hs
      refine ⟨fun a ha ↦ ?_, trivial⟩
      rcases List.mem_append.mp ha with ha | ha
      · exact h a ha
      · rw [List.mem_singleton.mp ha]
        exact nextTurnIndex_prepareContext hid hprepare
    next => cases hs
  | abort i =>
    obtain ⟨a, ha, rfl⟩ := Option.map_eq_some_iff.mp hs
    exact ⟨fun b hb ↦ h b (List.mem_of_mem_eraseIdx hb), trivial⟩
  | persist i result run =>
    obtain ⟨a, ha, rfl⟩ := Option.map_eq_some_iff.mp hs
    refine ⟨fun b hb ↦ ?_, fun a' ha' _ ↦ h a' (List.mem_of_getElem? ha')⟩
    rcases persist_cases env s i a result run with
      ⟨-, heq⟩ | ⟨-, q, hid, -, hqueries, hasking, -⟩
    · rw [heq] at hb ⊢
      exact h b (List.mem_of_mem_eraseIdx hb)
    · rw [hasking] at hb
      rw [nextTurnIndex_append hqueries, if_neg (hid ▸ (halone a ha b hb).symm)]
      exact h b (List.mem_of_mem_eraseIdx hb)

/-- Answers of which each is committed while no other request to its conversation waits are
committed while the index they read is the next one. -/
theorem readIsCurrent_of_alone {events : List Activity} (h : s.Current)
    (halone : (server env).Guarded PersistsAlone s events) :
    (server env).Guarded ReadIsCurrent s events :=
  (server env).guarded_of_guarded (fun _ _ _ hs he hstep ↦ current_step hs he hstep) h halone

end

/-- In every interleaving: the turns of each conversation keep different indices and no
answer is lost, exactly when each answer is committed while the index its request read is
still the next one. -/
theorem answers_inOrder_iff (env : QaEnv) (s : Server) (before : List Query) (hs : s.Sound)
    (events : List Activity) :
    (server env).Always (Server.InOrder before) s events ↔
      s.InOrder before ∧ (server env).Guarded ReadIsCurrent s events :=
  (server env).always_iff_guarded (fun _ _ _ h hstep ↦ sound_step h hstep)
    (fun _ _ _ h horder hstep ↦ inOrder_step_iff h horder hstep) hs events

instance (s : Server) : (e : Activity) → Decidable (ReadIsCurrent s e)
  | .persist i result run =>
    match h : s.asking[i]? with
    | none => .isTrue fun a ha ↦ by rw [h] at ha; cases ha
    | some a =>
      decidable_of_iff
        (¬ (run.commitFails = true ∨
            (filesBack a.request result = true ∧ run.fileBackFails = true)) →
          a.ctx.nextTurnIndex = nextTurnIndex s.db a.ctx.conversation.id)
        (by simp only [ReadIsCurrent, h, Option.some.injEq, forall_eq', PersistFails])
  | .prepare .. | .abort _ => .isTrue trivial

/-- A conversation with one turn, and no request to it. -/
def idleServer : Server := ⟨sampleDb [foreignTurn], [], []⟩

private theorem idleServer_sound : idleServer.Sound := by
  constructor
  · intro id i hi
    have hnext : nextTurnIndex idleServer.db id =
        if foreignTurn.conversationId = id then 1 else 0 := by
      unfold nextTurnIndex idleServer sampleDb
      split
      next h =>
        subst h
        rfl
      next h => simp [h]
    rw [hnext] at hi
    split at hi
    next h => exact ⟨foreignTurn, by decide, h, by rw [Nat.lt_one_iff.mp hi]; rfl⟩
    next => omega
  · intro a ha
    cases ha

private theorem idleServer_inOrder : idleServer.InOrder [foreignTurn] := by
  refine ⟨fun id ↦ ?_, rfl⟩
  unfold DistinctIndices idleServer sampleDb
  by_cases h : foreignTurn.conversationId = id <;> simp [h]

/-- One question after the other, of which the second is given up. -/
theorem answers_inOrder_sequential :
    (server sampleEnv).Always (Server.InOrder [foreignTurn]) idleServer
      [.prepare "v" sampleRequest sampleRun, .persist 0 noContextResult sampleRun,
       .prepare "v" sampleRequest sampleRun, .abort 0,
       .prepare "u" sampleRequest sampleRun, .persist 0 noContextResult sampleRun] :=
  (answers_inOrder_iff sampleEnv idleServer [foreignTurn] idleServer_sound _).mpr
    ⟨idleServer_inOrder, by decide +kernel⟩

/-- Two questions that read the last index before either is answered get the same index. -/
theorem answers_collide :
    ¬ (server sampleEnv).Always (Server.InOrder [foreignTurn]) idleServer
      [.prepare "v" sampleRequest sampleRun, .prepare "v" sampleRequest sampleRun,
       .persist 0 noContextResult sampleRun, .persist 0 noContextResult sampleRun] := by
  intro h
  rw [Machine.always_iff_forall] at h
  have hdistinct := (h _ (List.prefix_refl _) _ rfl).distinct "c"
  revert hdistinct
  unfold DistinctIndices
  decide +kernel

end WikiMind.Qa
