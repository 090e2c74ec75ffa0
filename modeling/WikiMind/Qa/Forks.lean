import Mathlib.Data.List.Find
import WikiMind.Base.Run
import WikiMind.Qa.Isolation
import WikiMind.Qa.Threads

/-!
# Forks and what they inherit

Requests to `ask`, `ask_stream` and `fork_conversation` one after another. All a request does
to the threads is to open a conversation and to append turns with the next index of theirs,
so a chain of ancestors stays what it was, and the turns below a cut do where the cut does
not lie beyond the end.
-/

namespace WikiMind.Qa

open WikiMind.Base WikiMind.Llm

/-- Two rows of one conversation, with the same owner and the same parent. -/
structure SameLink (c c' : Conversation) : Prop where
  id : c'.id = c.id
  userId : c'.userId = c.userId
  parent : c'.parentConversationId = c.parentConversationId
  forkedAt : c'.forkedAtTurnIndex = c.forkedAtTurnIndex

/-- The chain of ancestors ends after so many links at most. -/
inductive Rooted (db : Db) : Conversation → Nat → Prop
  | root {c : Conversation} (n : Nat)
      (h : c.parentConversationId = none ∨ c.forkedAtTurnIndex = none) : Rooted db c n
  | fork {c parent : Conversation} {id : String} {cut n : Nat}
      (hparent : c.parentConversationId = some id) (hcut : c.forkedAtTurnIndex = some cut)
      (hfound : db.conversation id = some parent) (h : Rooted db parent n) :
      Rooted db c (n + 1)

/-- Ids of conversations are unique, chains of ancestors end, and turns belong to a
conversation. -/
structure Db.Sound (db : Db) : Prop where
  nodup : (db.conversations.map (·.id)).Nodup
  rooted : ∀ c ∈ db.conversations, Rooted db c db.conversations.length
  turns : ∀ q ∈ db.queries, ∃ c ∈ db.conversations, c.id = q.conversationId

/-- No conversation has the id. -/
def Db.Fresh (db : Db) (id : String) : Prop := ∀ c ∈ db.conversations, c.id ≠ id

/-- One turn was appended to its conversation, with the next index. -/
structure Answers (db db' : Db) (q : Query) : Prop where
  queries : db'.queries = db.queries ++ [q]
  index : q.turnIndex = nextTurnIndex db q.conversationId
  found : ∃ c ∈ db.conversations, c.id = q.conversationId
  conversations : ∃ f : Conversation → Conversation,
    db'.conversations = db.conversations.map f ∧ ∀ c ∈ db.conversations, SameLink c (f c)

/-- All that requests do to the threads: open a conversation, or a fork of one that exists,
and answer in a conversation. -/
inductive Grows (db : Db) : Db → Prop
  | refl : Grows db db
  | opens {db₁ : Db} (h : Grows db db₁) {c : Conversation} (hfresh : db₁.Fresh c.id)
      (hparent : ∀ id, c.parentConversationId = some id → ∃ p ∈ db₁.conversations, p.id = id) :
      Grows db { db₁ with conversations := db₁.conversations ++ [c] }
  | answers {db₁ db' : Db} (h : Grows db db₁) {q : Query} (hq : Answers db₁ db' q) : Grows db db'

/-- The rows of two tables agree in what they say of ancestors. -/
def Extends (db db' : Db) : Prop :=
  ∀ id c, db.conversation id = some c → ∃ c', db'.conversation id = some c' ∧ SameLink c c'

section
variable {db db' db'' : Db} {c c' : Conversation} {id : String} {q : Query} {m n : Nat}

theorem SameLink.refl (c : Conversation) : SameLink c c := ⟨rfl, rfl, rfl, rfl⟩

theorem SameLink.trans {c₁ c₂ c₃ : Conversation} (h : SameLink c₁ c₂) (h' : SameLink c₂ c₃) :
    SameLink c₁ c₃ :=
  ⟨h'.id.trans h.id, h'.userId.trans h.userId, h'.parent.trans h.parent,
    h'.forkedAt.trans h.forkedAt⟩

theorem Rooted.mono (h : Rooted db c n) (hle : n ≤ m) : Rooted db c m := by
  induction h generalizing m with
  | root n h => exact .root m h
  | fork hparent hcut hfound h ih =>
    cases m with
    | zero => omega
    | succ m => exact .fork hparent hcut hfound (ih (by omega))

/-- A chain ends wherever the rows agree. -/
theorem Rooted.extends (h : Rooted db c n) (hext : Extends db db') (hlink : SameLink c c') :
    Rooted db' c' n := by
  induction h generalizing c' with
  | root n h =>
    apply Rooted.root
    rw [hlink.parent, hlink.forkedAt]
    exact h
  | fork hparent hcut hfound h ih =>
    obtain ⟨parent', hfound', hlink'⟩ := hext _ _ hfound
    exact .fork (hlink.parent.trans hparent) (hlink.forkedAt.trans hcut) hfound' (ih hlink')

/-- A chain that ends is the same wherever the rows agree, given fuel enough. -/
theorem ancestors_of_rooted (h : Rooted db c n) (hext : Extends db db') (hlink : SameLink c c')
    (hm : n ≤ m) : ancestors db' m c' = ancestors db n c := by
  induction h generalizing m c' with
  | root n hroot =>
    have hroot' : c'.parentConversationId = none ∨ c'.forkedAtTurnIndex = none := by
      rw [hlink.parent, hlink.forkedAt]
      exact hroot
    rw [ancestors_of_root m hroot', ancestors_of_root n hroot]
  | fork hparent hcut hfound h ih =>
    cases m with
    | zero => omega
    | succ m =>
      obtain ⟨parent', hfound', hlink'⟩ := hext _ _ hfound
      unfold ancestors
      rw [hlink.parent, hlink.forkedAt, hparent, hcut]
      dsimp only
      rw [hfound, hfound']
      dsimp only
      rw [ih hlink' (by omega)]

theorem Extends.refl (db : Db) : Extends db db := fun _ c h ↦ ⟨c, h, .refl c⟩

theorem Extends.trans (h : Extends db db') (h' : Extends db' db'') : Extends db db'' := by
  intro id c hc
  obtain ⟨c', hc', hlink⟩ := h id c hc
  obtain ⟨c'', hc'', hlink'⟩ := h' id c' hc'
  exact ⟨c'', hc'', hlink.trans hlink'⟩

/-- A new row hides none that is there. -/
theorem extends_append (db : Db) (c : Conversation) :
    Extends db { db with conversations := db.conversations ++ [c] } := by
  intro id found hfound
  refine ⟨found, ?_, .refl found⟩
  unfold Db.conversation at hfound ⊢
  rw [List.find?_append, hfound]
  rfl

theorem Answers.extends (h : Answers db db' q) : Extends db db' := by
  obtain ⟨f, hmap, hlink⟩ := h.conversations
  intro id found hfound
  have hmem : found ∈ db.conversations := List.mem_of_find?_eq_some hfound
  refine ⟨f found, ?_, hlink found hmem⟩
  unfold Db.conversation at hfound ⊢
  rw [hmap, List.find?_map]
  have hsame : db.conversations.find? ((fun c ↦ decide (c.id = id)) ∘ f) =
      db.conversations.find? (·.id = id) := by
    apply List.find?_congr
    intro c hc
    simp [(hlink c hc).id]
  rw [hsame, hfound]
  rfl

theorem Grows.extends (h : Grows db db') : Extends db db' := by
  induction h with
  | refl => exact .refl db
  | opens h hfresh hparent ih => exact ih.trans (extends_append _ _)
  | answers h hq ih => exact ih.trans hq.extends

theorem Grows.trans (h : Grows db db') (h' : Grows db' db'') : Grows db db'' := by
  induction h' with
  | refl => exact h
  | opens h hfresh hparent ih => exact .opens ih hfresh hparent
  | answers h hq ih => exact .answers ih hq

theorem Grows.length_le (h : Grows db db') :
    db.conversations.length ≤ db'.conversations.length := by
  induction h with
  | refl => exact Nat.le_refl _
  | opens h hfresh hparent ih =>
    rw [List.length_append]
    omega
  | answers h hq ih =>
    obtain ⟨f, hmap, -⟩ := hq.conversations
    rw [hmap, List.length_map]
    exact ih

/-- A row is found under its id. -/
theorem Db.Sound.conversation_eq (h : db.Sound) (hc : c ∈ db.conversations) :
    db.conversation c.id = some c :=
  Rows.find?_of_nodup h.nodup hc

theorem Db.Sound.append (h : db.Sound) (hfresh : db.Fresh c.id)
    (hparent : ∀ id, c.parentConversationId = some id → ∃ p ∈ db.conversations, p.id = id) :
    Db.Sound { db with conversations := db.conversations ++ [c] } := by
  have hext := extends_append db c
  constructor
  · rw [Rows.nodup_map_concat]
    exact ⟨h.nodup, hfresh⟩
  · intro x hx
    show Rooted _ x (db.conversations ++ [c]).length
    rw [List.length_append]
    rcases List.mem_append.mp hx with hx | hx
    · exact ((h.rooted x hx).extends hext (.refl x)).mono (Nat.le_succ _)
    · rw [List.mem_singleton.mp hx]
      cases hid : c.parentConversationId with
      | none => exact .root _ (.inl hid)
      | some id =>
        cases hcut : c.forkedAtTurnIndex with
        | none => exact .root _ (.inr hcut)
        | some cut =>
          obtain ⟨p, hp, rfl⟩ := hparent id hid
          obtain ⟨p', hp', hlink⟩ := hext p.id p (h.conversation_eq hp)
          exact .fork hid hcut hp' ((h.rooted p hp).extends hext hlink)
  · intro q hq
    obtain ⟨x, hx, hid⟩ := h.turns q hq
    exact ⟨x, List.mem_append_left _ hx, hid⟩

theorem Db.Sound.answers (h : db.Sound) (hq : Answers db db' q) : db'.Sound := by
  have hext := hq.extends
  obtain ⟨f, hmap, hlink⟩ := hq.conversations
  have hkept : ∀ id, (∃ x ∈ db.conversations, x.id = id) → ∃ x ∈ db'.conversations, x.id = id := by
    rintro _ ⟨x, hx, rfl⟩
    rw [hmap]
    exact ⟨f x, List.mem_map_of_mem hx, (hlink x hx).id⟩
  constructor
  · have hids : db'.conversations.map (·.id) = db.conversations.map (·.id) := by
      rw [hmap, List.map_map]
      exact List.map_congr_left fun x hx ↦ (hlink x hx).id
    rw [hids]
    exact h.nodup
  · rw [hmap, List.length_map]
    intro x hx
    obtain ⟨y, hy, rfl⟩ := List.mem_map.mp hx
    exact (h.rooted y hy).extends hext (hlink y hy)
  · rw [hq.queries]
    intro p hp
    rcases List.mem_append.mp hp with hp | hp
    · exact hkept _ (h.turns p hp)
    · rw [List.mem_singleton.mp hp]
      exact hkept _ hq.found

theorem Db.Sound.grows (h : db.Sound) (hgrows : Grows db db') : db'.Sound := by
  induction hgrows with
  | refl => exact h
  | opens hg hfresh hparent ih => exact ih.append hfresh hparent
  | answers hg hq ih => exact ih.answers hq

/-- The ancestors of a conversation stay what they are. -/
theorem chain_of_grows (h : db.Sound) (hgrows : Grows db db') (hc : c ∈ db.conversations)
    (hlink : SameLink c c') : chain db' c' = chain db c :=
  ancestors_of_rooted (h.rooted c hc) hgrows.extends hlink hgrows.length_le

private theorem foldl_max_le (l : List Nat) (init : Nat) :
    l.foldl max init ≤ n ↔ init ≤ n ∧ ∀ x ∈ l, x ≤ n := by
  induction l generalizing init with
  | nil => simp
  | cons x l ih =>
    rw [List.foldl_cons, ih, Nat.max_le]
    simp only [List.mem_cons, forall_eq_or_imp, and_assoc]

/-- The next index is the least that lies beyond all turns. -/
theorem nextTurnIndex_le :
    nextTurnIndex db id ≤ n ↔ ∀ q ∈ db.queries, q.conversationId = id → q.turnIndex < n := by
  unfold nextTurnIndex
  rw [foldl_max_le]
  simp only [Nat.zero_le, true_and, List.forall_mem_map, List.mem_filter, decide_eq_true_eq,
    and_imp, Nat.succ_le_iff]

/-- A turn lies below the next index. -/
theorem lt_nextTurnIndex (hq : q ∈ db.queries) : q.turnIndex < nextTurnIndex db q.conversationId :=
  nextTurnIndex_le.mp (Nat.le_refl _) q hq rfl

/-- Answers only raise the next index. -/
theorem Grows.nextTurnIndex_le (h : Grows db db') (id : String) :
    nextTurnIndex db id ≤ nextTurnIndex db' id := by
  induction h with
  | refl => exact Nat.le_refl _
  | opens h hfresh hparent ih => exact ih
  | answers h hq ih =>
    apply Nat.le_trans ih
    rw [WikiMind.Qa.nextTurnIndex_le]
    intro p hp hid
    rw [← hid]
    apply lt_nextTurnIndex
    rw [hq.queries]
    exact List.mem_append_left _ hp

/-- The turns below a cut stay what they are, if the cut does not lie beyond the end. -/
theorem turnsBefore_of_grows (h : Grows db db') {cut : Nat} (hcut : cut ≤ nextTurnIndex db id) :
    turnsBefore db' id cut = turnsBefore db id cut := by
  induction h with
  | refl => rfl
  | opens h hfresh hparent ih => exact ih
  | @answers db₁ db' h q hq ih =>
    rw [← ih]
    unfold turnsBefore
    rw [hq.queries, List.filter_append]
    have hnew : [q].filter (fun q ↦ q.conversationId = id ∧ q.turnIndex < cut) = [] := by
      rw [List.filter_eq_nil_iff]
      rintro p hp
      rw [List.mem_singleton.mp hp, decide_eq_true_eq]
      rintro ⟨rfl, hlt⟩
      have := h.nextTurnIndex_le q.conversationId
      have := hq.index
      omega
    rw [hnew, List.append_nil]

/-! ### What a request does -/

variable {env : QaEnv} {userId : String} {request : QueryRequest} {run : Surroundings}
  {result : QueryResult} {ctx : PreparedContext} {p p' : Pending}

/-- A file-back changes neither whose turn it is nor what the conversation inherits. -/
structure Kept (p p' : Pending) : Prop where
  link : SameLink p.conversation p'.conversation
  conversationId : p'.query.conversationId = p.query.conversationId
  turnIndex : p'.query.turnIndex = p.query.turnIndex

theorem Kept.refl (p : Pending) : Kept p p := ⟨.refl _, rfl, rfl⟩

theorem Kept.trans {p'' : Pending} (h : Kept p p') (h' : Kept p' p'') : Kept p p'' :=
  ⟨h.link.trans h'.link, h'.conversationId.trans h.conversationId,
    h'.turnIndex.trans h.turnIndex⟩

private theorem kept_fileBackThread (h : fileBackThread p userId run = .ok p') : Kept p p' := by
  unfold fileBackThread at h
  split at h
  · cases h
  · split at h
    · cases h
      exact ⟨⟨rfl, rfl, rfl, rfl⟩, rfl, rfl⟩
    · cases h
      exact ⟨⟨rfl, rfl, rfl, rfl⟩, rfl, rfl⟩

private theorem kept_autoFileBack (env : QaEnv) (p : Pending) (userId : String)
    (result : QueryResult)
    (manual : Bool) (run : Surroundings) :
    Kept p (autoFileBack env p userId result manual run) := by
  unfold autoFileBack
  split
  · have hrenamed : Kept p { p with conversation := { p.conversation with
        title := deriveAutoFileBackTitle env result } } := ⟨⟨rfl, rfl, rfl, rfl⟩, rfl, rfl⟩
    dsimp only
    split
    next filed hfiled => exact hrenamed.trans (kept_fileBackThread hfiled)
    next => exact hrenamed
  · exact .refl p

/-- Persisting an answer appends the turn of its context and updates the conversation. -/
theorem persistQuery_eq_ok {conv : Conversation}
    (h : persistQuery env db userId request result ctx run = .ok (q, conv, db')) :
    SameLink ctx.conversation conv ∧ q.conversationId = ctx.conversation.id ∧
      q.turnIndex = ctx.nextTurnIndex ∧ db'.queries = db.queries ++ [q] ∧
      db'.conversations =
        Rows.modify (·.id = ctx.conversation.id) (fun _ ↦ conv) db.conversations := by
  unfold persistQuery at h
  obtain ⟨filed, hfiled, h⟩ := bind_eq_ok.mp h
  obtain ⟨-, -, h⟩ := bind_eq_ok.mp h
  cases h
  have hmanual : Kept (pendingAnswer db userId request result ctx run) filed := by
    unfold manualFileBack at hfiled
    split at hfiled
    · exact kept_fileBackThread hfiled
    · cases hfiled
      exact .refl _
  have hkept := hmanual.trans
    (kept_autoFileBack env filed userId result (filesBack request result) run)
  refine ⟨?_, hkept.conversationId, hkept.turnIndex, rfl, rfl⟩
  exact ⟨hkept.link.id, hkept.link.userId, hkept.link.parent, hkept.link.forkedAt⟩

/-- A persisted answer is the next turn of its conversation, if its context is up to date. -/
theorem answers_persistQuery {conv : Conversation} (hsound : db.Sound)
    (hmem : ctx.conversation ∈ db.conversations)
    (hindex : ctx.nextTurnIndex = nextTurnIndex db ctx.conversation.id)
    (h : persistQuery env db userId request result ctx run = .ok (q, conv, db')) :
    Answers db db' q := by
  obtain ⟨hlink, hid, hturn, hqueries, hconversations⟩ := persistQuery_eq_ok h
  refine ⟨hqueries, ?_, ⟨ctx.conversation, hmem, hid.symm⟩,
    fun c ↦ if c.id = ctx.conversation.id then conv else c, ?_, ?_⟩
  · rw [hturn, hindex, hid]
  · rw [hconversations]
    unfold Rows.modify
    simp
  · intro c hc
    dsimp only
    split
    next hsame =>
      rw [Rows.eq_of_nodup hsound.nodup hmem hc hsame]
      exact hlink
    next => exact .refl c

/-- What a request on a conversation prepares: the tables, with the conversation if it is
new, and a context that is up to date. -/
theorem prepareContext_eq_ok (hsound : db.Sound)
    (hfresh : request.conversationId = none → db.Fresh run.conversationId)
    (h : prepareContext env db userId request run = .ok (ctx, db')) :
    Grows db db' ∧ ctx.conversation ∈ db'.conversations ∧
      ctx.nextTurnIndex = nextTurnIndex db' ctx.conversation.id := by
  unfold prepareContext getOrCreateConversation at h
  cases hrequest : request.conversationId with
  | some id =>
    rw [hrequest] at h
    dsimp only at h
    cases hfound : db.conversation id with
    | none =>
      rw [hfound] at h
      cases h
    | some found =>
      rw [hfound] at h
      cases h
      exact ⟨.refl, List.mem_of_find?_eq_some hfound, rfl⟩
  | none =>
    rw [hrequest] at h
    cases h
    refine ⟨.opens .refl (hfresh hrequest) (by simp),
      List.mem_append_right _ (List.mem_singleton_self _), ?_⟩
    show 0 = _
    symm
    apply Nat.le_zero.mp
    rw [nextTurnIndex_le]
    intro q hq hid
    obtain ⟨c, hc, hcid⟩ := hsound.turns q hq
    exact absurd (hcid.trans hid) (hfresh hrequest c hc)

private theorem grows_respond {before : Db} {promptTurns : List Query} (hbefore : Grows db before)
    (hprepared : Grows db db') (hsound : db'.Sound)
    (hmem : ctx.conversation ∈ db'.conversations)
    (hindex : ctx.nextTurnIndex = nextTurnIndex db' ctx.conversation.id) :
    Grows db (respond env before db' userId request result ctx promptTurns run).db := by
  unfold respond
  split
  next => exact hbefore
  next hpersist => exact .answers hprepared (answers_persistQuery hsound hmem hindex hpersist)

private theorem grows_ask (hsound : db.Sound)
    (hfresh : request.conversationId = none → db.Fresh run.conversationId) :
    Grows db (ask env db userId request run).db := by
  unfold ask
  split
  next => exact .refl
  next ctx prepared hprepare =>
    obtain ⟨hgrows, hmem, hindex⟩ := prepareContext_eq_ok hsound hfresh hprepare
    have hsound' := hsound.grows hgrows
    split
    · exact grows_respond .refl hgrows hsound' hmem hindex
    · dsimp only
      split
      next => exact .refl
      next => exact grows_respond .refl hgrows hsound' hmem hindex

private theorem grows_askStream (hsound : db.Sound)
    (hfresh : request.conversationId = none → db.Fresh run.conversationId) :
    Grows db (askStream env db userId request run).db := by
  unfold askStream
  split
  next => exact .refl
  next ctx prepared hprepare =>
    obtain ⟨hgrows, hmem, hindex⟩ := prepareContext_eq_ok hsound hfresh hprepare
    have hsound' := hsound.grows hgrows
    split
    · exact grows_respond .refl hgrows hsound' hmem hindex
    · split
      next => exact .refl
      next => exact .refl
      next => exact grows_respond hgrows hgrows hsound' hmem hindex

/-- What an answered request persisted, and on which context. -/
theorem ask_eq_ok {conv : Conversation}
    (h : (ask env db userId request run).response = .ok (q, conv)) :
    ∃ ctx prepared result, prepareContext env db userId request run = .ok (ctx, prepared) ∧
      persistQuery env prepared userId request result ctx run =
        .ok (q, conv, (ask env db userId request run).db) := by
  have hrespond : ∀ {before prepared : Db} {result : QueryResult} {ctx : PreparedContext}
      {promptTurns : List Query},
      (respond env before prepared userId request result ctx promptTurns run).response =
        .ok (q, conv) →
      persistQuery env prepared userId request result ctx run = .ok (q, conv,
        (respond env before prepared userId request result ctx promptTurns run).db) := by
    intro before prepared result ctx promptTurns hok
    unfold respond at hok ⊢
    split at hok
    · cases hok
    next hpersist =>
      cases hok
      rw [hpersist]
  unfold ask at h ⊢
  cases hprepare : prepareContext env db userId request run with
  | error e =>
    rw [hprepare] at h
    cases h
  | ok pair =>
    obtain ⟨ctx, prepared⟩ := pair
    rw [hprepare] at h
    dsimp only at h ⊢
    by_cases hcontext : ctx.wikiContext = []
    · rw [if_pos hcontext] at h ⊢
      exact ⟨ctx, prepared, noContextResult, rfl, hrespond h⟩
    · rw [if_neg hcontext] at h ⊢
      split at h
      · cases h
      next result _ =>
        exact ⟨ctx, prepared, result, rfl, hrespond h⟩

/-- What an answer on a conversation that exists leaves. -/
theorem ask_found_eq_ok {conv : Conversation} (hsound : db.Sound)
    (hid : request.conversationId = some c.id) (hc : c ∈ db.conversations)
    (h : (ask env db userId request run).response = .ok (q, conv)) :
    SameLink c conv ∧ q.conversationId = c.id ∧ q.turnIndex = nextTurnIndex db c.id ∧
      (ask env db userId request run).db.queries = db.queries ++ [q] ∧
      conv ∈ (ask env db userId request run).db.conversations := by
  obtain ⟨ctx, prepared, result, hprepare, hpersist⟩ := ask_eq_ok h
  rw [prepareContext_of_found env userId run hid (hsound.conversation_eq hc)] at hprepare
  cases hprepare
  obtain ⟨hlink, hqid, hturn, hqueries, hconversations⟩ := persistQuery_eq_ok hpersist
  refine ⟨hlink, hqid, hturn, hqueries, ?_⟩
  rw [hconversations]
  exact Rows.mem_modify.mpr (.inl ⟨c, hc, by simp, rfl⟩)

/-- A run whose model does not answer, which becomes an answer of its own. -/
def quietRun (id : String) : Surroundings :=
  { conversationId := id, articleId := id, now := 0, complete := fun _ ↦ .missing
    stream := fun _ ↦ .refused "", fileBackFails := false, commitFails := false }

/-- A question on a conversation that exists can be answered. -/
theorem ask_quietRun (env : QaEnv) (userId question id : String) (hsound : db.Sound)
    (hc : c ∈ db.conversations) :
    ∃ q conv, (ask env db userId ⟨question, false, some c.id⟩ (quietRun id)).response =
      .ok (q, conv) := by
  have hanswered : ∀ {before prepared : Db} {result : QueryResult} {ctx : PreparedContext}
      {promptTurns : List Query}, ∃ q conv, (respond env before prepared userId
        ⟨question, false, some c.id⟩ result ctx promptTurns (quietRun id)).response =
          .ok (q, conv) := by
    intro before prepared result ctx promptTurns
    rcases respond_cases env before prepared userId ⟨question, false, some c.id⟩ result ctx
      promptTurns (quietRun id) with ⟨hfails, -⟩ | ⟨-, q, conv, db', heq, -⟩
    · simp [PersistFails, filesBack, quietRun] at hfails
    · exact ⟨q, conv, by rw [heq]⟩
  unfold ask
  rw [prepareContext_of_found env userId (quietRun id) rfl (hsound.conversation_eq hc)]
  dsimp only
  split
  · exact hanswered
  · exact hanswered

/-- The tables with a new fork. -/
def Db.withFork (db : Db) (fork : Conversation) : Db :=
  { db with conversations := db.conversations ++ [fork] }

variable {forkRequest : ForkRequest} {parent : Conversation}

private theorem own_of_conversation {parentId : String}
    (h : ownConversation db userId parentId = .ok parent) :
    parent ∈ db.conversations ∧ parent.id = parentId := by
  obtain ⟨hfound, hid⟩ := conversation_of_own h
  exact ⟨List.mem_of_find?_eq_some hfound, hid⟩

private theorem sound_withFork (env : QaEnv) (forkRequest : ForkRequest) {parentId : String}
    (hsound : db.Sound)
    (hfresh : db.Fresh run.conversationId)
    (hown : ownConversation db userId parentId = .ok parent) :
    (db.withFork (forkRow env userId parentId forkRequest run)).Sound := by
  apply hsound.append hfresh
  intro id hid
  cases hid
  obtain ⟨hparent, hparentId⟩ := own_of_conversation hown
  exact ⟨parent, hparent, hparentId⟩

private theorem grows_forkConversation {parentId : String} (hsound : db.Sound)
    (hfresh : db.Fresh run.conversationId) :
    Grows db (forkConversation env db userId parentId forkRequest run).db := by
  unfold forkConversation
  split
  next => exact .refl
  next parent hown =>
    split
    · exact .refl
    · dsimp only
      split
      next =>
        have hopened : Grows db (db.withFork (forkRow env userId parentId forkRequest run)) := by
          apply Grows.opens .refl hfresh
          intro id hid
          cases hid
          obtain ⟨hparent, hparentId⟩ := own_of_conversation hown
          exact ⟨parent, hparent, hparentId⟩
        exact hopened.trans (grows_ask (sound_withFork env forkRequest hsound hfresh hown)
          (by simp))
      next => exact .refl

/-- What an accepted fork leaves: its row, whose parent is the forked conversation, and the
first turn of its own. -/
theorem forkConversation_eq_ok {parentId : String} {conv : Conversation} (hsound : db.Sound)
    (hfresh : db.Fresh run.conversationId)
    (h : (forkConversation env db userId parentId forkRequest run).response = .ok (q, conv)) :
    ∃ parent, ownConversation db userId parentId = .ok parent ∧ 0 ≤ forkRequest.turnIndex ∧
      SameLink (forkRow env userId parentId forkRequest run) conv ∧
      q.conversationId = run.conversationId ∧
      (forkConversation env db userId parentId forkRequest run).db.queries = db.queries ++ [q] ∧
      conv ∈ (forkConversation env db userId parentId forkRequest run).db.conversations ∧
      Grows (db.withFork (forkRow env userId parentId forkRequest run))
        (forkConversation env db userId parentId forkRequest run).db := by
  unfold forkConversation at h ⊢
  split at h
  · cases h
  next parent hown =>
    rw [hown]
    dsimp only at h ⊢
    by_cases hneg : forkRequest.turnIndex < 0
    · rw [if_pos hneg] at h
      cases h
    · rw [if_neg hneg] at h ⊢
      have hsound' : (db.withFork (forkRow env userId parentId forkRequest run)).Sound :=
        sound_withFork env forkRequest hsound hfresh hown
      split at h
      next =>
        obtain ⟨hlink, hqid, -, hqueries, hmem⟩ := ask_found_eq_ok hsound' rfl
          (List.mem_append_right _ (List.mem_singleton_self _)) h
        exact ⟨parent, rfl, by omega, hlink, hqid, hqueries, hmem,
          grows_ask hsound' (by simp)⟩
      next e herror => exact absurd (h.symm.trans herror) (by simp)

/-! ### What a fork inherits -/

private theorem mem_ancestors_of_rooted (h : Rooted db c n) {a : String × Nat}
    (ha : a ∈ ancestors db n c) : ∃ y ∈ db.conversations, y.id = a.1 := by
  induction h with
  | root n hroot =>
    rw [ancestors_of_root n hroot] at ha
    cases ha
  | fork hparent hcut hfound h ih =>
    unfold ancestors at ha
    rw [hparent, hcut] at ha
    dsimp only at ha
    rw [hfound] at ha
    rcases List.mem_cons.mp ha with rfl | ha
    · have hid := List.find?_some hfound
      exact ⟨_, List.mem_of_find?_eq_some hfound, by simpa using hid⟩
    · exact ih ha

/-- The ancestors of a conversation exist. -/
theorem mem_chain (hsound : db.Sound) (hc : c ∈ db.conversations) {a : String × Nat}
    (ha : a ∈ chain db c) : ∃ y ∈ db.conversations, y.id = a.1 :=
  mem_ancestors_of_rooted (hsound.rooted c hc) ha

/-- The ancestors of a fork: the conversation it was forked from and its ancestors. -/
theorem chain_fork {fork : Conversation} {cut : Nat} (hsound : db.Sound)
    (hparent : parent ∈ db.conversations) (hid : fork.parentConversationId = some parent.id)
    (hcut : fork.forkedAtTurnIndex = some cut) (hsound' : (db.withFork fork).Sound)
    (hgrows : Grows (db.withFork fork) db') (hlink : SameLink fork c) :
    chain db' c = (parent.id, cut) :: chain db parent := by
  have hext : Extends db (db.withFork fork) := extends_append db fork
  have hfork : fork ∈ (db.withFork fork).conversations :=
    List.mem_append_right _ (List.mem_singleton_self _)
  obtain ⟨parent', hfound, hlink'⟩ := hext _ _ (hsound.conversation_eq hparent)
  rw [chain_of_grows hsound' hgrows hfork hlink]
  unfold chain
  have hlength : (db.withFork fork).conversations.length = db.conversations.length + 1 := by
    simp [Db.withFork]
  rw [hlength, ancestors, hid, hcut]
  dsimp only
  rw [hfound]
  dsimp only
  rw [ancestors_of_rooted (hsound.rooted parent hparent) hext hlink' (Nat.le_refl _)]

/-- The turns of other conversations below a cut are the same after an answer. -/
theorem turnsBefore_of_append {cut : Nat} (hqueries : db'.queries = db.queries ++ [q])
    (hother : q.conversationId ≠ id) : turnsBefore db' id cut = turnsBefore db id cut := by
  unfold turnsBefore
  rw [hqueries, List.filter_append]
  simp [hother]

/-- An accepted fork inherits what the forked conversation does, and the turns of it below
the cut. -/
theorem ancestorTurns_fork {parentId : String} {conv : Conversation} (hsound : db.Sound)
    (hfresh : db.Fresh run.conversationId)
    (hown : ownConversation db userId parentId = .ok parent)
    (h : (forkConversation env db userId parentId forkRequest run).response = .ok (q, conv)) :
    ancestorTurns (forkConversation env db userId parentId forkRequest run).db conv =
      ancestorTurns db parent ++ turnsBefore db parent.id forkRequest.turnIndex.toNat := by
  obtain ⟨parent', hown', -, hlink, hqid, hqueries, -, hgrows⟩ :=
    forkConversation_eq_ok hsound hfresh h
  rw [hown] at hown'
  cases hown'
  obtain ⟨hparent, hid⟩ := own_of_conversation hown
  have hchain := chain_fork hsound hparent (by rw [hid]; rfl) rfl
    (sound_withFork env forkRequest hsound hfresh hown) hgrows hlink
  have hsame : ∀ a ∈ (parent.id, forkRequest.turnIndex.toNat) :: chain db parent,
      turnsBefore (forkConversation env db userId parentId forkRequest run).db a.1 a.2 =
        turnsBefore db a.1 a.2 := by
    intro a ha
    apply turnsBefore_of_append hqueries
    rw [hqid]
    rcases List.mem_cons.mp ha with rfl | ha
    · exact (hfresh parent hparent).symm
    · obtain ⟨y, hy, hyid⟩ := mem_chain hsound hparent ha
      rw [← hyid]
      exact (hfresh y hy).symm
  unfold ancestorTurns
  rw [hchain, List.reverse_cons, List.flatMap_append]
  have hold := fun a ha ↦ hsame a (List.mem_cons_of_mem _ (List.mem_reverse.mp ha))
  rw [List.flatMap_congr hold]
  simp [hsame _ (List.mem_cons_self ..)]

private theorem filter_orderedInsert {α : Type} {r : α → α → Prop} [DecidableRel r] [IsTrans α r]
    (keep : α → Bool) (a : α) {l : List α} (hl : l.Pairwise r) :
    (l.orderedInsert r a).filter keep =
      if keep a then (l.filter keep).orderedInsert r a else l.filter keep := by
  induction l with
  | nil => cases h : keep a <;> simp [h]
  | cons b l ih =>
    obtain ⟨hb, hl⟩ := List.pairwise_cons.mp hl
    by_cases hab : r a b
    · rw [List.orderedInsert_cons, if_pos hab, List.filter_cons]
      cases ha : keep a with
      | false => simp
      | true =>
        have hfirst : ∀ x ∈ (b :: l).filter keep, r a x := by
          intro x hx
          rcases List.mem_cons.mp (List.mem_of_mem_filter hx) with rfl | hx
          · exact hab
          · exact IsTrans.trans a b x hab (hb x hx)
        simp only [if_true]
        cases hrest : (b :: l).filter keep with
        | nil => rfl
        | cons x rest =>
          rw [List.orderedInsert_cons, if_pos]
          apply hfirst
          rw [hrest]
          exact List.mem_cons_self ..
    · rw [List.orderedInsert_cons, if_neg hab, List.filter_cons, ih hl, List.filter_cons]
      cases ha : keep a <;> cases hkeep : keep b <;> simp [hab]

/-- Sorting is stable under a selection. -/
theorem filter_insertionSort {α : Type} {r : α → α → Prop} [DecidableRel r] [Std.Total r]
    [IsTrans α r] (keep : α → Bool) (l : List α) :
    (l.insertionSort r).filter keep = (l.filter keep).insertionSort r := by
  induction l with
  | nil => rfl
  | cons a l ih =>
    rw [List.insertionSort_cons, filter_orderedInsert keep a (List.pairwise_insertionSort r l), ih,
      List.filter_cons]
    split <;> rfl

/-- The turns below a cut are selected from all. -/
theorem turnsBefore_eq_filter {cut : Nat} :
    turnsBefore db id cut = (ownTurns db id).filter (·.turnIndex < cut) := by
  unfold turnsBefore ownTurns
  rw [filter_insertionSort, List.filter_filter]
  congr 1
  apply List.filter_congr
  intro q _
  rw [Bool.and_comm]
  simp

/-- In a conversation with indices apart, the turns below the index of a turn are those
before it. -/
theorem turnsBefore_of_pairwise {pre post : List Query}
    (h : (ownTurns db id).Pairwise (·.turnIndex < ·.turnIndex))
    (hsplit : ownTurns db id = pre ++ q :: post) : turnsBefore db id q.turnIndex = pre := by
  rw [turnsBefore_eq_filter, hsplit, List.filter_append]
  rw [hsplit, List.pairwise_append] at h
  obtain ⟨-, hpost, hpre⟩ := h
  have hall : pre.filter (·.turnIndex < q.turnIndex) = pre := by
    rw [List.filter_eq_self]
    intro p hp
    simpa using hpre p hp q (List.mem_cons_self ..)
  have hnone : (q :: post).filter (·.turnIndex < q.turnIndex) = [] := by
    rw [List.filter_eq_nil_iff]
    intro p hp
    rcases List.mem_cons.mp hp with rfl | hp
    · simp
    · have := List.rel_of_pairwise_cons hpost hp
      simp only [decide_eq_true_eq]
      omega
  rw [hall, hnone, List.append_nil]

/-- The turns of a conversation have different indices. -/
def DistinctIndices (db : Db) (conversationId : String) : Prop :=
  ((db.queries.filter (·.conversationId = conversationId)).map (·.turnIndex)).Nodup

/-- The own turns are listed with increasing indices exactly when these are different. -/
theorem ownTurns_pairwise_iff :
    (ownTurns db id).Pairwise (·.turnIndex < ·.turnIndex) ↔ DistinctIndices db id := by
  have hsorted : (ownTurns db id).Pairwise fun p q ↦ p.turnIndex ≤ q.turnIndex :=
    List.pairwise_insertionSort _ _
  have hperm : ((ownTurns db id).map (·.turnIndex)).Perm
      ((db.queries.filter (·.conversationId = id)).map (·.turnIndex)) :=
    (List.perm_insertionSort _ _).map _
  unfold DistinctIndices
  rw [← hperm.nodup_iff, List.Nodup, List.pairwise_map]
  constructor
  · exact fun h ↦ h.imp Nat.ne_of_lt
  · exact fun h ↦ (hsorted.and h).imp fun ⟨hle, hne⟩ ↦ Nat.lt_of_le_of_ne hle hne

end

/-- A fork at the index of a shown turn inherits what is shown before that turn. -/
def ForksAsShown (env : QaEnv) (db : Db) (conversation : Conversation) : Prop :=
  ∀ pre turn post, shownTurns db conversation = pre ++ turn :: post →
    ∀ userId question run q fork, db.Fresh run.conversationId →
      (forkConversation env db userId conversation.id ⟨turn.turnIndex, question⟩ run).response =
        .ok (q, fork) →
      ancestorTurns
        (forkConversation env db userId conversation.id ⟨turn.turnIndex, question⟩ run).db fork =
          pre

section
variable {env : QaEnv} {db db' : Db} {userId : String} {conversation : Conversation}

/-- There is always a new id. -/
theorem exists_fresh (db : Db) : ∃ id, db.Fresh id := by
  -- longer than every id there is
  let n := (db.conversations.map (·.id.toList.length)).foldl max 0
  refine ⟨String.ofList (List.replicate (n + 1) 'a'), fun c hc hsame ↦ ?_⟩
  have hle := ((foldl_max_le (db.conversations.map (·.id.toList.length)) 0).mp
    (Nat.le_refl n)).2 _ (List.mem_map_of_mem hc)
  have hlength : c.id.toList.length = n + 1 := by
    rw [hsame]
    simp
  omega

/-- A user without name owns every conversation that exists. -/
theorem ownConversation_anonymous (hsound : db.Sound) (hc : conversation ∈ db.conversations) :
    ownConversation db "" conversation.id = .ok conversation := by
  unfold ownConversation
  rw [hsound.conversation_eq hc]
  simp

/-- Every index can be forked at. -/
theorem exists_fork (env : QaEnv) (hsound : db.Sound) (hc : conversation ∈ db.conversations)
    (cut : Nat) :
    ∃ run q fork, db.Fresh run.conversationId ∧
      (forkConversation env db "" conversation.id ⟨cut, ""⟩ run).response = .ok (q, fork) := by
  obtain ⟨id, hfresh⟩ := exists_fresh db
  have hown := ownConversation_anonymous hsound hc
  have hfresh' : db.Fresh (quietRun id).conversationId := hfresh
  have hnot : ¬ ((cut : Int) < 0) := by omega
  obtain ⟨q, fork, hanswer⟩ := ask_quietRun env "" "" id
    (sound_withFork env ⟨cut, ""⟩ hsound hfresh' hown)
    (List.mem_append_right _ (List.mem_singleton_self _))
  refine ⟨quietRun id, q, fork, hfresh, ?_⟩
  unfold forkConversation
  rw [hown]
  dsimp only
  rw [if_neg hnot]
  split
  next => exact hanswer
  next e herror => exact absurd (herror.symm.trans hanswer) (by simp)

/-- A conversation whose indices are apart and that inherits nothing is forked as shown. -/
theorem forksAsShown_of_inheritsNothing (hsound : db.Sound)
    (hc : conversation ∈ db.conversations) (hnothing : InheritsNothing db conversation)
    (hdistinct : DistinctIndices db conversation.id) : ForksAsShown env db conversation := by
  intro pre turn post hsplit userId question run q fork hfresh haccepted
  obtain ⟨parent, hown, -⟩ := forkConversation_eq_ok hsound hfresh haccepted
  have hparent : parent = conversation := by
    have hfound := (conversation_of_own hown).1
    rw [hsound.conversation_eq hc] at hfound
    exact (Option.some.inj hfound).symm
  subst hparent
  rw [ancestorTurns_fork hsound hfresh hown haccepted, ancestorTurns_eq_nil.mpr hnothing,
    List.nil_append]
  rw [shownTurns_eq_ownTurns_iff.mpr hnothing] at hsplit
  exact turnsBefore_of_pairwise (ownTurns_pairwise_iff.mpr hdistinct) hsplit

/-- A conversation that is forked as shown inherits nothing: a fork at its first turn would
inherit all that it does. -/
theorem inheritsNothing_of_forksAsShown (hsound : db.Sound)
    (hc : conversation ∈ db.conversations) (h : ForksAsShown env db conversation) :
    InheritsNothing db conversation := by
  rw [← ancestorTurns_eq_nil]
  cases hinherited : ancestorTurns db conversation with
  | nil => rfl
  | cons turn rest =>
    have hsplit :
        shownTurns db conversation = [] ++ turn :: (rest ++ ownTurns db conversation.id) := by
      rw [shownTurns_eq, hinherited]
      rfl
    obtain ⟨run, q, fork, hfresh, haccepted⟩ := exists_fork env hsound hc turn.turnIndex
    have hnil := h _ _ _ hsplit "" "" run q fork hfresh haccepted
    rw [ancestorTurns_fork hsound hfresh (ownConversation_anonymous hsound hc) haccepted,
      hinherited] at hnil
    cases hnil

end

/-- Forks inherit what is shown before the turn they are made at, and indices in the shown
thread increase, exactly where the conversation inherits nothing and numbers its own turns
apart. -/
theorem forks_as_shown_iff (env : QaEnv) (db : Db) (conversation : Conversation)
    (hsound : db.Sound) (hc : conversation ∈ db.conversations) :
    (ForksAsShown env db conversation ∧
        (shownTurns db conversation).Pairwise (·.turnIndex < ·.turnIndex)) ↔
      InheritsNothing db conversation ∧ DistinctIndices db conversation.id := by
  constructor
  · rintro ⟨hforks, hincreasing⟩
    have hnothing := inheritsNothing_of_forksAsShown hsound hc hforks
    rw [shownTurns_eq_ownTurns_iff.mpr hnothing, ownTurns_pairwise_iff] at hincreasing
    exact ⟨hnothing, hincreasing⟩
  · rintro ⟨hnothing, hdistinct⟩
    refine ⟨forksAsShown_of_inheritsNothing hsound hc hnothing hdistinct, ?_⟩
    rw [shownTurns_eq_ownTurns_iff.mpr hnothing, ownTurns_pairwise_iff]
    exact hdistinct

private theorem sound_forkedDb : forkedDb.Sound := by
  constructor
  · decide
  · intro c hc
    have hroot : Rooted forkedDb ⟨"p", "u", "Plans", 0, none, none, none⟩ 1 := .root 1 (.inl rfl)
    rcases List.mem_cons.mp hc with rfl | hc
    · exact hroot.mono (by decide)
    · rw [List.mem_singleton.mp hc]
      exact .fork rfl rfl rfl hroot
  · decide

/-- The conversation that was not forked from another. -/
theorem forks_as_shown_root :
    let root : Conversation := ⟨"p", "u", "Plans", 0, none, none, none⟩
    ForksAsShown sampleEnv forkedDb root ∧
      (shownTurns forkedDb root).Pairwise (·.turnIndex < ·.turnIndex) :=
  (forks_as_shown_iff sampleEnv forkedDb _ sound_forkedDb (by decide)).mpr
    ⟨by unfold InheritsNothing; decide, by unfold DistinctIndices; decide⟩

/-- The fork shows two turns with the index `0`, and a fork at the first of them inherits it. -/
theorem forks_not_as_shown :
    let fork : Conversation := ⟨"f", "u", "Costs", 0, none, some "p", some 1⟩
    ¬ ForksAsShown sampleEnv forkedDb fork ∧
      ¬ (shownTurns forkedDb fork).Pairwise (·.turnIndex < ·.turnIndex) := by
  refine ⟨fun h ↦ ?_, by decide⟩
  have hnothing := inheritsNothing_of_forksAsShown sound_forkedDb (by decide) h
  revert hnothing
  unfold InheritsNothing
  decide

/-- A request to the service, with what it takes from outside. -/
inductive Request where
  | ask (userId : String) (request : QueryRequest) (run : Surroundings)
  | askStream (userId : String) (request : QueryRequest) (run : Surroundings)
  | fork (userId conversationId : String) (request : ForkRequest) (run : Surroundings)

/-- The id a request would give to a new conversation. -/
def Request.newId : Request → String
  | .ask _ _ run | .askStream _ _ run | .fork _ _ _ run => run.conversationId

/-- The tables after a request. -/
def perform (env : QaEnv) (db : Db) : Request → Db
  | .ask userId request run => (ask env db userId request run).db
  | .askStream userId request run => (askStream env db userId request run).db
  | .fork userId conversationId request run =>
    (forkConversation env db userId conversationId request run).db

/-- Requests one after another. New ids are new. -/
def requests (env : QaEnv) : Machine Db Request where
  step db r :=
    if db.conversations.any (·.id = r.newId) then none else some (perform env db r)

/-- What a conversation inherits is the same after all later requests. -/
def Immutable (env : QaEnv) (db : Db) (conversation : Conversation) : Prop :=
  ∀ later db', (requests env).run db later = some db' →
    ∀ row, db'.conversation conversation.id = some row →
      ancestorTurns db' row = ancestorTurns db conversation

section
variable {env : QaEnv} {db db' : Db} {conversation : Conversation}

private theorem grows_perform {r : Request} (hsound : db.Sound) (hfresh : db.Fresh r.newId) :
    Grows db (perform env db r) := by
  cases r with
  | ask userId request run => exact grows_ask hsound fun _ ↦ hfresh
  | askStream userId request run => exact grows_askStream hsound fun _ ↦ hfresh
  | fork userId conversationId request run => exact grows_forkConversation hsound hfresh

private theorem step_requests {r : Request} :
    (requests env).step db r = some db' ↔ db.Fresh r.newId ∧ db' = perform env db r := by
  unfold requests Db.Fresh
  dsimp only
  rw [Option.ite_none_left_eq_some, Option.some.injEq, eq_comm (a := perform env db r)]
  simp

/-- A run of requests only opens conversations and answers in them. -/
theorem grows_run {later : List Request} (hsound : db.Sound)
    (h : (requests env).run db later = some db') : Grows db db' := by
  have hstep : ∀ (d : Db) (r : Request) (d' : Db), d.Sound ∧ Grows db d →
      (requests env).step d r = some d' → d'.Sound ∧ Grows db d' := by
    rintro d r d' ⟨hd, hgrows⟩ hs
    obtain ⟨hfresh, rfl⟩ := step_requests.mp hs
    have hnext : Grows d (perform env d r) := grows_perform hd hfresh
    exact ⟨hd.grows hnext, hgrows.trans hnext⟩
  exact ((requests env).invariant_of_reachable hstep ⟨hsound, .refl⟩ ⟨later, h⟩).2

/-- Tables without conversations are sound, and so are all that requests make of them. -/
theorem sound_run {articles : List Article} {later : List Request}
    (h : (requests env).run ⟨[], [], articles⟩ later = some db') : db'.Sound := by
  have hempty : Db.Sound ⟨[], [], articles⟩ := by constructor <;> simp
  exact hempty.grows (grows_run hempty h)

/-- What a conversation inherits is kept by all later requests if no cut of its chain lies
beyond the turns of the ancestor; else the next question to that ancestor adds to it. -/
theorem immutable_iff (hsound : db.Sound) (hc : conversation ∈ db.conversations) :
    Immutable env db conversation ↔
      ∀ ancestor ∈ chain db conversation, ancestor.2 ≤ nextTurnIndex db ancestor.1 := by
  constructor
  · intro h ancestor hancestor
    by_contra hbeyond
    obtain ⟨y, hy, hyid⟩ := mem_chain hsound hc hancestor
    obtain ⟨id, hfresh⟩ := exists_fresh db
    obtain ⟨q, conv, hanswer⟩ := ask_quietRun env "" "" id hsound hy
    let question : Request := .ask "" ⟨"", false, some y.id⟩ (quietRun id)
    have hstep : (requests env).step db question = some (perform env db question) :=
      step_requests.mpr ⟨hfresh, rfl⟩
    have hgrows : Grows db (perform env db question) := grows_perform hsound hfresh
    obtain ⟨row, hrow, hlink⟩ := hgrows.extends _ _ (hsound.conversation_eq hc)
    obtain ⟨-, hqid, hindex, hqueries, -⟩ := ask_found_eq_ok hsound rfl hy hanswer
    have hkept := h [question] _ (by rw [Machine.run_cons, hstep]; rfl) row hrow
    have hnew : q ∈ ancestorTurns (perform env db question) row := by
      unfold ancestorTurns
      rw [chain_of_grows hsound hgrows hc hlink, List.mem_flatMap]
      refine ⟨ancestor, List.mem_reverse.mpr hancestor, mem_turnsBefore.mpr ⟨?_, ?_, ?_⟩⟩
      · show q ∈ (ask env db "" ⟨"", false, some y.id⟩ (quietRun id)).db.queries
        rw [hqueries]
        exact List.mem_append_right _ (List.mem_singleton_self q)
      · rw [hqid, hyid]
      · rw [hindex, hyid]
        omega
    rw [hkept] at hnew
    obtain ⟨a, -, hq⟩ := List.mem_flatMap.mp hnew
    have hlt := lt_nextTurnIndex (mem_turnsBefore.mp hq).1
    rw [hqid, hindex] at hlt
    omega
  · intro h later db' hrun row hrow
    have hgrows := grows_run hsound hrun
    obtain ⟨row', hrow', hlink⟩ := hgrows.extends _ _ (hsound.conversation_eq hc)
    rw [hrow] at hrow'
    cases hrow'
    unfold ancestorTurns
    rw [chain_of_grows hsound hgrows hc hlink]
    apply List.flatMap_congr
    intro ancestor hancestor
    exact turnsBefore_of_grows hgrows (h ancestor (List.mem_reverse.mp hancestor))

end

/-- What an accepted fork inherits stays the same exactly where it was not forked beyond the
turns of its parent, and no ancestor of it was either. -/
theorem fork_immutable_iff (env : QaEnv) (db : Db) (userId : String) (parent : Conversation)
    (request : ForkRequest) (run : Surroundings) (q : Query) (fork : Conversation)
    (hsound : db.Sound) (hfresh : db.Fresh run.conversationId)
    (hparent : parent ∈ db.conversations)
    (h : (forkConversation env db userId parent.id request run).response = .ok (q, fork)) :
    Immutable env (forkConversation env db userId parent.id request run).db fork ↔
      request.turnIndex ≤ nextTurnIndex db parent.id ∧
        ∀ ancestor ∈ chain db parent, ancestor.2 ≤ nextTurnIndex db ancestor.1 := by
  obtain ⟨parent', hown, hnonneg, hlink, hqid, hqueries, hfork, hgrows⟩ :=
    forkConversation_eq_ok hsound hfresh h
  have hsame : parent' = parent := by
    have hfound := (conversation_of_own hown).1
    rw [hsound.conversation_eq hparent] at hfound
    exact (Option.some.inj hfound).symm
  subst hsame
  have hsound' := sound_withFork env request hsound hfresh hown
  have hnext : ∀ x ∈ db.conversations, nextTurnIndex
      (forkConversation env db userId parent'.id request run).db x.id = nextTurnIndex db x.id := by
    intro x hx
    have hother : q.conversationId ≠ x.id := by
      rw [hqid]
      exact (hfresh x hx).symm
    unfold nextTurnIndex
    rw [hqueries, List.filter_append]
    simp [hother]
  rw [immutable_iff (hsound'.grows hgrows) hfork,
    chain_fork hsound hparent rfl rfl hsound' hgrows hlink, List.forall_mem_cons,
    hnext parent' hparent]
  apply and_congr
  · omega
  · apply forall₂_congr
    intro ancestor hancestor
    obtain ⟨y, hy, hyid⟩ := mem_chain hsound hparent hancestor
    rw [← hyid, hnext y hy]

/-- A fork of a conversation at its second turn. -/
theorem fork_immutable_second :
    Immutable sampleEnv (forkConversation sampleEnv forkedDb "u" "p" ⟨1, "Why?"⟩ (quietRun "n")).db
      ⟨"n", "u", "Why?", 0, none, some "p", some 1⟩ := by
  apply (fork_immutable_iff sampleEnv forkedDb "u" ⟨"p", "u", "Plans", 0, none, none, none⟩
    ⟨1, "Why?"⟩ (quietRun "n")
    ⟨"u", "Why?", noContextResult.answer, "low", [], [], false, none, "n", 0⟩
    ⟨"n", "u", "Why?", 0, none, some "p", some 1⟩ sound_forkedDb (by unfold Db.Fresh; decide)
    (by decide) rfl).mpr
  decide

/-- A fork beyond the end of its parent inherits what the parent is asked later. -/
theorem fork_beyond_end :
    ¬ Immutable sampleEnv
      (forkConversation sampleEnv forkedDb "u" "p" ⟨5, "Why?"⟩ (quietRun "n")).db
      ⟨"n", "u", "Why?", 0, none, some "p", some 5⟩ := by
  have hgrows : Grows forkedDb
      (forkConversation sampleEnv forkedDb "u" "p" ⟨5, "Why?"⟩ (quietRun "n")).db :=
    grows_forkConversation sound_forkedDb (by unfold Db.Fresh; decide)
  rw [immutable_iff (sound_forkedDb.grows hgrows) (by decide)]
  decide

end WikiMind.Qa
