import WikiMind.Base.References

/-!
# Account deletion

`delete_account` (`services/user.py:363`) empties some twenty tables in a fixed order under
the foreign keys of `models/tables/`. A row is kept with its key, its user and its
references; tables without a user and without references are left out. PostgreSQL enforces
the references after each statement; SQLite, which `database.py` opens without
`PRAGMA foreign_keys`, neither checks them nor cascades.
-/

namespace WikiMind.Accounts

open WikiMind.Base

/-- The tables with a user or a reference: `models/tables/*.py`. -/
inductive Table where
  | user | article | articleConcept | articleSource | reinforcementEvent | concept | backlink
  | discussionMessage | sourceSpan | source | sourceImage | compilationDraft | compiledClaim
  | conceptCluster | claimConcept | conversation | query | job | costLog | llmTrace | syncLog
  | lintReport | contradictionFinding | orphanFinding | structuralFinding | contradiction
  | shareLink | savedSearch | tag | articleTag | userApiKey | userPreference
  | compilationSchema | mcpAccessToken | oauthAuthorizationCode | oauthAccessToken
  | captureSource | ambientAdapterSetting | rssFeed | subscription | storageUsage | queryCount
  deriving DecidableEq, Repr

/-- The columns that hold references. -/
inductive Column where
  | userId | articleId | sourceId | articleAId | articleBId | sourceArticleId
  | targetArticleId | filedArticleId | crystallizedArticleId | parentConversationId
  | conversationId | parentId | sharedConceptId | reportId | jobId | claimId | conceptId
  | supersededBy | tagId
  deriving DecidableEq, Repr

/-- A row: its key, its user where the table has one, and its other references. -/
structure Row where
  id : String
  userId : String
  refs : Column → Option String

/-- The value of a column with references. -/
def Row.value (column : Column) (r : Row) : Option String :=
  match column with
  | .userId => some r.userId
  | column => r.refs column

abbrev Db := Database Table Row

/-- The join tables, without a user of their own. -/
def joinTables : List Table := [.articleConcept, .articleSource, .articleTag, .claimConcept]

/-- The tables with a foreign key to the user. -/
def userTables : List Table :=
  [.mcpAccessToken, .oauthAuthorizationCode, .oauthAccessToken, .captureSource,
   .ambientAdapterSetting, .rssFeed, .compilationDraft, .compiledClaim, .conceptCluster,
   .source, .sourceImage, .job, .costLog, .llmTrace, .syncLog, .lintReport,
   .contradictionFinding, .orphanFinding, .structuralFinding, .contradiction, .conversation,
   .query, .shareLink, .savedSearch, .tag, .userApiKey, .userPreference, .compilationSchema,
   .sourceSpan, .article, .reinforcementEvent, .concept, .backlink, .discussionMessage]

/-- The other foreign keys. -/
def referenceKeys : List (ForeignKey Table Column) :=
  [⟨.captureSource, .sourceId, .source, false⟩,
   ⟨.compilationDraft, .sourceId, .source, false⟩,
   ⟨.compiledClaim, .articleId, .article, false⟩,
   ⟨.conceptCluster, .supersededBy, .conceptCluster, false⟩,
   ⟨.claimConcept, .claimId, .compiledClaim, false⟩,
   ⟨.claimConcept, .conceptId, .conceptCluster, false⟩,
   ⟨.sourceImage, .sourceId, .source, true⟩,
   ⟨.lintReport, .jobId, .job, false⟩,
   ⟨.contradictionFinding, .reportId, .lintReport, false⟩,
   ⟨.contradictionFinding, .articleAId, .article, false⟩,
   ⟨.contradictionFinding, .articleBId, .article, false⟩,
   ⟨.contradictionFinding, .sharedConceptId, .concept, false⟩,
   ⟨.orphanFinding, .reportId, .lintReport, false⟩,
   ⟨.orphanFinding, .articleId, .article, false⟩,
   ⟨.structuralFinding, .reportId, .lintReport, false⟩,
   ⟨.structuralFinding, .articleId, .article, false⟩,
   ⟨.contradiction, .articleAId, .article, false⟩,
   ⟨.contradiction, .articleBId, .article, false⟩,
   ⟨.conversation, .filedArticleId, .article, false⟩,
   ⟨.conversation, .crystallizedArticleId, .article, false⟩,
   ⟨.conversation, .parentConversationId, .conversation, false⟩,
   ⟨.query, .conversationId, .conversation, false⟩,
   ⟨.shareLink, .articleId, .article, false⟩,
   ⟨.articleTag, .articleId, .article, false⟩,
   ⟨.articleTag, .tagId, .tag, false⟩,
   ⟨.sourceSpan, .sourceId, .source, true⟩,
   ⟨.articleConcept, .articleId, .article, false⟩,
   ⟨.articleSource, .articleId, .article, false⟩,
   ⟨.articleSource, .sourceId, .source, false⟩,
   ⟨.reinforcementEvent, .articleId, .article, false⟩,
   ⟨.concept, .parentId, .concept, false⟩,
   ⟨.backlink, .sourceArticleId, .article, false⟩,
   ⟨.backlink, .targetArticleId, .article, false⟩,
   ⟨.discussionMessage, .articleId, .article, false⟩]

/-- The foreign keys of `models/tables/`. -/
def schema : Schema Table Column Row String where
  key := Row.id
  value := Row.value
  foreignKeys := userTables.map (⟨·, .userId, .user, false⟩) ++ referenceKeys

/-- `delete(T).where(T.column.in_(ids))`. -/
def whereIn (table : Table) (column : Column) (ids : List String) : Delete Table Row :=
  ⟨table, fun r ↦ (r.refs column).any (· ∈ ids)⟩

/-- `delete(T).where(T.user_id == user_id)`. -/
def whereUser (table : Table) (userId : String) : Delete Table Row :=
  ⟨table, fun r ↦ r.userId = userId⟩

/-- `select(T.id).where(T.user_id == user_id)`. -/
def idsOf (db : Db) (table : Table) (userId : String) : List String :=
  ((db table).filter (·.userId = userId)).map (·.id)

/-- The statements in order: `services/user.py:389–460`. Where a list of ids is empty the
source leaves its statements out; they select nothing. -/
def statements (articleIds reportIds convIds : List String) (userId : String) :
    List (Delete Table Row) :=
  [whereIn .articleConcept .articleId articleIds,
   whereIn .articleSource .articleId articleIds,
   whereIn .contradictionFinding .articleAId articleIds,
   whereIn .contradictionFinding .articleBId articleIds,
   whereIn .orphanFinding .articleId articleIds,
   whereIn .structuralFinding .articleId articleIds,
   whereIn .contradictionFinding .reportId reportIds,
   whereIn .orphanFinding .reportId reportIds,
   whereIn .structuralFinding .reportId reportIds,
   whereIn .query .conversationId convIds,
   whereUser .backlink userId,
   whereUser .article userId,
   whereUser .source userId,
   whereUser .concept userId,
   whereUser .conversation userId,
   whereUser .job userId,
   whereUser .costLog userId,
   whereUser .syncLog userId,
   whereUser .lintReport userId,
   whereUser .userApiKey userId,
   whereUser .userPreference userId,
   ⟨.user, fun r ↦ r.id = userId⟩]

/-- The statements for a user, with the ids collected first. -/
def statementsFor (db : Db) (userId : String) : List (Delete Table Row) :=
  statements (idsOf db .article userId) (idsOf db .lintReport userId)
    (idsOf db .conversation userId) userId

/-- `delete_account`: `services/user.py:363`. -/
def deleteAccount (server : Server) (db : Db) (userId : String) : Except Exc Db :=
  if (db .user).any (·.id = userId) then
    (statementsFor db userId).foldlM (schema.executeOn server) db
  else .error (.notFound "User not found")

/-- The user whose id a row carries. -/
def carried (t : Table) (r : Row) : Option String :=
  if t = .user then some r.id else if t ∈ joinTables then none else some r.userId

/-- The user a row belongs to: the one it carries, or that of the joined article or claim. -/
def ownerOf (db : Db) (t : Table) (r : Row) : Option String :=
  let joined (parent : Table) (column : Column) :=
    ((db parent).find? fun p ↦ r.refs column = some p.id).map (·.userId)
  match t with
  | .articleConcept | .articleSource | .articleTag => joined .article .articleId
  | .claimConcept => joined .compiledClaim .claimId
  | t => carried t r

/-- The account is deleted, no row carries the id of its user, and the rows of others are as
they were. -/
def Erased (server : Server) (db : Db) (userId : String) : Prop :=
  ∃ db', deleteAccount server db userId = .ok db' ∧
    (∀ t, ∀ r ∈ db' t, carried t r ≠ some userId) ∧
    ∀ t, (db' t).filter (fun r ↦ ownerOf db t r ≠ some userId) =
      (db t).filter fun r ↦ ownerOf db t r ≠ some userId

/-- A row references a row of the user. -/
def RefersTo (db : Db) (userId : String) (parent : Table) (column : Column) (r : Row) : Prop :=
  ∃ p ∈ db parent, p.userId = userId ∧ r.refs column = some p.id

/-- The tables with a user that no statement names. -/
def unsweptTables : List Table :=
  [.reinforcementEvent, .discussionMessage, .compilationDraft, .compiledClaim,
   .conceptCluster, .llmTrace, .contradiction, .shareLink, .savedSearch, .tag,
   .compilationSchema, .mcpAccessToken, .oauthAuthorizationCode, .oauthAccessToken,
   .captureSource, .ambientAdapterSetting, .rssFeed, .subscription, .storageUsage, .queryCount]

/-- The tables that are emptied by the rows they reference. -/
def attachedTables : List Table :=
  [.query, .contradictionFinding, .orphanFinding, .structuralFinding, .sourceSpan, .sourceImage]

/-- Which rows the statements remove: those with the id of the user where the table is
emptied by user, else those that reference an article, a report or a conversation of the
user and, where deletes cascade, a source of the user. -/
def Swept (server : Server) (db : Db) (userId : String) (t : Table) (r : Row) : Prop :=
  match t with
  | .user => r.id = userId
  | .articleConcept | .articleSource => RefersTo db userId .article .articleId r
  | .contradictionFinding =>
    RefersTo db userId .article .articleAId r ∨ RefersTo db userId .article .articleBId r ∨
      RefersTo db userId .lintReport .reportId r
  | .orphanFinding | .structuralFinding =>
    RefersTo db userId .article .articleId r ∨ RefersTo db userId .lintReport .reportId r
  | .query => RefersTo db userId .conversation .conversationId r
  | .sourceSpan | .sourceImage => server = .postgres ∧ RefersTo db userId .source .sourceId r
  | .backlink | .article | .source | .concept | .conversation | .job | .costLog | .syncLog
  | .lintReport | .userApiKey | .userPreference => r.userId = userId
  | _ => False

/-- What the references to the data of a user may be where they are checked. -/
structure Released (db : Db) (userId : String) : Prop where
  /-- No conversation filed or crystallized into an article of the user. -/
  filed : ∀ c ∈ db .conversation, c.userId = userId →
    ¬ RefersTo db userId .article .filedArticleId c ∧
      ¬ RefersTo db userId .article .crystallizedArticleId c
  /-- No lint report of a job of the user. -/
  reported : ∀ l ∈ db .lintReport, l.userId = userId → ¬ RefersTo db userId .job .jobId l
  /-- A source of the user is the source of articles of the user only. -/
  sources : ∀ j ∈ db .articleSource, RefersTo db userId .source .sourceId j →
    RefersTo db userId .article .articleId j
  /-- No article of the user has a tag. -/
  tags : ∀ j ∈ db .articleTag, ¬ RefersTo db userId .article .articleId j
  /-- No row of another user references a row of the user. -/
  foreign : ∀ fk ∈ schema.foreignKeys, fk.parent ≠ .user → fk.child ∉ joinTables →
    ∀ c ∈ db fk.child, RefersTo db userId fk.parent fk.column c → c.userId = userId

/-- What the data of a user may be for the account to be deletable. -/
structure Erasable (server : Server) (db : Db) (userId : String) : Prop where
  /-- No row in a table that no statement names. -/
  unswept : ∀ t ∈ unsweptTables, ∀ r ∈ db t, r.userId ≠ userId
  /-- Queries and findings belong to a conversation, a report or an article of the user, and
  spans and images to a source of the user; there are none where deletes do not cascade. -/
  attached : ∀ t ∈ attachedTables, ∀ r ∈ db t, r.userId = userId → Swept server db userId t r
  /-- None of these that belongs to another user goes with a row of the user. -/
  own : ∀ t ∈ attachedTables, ∀ r ∈ db t, Swept server db userId t r → r.userId = userId
  /-- Where references are checked, none is left. -/
  released : server = .postgres → Released db userId

section
variable {server : Server} {db : Db} {userId : String} {t : Table} {r : Row}

private theorem mem_foreignKeys {fk : ForeignKey Table Column} (h : fk ∈ referenceKeys) :
    fk ∈ schema.foreignKeys :=
  List.mem_append_right _ h

theorem cascading_eq : schema.cascading =
    [⟨.sourceImage, .sourceId, .source, true⟩, ⟨.sourceSpan, .sourceId, .source, true⟩] := rfl

private theorem refers_iff {fk : ForeignKey Table Column} {p : Row} :
    schema.refers fk r p = true ↔ Row.value fk.column r = some p.id :=
  decide_eq_true_iff

/-- A statement on another table than `source` removes what it selects. -/
theorem removes_of_ne {d : Delete Table Row} (hd : d.table ≠ .source) :
    schema.removesOn server db d t r = true ↔ t = d.table ∧ d.selects r = true := by
  cases server with
  | postgres =>
    unfold Schema.removesOn Schema.removes
    simp [cascading_eq, hd.symm]
  | sqlite =>
    unfold Schema.removesOn
    simp

private theorem removes_whereIn {table parent : Table} {column : Column}
    (htable : table ≠ .source) :
    schema.removesOn server db (whereIn table column (idsOf db parent userId)) t r = true ↔
      t = table ∧ RefersTo db userId parent column r := by
  have hids : ∀ k, k ∈ idsOf db parent userId ↔ ∃ p ∈ db parent, p.userId = userId ∧ p.id = k := by
    intro k
    unfold idsOf
    simp only [List.mem_map, List.mem_filter, decide_eq_true_eq, and_assoc]
  have hselects : (whereIn table column (idsOf db parent userId)).selects r = true ↔
      RefersTo db userId parent column r := by
    show (r.refs column).any (fun k ↦ k ∈ idsOf db parent userId) = true ↔ _
    unfold RefersTo
    cases h : r.refs column with
    | none => simp
    | some k =>
      simp only [Option.any_some, decide_eq_true_eq, hids, Option.some.injEq]
      apply exists_congr
      intro p
      simp only [eq_comm]
  rw [removes_of_ne htable, hselects]
  rfl

private theorem removes_whereUser {table : Table} (htable : table ≠ .source) :
    schema.removesOn server db (whereUser table userId) t r = true ↔
      t = table ∧ r.userId = userId := by
  rw [removes_of_ne htable]
  simp [whereUser]

/-- The statement on the sources takes their spans and images along where deletes cascade. -/
theorem removes_source :
    schema.removesOn server db (whereUser .source userId) t r = true ↔
      (t = .source ∧ r.userId = userId) ∨ ((t = .sourceImage ∨ t = .sourceSpan) ∧
        server = .postgres ∧ RefersTo db userId .source .sourceId r) := by
  cases server with
  | postgres =>
    unfold Schema.removesOn Schema.removes RefersTo
    simp only [cascading_eq, List.any_cons, List.any_nil, whereUser, Bool.or_eq_true,
      Bool.and_eq_true, decide_eq_true_eq, List.any_eq_true, Bool.or_false, refers_iff, Row.value]
    cases t <;> simp
  | sqlite =>
    show (decide (t = .source) && decide (r.userId = userId)) = true ↔ _
    simp

private theorem removes_user :
    schema.removesOn server db ⟨.user, fun r ↦ r.id = userId⟩ t r = true ↔
      t = .user ∧ r.id = userId := by
  rw [removes_of_ne (by simp)]
  simp

/-- The statements remove what they sweep. -/
theorem goneOn_iff (server : Server) :
    schema.goneOn server db (statementsFor db userId) t r = true ↔
      Swept server db userId t r := by
  unfold Schema.goneOn statementsFor statements
  simp only [List.any_cons, List.any_nil, Bool.or_eq_true, removes_source, ne_eq, reduceCtorEq,
    not_false_eq_true, removes_whereIn, removes_whereUser, removes_user]
  cases t <;> simp [Swept]

private theorem gone_iff :
    schema.gone db (statementsFor db userId) t r = true ↔ Swept .postgres db userId t r :=
  goneOn_iff .postgres

/-- The parts of an erasure, over the rows as they were at first. -/
theorem erased_iff_swept (s : schema.Store server) (huser : ∃ r ∈ s.db .user, r.id = userId) :
    Erased server s.db userId ↔
      (server = .postgres →
        ∀ pre, pre <+: statementsFor s.db userId → schema.Intact (schema.after s.db pre)) ∧
        (∀ t, ∀ r ∈ s.db t, carried t r = some userId → Swept server s.db userId t r) ∧
        ∀ t, ∀ r ∈ s.db t, Swept server s.db userId t r → ownerOf s.db t r = some userId := by
  have hfound : (s.db .user).any (·.id = userId) = true := by simpa using huser
  have hgone : ∀ t, ∀ r ∈ s.db t,
      r ∈ schema.afterOn server s.db (statementsFor s.db userId) t ↔
        ¬ Swept server s.db userId t r := by
    intro t r hr
    rw [Schema.mem_afterOn, and_iff_right hr, ← goneOn_iff, Bool.not_eq_true]
  unfold Erased deleteAccount
  simp only [if_pos hfound, Schema.foldlM_executeOn_eq_ok s]
  constructor
  · rintro ⟨db', ⟨hpre, rfl⟩, hcarried, hframe⟩
    refine ⟨hpre, fun t r hr hcarry ↦ ?_, fun t r hr hswept ↦ ?_⟩
    · by_contra hstays
      exact hcarried t r ((hgone t r hr).mpr hstays) hcarry
    · by_contra howner
      have hmem : r ∈ (s.db t).filter fun r ↦ ownerOf s.db t r ≠ some userId :=
        List.mem_filter.mpr ⟨hr, by simpa using howner⟩
      rw [← hframe t] at hmem
      exact (hgone t r hr).mp (List.mem_of_mem_filter hmem) hswept
  · rintro ⟨hpre, hcarried, hframe⟩
    refine ⟨_, ⟨hpre, rfl⟩, fun t r hr hcarry ↦ ?_, fun t ↦ ?_⟩
    · have hmem := (Schema.mem_afterOn.mp hr).1
      exact (hgone t r hmem).mp hr (hcarried t r hmem hcarry)
    · unfold Schema.afterOn
      rw [List.filter_filter]
      apply List.filter_congr
      intro r hr
      by_cases howner : ownerOf s.db t r = some userId
      · simp [howner]
      · have hnot : schema.goneOn server s.db (statementsFor s.db userId) t r = false := by
          rw [← Bool.not_eq_true, goneOn_iff]
          exact fun hswept ↦ howner (hframe t r hr hswept)
        simp [hnot]

/-- The foreign keys whose rows go after the rows they reference. -/
def lateKeys : List (ForeignKey Table Column) :=
  [⟨.conversation, .filedArticleId, .article, false⟩,
   ⟨.conversation, .crystallizedArticleId, .article, false⟩,
   ⟨.lintReport, .jobId, .job, false⟩]

/-- The tables of the statements, in order. -/
def tableOrder : List Table := (statements [] [] [] "").map (·.table)

private theorem tableOrder_eq (db : Db) (userId : String) :
    (statementsFor db userId).map (·.table) = tableOrder := rfl

/-- No statement that removes referencing rows comes after the one on the referenced table,
but for the late keys. -/
theorem tableOrder_after : ∀ fk ∈ schema.foreignKeys, fk ∉ lateKeys →
    ∀ t ∈ tableOrder.drop (tableOrder.idxOf fk.parent + 1), t ∉ schema.removers fk.child := by
  decide +kernel

/-- What comes after a part of a list comes after each of its members. -/
theorem mem_drop_idxOf {before after : Table} {pre post : List Table} (hbefore : before ∈ pre)
    (hafter : after ∈ post) : after ∈ (pre ++ post).drop ((pre ++ post).idxOf before + 1) := by
  have hlt := List.idxOf_lt_length_of_mem hbefore
  rw [List.idxOf_append_of_mem hbefore, List.drop_append_of_le_length (by omega)]
  exact List.mem_append_right _ hafter

/-- What the proofs use of a foreign key. -/
structure Regular (fk : ForeignKey Table Column) : Prop where
  /-- Its parent rows go with a statement on their table only. -/
  removers : schema.removers fk.parent = [fk.parent]
  /-- The column of the user is the reference to the user. -/
  column : fk.column = .userId ↔ fk.parent = .user
  /-- Its parent is emptied by user, or not at all. -/
  parent : fk.parent ∈ [Table.user, .source, .article, .conceptCluster, .compiledClaim, .job,
    .lintReport, .concept, .conversation, .tag]
  join : fk.child ∈ joinTables → fk.parent ≠ .user
  child : fk.child ≠ .user

instance (fk : ForeignKey Table Column) : Decidable (Regular fk) :=
  decidable_of_iff (schema.removers fk.parent = [fk.parent] ∧
      (fk.column = .userId ↔ fk.parent = .user) ∧
      fk.parent ∈ [Table.user, .source, .article, .conceptCluster, .compiledClaim, .job,
        .lintReport, .concept, .conversation, .tag] ∧
      (fk.child ∈ joinTables → fk.parent ≠ .user) ∧ fk.child ≠ .user)
    ⟨fun ⟨h₁, h₂, h₃, h₄, h₅⟩ ↦ ⟨h₁, h₂, h₃, h₄, h₅⟩,
      fun ⟨h₁, h₂, h₃, h₄, h₅⟩ ↦ ⟨h₁, h₂, h₃, h₄, h₅⟩⟩

private theorem regular : ∀ fk ∈ schema.foreignKeys, Regular fk := by
  decide +kernel

/-- So a reference is intact throughout when both of its rows go, or the referenced one
stays. -/
theorem intact_of_swept (hkeyed : schema.Keyed db) (hintact : schema.Intact db)
    (hswept : ∀ fk ∈ schema.foreignKeys, ∀ c ∈ db fk.child, ∀ p ∈ db fk.parent,
      schema.refers fk c p = true → Swept .postgres db userId fk.parent p →
        Swept .postgres db userId fk.child c ∧ fk ∉ lateKeys)
    (pre : List (Delete Table Row)) (hpre : pre <+: statementsFor db userId) :
    schema.Intact (schema.after db pre) := by
  rw [Schema.intact_after_iff hkeyed hintact]
  intro fk hfk c hc p hp hrefers hgone
  obtain ⟨post, hpost⟩ := hpre
  have hall : schema.gone db (statementsFor db userId) fk.parent p = true := by
    rw [← hpost]
    unfold Schema.gone at hgone ⊢
    rw [List.any_append, hgone, Bool.true_or]
  obtain ⟨hsweep, hlate⟩ := hswept fk hfk c hc p hp hrefers (gone_iff.mp hall)
  have hchild := gone_iff.mpr hsweep
  rw [← hpost] at hchild
  unfold Schema.gone at hchild
  rw [List.any_append, Bool.or_eq_true] at hchild
  rcases hchild with hchild | hchild
  · exact hchild
  · -- a statement after `pre` removes the child, one of `pre` its parent
    obtain ⟨d, hd, hremoves⟩ := List.any_eq_true.mp hgone
    obtain ⟨d', hd', hremoves'⟩ := List.any_eq_true.mp hchild
    have hparent : fk.parent = d.table := by
      have hmem := Schema.mem_removers_of_removes hremoves
      rw [(regular fk hfk).removers, List.mem_singleton] at hmem
      exact hmem.symm
    have hin : d.table ∈ pre.map (·.table) := List.mem_map_of_mem hd
    have hin' : d'.table ∈ post.map (·.table) := List.mem_map_of_mem hd'
    have hafter := mem_drop_idxOf hin hin'
    rw [← List.map_append, hpost, tableOrder_eq, ← hparent] at hafter
    exact absurd (Schema.mem_removers_of_removes hremoves') (tableOrder_after fk hfk hlate _ hafter)

/-- A row of a referenced table goes when it belongs to the user. -/
theorem userId_of_swept_parent {fk : ForeignKey Table Column} (hfk : fk ∈ schema.foreignKeys)
    (hne : fk.parent ≠ .user) (hswept : Swept server db userId fk.parent r) :
    r.userId = userId := by
  have hmem := (regular fk hfk).parent
  cases h : fk.parent
  all_goals simp_all [Swept]

/-- In a deletable account all rows of the user go. -/
theorem Erasable.swept (he : Erasable server db userId) (hr : r ∈ db t) (ht : t ∉ joinTables)
    (hne : t ≠ .user) (huser : r.userId = userId) : Swept server db userId t r := by
  by_cases hattached : t ∈ attachedTables
  · exact he.attached t hattached r hr huser
  by_cases hunswept : t ∈ unsweptTables
  · exact absurd huser (he.unswept t hunswept r hr)
  cases t
  all_goals simp_all [Swept, joinTables, unsweptTables, attachedTables]

private theorem value_of_ne {column : Column} (hne : column ≠ .userId) :
    Row.value column r = r.refs column := by
  cases column
  all_goals first | rfl | exact absurd rfl hne

/-- A reference to a row that goes is one to a row of the user. -/
theorem refersTo_of_refers {fk : ForeignKey Table Column} (hfk : fk ∈ schema.foreignKeys)
    (hne : fk.parent ≠ .user) {c p : Row} (hp : p ∈ db fk.parent)
    (hrefers : schema.refers fk c p = true) (hswept : Swept server db userId fk.parent p) :
    RefersTo db userId fk.parent fk.column c := by
  rw [refers_iff, value_of_ne (fun h ↦ hne ((regular fk hfk).column.mp h))] at hrefers
  exact ⟨p, hp, userId_of_swept_parent hfk hne hswept, hrefers⟩

/-- In a deletable account such a reference is one from a row of the user. -/
theorem Released.userId_of_refers (h : Released db userId) {fk : ForeignKey Table Column}
    (hfk : fk ∈ schema.foreignKeys) (hchild : fk.child ∉ joinTables) {c p : Row}
    (hc : c ∈ db fk.child) (hp : p ∈ db fk.parent) (hrefers : schema.refers fk c p = true)
    (hswept : Swept server db userId fk.parent p) : c.userId = userId := by
  by_cases hparent : fk.parent = .user
  · rw [refers_iff, (regular fk hfk).column.mpr hparent] at hrefers
    rw [hparent] at hswept
    exact (Option.some.inj hrefers).trans hswept
  · exact h.foreign fk hfk hparent hchild c hc (refersTo_of_refers hfk hparent hp hrefers hswept)

/-- The references of the join tables. -/
theorem joinKeys_eq : schema.foreignKeys.filter (·.child ∈ joinTables) =
    [⟨.claimConcept, .claimId, .compiledClaim, false⟩,
     ⟨.claimConcept, .conceptId, .conceptCluster, false⟩,
     ⟨.articleTag, .articleId, .article, false⟩,
     ⟨.articleTag, .tagId, .tag, false⟩,
     ⟨.articleConcept, .articleId, .article, false⟩,
     ⟨.articleSource, .articleId, .article, false⟩,
     ⟨.articleSource, .sourceId, .source, false⟩] := by
  decide +kernel

private theorem lateKeys_subset : ∀ fk ∈ lateKeys, fk.child ∉ joinTables ∧ fk.parent ≠ .user := by
  decide

/-- In a deletable account, what references a row that goes does so too, in time. -/
theorem Erasable.swept_child (he : Erasable .postgres db userId) {fk : ForeignKey Table Column}
    (hfk : fk ∈ schema.foreignKeys) {c p : Row} (hc : c ∈ db fk.child) (hp : p ∈ db fk.parent)
    (hrefers : schema.refers fk c p = true) (hswept : Swept .postgres db userId fk.parent p) :
    Swept .postgres db userId fk.child c ∧ fk ∉ lateKeys := by
  have hreleased := he.released rfl
  by_cases hjoin : fk.child ∈ joinTables
  · refine ⟨?_, fun hlate ↦ (lateKeys_subset fk hlate).1 hjoin⟩
    have hmem : fk ∈ schema.foreignKeys.filter (·.child ∈ joinTables) :=
      List.mem_filter.mpr ⟨hfk, by simpa using hjoin⟩
    rw [joinKeys_eq] at hmem
    have hto := refersTo_of_refers hfk ((regular fk hfk).join hjoin) hp hrefers hswept
    simp only [List.mem_cons, List.not_mem_nil, or_false] at hmem
    rcases hmem with rfl | rfl | rfl | rfl | rfl | rfl | rfl
    · exact hswept.elim
    · exact hswept.elim
    · exact absurd hto (hreleased.tags c hc)
    · exact hswept.elim
    · exact hto
    · exact hto
    · exact hreleased.sources c hc hto
  · have huser := hreleased.userId_of_refers hfk hjoin hc hp hrefers hswept
    refine ⟨he.swept hc hjoin (regular fk hfk).child huser, fun hlate ↦ ?_⟩
    have hto := refersTo_of_refers hfk (lateKeys_subset fk hlate).2 hp hrefers hswept
    simp only [lateKeys, List.mem_cons, List.not_mem_nil, or_false] at hlate
    rcases hlate with rfl | rfl | rfl
    · exact (hreleased.filed c hc huser).1 hto
    · exact (hreleased.filed c hc huser).2 hto
    · exact hreleased.reported c hc huser hto

/-- A row that joins an article of the user belongs to the user. -/
theorem ownerOf_joined (hkeyed : schema.Keyed db) (hto : RefersTo db userId .article .articleId r) :
    ((db .article).find? fun p ↦ r.refs .articleId = some p.id).map (·.userId) = some userId := by
  obtain ⟨a, ha, huser, hid⟩ := hto
  have hnodup : ((db .article).map Row.id).Nodup :=
    hkeyed ⟨.articleTag, .articleId, .article, false⟩ (mem_foreignKeys (by decide))
  have hfind : (db .article).find? (fun p ↦ r.refs .articleId = some p.id) = some a := by
    rw [hid]
    simpa [eq_comm] using Rows.find?_of_nodup hnodup ha
  rw [hfind, Option.map_some, huser]

/-- In a deletable account only rows of the user go. -/
theorem Erasable.ownerOf_swept (he : Erasable server db userId) (hkeyed : schema.Keyed db)
    (hr : r ∈ db t) (hswept : Swept server db userId t r) : ownerOf db t r = some userId := by
  by_cases hattached : t ∈ attachedTables
  · have howner : ∀ t ∈ attachedTables, ownerOf db t r = some r.userId := by
      simp [attachedTables, ownerOf, carried, joinTables]
    rw [howner t hattached, he.own t hattached r hr hswept]
  cases t
  case articleConcept | articleSource => exact ownerOf_joined hkeyed hswept
  all_goals
    first
    | exact congrArg some hswept
    | exact hswept.elim
    | exact absurd (by decide) hattached

/-- A deletable account is erased. -/
theorem Erasable.erased {s : schema.Store server} (he : Erasable server s.db userId)
    (huser : ∃ r ∈ s.db .user, r.id = userId) : Erased server s.db userId := by
  rw [erased_iff_swept s huser]
  refine ⟨?_, ?_, ?_⟩
  · rintro rfl
    exact intact_of_swept s.keyed (s.intact rfl) fun fk hfk c hc p hp ↦ he.swept_child hfk hc hp
  · intro t r hr hcarried
    unfold carried at hcarried
    split at hcarried
    next ht =>
      subst ht
      exact Option.some.inj hcarried
    next hne =>
      split at hcarried
      · cases hcarried
      next hjoin => exact he.swept hr hjoin hne (Option.some.inj hcarried)
  · intro t r hr hswept
    exact he.ownerOf_swept s.keyed hr hswept

private theorem ownerOf_of_notMem (ht : t ∉ joinTables) (hne : t ≠ .user) :
    ownerOf db t r = some r.userId := by
  cases t
  all_goals first | rfl | exact absurd rfl hne | exact absurd (by decide) ht

private theorem carried_of_notMem (ht : t ∉ joinTables) (hne : t ≠ .user) :
    carried t r = some r.userId := by
  simp [carried, ht, hne]

/-- A referenced table is no join table. -/
theorem parent_notMem {fk : ForeignKey Table Column} (hfk : fk ∈ schema.foreignKeys) :
    fk.parent ∉ joinTables := by
  have hparents : ∀ t ∈ [Table.user, .source, .article, .conceptCluster, .compiledClaim, .job,
      .lintReport, .concept, .conversation, .tag], t ∉ joinTables := by decide
  exact hparents _ (regular fk hfk).parent

/-- What references a row of the user through a late key stays when that row goes. -/
theorem not_refersTo_late (fk : ForeignKey Table Column)
    (hpre : ∀ pre, pre <+: statementsFor db userId → schema.Intact (schema.after db pre))
    (hkeyed : schema.Keyed db) (hintact : schema.Intact db) (hfk : fk ∈ lateKeys)
    (hr : r ∈ db fk.child) : ¬ RefersTo db userId fk.parent fk.column r := by
  rintro ⟨p, hp, huser, hid⟩
  have hmem : ∀ fk ∈ lateKeys, fk ∈ schema.foreignKeys ∧ fk.column ≠ .userId ∧
      fk.parent ≠ .source ∧
      ∀ t ∈ tableOrder.take (tableOrder.idxOf fk.parent + 1), t ∉ schema.removers fk.child := by
    decide +kernel
  obtain ⟨hkey, hcolumn, hsource, hlate⟩ := hmem fk hfk
  have hwhere : ∀ fk ∈ lateKeys, whereUser fk.parent userId ∈
      (statementsFor db userId).take (tableOrder.idxOf fk.parent + 1) := by
    simp only [lateKeys, List.mem_cons, List.not_mem_nil, or_false]
    rintro fk (rfl | rfl | rfl)
    · show whereUser .article userId ∈ (statementsFor db userId).take 12
      simp [statementsFor, statements]
    · show whereUser .article userId ∈ (statementsFor db userId).take 12
      simp [statementsFor, statements]
    · show whereUser .job userId ∈ (statementsFor db userId).take 16
      simp [statementsFor, statements]
  have hparent : schema.removesOn .postgres db (whereUser fk.parent userId) fk.parent p = true :=
    (removes_whereUser hsource).mpr ⟨rfl, huser⟩
  have hgone := (Schema.intact_after_iff hkeyed hintact).mp
    (hpre _ (List.take_prefix (tableOrder.idxOf fk.parent + 1) _)) fk hkey r hr p hp
    (by rw [refers_iff, value_of_ne hcolumn, hid])
    (List.any_eq_true.mpr ⟨_, hwhere fk hfk, hparent⟩)
  obtain ⟨d, hd, hremoves⟩ := List.any_eq_true.mp hgone
  have hd' := List.mem_map_of_mem (f := fun d : Delete Table Row ↦ d.table) hd
  rw [List.map_take, tableOrder_eq] at hd'
  exact hlate _ hd' (Schema.mem_removers_of_removes hremoves)

/-- Where references are checked and the account is deleted, none was left. -/
theorem released_of_intact (hkeyed : schema.Keyed db) (hintact : schema.Intact db)
    (hpre : ∀ pre, pre <+: statementsFor db userId → schema.Intact (schema.after db pre))
    (hcarried : ∀ t, ∀ r ∈ db t, carried t r = some userId → Swept .postgres db userId t r)
    (hframe : ∀ t, ∀ r ∈ db t, Swept .postgres db userId t r → ownerOf db t r = some userId) :
    Released db userId := by
  have hchild : ∀ fk ∈ schema.foreignKeys, fk.parent ≠ .user → ∀ c ∈ db fk.child,
      RefersTo db userId fk.parent fk.column c → Swept .postgres db userId fk.child c := by
    rintro fk hfk hne c hc ⟨p, hp, hpuser, hid⟩
    have hswept := hcarried _ p hp (by rw [carried_of_notMem (parent_notMem hfk) hne, hpuser])
    apply gone_iff.mp
    apply (Schema.intact_after_iff hkeyed hintact).mp (hpre _ (List.prefix_refl _)) fk hfk c hc p hp
    · rw [refers_iff, value_of_ne (fun h ↦ hne ((regular fk hfk).column.mp h)), hid]
    · exact gone_iff.mpr hswept
  exact {
    filed := by
      intro c hc _
      exact ⟨not_refersTo_late ⟨.conversation, .filedArticleId, .article, false⟩ hpre hkeyed
          hintact (by decide) hc,
        not_refersTo_late ⟨.conversation, .crystallizedArticleId, .article, false⟩ hpre hkeyed
          hintact (by decide) hc⟩
    reported := by
      intro l hl _
      exact not_refersTo_late ⟨.lintReport, .jobId, .job, false⟩ hpre hkeyed hintact (by decide) hl
    sources := by
      intro j hj hto
      exact hchild ⟨.articleSource, .sourceId, .source, false⟩ (mem_foreignKeys (by decide))
        (by simp) j hj hto
    tags := by
      intro j hj hto
      exact hchild ⟨.articleTag, .articleId, .article, false⟩ (mem_foreignKeys (by decide))
        (by simp) j hj hto
    foreign := by
      intro fk hfk hne hjoin c hc hto
      have howner := hframe _ c hc (hchild fk hfk hne c hc hto)
      rw [ownerOf_of_notMem hjoin (regular fk hfk).child] at howner
      exact Option.some.inj howner }

/-- An account that is erased was deletable. -/
theorem Erased.erasable {s : schema.Store server} (h : Erased server s.db userId)
    (huser : ∃ r ∈ s.db .user, r.id = userId) : Erasable server s.db userId := by
  obtain ⟨hpre, hcarried, hframe⟩ := (erased_iff_swept s huser).mp h
  have hown : ∀ t, t ∉ joinTables → t ≠ .user → ∀ r ∈ s.db t, r.userId = userId →
      Swept server s.db userId t r := by
    intro t ht hne r hr hruser
    exact hcarried t r hr (by rw [carried_of_notMem ht hne, hruser])
  have hattached : ∀ t ∈ attachedTables, t ∉ joinTables ∧ t ≠ .user := by decide
  exact {
    unswept := by
      intro t ht r hr hruser
      have htables : ∀ t ∈ unsweptTables, t ∉ joinTables ∧ t ≠ .user := by decide
      have hswept := hown t (htables t ht).1 (htables t ht).2 r hr hruser
      cases t
      all_goals first | exact hswept | exact absurd ht (by decide)
    attached := fun t ht r hr hruser ↦ hown t (hattached t ht).1 (hattached t ht).2 r hr hruser
    own := by
      intro t ht r hr hswept
      have howner := hframe t r hr hswept
      rw [ownerOf_of_notMem (hattached t ht).1 (hattached t ht).2] at howner
      exact Option.some.inj howner
    released := by
      rintro rfl
      exact released_of_intact s.keyed (s.intact rfl) (hpre rfl) hcarried hframe }

end

/-- For every database with its keys in order, and its references where the server checks
them, and every user of it: the account is erased exactly when the data of the user is as
`Erasable` says. -/
theorem deleteAccount_erases_iff (server : Server) (s : schema.Store server) (userId : String)
    (huser : ∃ r ∈ s.db .user, r.id = userId) :
    Erased server s.db userId ↔ Erasable server s.db userId :=
  ⟨fun h ↦ h.erasable huser, fun h ↦ h.erased huser⟩

/-- A row with some references. -/
def row (id userId : String) (refs : List (Column × String)) : Row :=
  ⟨id, userId, fun column ↦ refs.lookup column⟩

/-- Two users. The first has an article compiled from a source, with a concept, a finding of
a lint report, and a conversation with a query. -/
def sampleDb : Db
  | .user => [row "u" "" [], row "v" "" []]
  | .source => [row "s" "u" []]
  | .sourceSpan => [row "span" "u" [(.sourceId, "s")]]
  | .article => [row "a" "u" [], row "b" "v" []]
  | .articleConcept => [row "" "" [(.articleId, "a")], row "" "" [(.articleId, "b")]]
  | .articleSource => [row "" "" [(.articleId, "a"), (.sourceId, "s")]]
  | .concept => [row "c" "u" []]
  | .job => [row "j" "u" []]
  | .lintReport => [row "l" "u" []]
  | .orphanFinding => [row "f" "u" [(.articleId, "a"), (.reportId, "l")]]
  | .conversation => [row "conv" "u" []]
  | .query => [row "q" "u" [(.conversationId, "conv")]]
  | _ => []

instance (db : Db) (userId : String) (parent : Table) (column : Column) (r : Row) :
    Decidable (RefersTo db userId parent column r) :=
  inferInstanceAs (Decidable (∃ p ∈ db parent, p.userId = userId ∧ r.refs column = some p.id))

/-- The same without the span of the source. -/
def spanlessDb : Db := fun t ↦ if t = .sourceSpan then [] else sampleDb t

instance (server : Server) (db : Db) (userId : String) (t : Table) (r : Row) :
    Decidable (Swept server db userId t r) := by
  cases t <;> dsimp only [Swept] <;> infer_instance

private theorem sampleDb_released : Released sampleDb "u" where
  filed := by decide +kernel
  reported := by decide +kernel
  sources := by decide +kernel
  tags := by decide +kernel
  foreign := by decide +kernel

private theorem sampleDb_erasable : Erasable .postgres sampleDb "u" where
  unswept := by decide +kernel
  attached := by decide +kernel
  own := by decide +kernel
  released := fun _ ↦ sampleDb_released

private theorem spanlessDb_erasable : Erasable .sqlite spanlessDb "u" where
  unswept := by decide +kernel
  attached := by decide +kernel
  own := by decide +kernel
  released := nofun

/-- Deletion on PostgreSQL, where the span goes with its source, and on SQLite. -/
theorem deleteAccount_erases_sample :
    Erased .postgres sampleDb "u" ∧ Erased .sqlite spanlessDb "u" := by
  constructor
  · have hkeyed : schema.Keyed sampleDb := by decide +kernel
    have hintact : schema.Intact sampleDb := by decide +kernel
    have huser : ∃ r ∈ sampleDb .user, r.id = "u" := by decide +kernel
    exact (deleteAccount_erases_iff .postgres ⟨sampleDb, hkeyed, fun _ ↦ hintact⟩ "u"
      huser).mpr sampleDb_erasable
  · have hkeyed : schema.Keyed spanlessDb := by decide +kernel
    have huser : ∃ r ∈ spanlessDb .user, r.id = "u" := by decide +kernel
    exact (deleteAccount_erases_iff .sqlite ⟨spanlessDb, hkeyed, nofun⟩ "u"
      huser).mpr spanlessDb_erasable

/-- The same with a claim of the article, as a compilation stores them. -/
def claimedDb : Db := fun t ↦
  if t = .compiledClaim then [row "claim" "u" [(.articleId, "a")]] else sampleDb t

/-- The claim references the article, and no statement deletes it: the deletion fails or
leaves it. On SQLite the span stays as well. -/
theorem deleteAccount_fails :
    schema.Keyed claimedDb ∧ schema.Intact claimedDb ∧
      (∀ server, ¬ Erased server claimedDb "u") ∧ ¬ Erased .sqlite sampleDb "u" := by
  have hkeyed : schema.Keyed claimedDb := by decide +kernel
  have hintact : schema.Intact claimedDb := by decide +kernel
  have hsampled : schema.Keyed sampleDb := by decide +kernel
  have hclaimed : ∃ r ∈ claimedDb .user, r.id = "u" := by decide +kernel
  have hsample : ∃ r ∈ sampleDb .user, r.id = "u" := by decide +kernel
  refine ⟨hkeyed, hintact, fun server h ↦ ?_, fun h ↦ ?_⟩
  · have herasable := Erased.erasable (s := ⟨claimedDb, hkeyed, fun _ ↦ hintact⟩) h hclaimed
    exact herasable.unswept .compiledClaim (by decide) _ (List.mem_singleton_self _) rfl
  · have hunchecked : Server.sqlite = .postgres → schema.Intact sampleDb := nofun
    have herasable := Erased.erasable (s := ⟨sampleDb, hsampled, hunchecked⟩) h hsample
    have hswept : Swept .sqlite sampleDb "u" .sourceSpan (row "span" "u" [(.sourceId, "s")]) :=
      herasable.attached .sourceSpan (by decide) _ (List.mem_singleton_self _) rfl
    cases hswept.1

end WikiMind.Accounts
