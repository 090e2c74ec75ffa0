import WikiMind.Wiki.Sharing

/-!
# Links and the pages they serve

What the steps of `WikiMind.Wiki.Sharing` keep of a link: its row stays with its owner, its
article and its token, a revocation is not undone by a count that was read before it, and each
page served was that of an open link. Counts are read and written apart, so views that overlap
can share one count.
-/

namespace WikiMind.Wiki.Sharing

open WikiMind.Base

section Steps

variable {maxActiveShares : String → Option Nat} {s t : State} {l : Label} {userId : String}

/-! ### Rows over time -/

/-- A later row of a link: its key, owner and article, and revoked if it was. -/
structure ShareLink.Later (link link' : ShareLink) : Prop where
  id : link'.id = link.id
  userId : link'.userId = link.userId
  articleId : link'.articleId = link.articleId
  token : link'.token = link.token
  createdAt : link'.createdAt = link.createdAt
  expiresAt : link'.expiresAt = link.expiresAt
  revoked : link.revoked = true → link'.revoked = true

theorem ShareLink.Later.refl (link : ShareLink) : link.Later link :=
  ⟨rfl, rfl, rfl, rfl, rfl, rfl, fun h ↦ h⟩

theorem ShareLink.Later.trans {a b c : ShareLink} (hab : a.Later b) (hbc : b.Later c) :
    a.Later c :=
  ⟨hbc.id.trans hab.id, hbc.userId.trans hab.userId, hbc.articleId.trans hab.articleId,
    hbc.token.trans hab.token, hbc.createdAt.trans hab.createdAt,
    hbc.expiresAt.trans hab.expiresAt, fun h ↦ hbc.revoked (hab.revoked h)⟩

private theorem ShareLink.later_revoke (link : ShareLink) : link.Later link.revoke :=
  ⟨rfl, rfl, rfl, rfl, rfl, rfl, fun _ ↦ rfl⟩

private theorem ShareLink.later_viewed (viewCount : Nat) (time : Int) (link : ShareLink) :
    link.Later (link.viewed viewCount time) :=
  ⟨rfl, rfl, rfl, rfl, rfl, rfl, fun h ↦ h⟩

/-- The rows after a change of columns are later rows, and every row has one. -/
theorem later_update (linkId : Nat) {f : ShareLink → ShareLink}
    (hf : ∀ l : ShareLink, l.Later (f l)) :
    (∀ link ∈ s.links, ∃ link' ∈ (s.update linkId f).links, link.Later link') ∧
      ∀ link' ∈ (s.update linkId f).links, ∃ link ∈ s.links, link.Later link' := by
  constructor
  · intro link hlink
    by_cases hid : link.id = linkId
    · exact ⟨f link, Rows.mem_modify.mpr (.inl ⟨link, hlink, by simpa using hid, rfl⟩), hf link⟩
    · exact ⟨link, Rows.mem_modify.mpr (.inr ⟨hlink, by simpa using hid⟩), .refl link⟩
  · intro link' hlink'
    rcases Rows.mem_modify.mp hlink' with ⟨link, hlink, _, rfl⟩ | ⟨hlink, _⟩
    · exact ⟨link, hlink, hf link⟩
    · exact ⟨link', hlink, .refl link'⟩

private theorem mem_inserts {link : ShareLink} : link ∈ s.inserts ↔ .insert link ∈ s.pending := by
  unfold State.inserts
  rw [List.mem_filterMap]
  constructor
  · rintro ⟨w, hw, hlink⟩
    cases w with
    | insert link' =>
      cases hlink
      exact hw
    | revoke linkId => cases hlink
    | view linkId viewCount time => cases hlink
  · intro hlink
    exact ⟨.insert link, hlink, rfl⟩

/-- The links of the table and of open creations. -/
def State.all (s : State) : List ShareLink := s.links ++ s.inserts

private theorem sublist_finish (w : Write) : (s.finish w).inserts.Sublist s.inserts :=
  List.erase_sublist.filterMap _

private theorem perm_finish {link : ShareLink} (hlink : .insert link ∈ s.pending) :
    s.inserts.Perm (link :: (s.finish (.insert link)).inserts) :=
  (List.perm_cons_erase hlink).filterMap Write.link?

/-- After a move every link of the table is there in a later row. -/
theorem later_moves (hmove : Moves maxActiveShares s l t) {link : ShareLink}
    (hlink : link ∈ s.links) : ∃ link' ∈ t.links, link.Later link' := by
  cases hmove with
  | refused => exact ⟨link, hlink, .refl link⟩
  | created hlock hquota hnew => exact ⟨link, hlink, .refl link⟩
  | revoking hrevoking => exact ⟨link, hlink, .refl link⟩
  | viewed hopen => exact ⟨link, hlink, .refl link⟩
  | @committed w hw =>
    cases w with
    | insert new =>
      unfold State.commit
      dsimp only
      split
      · exact ⟨link, hlink, .refl link⟩
      · exact ⟨link, List.mem_append_left _ hlink, .refl link⟩
    | revoke linkId =>
      exact (later_update (s := s.finish _) linkId ShareLink.later_revoke).1 link hlink
    | view linkId viewCount time =>
      exact (later_update (s := s.finish _) linkId (ShareLink.later_viewed viewCount time)).1
        link hlink
  | rolledBack hw => exact ⟨link, hlink, .refl link⟩
  | edited hpages => exact ⟨link, hlink, .refl link⟩
  | ticked hnow => exact ⟨link, hlink, .refl link⟩

/-- After a move every link is a later row of one that was there, or it is the one that is
being created. -/
theorem all_moves (hmove : Moves maxActiveShares s l t) {link' : ShareLink}
    (hlink' : link' ∈ t.all) :
    (∃ link ∈ s.all, link.Later link') ∨
      ∃ articleId expiresInDays token,
        createShareLink s link'.userId articleId expiresInDays token = .ok link' ∧
          t = { s.submit (.insert link') with nextLink := s.nextLink + 1 } := by
  cases hmove with
  | refused => exact .inl ⟨link', hlink', .refl link'⟩
  | @created link articleId expiresInDays token hlock hquota hlink =>
    rcases List.mem_append.mp hlink' with htable | hopen
    · exact .inl ⟨link', List.mem_append_left _ htable, .refl link'⟩
    · rcases List.mem_cons.mp hopen with rfl | hopen
      · exact .inr ⟨articleId, expiresInDays, token, hlink, rfl⟩
      · exact .inl ⟨link', List.mem_append_right _ hopen, .refl link'⟩
  | revoking hlink => exact .inl ⟨link', hlink', .refl link'⟩
  | viewed hopen => exact .inl ⟨link', hlink', .refl link'⟩
  | @committed w hw =>
    left
    have hkept : link' ∈ (s.finish w).inserts → ∃ link ∈ s.all, link.Later link' :=
      fun h ↦ ⟨link', List.mem_append_right _ ((sublist_finish w).subset h), .refl link'⟩
    cases w with
    | insert new =>
      unfold State.commit at hlink'
      dsimp only at hlink'
      split at hlink'
      · rcases List.mem_append.mp hlink' with htable | hopen
        · exact ⟨link', List.mem_append_left _ htable, .refl link'⟩
        · exact hkept hopen
      · rcases List.mem_append.mp hlink' with htable | hopen
        · rcases List.mem_append.mp htable with htable | hnew
          · exact ⟨link', List.mem_append_left _ htable, .refl link'⟩
          · rw [List.mem_singleton.mp hnew]
            exact ⟨new, List.mem_append_right _ (mem_inserts.mpr hw), .refl new⟩
        · exact hkept hopen
    | revoke linkId =>
      rcases List.mem_append.mp hlink' with htable | hopen
      · obtain ⟨link, hlink, hlater⟩ :=
          (later_update (s := s.finish _) linkId ShareLink.later_revoke).2 link' htable
        exact ⟨link, List.mem_append_left _ hlink, hlater⟩
      · exact hkept hopen
    | view linkId viewCount time =>
      rcases List.mem_append.mp hlink' with htable | hopen
      · obtain ⟨link, hlink, hlater⟩ := (later_update (s := s.finish _) linkId
          (ShareLink.later_viewed viewCount time)).2 link' htable
        exact ⟨link, List.mem_append_left _ hlink, hlater⟩
      · exact hkept hopen
  | @rolledBack w hw =>
    rcases List.mem_append.mp hlink' with htable | hopen
    · exact .inl ⟨link', List.mem_append_left _ htable, .refl link'⟩
    · exact .inl ⟨link', List.mem_append_right _ ((sublist_finish w).subset hopen), .refl link'⟩
  | edited hpages => exact .inl ⟨link', hlink', .refl link'⟩
  | ticked hnow => exact .inl ⟨link', hlink', .refl link'⟩

/-- What holds between the tables and the pages served. -/
structure State.Sound (s : State) : Prop where
  pages : s.pages.Keyed
  ids : (s.all.map ShareLink.id).Nodup
  tokens : (s.links.map ShareLink.token).Nodup
  below : ∀ link ∈ s.all, link.id < s.nextLink
  made : ∀ link ∈ s.all, link.createdAt ≤ s.now
  owned : ∀ link ∈ s.all, link.articleId < s.pages.nextArticle ∧
    ∀ a ∈ s.pages.articles, a.id = link.articleId → a.userId = link.userId
  shown : ∀ v ∈ s.served, v.time ≤ s.now ∧ ∃ link ∈ s.links, link.id = v.linkId ∧
    v.article.id = link.articleId ∧ v.article.userId = link.userId ∧ link.createdAt ≤ v.time ∧
    ∀ e ∈ link.expiresAt, v.time ≤ e
  counted : ∀ link ∈ s.all, link.viewCount ≤ s.viewsOf link.id
  counting : ∀ linkId viewCount time, .view linkId viewCount time ∈ s.pending →
    viewCount ≤ s.viewsOf linkId

/-- A created link is the newest and shows an article of its user. -/
theorem Sound.created {articleId : Nat} {expiresInDays : Option Nat} {token : String}
    {link : ShareLink} (h : s.Sound)
    (hlink : createShareLink s userId articleId expiresInDays token = .ok link) :
    link.id = s.nextLink ∧ link.createdAt = s.now ∧ link.viewCount = 0 ∧
      link.articleId < s.pages.nextArticle ∧
      ∀ a ∈ s.pages.articles, a.id = link.articleId → a.userId = link.userId := by
  obtain ⟨hid, huser, hcount, hmade, article, harticle, harticleId, howner⟩ :=
    createShareLink_eq_ok hlink
  refine ⟨hid, hmade, hcount, harticleId ▸ h.pages.2 article harticle, fun a ha haid ↦ ?_⟩
  rw [Rows.eq_of_nodup h.pages.1 harticle ha (haid.trans harticleId.symm), howner, huser]

private theorem keys_update (linkId : Nat) {f : ShareLink → ShareLink}
    (hf : ∀ l : ShareLink, l.Later (f l)) :
    (s.update linkId f).links.map ShareLink.id = s.links.map ShareLink.id ∧
      (s.update linkId f).links.map ShareLink.token = s.links.map ShareLink.token :=
  ⟨Rows.map_modify fun l _ _ ↦ (hf l).id, Rows.map_modify fun l _ _ ↦ (hf l).token⟩

private theorem inserts_commit (w : Write) : (s.commit w).inserts = (s.finish w).inserts := by
  cases w with
  | insert link =>
    unfold State.commit
    dsimp only
    split <;> rfl
  | revoke linkId => rfl
  | view linkId viewCount time => rfl

private theorem ids_moves (h : s.Sound) (hmove : Moves maxActiveShares s l t) :
    (t.all.map ShareLink.id).Nodup := by
  have hfinish (w : Write) : ((s.links ++ (s.finish w).inserts).map ShareLink.id).Nodup :=
    h.ids.sublist (((List.Sublist.refl _).append (sublist_finish w)).map _)
  cases hmove with
  | refused => exact h.ids
  | @created link articleId expiresInDays token hlock hquota hlink =>
    have hperm : (s.links ++ link :: s.inserts).Perm (link :: s.all) := List.perm_middle
    apply (hperm.map ShareLink.id).nodup_iff.mpr
    rw [List.map_cons, List.nodup_cons]
    refine ⟨fun hmem ↦ ?_, h.ids⟩
    obtain ⟨other, hother, hid⟩ := List.mem_map.mp hmem
    have hbelow := h.below other hother
    rw [hid, (Sound.created h hlink).1] at hbelow
    omega
  | revoking hlink => exact h.ids
  | viewed hopen => exact h.ids
  | @committed w hw =>
    cases w with
    | insert link =>
      unfold State.commit
      dsimp only
      split
      · exact hfinish _
      · have hperm : ((s.links ++ [link]) ++ (s.finish (.insert link)).inserts).Perm s.all := by
          rw [List.append_assoc]
          exact (perm_finish hw).symm.append_left s.links
        exact (hperm.map ShareLink.id).nodup_iff.mpr h.ids
    | revoke linkId =>
      change ((s.update linkId ShareLink.revoke).links ++ _).map _ |>.Nodup
      rw [List.map_append, (keys_update linkId ShareLink.later_revoke).1, ← List.map_append]
      exact hfinish _
    | view linkId viewCount time =>
      change ((s.update linkId (ShareLink.viewed viewCount time)).links ++ _).map _ |>.Nodup
      rw [List.map_append, (keys_update linkId (ShareLink.later_viewed viewCount time)).1,
        ← List.map_append]
      exact hfinish _
  | rolledBack hw => exact hfinish _
  | edited hpages => exact h.ids
  | ticked hnow => exact h.ids

private theorem tokens_moves (h : s.Sound) (hmove : Moves maxActiveShares s l t) :
    (t.links.map ShareLink.token).Nodup := by
  cases hmove with
  | refused => exact h.tokens
  | created hlock hquota hlink => exact h.tokens
  | revoking hlink => exact h.tokens
  | viewed hopen => exact h.tokens
  | @committed w hw =>
    cases w with
    | insert link =>
      unfold State.commit
      dsimp only
      split
      · exact h.tokens
      next hfresh =>
      refine Rows.nodup_map_concat.mpr ⟨h.tokens, fun other hother heq ↦ hfresh ?_⟩
      rw [List.contains_iff_mem, ← heq]
      exact List.mem_map_of_mem hother
    | revoke linkId =>
      change ((s.update linkId ShareLink.revoke).links.map _).Nodup
      rw [(keys_update linkId ShareLink.later_revoke).2]
      exact h.tokens
    | view linkId viewCount time =>
      change ((s.update linkId (ShareLink.viewed viewCount time)).links.map _).Nodup
      rw [(keys_update linkId (ShareLink.later_viewed viewCount time)).2]
      exact h.tokens
  | rolledBack hw => exact h.tokens
  | edited hpages => exact h.tokens
  | ticked hnow => exact h.tokens

/-- Time, the ids given out and the pages served only grow. -/
theorem grows_moves (hmove : Moves maxActiveShares s l t) :
    s.nextLink ≤ t.nextLink ∧ s.now ≤ t.now ∧ (∀ linkId, s.viewsOf linkId ≤ t.viewsOf linkId) ∧
      (t.pages = s.pages ∨ t.pages.Follows s.pages) := by
  cases hmove with
  | refused => exact ⟨le_rfl, le_rfl, fun _ ↦ le_rfl, .inl rfl⟩
  | created hlock hquota hlink => exact ⟨Nat.le_succ _, le_rfl, fun _ ↦ le_rfl, .inl rfl⟩
  | revoking hlink => exact ⟨le_rfl, le_rfl, fun _ ↦ le_rfl, .inl rfl⟩
  | viewed hopen =>
    exact ⟨le_rfl, le_rfl, fun _ ↦ (List.sublist_cons_self _ _).countP_le, .inl rfl⟩
  | @committed w hw =>
    cases w with
    | insert link =>
      unfold State.commit
      dsimp only
      split
      · exact ⟨le_rfl, le_rfl, fun _ ↦ le_rfl, .inl rfl⟩
      · exact ⟨le_rfl, le_rfl, fun _ ↦ le_rfl, .inl rfl⟩
    | revoke linkId => exact ⟨le_rfl, le_rfl, fun _ ↦ le_rfl, .inl rfl⟩
    | view linkId viewCount time => exact ⟨le_rfl, le_rfl, fun _ ↦ le_rfl, .inl rfl⟩
  | rolledBack hw => exact ⟨le_rfl, le_rfl, fun _ ↦ le_rfl, .inl rfl⟩
  | edited hpages => exact ⟨le_rfl, le_rfl, fun _ ↦ le_rfl, .inr hpages⟩
  | ticked hnow => exact ⟨le_rfl, hnow, fun _ ↦ le_rfl, .inl rfl⟩

/-- An article id below the bound keeps the owners it had. -/
theorem Pages.Follows.owners {pages pages' : Pages} (h : pages' = pages ∨ pages'.Follows pages)
    {articleId : Nat} (hbelow : articleId < pages.nextArticle)
    (howner : ∀ a ∈ pages.articles, a.id = articleId → a.userId = userId) :
    articleId < pages'.nextArticle ∧
      ∀ a ∈ pages'.articles, a.id = articleId → a.userId = userId := by
  obtain rfl | ⟨_, hnext, hold⟩ := h
  · exact ⟨hbelow, howner⟩
  · refine ⟨by omega, fun a ha haid ↦ ?_⟩
    obtain ⟨b, hb, hbid, huser⟩ := hold a ha (by omega)
    rw [← huser]
    exact howner b hb (hbid.trans haid)

/-- The pending writes after a move were pending, or are those of the request that moved. -/
theorem pending_moves (hmove : Moves maxActiveShares s l t) {linkId viewCount : Nat} {time : Int}
    (hview : .view linkId viewCount time ∈ t.pending) :
    .view linkId viewCount time ∈ s.pending ∨
      ∃ link ∈ s.links, link.id = linkId ∧ viewCount = link.viewCount + 1 ∧
        t.viewsOf linkId = s.viewsOf linkId + 1 := by
  cases hmove with
  | refused => exact .inl hview
  | created hlock hquota hlink =>
    rcases List.mem_cons.mp hview with heq | hview
    · cases heq
    · exact .inl hview
  | revoking hlink =>
    rcases List.mem_cons.mp hview with heq | hview
    · cases heq
    · exact .inl hview
  | @viewed link article token hopen =>
    rcases List.mem_cons.mp hview with heq | hview
    · cases heq
      refine .inr ⟨link, (openLink_eq_ok hopen).1, rfl, rfl, ?_⟩
      exact List.countP_cons_of_pos (by simp)
    · exact .inl hview
  | @committed w hw =>
    left
    apply List.mem_of_mem_erase (b := w)
    cases w with
    | insert link =>
      unfold State.commit at hview
      dsimp only at hview
      split at hview
      · exact hview
      · exact hview
    | revoke linkId => exact hview
    | view linkId viewCount time => exact hview
  | rolledBack hw => exact .inl (List.mem_of_mem_erase hview)
  | edited hpages => exact .inl hview
  | ticked hnow => exact .inl hview

/-- A count in the table was there before, is the zero of a new link, or was pending. -/
theorem count_moves (hmove : Moves maxActiveShares s l t) {link' : ShareLink}
    (hlink' : link' ∈ t.all) :
    link'.viewCount = 0 ∨ (∃ link ∈ s.all, link.id = link'.id ∧ link.viewCount = link'.viewCount) ∨
      ∃ time, .view link'.id link'.viewCount time ∈ s.pending := by
  have hinserts (w : Write) (h : link' ∈ (s.finish w).inserts) : link' ∈ s.all :=
    List.mem_append_right _ ((sublist_finish w).subset h)
  cases hmove with
  | refused => exact .inr (.inl ⟨link', hlink', rfl, rfl⟩)
  | created hlock hquota hlink =>
    rcases List.mem_append.mp hlink' with htable | hopen
    · exact .inr (.inl ⟨link', List.mem_append_left _ htable, rfl, rfl⟩)
    · rcases List.mem_cons.mp hopen with rfl | hopen
      · exact .inl (createShareLink_eq_ok hlink).2.2.1
      · exact .inr (.inl ⟨link', List.mem_append_right _ hopen, rfl, rfl⟩)
  | revoking hlink => exact .inr (.inl ⟨link', hlink', rfl, rfl⟩)
  | viewed hopen => exact .inr (.inl ⟨link', hlink', rfl, rfl⟩)
  | @committed w hw =>
    cases w with
    | insert new =>
      unfold State.commit at hlink'
      dsimp only at hlink'
      split at hlink'
      · rcases List.mem_append.mp hlink' with htable | hopen
        · exact .inr (.inl ⟨link', List.mem_append_left _ htable, rfl, rfl⟩)
        · exact .inr (.inl ⟨link', hinserts _ hopen, rfl, rfl⟩)
      · rcases List.mem_append.mp hlink' with htable | hopen
        · rcases List.mem_append.mp htable with htable | hnew
          · exact .inr (.inl ⟨link', List.mem_append_left _ htable, rfl, rfl⟩)
          · rw [List.mem_singleton.mp hnew]
            exact .inr (.inl ⟨new, List.mem_append_right _ (mem_inserts.mpr hw), rfl, rfl⟩)
        · exact .inr (.inl ⟨link', hinserts _ hopen, rfl, rfl⟩)
    | revoke linkId =>
      rcases List.mem_append.mp hlink' with htable | hopen
      · rcases Rows.mem_modify.mp htable with ⟨link, hlink, _, rfl⟩ | ⟨hlink, _⟩
        · exact .inr (.inl ⟨link, List.mem_append_left _ hlink, rfl, rfl⟩)
        · exact .inr (.inl ⟨link', List.mem_append_left _ hlink, rfl, rfl⟩)
      · exact .inr (.inl ⟨link', hinserts _ hopen, rfl, rfl⟩)
    | view linkId viewCount time =>
      rcases List.mem_append.mp hlink' with htable | hopen
      · rcases Rows.mem_modify.mp htable with ⟨link, hlink, hid, rfl⟩ | ⟨hlink, _⟩
        · obtain rfl : link.id = linkId := by simpa using hid
          exact .inr (.inr ⟨time, hw⟩)
        · exact .inr (.inl ⟨link', List.mem_append_left _ hlink, rfl, rfl⟩)
      · exact .inr (.inl ⟨link', hinserts _ hopen, rfl, rfl⟩)
  | @rolledBack w hw =>
    rcases List.mem_append.mp hlink' with htable | hopen
    · exact .inr (.inl ⟨link', List.mem_append_left _ htable, rfl, rfl⟩)
    · exact .inr (.inl ⟨link', hinserts _ hopen, rfl, rfl⟩)
  | edited hpages => exact .inr (.inl ⟨link', hlink', rfl, rfl⟩)
  | ticked hnow => exact .inr (.inl ⟨link', hlink', rfl, rfl⟩)

/-- A page served in a move is that of a link that was open. -/
theorem served_moves (hmove : Moves maxActiveShares s l t) {v : View} (hv : v ∈ t.served) :
    v ∈ s.served ∨ v.time = s.now ∧ t.now = s.now ∧ ∃ token link, token = link.token ∧
      openLink s token = .ok (link, v.article) ∧ link.id = v.linkId ∧ t.links = s.links := by
  cases hmove with
  | refused => exact .inl hv
  | created hlock hquota hlink => exact .inl hv
  | revoking hlink => exact .inl hv
  | @viewed link article token hopen =>
    rcases List.mem_cons.mp hv with rfl | hv
    · exact .inr ⟨rfl, rfl, token, link, (openLink_eq_ok hopen).2.1.symm, hopen, rfl, rfl⟩
    · exact .inl hv
  | @committed w hw =>
    left
    cases w with
    | insert link =>
      unfold State.commit at hv
      dsimp only at hv
      split at hv
      · exact hv
      · exact hv
    | revoke linkId => exact hv
    | view linkId viewCount time => exact hv
  | rolledBack hw => exact .inl hv
  | edited hpages => exact .inl hv
  | ticked hnow => exact .inl hv

theorem Sound.moves (h : s.Sound) (hmove : Moves maxActiveShares s l t) : t.Sound := by
  obtain ⟨hnext, hnow, hviews, hpages⟩ := grows_moves hmove
  refine ⟨?_, ids_moves h hmove, tokens_moves h hmove, ?_, ?_, ?_, ?_, ?_, ?_⟩
  · obtain heq | hfollows := hpages
    · exact heq ▸ h.pages
    · exact hfollows.1
  · intro link' hlink'
    obtain ⟨link, hlink, hlater⟩ | ⟨articleId, expiresInDays, token, hnew, rfl⟩ :=
      all_moves hmove hlink'
    · have hbelow := h.below link hlink
      rw [hlater.id]
      omega
    · rw [(Sound.created h hnew).1]
      exact Nat.lt_succ_self _
  · intro link' hlink'
    obtain ⟨link, hlink, hlater⟩ | ⟨articleId, expiresInDays, token, hnew, rfl⟩ :=
      all_moves hmove hlink'
    · have hmade := h.made link hlink
      rw [hlater.createdAt]
      omega
    · exact (Sound.created h hnew).2.1.le
  · intro link' hlink'
    obtain ⟨link, hlink, hlater⟩ | ⟨articleId, expiresInDays, token, hnew, rfl⟩ :=
      all_moves hmove hlink'
    · obtain ⟨hbelow, howner⟩ := h.owned link hlink
      rw [hlater.articleId, hlater.userId]
      exact Pages.Follows.owners hpages hbelow howner
    · exact (Sound.created h hnew).2.2.2
  · intro v hv
    obtain hold | ⟨htime, hsame, token, link, rfl, hopen, hid, hlinks⟩ := served_moves hmove hv
    · obtain ⟨htime, link, hlink, hid, harticle, howner, hmade, hexpiry⟩ := h.shown v hold
      obtain ⟨link', hlink', hlater⟩ := later_moves hmove hlink
      refine ⟨by omega, link', hlink', hlater.id.trans hid, ?_, ?_, ?_, ?_⟩
      · rw [harticle, hlater.articleId]
      · rw [howner, hlater.userId]
      · rw [hlater.createdAt]
        exact hmade
      · rw [hlater.expiresAt]
        exact hexpiry
    · obtain ⟨hlink, -, -, hexpiry, harticle, harticleId⟩ := openLink_eq_ok hopen
      have hmem : link ∈ s.all := List.mem_append_left _ hlink
      refine ⟨by omega, link, hlinks ▸ hlink, hid, harticleId, ?_, ?_, ?_⟩
      · exact (h.owned link hmem).2 v.article harticle harticleId
      · rw [htime]
        exact h.made link hmem
      · rw [htime]
        exact hexpiry
  · intro link' hlink'
    have hmore := hviews link'.id
    obtain hzero | ⟨link, hlink, hid, hcount⟩ | ⟨time, hview⟩ := count_moves hmove hlink'
    · omega
    · have hcounted := h.counted link hlink
      rw [hid, hcount] at hcounted
      omega
    · have hcounting := h.counting _ _ _ hview
      omega
  · intro linkId viewCount time hview
    have hmore := hviews linkId
    obtain hold | ⟨link, hlink, rfl, rfl, hone⟩ := pending_moves hmove hview
    · have hcounting := h.counting _ _ _ hold
      omega
    · have hcounted := h.counted link (List.mem_append_left _ hlink)
      omega

theorem sound_step (h : s.Sound) (hstep : step maxActiveShares s l = some t) : t.Sound :=
  Sound.moves h (moves_of_step hstep)

/-! ### Closed links -/

private theorem Sound.ids_links (h : s.Sound) : (s.links.map ShareLink.id).Nodup := by
  have hnodup := h.ids
  unfold State.all at hnodup
  rw [List.map_append, List.nodup_append] at hnodup
  exact hnodup.1

/-- An open creation has an id that no link of the table has. -/
theorem Sound.fresh (h : s.Sound) {link new : ShareLink} (hlink : link ∈ s.links)
    (hnew : new ∈ s.inserts) : link.id ≠ new.id := by
  have hnodup := h.ids
  unfold State.all at hnodup
  rw [List.map_append, List.nodup_append] at hnodup
  exact hnodup.2.2 _ (List.mem_map_of_mem hlink) _ (List.mem_map_of_mem hnew)

/-- A link nobody may use any more. -/
def ShareLink.Closed (link : ShareLink) (now : Int) : Prop :=
  link.revoked = true ∨ ∃ e ∈ link.expiresAt, e < now

theorem ShareLink.Later.closed {link link' : ShareLink} {now now' : Int}
    (hlater : link.Later link') (hnow : now ≤ now') (h : link.Closed now) : link'.Closed now' := by
  obtain hrevoked | ⟨e, he, hexpired⟩ := h
  · exact .inl (hlater.revoked hrevoked)
  · exact .inr ⟨e, hlater.expiresAt ▸ he, by omega⟩

/-- The token of a closed link is refused: as unknown, or as expired if it is not revoked. -/
theorem openLink_of_closed {link : ShareLink} (h : s.Sound) (hlink : link ∈ s.links)
    (hclosed : link.Closed s.now) :
    openLink s link.token = .error (.notFound "Share link not found") ∨
      link.revoked = false ∧ openLink s link.token = .error (.gone "Share link has expired") := by
  unfold openLink
  rw [Rows.oneOrNone_of_nodup h.tokens hlink]
  cases hrevoked : link.revoked with
  | true => simp [hrevoked]
  | false =>
    obtain hrevoked' | ⟨e, he, hexpired⟩ := hclosed
    · rw [hrevoked] at hrevoked'
      cases hrevoked'
    · rw [Option.mem_def] at he
      simp [hrevoked, he, hexpired]

/-- A page more of a link is one that its token opened. -/
theorem views_moves (hmove : Moves maxActiveShares s l t) (linkId : Nat) :
    t.viewsOf linkId = s.viewsOf linkId ∨
      ∃ link article, link.id = linkId ∧ l = .view link.token ∧
        openLink s link.token = .ok (link, article) ∧ t = s.serve link article := by
  cases hmove with
  | refused => exact .inl rfl
  | created hlock hquota hlink => exact .inl rfl
  | revoking hlink => exact .inl rfl
  | @viewed link article token hopen =>
    by_cases hid : link.id = linkId
    · obtain rfl := (openLink_eq_ok hopen).2.1
      exact .inr ⟨link, article, hid, rfl, hopen, rfl⟩
    · left
      exact List.countP_cons_of_neg (by simpa using hid)
  | @committed w hw =>
    left
    cases w with
    | insert link =>
      unfold State.commit
      dsimp only
      split <;> rfl
    | revoke linkId => rfl
    | view linkId viewCount time => rfl
  | rolledBack hw => exact .inl rfl
  | edited hpages => exact .inl rfl
  | ticked hnow => exact .inl rfl

/-- A closed link stays closed, and serves no page. -/
theorem closed_moves {link : ShareLink} (h : s.Sound) (hlink : link ∈ s.links)
    (hclosed : link.Closed s.now) (hmove : Moves maxActiveShares s l t) :
    (∃ link' ∈ t.links, link.Later link' ∧ link'.Closed t.now) ∧
      t.viewsOf link.id = s.viewsOf link.id := by
  obtain ⟨link', hlink', hlater⟩ := later_moves hmove hlink
  refine ⟨⟨link', hlink', hlater, hlater.closed (grows_moves hmove).2.1 hclosed⟩, ?_⟩
  obtain hsame | ⟨other, article, hid, -, hopen, -⟩ := views_moves hmove link.id
  · exact hsame
  · obtain rfl := Rows.eq_of_nodup (Sound.ids_links h) hlink (openLink_eq_ok hopen).1 hid
    obtain hrefused | ⟨_, hrefused⟩ := openLink_of_closed h hlink hclosed
    · rw [hrefused] at hopen
      cases hopen
    · rw [hrefused] at hopen
      cases hopen

/-! ### Counts without overlap -/

/-- A write of a count. -/
def Write.isView : Write → Bool
  | .view _ _ _ => true
  | .insert _ | .revoke _ => false

/-- Views of a link do not overlap, and none is rolled back. -/
def Sequential (s : State) : Label → Prop
  | .view token => ∀ link ∈ s.links, link.token = token → s.viewing link.id = 0
  | .rollback w => w.isView = false
  | .create _ _ _ _ | .revoke _ _ | .commit _ | .edit _ | .tick _ => True

instance (s : State) : (l : Label) → Decidable (Sequential s l)
  | .view _ => by unfold Sequential; infer_instance
  | .rollback _ => by unfold Sequential; infer_instance
  | .create _ _ _ _ | .revoke _ _ | .commit _ | .edit _ | .tick _ => .isTrue trivial

/-- Every page served is counted or about to be counted, by the one view of its link that has
read the count. -/
structure State.Exact (s : State) : Prop where
  sound : s.Sound
  counts : ∀ link ∈ s.links, link.viewCount + s.viewing link.id = s.viewsOf link.id
  alone : ∀ linkId, s.viewing linkId ≤ 1
  reads : ∀ linkId viewCount time, .view linkId viewCount time ∈ s.pending →
    ∃ link ∈ s.links, link.id = linkId ∧ viewCount = link.viewCount + 1

private theorem viewing_finish {w : Write} (hw : w ∈ s.pending) (linkId : Nat) :
    s.viewing linkId = (s.finish w).viewing linkId + if w.isViewOf linkId then 1 else 0 := by
  unfold State.viewing
  rw [(List.perm_cons_erase hw).countP_eq, List.countP_cons]
  rfl

private theorem viewing_submit (w : Write) (linkId : Nat) :
    (s.submit w).viewing linkId = s.viewing linkId + if w.isViewOf linkId then 1 else 0 := by
  unfold State.viewing State.submit
  rw [List.countP_cons]

/-- A view that is served adds one to what its link has to count. -/
theorem Exact.serve (h : s.Exact) {link : ShareLink} {article : Article} {token : String}
    (hopen : openLink s token = .ok (link, article)) (hfree : s.viewing link.id = 0)
    (hsound : (s.serve link article).Sound) : (s.serve link article).Exact := by
  have hlink := (openLink_eq_ok hopen).1
  have hviewing (linkId : Nat) : (s.serve link article).viewing linkId =
      s.viewing linkId + if link.id = linkId then 1 else 0 := by
    change (s.submit _).viewing linkId = _
    rw [viewing_submit]
    simp [Write.isViewOf]
  have hviews (linkId : Nat) : (s.serve link article).viewsOf linkId =
      s.viewsOf linkId + if link.id = linkId then 1 else 0 := by
    unfold State.serve State.viewsOf
    rw [List.countP_cons]
    simp
  refine ⟨hsound, fun other hother ↦ ?_, fun linkId ↦ ?_, ?_⟩
  · have hcounts := h.counts other hother
    rw [hviewing, hviews]
    omega
  · have halone := h.alone linkId
    rw [hviewing]
    by_cases hid : link.id = linkId
    · subst hid
      simp [hfree]
    · simpa [hid] using halone
  · intro linkId viewCount time hview
    rcases List.mem_cons.mp hview with heq | hview
    · cases heq
      exact ⟨link, hlink, rfl, rfl⟩
    · exact h.reads linkId viewCount time hview

/-- The count a view commits is one more than the count it replaces. -/
theorem Exact.commit_view (h : s.Exact) {linkId viewCount : Nat} {time : Int}
    (hw : .view linkId viewCount time ∈ s.pending)
    (hsound : (s.commit (.view linkId viewCount time)).Sound) :
    (s.commit (.view linkId viewCount time)).Exact := by
  obtain ⟨read, hread, hid, hcount⟩ := h.reads _ _ _ hw
  have hfinish (id : Nat) := viewing_finish hw id
  simp only [Write.isViewOf, decide_eq_true_eq] at hfinish
  refine ⟨hsound, fun link' hlink' ↦ ?_, fun id ↦ ?_, ?_⟩
  · change link'.viewCount + (s.finish (.view linkId viewCount time)).viewing link'.id =
      s.viewsOf link'.id
    rcases Rows.mem_modify.mp hlink' with ⟨link, hlink, hlinkId, rfl⟩ | ⟨hlink, hother⟩
    · obtain rfl : link.id = linkId := by simpa using hlinkId
      obtain rfl := Rows.eq_of_nodup (Sound.ids_links h.sound) hread hlink hid.symm
      have hcounts := h.counts link hlink
      have hone := hfinish link.id
      simp only [if_true] at hone
      change viewCount + (s.finish (.view link.id viewCount time)).viewing link.id =
        s.viewsOf link.id
      omega
    · have hne : ¬ linkId = link'.id := fun heq ↦ by simp [heq] at hother
      have hcounts := h.counts link' hlink
      have hsame := hfinish link'.id
      simp only [hne, if_false] at hsame
      omega
  · have halone := h.alone id
    have hless := hfinish id
    change (s.finish (.view linkId viewCount time)).viewing id ≤ 1
    omega
  · intro id n time' hview
    have hremains : .view id n time' ∈ (s.finish (.view linkId viewCount time)).pending := hview
    have hne : id ≠ linkId := by
      rintro rfl
      have hpos : 0 < (s.finish (.view id viewCount time)).viewing id :=
        List.countP_pos_iff.mpr ⟨_, hremains, by simp [Write.isViewOf]⟩
      have halone := h.alone id
      have hone := hfinish id
      simp only [if_true] at hone
      omega
    obtain ⟨link, hlink, hlinkId, hn⟩ := h.reads id n time' (List.mem_of_mem_erase hremains)
    refine ⟨link, Rows.mem_modify.mpr (.inr ⟨hlink, ?_⟩), hlinkId, hn⟩
    rw [hlinkId]
    simpa using hne

/-- A link that is inserted has served nothing. -/
theorem Exact.commit_insert (h : s.Exact) {new : ShareLink} (hw : .insert new ∈ s.pending)
    (hsound : (s.commit (.insert new)).Sound) :
    (s.commit (.insert new)).Exact := by
  have hnew : new ∈ s.inserts := mem_inserts.mpr hw
  have hsame (id : Nat) : (s.finish (.insert new)).viewing id = s.viewing id := by
    have hfinish := viewing_finish hw id
    simpa [Write.isViewOf] using hfinish.symm
  have hviews : s.viewsOf new.id = 0 := by
    refine List.countP_eq_zero.mpr fun v hv hid ↦ ?_
    obtain ⟨-, link, hlink, hlinkId, -⟩ := h.sound.shown v hv
    exact Sound.fresh h.sound hlink hnew (by simpa [hlinkId] using hid)
  have hviewing : s.viewing new.id = 0 := by
    refine List.countP_eq_zero.mpr fun w hview hid ↦ ?_
    cases w with
    | insert link => simp [Write.isViewOf] at hid
    | revoke linkId => simp [Write.isViewOf] at hid
    | view linkId viewCount time =>
      obtain ⟨link, hlink, hlinkId, -⟩ := h.reads _ _ _ hview
      exact Sound.fresh h.sound hlink hnew (by simpa [Write.isViewOf, hlinkId] using hid)
  have hzero := h.sound.counted new (List.mem_append_right _ hnew)
  have hreads : ∀ id n time, .view id n time ∈ (s.finish (.insert new)).pending →
      ∃ link ∈ s.links, link.id = id ∧ n = link.viewCount + 1 :=
    fun id n time hview ↦ h.reads id n time (List.mem_of_mem_erase hview)
  unfold State.commit at hsound ⊢
  dsimp only at hsound ⊢
  split
  next hknown =>
    rw [if_pos hknown] at hsound
    exact ⟨hsound, fun link hlink ↦ by rw [hsame]; exact h.counts link hlink,
      fun id ↦ by rw [hsame]; exact h.alone id, hreads⟩
  next hunknown =>
    rw [if_neg hunknown] at hsound
    refine ⟨hsound, fun link hlink ↦ ?_, fun id ↦ ?_, fun id n time hview ↦ ?_⟩
    · change link.viewCount + (s.finish (.insert new)).viewing link.id = s.viewsOf link.id
      rw [hsame]
      rcases List.mem_append.mp hlink with hold | hlast
      · exact h.counts link hold
      · obtain rfl := List.mem_singleton.mp hlast
        omega
    · change (s.finish (.insert new)).viewing id ≤ 1
      rw [hsame]
      exact h.alone id
    · obtain ⟨link, hlink, hread⟩ := hreads id n time hview
      exact ⟨link, List.mem_append_left _ hlink, hread⟩

private theorem exact_moves (h : s.Exact) (hseq : Sequential s l)
    (hmove : Moves maxActiveShares s l t) :
    t.Exact := by
  have hsound := Sound.moves h.sound hmove
  cases hmove with
  | refused => exact h
  | @created link articleId expiresInDays token hlock hquota hlink =>
    have hsame (id : Nat) : (s.submit (.insert link)).viewing id = s.viewing id := by
      rw [viewing_submit]
      simp [Write.isViewOf]
    refine ⟨hsound, fun other hother ↦ ?_, fun id ↦ ?_, fun id n time hview ↦ ?_⟩
    · change other.viewCount + (s.submit (.insert link)).viewing other.id = s.viewsOf other.id
      rw [hsame]
      exact h.counts other hother
    · change (s.submit (.insert link)).viewing id ≤ 1
      rw [hsame]
      exact h.alone id
    · rcases List.mem_cons.mp hview with heq | hview
      · cases heq
      · exact h.reads id n time hview
  | @revoking userId link hlink =>
    have hsame (id : Nat) : (s.submit (.revoke link.id)).viewing id = s.viewing id := by
      rw [viewing_submit]
      simp [Write.isViewOf]
    refine ⟨hsound, fun other hother ↦ ?_, fun id ↦ ?_, fun id n time hview ↦ ?_⟩
    · rw [hsame]
      exact h.counts other hother
    · rw [hsame]
      exact h.alone id
    · rcases List.mem_cons.mp hview with heq | hview
      · cases heq
      · exact h.reads id n time hview
  | @viewed link article token hopen =>
    obtain ⟨hlink, htoken, -⟩ := openLink_eq_ok hopen
    exact Exact.serve h hopen (hseq link hlink htoken) hsound
  | @committed w hw =>
    cases w with
    | insert new => exact Exact.commit_insert h hw hsound
    | revoke linkId =>
      have hsame (id : Nat) : (s.finish (.revoke linkId)).viewing id = s.viewing id := by
        have hfinish := viewing_finish hw id
        simpa [Write.isViewOf] using hfinish.symm
      refine ⟨hsound, fun link' hlink' ↦ ?_, fun id ↦ ?_, fun id n time hview ↦ ?_⟩
      · change link'.viewCount + (s.finish (.revoke linkId)).viewing link'.id = s.viewsOf link'.id
        rw [hsame]
        rcases Rows.mem_modify.mp hlink' with ⟨link, hlink, _, rfl⟩ | ⟨hlink, _⟩
        · exact h.counts link hlink
        · exact h.counts link' hlink
      · change (s.finish (.revoke linkId)).viewing id ≤ 1
        rw [hsame]
        exact h.alone id
      · obtain ⟨link, hlink, hid, hn⟩ := h.reads id n time (List.mem_of_mem_erase hview)
        by_cases hrevoked : link.id = linkId
        · exact ⟨link.revoke,
            Rows.mem_modify.mpr (.inl ⟨link, hlink, by simpa using hrevoked, rfl⟩), hid, hn⟩
        · exact ⟨link, Rows.mem_modify.mpr (.inr ⟨hlink, by simpa using hrevoked⟩), hid, hn⟩
    | view linkId viewCount time => exact Exact.commit_view h hw hsound
  | @rolledBack w hw =>
    have hsame (id : Nat) : (s.finish w).viewing id = s.viewing id := by
      have hfinish := viewing_finish hw id
      cases w with
      | insert link => simpa [Write.isViewOf] using hfinish.symm
      | revoke linkId => simpa [Write.isViewOf] using hfinish.symm
      | view linkId viewCount time => cases hseq
    refine ⟨hsound, fun link hlink ↦ ?_, fun id ↦ ?_, fun id n time hview ↦ ?_⟩
    · rw [hsame]
      exact h.counts link hlink
    · rw [hsame]
      exact h.alone id
    · exact h.reads id n time (List.mem_of_mem_erase hview)
  | edited hpages => exact ⟨hsound, h.counts, h.alone, h.reads⟩
  | ticked hnow => exact ⟨hsound, h.counts, h.alone, h.reads⟩

end Steps

private theorem sound_initial {pages : Pages} (hpages : pages.Keyed) (now : Int) :
    (State.initial pages now).Sound where
  pages := hpages
  ids := List.nodup_nil
  tokens := List.nodup_nil
  below := fun _ h ↦ nomatch h
  made := fun _ h ↦ nomatch h
  owned := fun _ h ↦ nomatch h
  shown := fun _ h ↦ nomatch h
  counted := fun _ h ↦ nomatch h
  counting := fun _ _ _ h ↦ nomatch h

private theorem sound_of_reachable {maxActiveShares : String → Option Nat} {pages : Pages}
    (hpages : pages.Keyed) {now : Int} {s : State}
    (hs : (sharing maxActiveShares).Reachable (.initial pages now) s) : s.Sound :=
  (sharing maxActiveShares).invariant_of_reachable (fun _ _ _ h hstep ↦ sound_step h hstep)
    (sound_initial hpages now) hs

/-- In every interleaving each page served was that of a link within its time, and showed the
article the link was made for, an article of the user who made it. No link counts more views
than it served. -/
theorem served_pages {maxActiveShares : String → Option Nat} {pages : Pages}
    (hpages : pages.Keyed) {now : Int} {s : State}
    (hs : (sharing maxActiveShares).Reachable (.initial pages now) s) :
    (∀ v ∈ s.served, ∃ link ∈ s.links, link.id = v.linkId ∧ v.article.id = link.articleId ∧
      v.article.userId = link.userId ∧ link.createdAt ≤ v.time ∧
      ∀ e ∈ link.expiresAt, v.time ≤ e) ∧
    ∀ link ∈ s.links, link.viewCount ≤ s.viewsOf link.id := by
  have hsound := sound_of_reachable hpages hs
  exact ⟨fun v hv ↦ (hsound.shown v hv).2,
    fun link hlink ↦ hsound.counted link (List.mem_append_left _ hlink)⟩

/-- Once a link is revoked or expired its token is refused in every later state, whatever
requests overlapped, and it serves no page any more. -/
theorem closed_link_serves_nothing {maxActiveShares : String → Option Nat} {pages : Pages}
    (hpages : pages.Keyed) {now : Int} {s : State}
    (hs : (sharing maxActiveShares).Reachable (.initial pages now) s) {link : ShareLink}
    (hlink : link ∈ s.links) (hclosed : link.Closed s.now) (isdigit : Char → Bool)
    (ls : List Label) :
    (sharing maxActiveShares).Always (fun t ↦ t.viewsOf link.id = s.viewsOf link.id ∧
      (getPublicArticle isdigit t link.token = .error (.notFound "Share link not found") ∨
        link.revoked = false ∧
          getPublicArticle isdigit t link.token = .error (.gone "Share link has expired")))
      s ls := by
  have hkept := (sharing maxActiveShares).always_of_invariant
    (I := fun t ↦ t.Sound ∧ (∃ link' ∈ t.links, link.Later link' ∧ link'.Closed t.now) ∧
      t.viewsOf link.id = s.viewsOf link.id) (fun t l u ⟨hsound, ⟨link', hlink', hlater, hclosed⟩,
        hviews⟩ hstep ↦ ?_) ls
    ⟨sound_of_reachable hpages hs, ⟨link, hlink, .refl link, hclosed⟩, rfl⟩
  · refine Machine.Always.mono _
      (fun t ⟨hsound, ⟨link', hlink', hlater, hclosed⟩, hviews⟩ ↦ ?_) hkept
    refine ⟨hviews, ?_⟩
    unfold getPublicArticle
    rw [← hlater.token]
    obtain hrefused | ⟨hopen, hrefused⟩ := openLink_of_closed hsound hlink' hclosed
    · left
      rw [hrefused]
      rfl
    · right
      refine ⟨?_, by rw [hrefused]; rfl⟩
      by_contra hrevoked
      rw [hlater.revoked (by simpa using hrevoked)] at hopen
      cases hopen
  · have hmove := moves_of_step hstep
    obtain ⟨⟨link'', hlink'', hlater', hclosed'⟩, hsame⟩ :=
      closed_moves hsound hlink' hclosed hmove
    exact ⟨Sound.moves hsound hmove, ⟨link'', hlink'', hlater.trans hlater', hclosed'⟩,
      by rw [← hlater.id, hsame, hlater.id, hviews]⟩

/-- Where the views of a link do not overlap and all commit, every page served is counted, but
for the one that is being counted. -/
theorem sequential_views_counted {maxActiveShares : String → Option Nat} {pages : Pages}
    (hpages : pages.Keyed) {now : Int} {ls : List Label}
    (hseq : (sharing maxActiveShares).Guarded Sequential (.initial pages now) ls) :
    (sharing maxActiveShares).Always (fun t ↦ ∀ link ∈ t.links,
      link.viewCount + t.viewing link.id = t.viewsOf link.id ∧ t.viewing link.id ≤ 1)
      (.initial pages now) ls := by
  have hexact := (sharing maxActiveShares).always_of_guarded (I := State.Exact)
    (fun s l t h hseq hstep ↦ exact_moves h hseq (moves_of_step hstep))
    ⟨sound_initial hpages now, fun _ h ↦ (nomatch h), fun _ ↦ Nat.zero_le 1,
      fun _ _ _ h ↦ nomatch h⟩
    hseq
  exact Machine.Always.mono _ (fun t h link hlink ↦ ⟨h.counts link hlink, h.alone link.id⟩) hexact

/-- The link that the run below makes. -/
def shared : ShareLink :=
  { id := 0, userId := "u", articleId := 0, token := "t", createdAt := 0, expiresAt := none }

/-- A link is made, serves one page and is revoked. -/
def oneView : List Label :=
  [.create "u" 0 none "t", .commit (.insert shared), .view "t", .commit (.view 0 1 0),
    .revoke "u" 0, .commit (.revoke 0)]

/-- The state after that. -/
def afterwards : State :=
  ⟨[(shared.viewed 1 0).revoke], 1, [], onePage, 0, [⟨0, ⟨0, "u", [], none, "p", 0, 0⟩, 0⟩]⟩

private theorem reachable_afterwards :
    (sharing fun _ ↦ some 1).Reachable (.initial onePage 0) afterwards :=
  ⟨oneView, rfl⟩

theorem served_oneView : ∃ link ∈ afterwards.links, link.id = 0 ∧ link.userId = "u" := by
  obtain ⟨link, hlink, hid, -, huser, -⟩ :=
    (served_pages (by decide) reachable_afterwards).1 _ (List.mem_singleton_self _)
  exact ⟨link, hlink, hid, huser.symm⟩

theorem revoked_oneView :
    (sharing fun _ ↦ some 1).Always (fun t ↦ t.viewsOf 0 = 1 ∧
      (getPublicArticle Char.isDigit t "t" = .error (.notFound "Share link not found") ∨
        true = false ∧
          getPublicArticle Char.isDigit t "t" = .error (.gone "Share link has expired")))
      afterwards [.view "t"] :=
  closed_link_serves_nothing (by decide) reachable_afterwards
    (List.mem_singleton_self (shared.viewed 1 0).revoke) (.inl rfl) Char.isDigit [.view "t"]

theorem counted_oneView :
    (sharing fun _ ↦ some 1).Always (fun t ↦ ∀ link ∈ t.links,
      link.viewCount + t.viewing link.id = t.viewsOf link.id ∧ t.viewing link.id ≤ 1)
      (.initial onePage 0) [.create "u" 0 none "t", .commit (.insert shared), .view "t"] :=
  sequential_views_counted (by decide) (by decide)

-- Two views that overlap are counted as one.
example :
    ((sharing fun _ ↦ none).run (.initial onePage 0) [.create "u" 0 none "t",
      .commit (.insert shared), .view "t", .view "t", .commit (.view 0 1 0),
      .commit (.view 0 1 0)]).map (fun s ↦ (s.links.map ShareLink.viewCount, s.viewsOf 0)) =
      some ([1], 2) := by
  decide

end WikiMind.Wiki.Sharing
