import WikiMind.Base.Rows
import WikiMind.Base.Run
import WikiMind.Export.Html

/-!
# Share links

`services/sharing.py` and its routes, in any interleaving. What a request has read decides
what its transaction writes: a request goes up to its commit in one step, its write waits
among the pending ones, and the commit is a step of its own. The creation of a link holds
the advisory lock of its user as long as its write is pending. Time moves forward; other
requests change articles, sources and files meanwhile.
-/

namespace WikiMind.Wiki.Sharing

open WikiMind.Base WikiMind.Export

/-- An article row, as far as a shared page shows it. -/
structure Article where
  id : Nat
  userId : String
  title : List Char
  summary : Option (List Char)
  filePath : String
  createdAt : Int
  updatedAt : Int
  deriving DecidableEq, Repr

/-- What a shared page names of a source: `models/dto/ingest.py:67`. -/
structure SourceResponse where
  id : Nat
  sourceType : String
  title : Option (List Char)
  sourceUrl : Option (List Char)
  ingestedAt : Int
  deriving DecidableEq, Repr

/-- The share link table: `models/tables/sharing.py:11`. -/
structure ShareLink where
  id : Nat
  userId : String
  articleId : Nat
  token : String
  createdAt : Int
  expiresAt : Option Int
  revoked : Bool := false
  viewCount : Nat := 0
  lastViewedAt : Option Int := none
  deriving DecidableEq, Repr

def ShareLink.revoke (link : ShareLink) : ShareLink := { link with revoked := true }

def ShareLink.viewed (viewCount : Nat) (time : Int) (link : ShareLink) : ShareLink :=
  { link with viewCount, lastViewedAt := some time }

/-- Articles, the sources of each, and the files by user and path. Ids below `nextArticle`
have been given out. -/
structure Pages where
  articles : List Article
  articleSources : List (Nat × Nat)
  sources : List SourceResponse
  files : String → String → Option (List Char)
  nextArticle : Nat

/-- Ids are given once, and none that was not given out is there. -/
def Pages.Keyed (pages : Pages) : Prop :=
  (pages.articles.map Article.id).Nodup ∧ ∀ a ∈ pages.articles, a.id < pages.nextArticle

/-- A later state of them: new articles have new ids, and articles keep their owner. -/
def Pages.Follows (pages' pages : Pages) : Prop :=
  pages'.Keyed ∧ pages.nextArticle ≤ pages'.nextArticle ∧ ∀ a ∈ pages'.articles,
    a.id < pages.nextArticle → ∃ b ∈ pages.articles, b.id = a.id ∧ b.userId = a.userId

instance (pages : Pages) : Decidable pages.Keyed := inferInstanceAs (Decidable (_ ∧ _))

instance (pages' pages : Pages) : Decidable (pages'.Follows pages) :=
  inferInstanceAs (Decidable (_ ∧ _))

/-- `PublicArticleResponse`. -/
structure PublicArticleResponse where
  title : List Char
  contentHtml : List Char
  summary : Option (List Char)
  sources : List SourceResponse
  createdAt : Int
  updatedAt : Int
  deriving DecidableEq, Repr

/-- The errors a request ends with. -/
inductive Refusal where
  | notFound (detail : String)
  | gone (detail : String)
  | database (e : Exc)
  | quotaExceeded (resource : String) (used limit : Nat)
  deriving DecidableEq, Repr

/-- One day, in microseconds. -/
def day : Int := 86400000000

/-- What a transaction writes when it commits. -/
inductive Write where
  | insert (link : ShareLink)
  | revoke (linkId : Nat)
  | view (linkId viewCount : Nat) (time : Int)
  deriving DecidableEq, Repr

/-- The link a write inserts. -/
def Write.link? : Write → Option ShareLink
  | .insert link => some link
  | .revoke _ | .view _ _ _ => none

/-- A page that was served: the link it was asked by, the article row it shows, and when. -/
structure View where
  linkId : Nat
  article : Article
  time : Int
  deriving DecidableEq, Repr

/-- The committed links, the writes of open transactions, the wiki, the time, and the pages
served so far. -/
structure State where
  links : List ShareLink
  nextLink : Nat
  pending : List Write
  pages : Pages
  now : Int
  served : List View

/-- The steps of the system. -/
inductive Label where
  | create (userId : String) (articleId : Nat) (expiresInDays : Option Nat) (token : String)
  | revoke (userId : String) (linkId : Nat)
  | view (token : String)
  | commit (w : Write)
  | rollback (w : Write)
  | edit (pages : Pages)
  | tick (now : Int)

/-- A write of the count of a link. -/
def Write.isViewOf (linkId : Nat) : Write → Bool
  | .view id _ _ => id = linkId
  | .insert _ | .revoke _ => false

namespace State

/-- The links of open creations. -/
def inserts (s : State) : List ShareLink := s.pending.filterMap Write.link?

/-- The unrevoked links of a user. -/
def active (s : State) (userId : String) : Nat :=
  s.links.countP fun link ↦ link.userId = userId && !link.revoked

/-- The links of a user that open creations will add. -/
def creating (s : State) (userId : String) : Nat :=
  s.inserts.countP fun link ↦ link.userId = userId

/-- The views of a link whose count is not committed. -/
def viewing (s : State) (linkId : Nat) : Nat := s.pending.countP (Write.isViewOf linkId)

/-- The pages served by a link. -/
def viewsOf (s : State) (linkId : Nat) : Nat := s.served.countP fun v ↦ v.linkId = linkId

end State

/-- The decision of `check_share_quota`: `services/quota.py:223`. -/
def checkShareQuota (maxActiveShares : Option Nat) (count : Nat) : Except Refusal Unit :=
  match maxActiveShares.filter (· ≠ 0) with
  | none => .ok ()
  | some limit =>
    if limit ≤ count then .error (.quotaExceeded "share_link" count limit) else .ok ()

/-- `SharingService.create_share_link` up to its commit: `services/sharing.py:39`. -/
def createShareLink (s : State) (userId : String) (articleId : Nat)
    (expiresInDays : Option Nat) (token : String) : Except Refusal ShareLink :=
  match s.pages.articles.find? (·.id = articleId) with
  | none => .error (.notFound "Article not found")
  | some article =>
    if article.userId ≠ userId then .error (.notFound "Article not found")
    else if (s.links.map ShareLink.token).contains token then .error (.database .integrityError)
    else
      .ok { id := s.nextLink, userId, articleId, token, createdAt := s.now
            expiresAt := (expiresInDays.filter (· ≠ 0)).map fun days ↦ s.now + days * day }

/-- `SharingService.revoke_share_link` up to its commit: `services/sharing.py:93`. -/
def revokeShareLink (s : State) (linkId : Nat) (userId : String) : Except Refusal ShareLink :=
  match s.links.find? (·.id = linkId) with
  | none => .error (.notFound "Share link not found")
  | some link =>
    if link.userId ≠ userId then .error (.notFound "Share link not found") else .ok link

/-- The sources of an article, by the join of `services/sharing.py:212–219`. -/
def Pages.sourcesOf (pages : Pages) (articleId : Nat) : List SourceResponse :=
  (pages.articleSources.filter (·.1 = articleId)).flatMap fun row ↦
    pages.sources.filter (·.id = row.2)

/-- `read_article_content`: `storage.py:159`. -/
def Pages.readArticleContent (pages : Pages) (filePath userId : String) : List Char :=
  (pages.files userId filePath).getD []

section

variable (isdigit : Char → Bool)

/-- The page of an article. -/
def Pages.response (pages : Pages) (article : Article) : PublicArticleResponse where
  title := article.title
  contentHtml := contentHtml isdigit (pages.readArticleContent article.filePath article.userId)
  summary := article.summary
  sources := pages.sourcesOf article.id
  createdAt := article.createdAt
  updatedAt := article.updatedAt

/-- The link of a token and the article it shows, with all checks of
`SharingService.get_public_article`: `services/sharing.py:181–197`. -/
def openLink (s : State) (token : String) : Except Refusal (ShareLink × Article) :=
  match Rows.oneOrNone (·.token = token) s.links with
  | .error e => .error (.database e)
  | .ok none => .error (.notFound "Share link not found")
  | .ok (some link) =>
    if link.revoked then .error (.notFound "Share link not found")
    else if link.expiresAt.any (· < s.now) then .error (.gone "Share link has expired")
    else
      match s.pages.articles.find? (·.id = link.articleId) with
      | none => .error (.notFound "Article not found")
      | some article => .ok (link, article)

/-- `SharingService.get_public_article`, as far as its answer goes: `services/sharing.py:164`. -/
def getPublicArticle (s : State) (token : String) : Except Refusal PublicArticleResponse :=
  (openLink s token).map fun (_, article) ↦ s.pages.response isdigit article

end

namespace State

/-- The end of a transaction: its write is no longer pending. -/
def finish (s : State) (w : Write) : State := { s with pending := s.pending.erase w }

/-- A link is inserted. -/
def add (s : State) (link : ShareLink) : State := { s with links := s.links ++ [link] }

/-- Columns of a link are written. -/
def update (s : State) (linkId : Nat) (f : ShareLink → ShareLink) : State :=
  { s with links := Rows.modify (·.id = linkId) f s.links }

/-- A write becomes final. The token of a new link is unique in the table. -/
def commit (s : State) (w : Write) : State :=
  match w with
  | .insert link =>
    if (s.links.map ShareLink.token).contains link.token then s.finish w
    else (s.finish w).add link
  | .revoke linkId => (s.finish w).update linkId ShareLink.revoke
  | .view linkId viewCount time => (s.finish w).update linkId (ShareLink.viewed viewCount time)

/-- The write of a request joins the pending ones. -/
def submit (s : State) (w : Write) : State := { s with pending := w :: s.pending }

/-- A page is served, its count waits for the commit. -/
def serve (s : State) (link : ShareLink) (article : Article) : State :=
  { s.submit (.view link.id (link.viewCount + 1) s.now) with
    served := ⟨link.id, article, s.now⟩ :: s.served }

end State

section

variable (maxActiveShares : String → Option Nat)

/-- The route that creates a link: `api/routes/sharing.py:31`. Under a limit the request waits
for the lock of its user, which every open creation of the user holds. -/
def State.create (s : State) (userId : String) (articleId : Nat) (expiresInDays : Option Nat)
    (token : String) : Option State :=
  if ((maxActiveShares userId).filter (· ≠ 0)).isSome ∧ s.creating userId ≠ 0 then none
  else
    match checkShareQuota (maxActiveShares userId) (s.active userId) with
    | .error _ => some s
    | .ok () =>
      match createShareLink s userId articleId expiresInDays token with
      | .error _ => some s
      | .ok link => some { s.submit (.insert link) with nextLink := s.nextLink + 1 }

/-- One step; `none` when it is not enabled. -/
def step (s : State) : Label → Option State
  | .create userId articleId expiresInDays token =>
    s.create maxActiveShares userId articleId expiresInDays token
  | .revoke userId linkId =>
    match revokeShareLink s linkId userId with
    | .error _ => some s
    | .ok link => some (s.submit (.revoke link.id))
  | .view token =>
    match openLink s token with
    | .error _ => some s
    | .ok (link, article) => some (s.serve link article)
  | .commit w => if w ∈ s.pending then some (s.commit w) else none
  | .rollback w => if w ∈ s.pending then some (s.finish w) else none
  | .edit pages => if pages.Follows s.pages then some { s with pages } else none
  | .tick now => if s.now ≤ now then some { s with now } else none

/-- Share links with the plan limit of each user. -/
def sharing : Machine State Label := ⟨step maxActiveShares⟩

end

/-! ### What a step does -/

section Steps

variable {maxActiveShares : String → Option Nat} {s t : State} {l : Label} {userId : String}
  {limit : Nat}

/-- The moves of the system, with the checks each has passed. -/
inductive Moves (maxActiveShares : String → Option Nat) (s : State) : Label → State → Prop where
  | refused {l : Label} : Moves maxActiveShares s l s
  | created {link : ShareLink} {articleId : Nat} {expiresInDays : Option Nat} {token : String}
      (hlock : ((maxActiveShares link.userId).filter (· ≠ 0)).isSome → s.creating link.userId = 0)
      (hquota : checkShareQuota (maxActiveShares link.userId) (s.active link.userId) = .ok ())
      (hlink : createShareLink s link.userId articleId expiresInDays token = .ok link) :
      Moves maxActiveShares s (.create link.userId articleId expiresInDays token)
        { s.submit (.insert link) with nextLink := s.nextLink + 1 }
  | revoking {userId : String} {link : ShareLink} (hlink : link ∈ s.links) :
      Moves maxActiveShares s (.revoke userId link.id) (s.submit (.revoke link.id))
  | viewed {link : ShareLink} {article : Article} {token : String}
      (hopen : openLink s token = .ok (link, article)) :
      Moves maxActiveShares s (.view token) (s.serve link article)
  | committed {w : Write} (hw : w ∈ s.pending) : Moves maxActiveShares s (.commit w) (s.commit w)
  | rolledBack {w : Write} (hw : w ∈ s.pending) :
      Moves maxActiveShares s (.rollback w) (s.finish w)
  | edited {pages : Pages} (hpages : pages.Follows s.pages) :
      Moves maxActiveShares s (.edit pages) { s with pages }
  | ticked {now : Int} (hnow : s.now ≤ now) : Moves maxActiveShares s (.tick now) { s with now }

theorem createShareLink_eq_ok {articleId : Nat} {expiresInDays : Option Nat} {token : String}
    {link : ShareLink} (h : createShareLink s userId articleId expiresInDays token = .ok link) :
    link.id = s.nextLink ∧ link.userId = userId ∧ link.viewCount = 0 ∧ link.createdAt = s.now ∧
      ∃ a ∈ s.pages.articles, a.id = link.articleId ∧ a.userId = userId := by
  unfold createShareLink at h
  split at h
  · cases h
  next article hfind =>
  split at h
  · cases h
  next howner =>
  split at h
  · cases h
  cases h
  refine ⟨rfl, rfl, rfl, rfl, article, List.mem_of_find?_eq_some hfind, ?_, by simpa using howner⟩
  simpa using List.find?_some hfind

theorem openLink_eq_ok {token : String} {link : ShareLink} {article : Article}
    (h : openLink s token = .ok (link, article)) :
    link ∈ s.links ∧ link.token = token ∧ link.revoked = false ∧
      (∀ e ∈ link.expiresAt, s.now ≤ e) ∧ article ∈ s.pages.articles ∧
      article.id = link.articleId := by
  unfold openLink at h
  split at h
  · cases h
  · cases h
  next found hfound =>
  split at h
  · cases h
  next hrevoked =>
  split at h
  · cases h
  next hexpired =>
  split at h
  · cases h
  next a hfind =>
  cases h
  refine ⟨Rows.mem_of_oneOrNone hfound, by simpa using Rows.prop_of_oneOrNone hfound,
    by simpa using hrevoked, ?_, List.mem_of_find?_eq_some hfind,
    by simpa using List.find?_some hfind⟩
  intro e he
  rw [Option.mem_def.mp he] at hexpired
  simpa using hexpired

theorem moves_of_step (h : step maxActiveShares s l = some t) : Moves maxActiveShares s l t := by
  cases l with
  | create userId articleId expiresInDays token =>
    simp only [step, State.create] at h
    split at h
    · cases h
    next hlock =>
    split at h
    · cases h
      exact .refused
    next hquota =>
    split at h
    · cases h
      exact .refused
    next link hlink =>
    cases h
    obtain rfl := (createShareLink_eq_ok hlink).2.1
    exact .created (fun hlimit ↦ by_contra fun hne ↦ hlock ⟨hlimit, hne⟩) hquota hlink
  | revoke userId linkId =>
    simp only [step] at h
    split at h
    · cases h
      exact .refused
    next link hlink =>
    cases h
    unfold revokeShareLink at hlink
    split at hlink
    · cases hlink
    next found hfind =>
    split at hlink
    · cases hlink
    cases hlink
    obtain rfl : link.id = linkId := by simpa using List.find?_some hfind
    exact .revoking (List.mem_of_find?_eq_some hfind)
  | view token =>
    simp only [step] at h
    split at h
    · cases h
      exact .refused
    next link article hopen =>
    cases h
    exact .viewed hopen
  | commit w =>
    obtain ⟨hw, ht⟩ := Option.ite_none_right_eq_some.mp h
    cases ht
    exact .committed hw
  | rollback w =>
    obtain ⟨hw, ht⟩ := Option.ite_none_right_eq_some.mp h
    cases ht
    exact .rolledBack hw
  | edit pages =>
    obtain ⟨hpages, ht⟩ := Option.ite_none_right_eq_some.mp h
    cases ht
    exact .edited hpages
  | tick now =>
    obtain ⟨hnow, ht⟩ := Option.ite_none_right_eq_some.mp h
    cases ht
    exact .ticked hnow

/-! ### The quota -/

private theorem checkShareQuota_ok {count : Nat} (hlimit : limit ≠ 0)
    (h : checkShareQuota (some limit) count = .ok ()) : count < limit := by
  unfold checkShareQuota at h
  rw [Option.filter_some_pos (by simpa using hlimit)] at h
  dsimp only at h
  split at h
  · cases h
  · omega

private theorem creating_submit_insert (link : ShareLink) :
    (s.submit (.insert link)).creating userId =
      s.creating userId + if link.userId = userId then 1 else 0 := by
  simp [State.creating, State.inserts, State.submit, Write.link?, List.countP_cons]

private theorem creating_finish {w : Write} (hw : w ∈ s.pending) :
    s.creating userId = (s.finish w).creating userId +
      (w.link?.toList.countP fun link ↦ link.userId = userId) := by
  have hperm := (List.perm_cons_erase hw).filterMap Write.link?
  have hcount := hperm.countP_eq fun link ↦ decide (link.userId = userId)
  unfold State.finish State.creating State.inserts
  rw [hcount]
  cases w with
  | insert link => simp [Write.link?, List.countP_cons]
  | revoke linkId =>
    rw [List.filterMap_cons_none rfl]
    simp [Write.link?]
  | view linkId viewCount time =>
    rw [List.filterMap_cons_none rfl]
    simp [Write.link?]

/-- A change of a link that does not make it count costs nothing. -/
theorem active_update_le (linkId : Nat) {f : ShareLink → ShareLink}
    (hf : ∀ l, (f l).userId = l.userId ∧ (l.revoked = true → (f l).revoked = true)) :
    (s.update linkId f).active userId ≤ s.active userId := by
  unfold State.active State.update Rows.modify
  rw [List.countP_map]
  apply List.countP_mono_left
  intro l _ hcounts
  by_cases hid : l.id = linkId
  · simp only [Function.comp_apply, hid, if_true, (hf l).1, Bool.and_eq_true,
      decide_eq_true_eq, Bool.not_eq_true'] at hcounts ⊢
    refine ⟨hcounts.1, ?_⟩
    by_contra hrevoked
    rw [(hf l).2 (by simpa using hrevoked)] at hcounts
    exact absurd hcounts.2 (by simp)
  · simpa [hid] using hcounts

private theorem active_add_le (link : ShareLink) :
    (s.add link).active userId ≤ s.active userId + if link.userId = userId then 1 else 0 := by
  unfold State.add State.active
  rw [List.countP_append, List.countP_singleton]
  by_cases huser : link.userId = userId
  · simp only [huser, decide_true, if_true]
    split <;> omega
  · simp [huser]

/-- What a user has and what open creations will add stays within the limit. -/
theorem within_moves (hmax : maxActiveShares userId = some limit) (hlimit : limit ≠ 0)
    (h : s.active userId + s.creating userId ≤ limit) (hmove : Moves maxActiveShares s l t) :
    t.active userId + t.creating userId ≤ limit := by
  cases hmove with
  | refused => exact h
  | @created link articleId expiresInDays token hlock hquota hlink =>
    change s.active userId + (s.submit (.insert link)).creating userId ≤ limit
    rw [creating_submit_insert]
    by_cases huser : link.userId = userId
    · subst huser
      have hfree := hlock (by simp [hmax, hlimit])
      rw [hmax] at hquota
      have hbelow := checkShareQuota_ok hlimit hquota
      simp only [if_true]
      omega
    · simpa [huser] using h
  | revoking hlink => exact h
  | viewed hopen => exact h
  | @committed w hw =>
    have hfinish : s.creating userId = _ := creating_finish hw
    cases w with
    | insert link =>
      simp only [Write.link?, Option.toList_some, List.countP_singleton, decide_eq_true_eq]
        at hfinish
      have hactive : ((s.finish (.insert link)).add link).active userId ≤
          s.active userId + if link.userId = userId then 1 else 0 := active_add_le link
      unfold State.commit
      dsimp only
      split
      · change s.active userId + (s.finish (.insert link)).creating userId ≤ limit
        omega
      · change ((s.finish (.insert link)).add link).active userId +
          (s.finish (.insert link)).creating userId ≤ limit
        omega
    | revoke linkId =>
      simp only [Write.link?, Option.toList_none, List.countP_nil] at hfinish
      have hactive : ((s.finish (.revoke linkId)).update linkId ShareLink.revoke).active userId ≤
          s.active userId := active_update_le linkId fun l ↦ ⟨rfl, fun _ ↦ rfl⟩
      change ((s.finish (.revoke linkId)).update linkId ShareLink.revoke).active userId +
        (s.finish (.revoke linkId)).creating userId ≤ limit
      omega
    | view linkId viewCount time =>
      simp only [Write.link?, Option.toList_none, List.countP_nil] at hfinish
      have hactive : ((s.finish (.view linkId viewCount time)).update linkId
          (ShareLink.viewed viewCount time)).active userId ≤ s.active userId :=
        active_update_le linkId fun l ↦ ⟨rfl, id⟩
      change ((s.finish (.view linkId viewCount time)).update linkId
        (ShareLink.viewed viewCount time)).active userId +
        (s.finish (.view linkId viewCount time)).creating userId ≤ limit
      omega
  | @rolledBack w hw =>
    have hfinish : s.creating userId = _ := creating_finish hw
    change s.active userId + (s.finish w).creating userId ≤ limit
    omega
  | edited hpages => exact h
  | ticked hnow => exact h

end Steps

/-- In every interleaving a user of a plan with a limit has at most that many active links. -/
theorem shares_within_limit {maxActiveShares : String → Option Nat} {userId : String}
    {limit : Nat} {s : State} (hmax : maxActiveShares userId = some limit) (hlimit : limit ≠ 0)
    (h : s.active userId + s.creating userId ≤ limit) (ls : List Label) :
    (sharing maxActiveShares).Always (fun t ↦ t.active userId ≤ limit) s ls := by
  have hwithin := (sharing maxActiveShares).always_of_invariant
    (I := fun t ↦ t.active userId + t.creating userId ≤ limit)
    (fun s l t hs hstep ↦ within_moves hmax hlimit hs (moves_of_step hstep)) ls h
  exact Machine.Always.mono _ (fun t ht ↦ by omega) hwithin

/-- No link, no request, no page served. -/
def State.initial (pages : Pages) (now : Int) : State := ⟨[], 0, [], pages, now, []⟩

/-- One article of one user. -/
def onePage : Pages := ⟨[⟨0, "u", [], none, "p", 0, 0⟩], [], [], fun _ _ ↦ none, 1⟩

/-- Two creations at the same time under a limit of one: the second waits for the first. -/
def twoCreations : List Label :=
  [.create "u" 0 none "t", .create "u" 0 none "v",
    .commit (.insert { id := 0, userId := "u", articleId := 0, token := "t", createdAt := 0
                       expiresAt := none }),
    .create "u" 0 none "v"]

theorem twoCreations_within_limit :
    (sharing fun _ ↦ some 1).Always (fun t ↦ t.active "u" ≤ 1) (.initial onePage 0) twoCreations :=
  shares_within_limit rfl (by decide) (by decide) twoCreations

end WikiMind.Wiki.Sharing
