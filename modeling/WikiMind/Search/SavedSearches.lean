import WikiMind.Base.Like
import WikiMind.Base.Rows
import WikiMind.Base.Run
import WikiMind.Base.Text

/-!
# Saved searches

`services/saved_searches.py`, over the tags of `services/tags.py`. A saved search names tags
and concepts and has a text for titles; all three are looked up when it is executed. The
filters are what `json.loads` made of the stored text, none if it raised; `dialect` is how the
database reads patterns.
-/

namespace WikiMind.Search.SavedSearches

open WikiMind.Base

/-- `models/tables/tags.py:12`. -/
structure Tag where
  id : Nat
  userId : String
  name : String
  deriving DecidableEq, Repr

/-- The tags with the next identifier. -/
structure Tags where
  rows : List Tag
  next : Nat

/-- The requests that create and delete tags. -/
inductive TagEvent where
  | create (userId name : String)
  | delete (tagId : Nat) (userId : String)

/-- `create_tag`: `services/tags.py:28`. The names of a user are unique. -/
def createTag (tags : Tags) (userId name : String) : Except Exc Tags :=
  if tags.rows.any fun t ↦ t.userId = userId ∧ t.name = name then .error .integrityError
  else .ok ⟨tags.rows ++ [⟨tags.next, userId, name⟩], tags.next + 1⟩

/-- `delete_tag`: `services/tags.py:78`. The associations of the tag go with it. -/
def deleteTag (tags : Tags) (tagId : Nat) (userId : String) : Except Exc Tags :=
  if tags.rows.any fun t ↦ t.id = tagId ∧ t.userId = userId then
    .ok { tags with rows := tags.rows.filter (·.id ≠ tagId) }
  else .error (.notFound "Tag not found")

/-- One request; a rejected one changes nothing. -/
def tagStep (tags : Tags) (event : TagEvent) : Tags :=
  let result :=
    match event with
    | .create userId name => createTag tags userId name
    | .delete tagId userId => deleteTag tags tagId userId
  match result with
  | .ok tags' => tags'
  | .error _ => tags

/-- The tags after some requests. -/
def tagsAfter (events : List TagEvent) : List Tag := (events.foldl tagStep ⟨[], 0⟩).rows

/-- `models/tables/wiki.py`, less what no search reads. -/
structure Article where
  id : String
  userId : String
  title : String
  deriving DecidableEq, Repr

/-- The articles with their tags and concepts. -/
structure ArticleSet where
  articles : List Article
  articleTags : List (String × Nat)
  articleConcepts : List (String × String)

/-- The keys of the join tables are those of rows. -/
structure ArticleSet.Refers (articleSet : ArticleSet) (tags : List Tag) : Prop where
  nodup_id : (articleSet.articles.map (·.id)).Nodup
  tag : ∀ x ∈ articleSet.articleTags,
    (∃ article ∈ articleSet.articles, article.id = x.1) ∧ ∃ tag ∈ tags, tag.id = x.2
  concept : ∀ x ∈ articleSet.articleConcepts, ∃ article ∈ articleSet.articles, article.id = x.1

/-- The object a filter text stands for; texts of other JSON values are left out. -/
structure Filters where
  tags : Option (List String)
  concepts : Option (List String)
  deriving DecidableEq, Repr

/-- `models/tables/sharing.py:30`. -/
structure SavedSearch where
  id : String
  userId : String
  name : String
  query : String
  filters : Option Filters
  deriving DecidableEq, Repr

def SavedSearch.tagNames (saved : SavedSearch) : List String :=
  (saved.filters.bind (·.tags)).getD []

def SavedSearch.conceptNames (saved : SavedSearch) : List String :=
  (saved.filters.bind (·.concepts)).getD []

/-- The tables of a search. -/
structure Db where
  savedSearches : List SavedSearch
  tags : List Tag
  articleSet : ArticleSet

section Source
variable (dialect : Dialect)

/-- The user's articles whose titles match: `saved_searches.py:144–154`. -/
def candidateIds (articleSet : ArticleSet) (saved : SavedSearch) (userId : String) : List String :=
  let text := strip saved.query.toList
  (articleSet.articles.filter fun article ↦ article.userId = userId ∧
    (text = [] ∨ dialect.ilike article.title.toList ('%' :: (text ++ ['%'])) = true)).map (·.id)

/-- The articles with a tag: `saved_searches.py:166–167`. -/
def taggedIds (articleSet : ArticleSet) (tagId : Nat) : List String :=
  (articleSet.articleTags.filter (·.2 = tagId)).map (·.1)

/-- The articles with a concept: `saved_searches.py:172–175`. -/
def conceptIds (articleSet : ArticleSet) (conceptName : String) : List String :=
  (articleSet.articleConcepts.filter (·.2 = conceptName)).map (·.1)

/-- Keep what all selections have: the loops of `saved_searches.py:165–175`. -/
def narrow {β : Type} (select : β → List String) (keys : List β) (ids : List String) :
    List String :=
  keys.foldl (fun ids key ↦ ids.filter (· ∈ select key)) ids

/-- `execute`: `saved_searches.py:109`. -/
def execute (db : Db) (searchId userId : String) : Except Exc (SavedSearch × List String) :=
  match db.savedSearches.find? fun s ↦ s.id = searchId ∧ s.userId = userId with
  | none => .error (.notFound "Saved search not found")
  | some saved =>
    let tagIds := (db.tags.filter fun t ↦ t.userId = userId ∧ t.name ∈ saved.tagNames).map (·.id)
    let tagged := narrow (taggedIds db.articleSet) tagIds
      (candidateIds dialect db.articleSet saved userId)
    .ok (saved, narrow (conceptIds db.articleSet) saved.conceptNames tagged)

end Source

/-- The article is the user's, its title contains the text, and it carries every named tag and
every named concept. -/
def Matches (dialect : Dialect) (saved : SavedSearch) (tags : List Tag) (articleSet : ArticleSet)
    (articleId : String) : Prop :=
  (∃ article ∈ articleSet.articles, article.id = articleId ∧ article.userId = saved.userId ∧
      dialect.Contains article.title.toList (strip saved.query.toList)) ∧
    (∀ name ∈ saved.tagNames, ∃ tag ∈ tags, tag.userId = saved.userId ∧ tag.name = name ∧
      (articleId, tag.id) ∈ articleSet.articleTags) ∧
    ∀ concept ∈ saved.conceptNames, (articleId, concept) ∈ articleSet.articleConcepts

/-- An execution gives the search with the articles that match it. -/
def Exact (dialect : Dialect) (db : Db) (saved : SavedSearch) : Prop :=
  ∃ ids, execute dialect db saved.id saved.userId = .ok (saved, ids) ∧
    ∀ articleId, articleId ∈ ids ↔ Matches dialect saved db.tags db.articleSet articleId

/-- Every named tag is a tag of the user. -/
def TagsExist (saved : SavedSearch) (tags : List Tag) : Prop :=
  ∀ name ∈ saved.tagNames, ∃ tag ∈ tags, tag.userId = saved.userId ∧ tag.name = name

/-- The names of a user's tags are unique. -/
def NamesUnique (tags : List Tag) : Prop :=
  ∀ t ∈ tags, ∀ t' ∈ tags, t.userId = t'.userId → t.name = t'.name → t = t'

/-- A request keeps the names unique. -/
theorem namesUnique_tagStep {tags : Tags} (h : NamesUnique tags.rows) (event : TagEvent) :
    NamesUnique (tagStep tags event).rows := by
  cases event with
  | create userId name =>
    simp only [tagStep, createTag]
    split_ifs with hused
    · exact h
    · have hfresh : ∀ t ∈ tags.rows, ¬ (t.userId = userId ∧ t.name = name) := by
        simpa using hused
      intro t ht t' ht' huser hname
      simp only [List.mem_append, List.mem_singleton] at ht ht'
      rcases ht with ht | rfl <;> rcases ht' with ht' | rfl
      · exact h t ht t' ht' huser hname
      · exact absurd ⟨huser, hname⟩ (hfresh t ht)
      · exact absurd ⟨huser.symm, hname.symm⟩ (hfresh t' ht')
      · rfl
  | delete tagId userId =>
    simp only [tagStep, deleteTag]
    split_ifs
    · intro t ht t' ht'
      exact h t (List.mem_of_mem_filter ht) t' (List.mem_of_mem_filter ht')
    · exact h

private theorem namesUnique_tagsAfter (events : List TagEvent) :
    NamesUnique (tagsAfter events) := by
  have hrun : ∀ tags : Tags, NamesUnique tags.rows →
      NamesUnique (events.foldl tagStep tags).rows := by
    induction events with
    | nil => exact fun _ h ↦ h
    | cons event events ih => exact fun tags h ↦ ih _ (namesUnique_tagStep h event)
  exact hrun ⟨[], 0⟩ fun t ht ↦ by cases ht

theorem mem_narrow {β : Type} {select : β → List String} {keys : List β} {ids : List String}
    {a : String} : a ∈ narrow select keys ids ↔ a ∈ ids ∧ ∀ key ∈ keys, a ∈ select key := by
  unfold narrow
  induction keys generalizing ids with
  | nil => simp
  | cons key keys ih =>
    rw [List.foldl_cons, ih, List.mem_filter, decide_eq_true_eq, List.forall_mem_cons, and_assoc]

private theorem mem_taggedIds {articleSet : ArticleSet} {tagId : Nat} {articleId : String} :
    articleId ∈ taggedIds articleSet tagId ↔ (articleId, tagId) ∈ articleSet.articleTags := by
  simp [taggedIds]

private theorem mem_conceptIds {articleSet : ArticleSet} {conceptName articleId : String} :
    articleId ∈ conceptIds articleSet conceptName ↔
      (articleId, conceptName) ∈ articleSet.articleConcepts := by
  simp [conceptIds]

/-- The title of the article matches the pattern of the search. -/
def TitleMatches (dialect : Dialect) (saved : SavedSearch) (title : String) : Prop :=
  strip saved.query.toList = [] ∨
    dialect.ilike title.toList ('%' :: (strip saved.query.toList ++ ['%'])) = true

section
variable {dialect : Dialect} {db : Db} {saved : SavedSearch}

private theorem find?_saved (hids : (db.savedSearches.map (·.id)).Nodup)
    (hsaved : saved ∈ db.savedSearches) :
    db.savedSearches.find? (fun s ↦ s.id = saved.id ∧ s.userId = saved.userId) = some saved := by
  cases hfind : db.savedSearches.find? fun s ↦ s.id = saved.id ∧ s.userId = saved.userId with
  | none => simpa using List.find?_eq_none.mp hfind saved hsaved
  | some s =>
    have hs := List.find?_some hfind
    rw [decide_eq_true_eq] at hs
    rw [Rows.eq_of_nodup hids hsaved (List.mem_of_find?_eq_some hfind) hs.1]

private theorem mem_candidateIds {articleSet : ArticleSet} {userId articleId : String} :
    articleId ∈ candidateIds dialect articleSet saved userId ↔
      ∃ article ∈ articleSet.articles, article.id = articleId ∧ article.userId = userId ∧
        TitleMatches dialect saved article.title := by
  unfold candidateIds TitleMatches
  simp only [List.mem_map, List.mem_filter, decide_eq_true_eq]
  constructor
  · rintro ⟨article, ⟨hmem, huser, htitle⟩, rfl⟩
    exact ⟨article, hmem, rfl, huser, htitle⟩
  · rintro ⟨article, hmem, rfl, huser, htitle⟩
    exact ⟨article, ⟨hmem, huser, htitle⟩, rfl⟩

/-- What an execution gives: the user's articles whose title matches, with every named tag that
exists and every named concept. -/
theorem exists_execute_eq (hids : (db.savedSearches.map (·.id)).Nodup)
    (hsaved : saved ∈ db.savedSearches) :
    ∃ ids, execute dialect db saved.id saved.userId = .ok (saved, ids) ∧ ∀ articleId,
      articleId ∈ ids ↔
        (∃ article ∈ db.articleSet.articles, article.id = articleId ∧
            article.userId = saved.userId ∧ TitleMatches dialect saved article.title) ∧
          (∀ tag ∈ db.tags, tag.userId = saved.userId → tag.name ∈ saved.tagNames →
            (articleId, tag.id) ∈ db.articleSet.articleTags) ∧
          ∀ concept ∈ saved.conceptNames, (articleId, concept) ∈ db.articleSet.articleConcepts := by
  unfold execute
  rw [find?_saved hids hsaved]
  refine ⟨_, rfl, fun articleId ↦ ?_⟩
  rw [mem_narrow, mem_narrow, mem_candidateIds, and_assoc]
  apply and_congr_right
  intro _
  apply and_congr
  · simp only [List.mem_map, List.mem_filter, decide_eq_true_eq, mem_taggedIds]
    constructor
    · intro h tag htag huser hname
      exact h tag.id ⟨tag, ⟨htag, huser, hname⟩, rfl⟩
    · rintro h tagId ⟨tag, ⟨htag, huser, hname⟩, rfl⟩
      exact h tag htag huser hname
  · simp only [mem_conceptIds]

/-- A literal text is matched by the titles that contain it. -/
theorem titleMatches_iff_contains (h : dialect.Literal (strip saved.query.toList))
    (title : String) :
    TitleMatches dialect saved title ↔
      dialect.Contains title.toList (strip saved.query.toList) := by
  unfold TitleMatches
  rw [Dialect.ilike_iff_contains h]
  refine or_iff_right_of_imp fun hempty ↦ ?_
  rw [hempty]
  exact List.nil_infix

/-- Where all named tags exist and names are unique, carrying every tag of a name is carrying a
tag of every name. -/
theorem carries_iff {tags : List Tag} (hunique : NamesUnique tags) (hexist : TagsExist saved tags)
    (carried : Nat → Prop) :
    (∀ tag ∈ tags, tag.userId = saved.userId → tag.name ∈ saved.tagNames → carried tag.id) ↔
      ∀ name ∈ saved.tagNames, ∃ tag ∈ tags, tag.userId = saved.userId ∧ tag.name = name ∧
        carried tag.id := by
  constructor
  · intro h name hname
    obtain ⟨tag, htag, huser, rfl⟩ := hexist name hname
    exact ⟨tag, htag, huser, rfl, h tag htag huser hname⟩
  · intro h tag htag huser hname
    obtain ⟨tag', htag', huser', hname', hcarried⟩ := h tag.name hname
    rwa [hunique tag htag tag' htag' (huser.trans huser'.symm) hname'.symm]

/-- With a literal text and tags that exist an execution is exact. -/
theorem exact_of_literal (hids : (db.savedSearches.map (·.id)).Nodup)
    (hsaved : saved ∈ db.savedSearches) (hunique : NamesUnique db.tags)
    (hliteral : dialect.Literal (strip saved.query.toList)) (hexist : TagsExist saved db.tags) :
    Exact dialect db saved := by
  obtain ⟨ids, hexecute, hmem⟩ := @exists_execute_eq dialect db saved hids hsaved
  refine ⟨ids, hexecute, fun articleId ↦ ?_⟩
  rw [hmem, Matches]
  simp only [titleMatches_iff_contains hliteral]
  rw [carries_iff hunique hexist fun tagId ↦ (articleId, tagId) ∈ db.articleSet.articleTags]

end

/-! ### An article that is found -/

/-- One article of the user, with a title that matches, every tag and every named concept. -/
def found (dialect : Dialect) (saved : SavedSearch) (tags : List Tag) : ArticleSet where
  articles := [⟨"a", saved.userId, String.ofList (dialect.shortest (strip saved.query.toList))⟩]
  articleTags := tags.map fun tag ↦ ("a", tag.id)
  articleConcepts := saved.conceptNames.map fun concept ↦ ("a", concept)

section
variable (dialect : Dialect) (saved : SavedSearch) (tags : List Tag)

private theorem refers_found : (found dialect saved tags).Refers tags := by
  constructor
  · exact List.nodup_singleton _
  · intro x hx
    obtain ⟨tag, htag, rfl⟩ := List.mem_map.mp hx
    exact ⟨⟨_, List.mem_singleton_self _, rfl⟩, tag, htag, rfl⟩
  · intro x hx
    obtain ⟨concept, -, rfl⟩ := List.mem_map.mp hx
    exact ⟨_, List.mem_singleton_self _, rfl⟩

variable {dialect saved tags} in
/-- An execution finds it; so if that is exact, it matches. -/
theorem matches_found {savedSearches : List SavedSearch}
    (hids : (savedSearches.map (·.id)).Nodup) (hsaved : saved ∈ savedSearches)
    (hexact : Exact dialect ⟨savedSearches, tags, found dialect saved tags⟩ saved) :
    Matches dialect saved tags (found dialect saved tags) "a" := by
  obtain ⟨ids, hexecute, hmem⟩ :=
    @exists_execute_eq dialect ⟨savedSearches, tags, found dialect saved tags⟩ saved hids hsaved
  obtain ⟨ids', hexecute', hmem'⟩ := hexact
  rw [hexecute, Except.ok.injEq, Prod.mk.injEq] at hexecute'
  rw [← hmem', ← hexecute'.2, hmem]
  refine ⟨⟨_, List.mem_singleton_self _, rfl, rfl, .inr ?_⟩, ?_, ?_⟩
  · rw [String.toList_ofList]
    exact Dialect.ilike_shortest _
  · intro tag htag _ _
    exact List.mem_map.mpr ⟨tag, htag, rfl⟩
  · intro concept hconcept
    exact List.mem_map.mpr ⟨concept, hconcept, rfl⟩

end

/-- After any requests for tags a saved search is executed exactly, whatever the articles, their
tags and their concepts are, if and only if its text is literal and the tags it names exist. -/
theorem exact_iff (dialect : Dialect) (events : List TagEvent) {savedSearches : List SavedSearch}
    (hids : (savedSearches.map (·.id)).Nodup) {saved : SavedSearch}
    (hsaved : saved ∈ savedSearches) :
    (∀ articleSet : ArticleSet, articleSet.Refers (tagsAfter events) →
        Exact dialect ⟨savedSearches, tagsAfter events, articleSet⟩ saved) ↔
      dialect.Literal (strip saved.query.toList) ∧ TagsExist saved (tagsAfter events) := by
  constructor
  · intro h
    obtain ⟨⟨article, harticle, -, -, hcontains⟩, htags, -⟩ :=
      matches_found hids hsaved (h _ (refers_found dialect saved (tagsAfter events)))
    constructor
    · rw [List.mem_singleton.mp harticle, String.toList_ofList] at hcontains
      exact Dialect.literal_of_contains_shortest hcontains
    · intro name hname
      obtain ⟨tag, htag, huser, hname', -⟩ := htags name hname
      exact ⟨tag, htag, huser, hname'⟩
  · rintro ⟨hliteral, hexist⟩ articleSet -
    exact exact_of_literal hids hsaved (namesUnique_tagsAfter events) hliteral hexist

private theorem toLower_symbol (c d : Char) (hc : c = '%' ∨ c = '_' ∨ c = '\\')
    (h : d.toLower = c.toLower) : d = c := by
  rcases hc with rfl | rfl | rfl <;> exact eq_of_toLower (by decide) h

/-- The database of a development setup: no escape, and the case of ASCII letters. -/
def sqlite : Dialect := ⟨false, Char.toLower, toLower_symbol⟩

/-- A search for a tag that was deleted since. -/
def forDeletedTag : SavedSearch := ⟨"s1", "u", "Favourites", "", some ⟨some ["fav"], none⟩⟩

def afterDeletion : List Tag := tagsAfter [.create "u" "fav", .delete 0 "u"]

/-- It finds the articles without the tag too. -/
theorem not_exact_forDeletedTag :
    let db : Db := ⟨[forDeletedTag], afterDeletion, ⟨[⟨"a", "u", "T"⟩], [], []⟩⟩
    execute sqlite db "s1" "u" = .ok (forDeletedTag, ["a"]) ∧
      ¬ Matches sqlite forDeletedTag afterDeletion db.articleSet "a" ∧
      ¬ Exact sqlite db forDeletedTag := by
  have hnot : ¬ Matches sqlite forDeletedTag afterDeletion ⟨[⟨"a", "u", "T"⟩], [], []⟩ "a" := by
    rintro ⟨-, htags, -⟩
    obtain ⟨tag, htag, -⟩ := htags "fav" (by decide)
    have hempty : afterDeletion = [] := by decide
    rw [hempty] at htag
    cases htag
  refine ⟨by decide, hnot, ?_⟩
  rintro ⟨ids, hexecute, hmem⟩
  have hids : ids = ["a"] := by
    have hsame : execute sqlite ⟨[forDeletedTag], afterDeletion, ⟨[⟨"a", "u", "T"⟩], [], []⟩⟩
        "s1" "u" = .ok (forDeletedTag, ["a"]) := by decide
    exact congrArg Prod.snd (Except.ok.inj (hexecute.symm.trans hsame))
  exact hnot ((hmem "a").mp (by rw [hids]; exact List.mem_singleton_self _))

/-- A search for a title with a tag that exists. -/
def forExistingTag : SavedSearch := ⟨"s2", "u", "Notes", " notes ", some ⟨some ["fav"], none⟩⟩

def afterCreation : List TagEvent := [.create "u" "fav"]

def oneTagged : ArticleSet := ⟨[⟨"a", "u", "My Notes"⟩, ⟨"b", "u", "Notes"⟩], [("a", 0)], []⟩

private theorem literal_forExistingTag : sqlite.Literal (strip forExistingTag.query.toList) :=
  ⟨by decide, by decide, fun h ↦ by cases h⟩

private theorem tagsExist_forExistingTag : TagsExist forExistingTag (tagsAfter afterCreation) := by
  intro name hname
  rw [List.mem_singleton.mp hname]
  exact ⟨⟨0, "u", "fav"⟩, List.mem_singleton_self _, rfl, rfl⟩

private theorem refers_oneTagged : oneTagged.Refers (tagsAfter afterCreation) := by
  refine ⟨by decide, fun x hx ↦ ?_, fun x hx ↦ by cases hx⟩
  rw [List.mem_singleton.mp hx]
  exact ⟨⟨_, List.mem_cons_self .., rfl⟩, ⟨0, "u", "fav"⟩, List.mem_singleton_self _, rfl⟩

theorem exact_forExistingTag :
    Exact sqlite ⟨[forExistingTag], tagsAfter afterCreation, oneTagged⟩ forExistingTag :=
  (@exact_iff sqlite afterCreation [forExistingTag] (List.nodup_singleton _) forExistingTag
    (List.mem_singleton_self _)).mpr ⟨literal_forExistingTag, tagsExist_forExistingTag⟩ oneTagged
    refers_oneTagged

end WikiMind.Search.SavedSearches
