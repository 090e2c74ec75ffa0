import WikiMind.Base.MarkupItems
import WikiMind.Export.Nesting
import WikiMind.Wiki.Sharing

/-!
# The page of a share link

`api/routes/sharing.py:91–266`: the template of a shared article and the texts that go into
it. All of them are escaped but the converted content.
-/

namespace WikiMind.Wiki.Sharing

open WikiMind.Base WikiMind.Base.Markup WikiMind.Export

/-- Lines of the template. -/
def templateLines (ls : List String) : List Char := ls.flatMap fun l ↦ l.toList ++ ['\n']

/-- The lines of the style sheet: `api/routes/sharing.py:99–198`. -/
def styleLines : List String :=
  ["  * \x7b margin: 0; padding: 0; box-sizing: border-box; \x7d",
   "  body \x7b",
   "    font-family: -apple-system, BlinkMacSystemFont, \"Segoe UI\", Roboto,",
   "                 \"Helvetica Neue\", Arial, sans-serif;",
   "    max-width: 800px;",
   "    margin: 0 auto;",
   "    padding: 2rem 1rem;",
   "    color: #1a1a1a;",
   "    line-height: 1.7;",
   "    font-size: 15px;",
   "    background: #fafafa;",
   "  \x7d",
   "  .header \x7b",
   "    border-bottom: 2px solid #e2e8f0;",
   "    padding-bottom: 1rem;",
   "    margin-bottom: 2rem;",
   "  \x7d",
   "  .header h1 \x7b",
   "    font-size: 2rem;",
   "    font-weight: 700;",
   "    color: #0f172a;",
   "    margin-bottom: 0.5rem;",
   "  \x7d",
   "  .header .summary \x7b",
   "    color: #64748b;",
   "    font-size: 1rem;",
   "    line-height: 1.5;",
   "  \x7d",
   "  .content h2 \x7b",
   "    font-size: 1.4rem;",
   "    margin-top: 2rem;",
   "    margin-bottom: 0.5rem;",
   "    color: #1e293b;",
   "  \x7d",
   "  .content h3 \x7b",
   "    font-size: 1.15rem;",
   "    margin-top: 1.5rem;",
   "    margin-bottom: 0.5rem;",
   "    color: #334155;",
   "  \x7d",
   "  .content p \x7b",
   "    margin-bottom: 1rem;",
   "  \x7d",
   "  .content blockquote \x7b",
   "    border-left: 4px solid #6366f1;",
   "    margin: 1rem 0;",
   "    padding: 0.75rem 1rem;",
   "    background: #f1f5f9;",
   "    border-radius: 0 4px 4px 0;",
   "  \x7d",
   "  .content code \x7b",
   "    background: #f1f5f9;",
   "    padding: 0.15rem 0.35rem;",
   "    border-radius: 4px;",
   "    font-size: 0.9em;",
   "  \x7d",
   "  .content pre \x7b",
   "    background: #f1f5f9;",
   "    padding: 1rem;",
   "    border-radius: 6px;",
   "    overflow-x: auto;",
   "    margin: 1rem 0;",
   "  \x7d",
   "  .content pre code \x7b background: none; padding: 0; \x7d",
   "  .content ul, .content ol \x7b padding-left: 1.5rem; margin-bottom: 1rem; \x7d",
   "  .content li \x7b margin-bottom: 0.3rem; \x7d",
   "  .content a \x7b color: #4f46e5; \x7d",
   "  .sources \x7b",
   "    margin-top: 3rem;",
   "    padding-top: 1.5rem;",
   "    border-top: 1px solid #e2e8f0;",
   "  \x7d",
   "  .sources h3 \x7b",
   "    font-size: 0.85rem;",
   "    text-transform: uppercase;",
   "    letter-spacing: 0.05em;",
   "    color: #94a3b8;",
   "    margin-bottom: 0.75rem;",
   "  \x7d",
   "  .sources ul \x7b list-style: none; padding: 0; \x7d",
   "  .sources li \x7b",
   "    padding: 0.5rem 0;",
   "    border-bottom: 1px solid #f1f5f9;",
   "    font-size: 0.9rem;",
   "    color: #475569;",
   "  \x7d",
   "  .sources a \x7b color: #4f46e5; text-decoration: none; \x7d",
   "  .sources a:hover \x7b text-decoration: underline; \x7d",
   "  .footer \x7b",
   "    margin-top: 3rem;",
   "    padding-top: 1rem;",
   "    border-top: 1px solid #e2e8f0;",
   "    text-align: center;",
   "    font-size: 0.8rem;",
   "    color: #94a3b8;",
   "  \x7d",
   "  @media (max-width: 640px) \x7b",
   "    body \x7b padding: 1rem 0.75rem; \x7d",
   "    .header h1 \x7b font-size: 1.5rem; \x7d",
   "  \x7d"]

def styleSheet : List Char := templateLines styleLines

/-- `_escape_html`, which is `html.escape` with quotes: `api/routes/sharing.py:218`. -/
def escapeQuoted (text : List Char) : List Char :=
  replaceChar '\'' "&#x27;" (replaceChar '"' "&quot;" (escapeHtml text))

/-- `summary_block`. -/
def summaryBlock (page : PublicArticleResponse) : List Char :=
  match page.summary.filter (· ≠ []) with
  | none => []
  | some summary => "<p class=\"summary\">".toList ++ (escapeQuoted summary ++ "</p>".toList)

/-- `src.title or "Untitled source"`. -/
def SourceResponse.shownTitle (src : SourceResponse) : List Char :=
  (src.title.filter (· ≠ [])).getD "Untitled source".toList

/-- One entry of `source_items`. -/
def sourceItem (src : SourceResponse) : List Char :=
  match src.sourceUrl.filter (· ≠ []) with
  | some url =>
    "<li><a href=\"".toList ++ (escapeQuoted url ++
      ("\" target=\"_blank\" rel=\"noopener\">".toList ++
        (escapeQuoted src.shownTitle ++ "</a></li>".toList)))
  | none => "<li>".toList ++ (escapeQuoted src.shownTitle ++ "</li>".toList)

/-- `sources_block`. -/
def sourcesBlock (sources : List SourceResponse) : List Char :=
  if sources = [] then []
  else "<div class=\"sources\"><h3>Sources</h3><ul>".toList ++
    (['\n'].intercalate (sources.map sourceItem) ++ "</ul></div>".toList)

/-- The template up to the title. -/
def beforeTitle : List Char :=
  "<!DOCTYPE html>\n<html lang=\"en\">\n<head>\n<meta charset=\"utf-8\">\n".toList ++
    ("<meta name=\"viewport\" content=\"width=device-width, initial-scale=1\">\n".toList ++
      "<title>".toList)

/-- On to the style sheet. -/
def afterTitle : List Char := " — WikiMind</title>\n<style>\n".toList

/-- On to the heading. -/
def beforeHeading : List Char :=
  "</style>\n</head>\n<body>\n<div class=\"header\">\n  <h1>".toList

/-- On to the summary. -/
def afterHeading : List Char := "</h1>\n  ".toList

/-- On to the content. -/
def beforeBody : List Char := "\n</div>\n<div class=\"content\">\n  ".toList

/-- On to the sources. -/
def afterBody : List Char := "\n</div>\n".toList

/-- The rest of the template. -/
def footer : List Char :=
  "\n<div class=\"footer\">\n  Shared from <strong>WikiMind</strong>\n</div>\n".toList ++
    "</body>\n</html>\n".toList

/-- `_PUBLIC_HTML_TEMPLATE.format(…)`: `api/routes/sharing.py:260`. -/
def publicPage (page : PublicArticleResponse) : List Char :=
  beforeTitle ++ (escapeQuoted page.title ++ (afterTitle ++ (styleSheet ++ (beforeHeading ++
    (escapeQuoted page.title ++ (afterHeading ++ (summaryBlock page ++ (beforeBody ++
      (page.contentHtml ++ (afterBody ++ (sourcesBlock page.sources ++ footer)))))))))))

/-! ### Parts of the page -/

private theorem replaceChar_append (c : Char) (new : String) (s s' : List Char) :
    replaceChar c new (s ++ s') = replaceChar c new s ++ replaceChar c new s' :=
  List.flatMap_append

private theorem replaceChar_keep {c d : Char} (h : c ≠ d) (new : String) :
    replaceChar d new [c] = [c] := by
  rw [replaceChar_cons_of_ne h]
  rfl

private theorem escapeQuoted_singleton (c : Char) : escapeQuoted [c] = escapeChar c := by
  cases hplain : isPlain c with
  | true =>
    rw [escapeChar_of_isPlain hplain]
    simp only [isPlain, Bool.and_eq_true, decide_eq_true_eq] at hplain
    obtain ⟨⟨⟨⟨hamp, hlt⟩, hgt⟩, hquote⟩, happ⟩ := hplain
    rw [escapeQuoted, escapeHtml, replaceChar_keep hamp, replaceChar_keep hlt,
      replaceChar_keep hgt, replaceChar_keep hquote, replaceChar_keep happ]
  | false =>
    rcases not_isPlain hplain with rfl | rfl | rfl | rfl | rfl
    · decide
    · decide
    · decide
    · decide
    · decide

/-- The replacements one after the other replace each character by its reference. -/
theorem escapeQuoted_eq (text : List Char) : escapeQuoted text = text.flatMap escapeChar := by
  induction text with
  | nil => rfl
  | cons c text ih =>
    have hsplit : escapeQuoted (c :: text) = escapeQuoted [c] ++ escapeQuoted text := by
      rw [← List.singleton_append]
      simp only [escapeQuoted, escapeHtml, replaceChar_append]
    rw [hsplit, ih, escapeQuoted_singleton, List.flatMap_cons]

private theorem unescape_escapeQuoted (text : List Char) : unescape (escapeQuoted text) = text := by
  rw [escapeQuoted_eq, unescape_escape]

private theorem escapeQuoted_no_lt (text : List Char) : '<' ∉ escapeQuoted text := by
  rw [escapeQuoted_eq]
  exact not_mem_escape (by decide) text

private theorem escapeQuoted_no_quote (text : List Char) : '"' ∉ escapeQuoted text := by
  rw [escapeQuoted_eq]
  exact not_mem_escape (by decide) text

/-- The body of the link of a source. -/
def linkBody (url : List Char) : List Char :=
  "a href=".toList ++
    '"' :: (escapeQuoted url ++ '"' :: " target=\"_blank\" rel=\"noopener\"".toList)

/-- The body of the tag around the title of a source. -/
def SourceResponse.titleBody (src : SourceResponse) : List Char :=
  match src.sourceUrl.filter (· ≠ []) with
  | some url => linkBody url
  | none => "li".toList

private theorem endsQuote_linkBody (url : List Char) : endsQuote false (linkBody url) = true := by
  unfold linkBody
  rw [endsQuote_attribute (by decide) (by decide) (escapeQuoted_no_quote url)]
  decide

private theorem name_linkBody (url : List Char) : (linkBody url).takeWhile (· ≠ ' ') = ['a'] := by
  rfl

/-- A converted content is read to its end. -/
theorem closed_safe {w : List Char} (hw : w ∈ safeHtml ignoreCase) : Closed w := by
  obtain ⟨pieces, rfl, hpieces⟩ := Language.mem_kstar.mp hw
  clear hw
  induction pieces with
  | nil => exact closed_nil
  | cons a pieces ih =>
    rw [List.flatten_cons]
    refine Closed.append ?_ (ih fun b hb ↦ hpieces b (List.mem_cons_of_mem _ hb))
    rcases hpieces a List.mem_cons_self with (⟨c, hc, rfl⟩ | htag) | ⟨href, hhref, rfl⟩
    · exact (closed_of_no_lt (by simpa using hc.symm)).1
    · have hall : ∀ tag ∈ fixedTags, endsOutside .text tag = true := by decide
      exact closed_of_endsOutside (hall a htag)
    · have hbody : endsQuote false ("a href=".toList ++ '"' :: (href ++ '"' :: [])) = true := by
        rw [endsQuote_attribute (by decide) (by decide) hhref.unquoted]
        rfl
      have hwritten : linkTag href =
          [Item.tag ("a href=".toList ++ '"' :: (href ++ '"' :: []))].flatMap Item.write := by
        have hstart : "<a href=\"".toList = '<' :: ("a href=".toList ++ ['"']) := by decide
        have hlink := linkTag_append href []
        rw [List.append_nil] at hlink
        rw [hlink, hstart, List.flatMap_singleton, Item.write]
        simp only [List.cons_append, List.append_assoc, List.nil_append]
      rw [hwritten]
      exact (closed_write (fun c hc ↦ by simp at hc) fun b hb ↦ by
        rw [List.mem_singleton, Item.tag.injEq] at hb
        rw [hb]
        exact hbody).1

private theorem styleSheet_no_lt : '<' ∉ styleSheet := by
  have hlines : ∀ l ∈ styleLines, '<' ∉ l.toList := by
    simp only [styleLines, List.forall_mem_cons]
    and_intros
    all_goals first
      | rw [String.toList_ofList]; decide
      | exact fun _ h ↦ nomatch h
  intro hmem
  obtain ⟨l, hl, hc⟩ := List.mem_flatMap.mp hmem
  rcases List.mem_append.mp hc with hc | hc
  · exact hlines l hl hc
  · exact absurd (List.mem_singleton.mp hc) (by decide)

/-- A text of the template ends outside of its tags, and has these tags. -/
def Fixed (w : List Char) (tags : List (List Char)) : Prop :=
  endsOutside .text w = true ∧ tagsOf w = tags

/-- The tags of each text of the template. -/
@[mk_iff]
structure FixedTemplate : Prop where
  beforeTitle : Fixed beforeTitle ["!DOCTYPE html".toList, "html lang=\"en\"".toList,
    "head".toList, "meta charset=\"utf-8\"".toList,
    "meta name=\"viewport\" content=\"width=device-width, initial-scale=1\"".toList,
    "title".toList]
  afterTitle : Fixed afterTitle ["/title".toList, "style".toList]
  beforeHeading : Fixed beforeHeading ["/style".toList, "/head".toList, "body".toList,
    "div class=\"header\"".toList, "h1".toList]
  afterHeading : Fixed afterHeading ["/h1".toList]
  beforeBody : Fixed beforeBody ["/div".toList, "div class=\"content\"".toList]
  afterBody : Fixed afterBody ["/div".toList]
  footer : Fixed footer ["div class=\"footer\"".toList, "strong".toList, "/strong".toList,
    "/div".toList, "/body".toList, "/html".toList]
  openItem : Fixed "<li>".toList ["li".toList]
  closeItem : Fixed "</li>".toList ["/li".toList]
  openSources : Fixed "<div class=\"sources\"><h3>Sources</h3><ul>".toList
    ["div class=\"sources\"".toList, "h3".toList, "/h3".toList, "ul".toList]
  closeSources : Fixed "</ul></div>".toList ["/ul".toList, "/div".toList]

private theorem fixed_template : FixedTemplate := by
  rw [fixedTemplate_iff]
  unfold Fixed beforeTitle afterTitle beforeHeading afterHeading beforeBody afterBody footer
  repeat rw [String.toList_ofList]
  decide +kernel

/-- The tags of a source. -/
def SourceResponse.tags (src : SourceResponse) : List (List Char) :=
  match src.sourceUrl.filter (· ≠ []) with
  | some url => ["li".toList, linkBody url, "/a".toList, "/li".toList]
  | none => ["li".toList, "/li".toList]

/-- The tags of the sources block. -/
def sourcesTags (sources : List SourceResponse) : List (List Char) :=
  if sources = [] then []
  else ["div class=\"sources\"".toList, "h3".toList, "/h3".toList, "ul".toList] ++
    (sources.flatMap SourceResponse.tags ++ ["/ul".toList, "/div".toList])

/-- The tags of the summary block. -/
def summaryTags (page : PublicArticleResponse) : List (List Char) :=
  if page.summary.all (· = []) then [] else ["p class=\"summary\"".toList, "/p".toList]

/-- The tags of a page: those of the template, of its content, and two or four for a source. -/
def pageTags (page : PublicArticleResponse) : List (List Char) :=
  ["!DOCTYPE html".toList, "html lang=\"en\"".toList, "head".toList,
    "meta charset=\"utf-8\"".toList,
    "meta name=\"viewport\" content=\"width=device-width, initial-scale=1\"".toList,
    "title".toList] ++
  (["/title".toList, "style".toList] ++
    (["/style".toList, "/head".toList, "body".toList, "div class=\"header\"".toList,
      "h1".toList] ++
      (["/h1".toList] ++ (summaryTags page ++
        (["/div".toList, "div class=\"content\"".toList] ++ (tagsOf page.contentHtml ++
          (["/div".toList] ++ (sourcesTags page.sources ++
            ["div class=\"footer\"".toList, "strong".toList, "/strong".toList, "/div".toList,
              "/body".toList, "/html".toList]))))))))

/-- An entry is an element around the title, or an item around such an element. -/
theorem sourceItem_eq (src : SourceResponse) :
    (∃ url, src.sourceUrl.filter (· ≠ []) = some url ∧
      sourceItem src = "<li>".toList ++ ((elementItems (linkBody url)
        (escapeQuoted src.shownTitle)).flatMap Item.write ++ "</li>".toList)) ∨
    (src.sourceUrl.filter (· ≠ []) = none ∧ sourceItem src =
      (elementItems "li".toList (escapeQuoted src.shownTitle)).flatMap Item.write) := by
  unfold sourceItem
  cases src.sourceUrl.filter (· ≠ []) with
  | none =>
    refine .inr ⟨rfl, ?_⟩
    have hopen : "<li>".toList = '<' :: ("li".toList ++ ['>']) := by decide
    have hclose : "</li>".toList = '<' :: '/' :: ("li".toList ++ ['>']) := by decide
    have hname : "li".toList.takeWhile (· ≠ ' ') = "li".toList := by decide
    dsimp only
    rw [write_elementItems, hname, hopen, hclose]
    simp only [List.cons_append, List.append_assoc, List.nil_append]
  | some url =>
    refine .inl ⟨url, rfl, ?_⟩
    have hopen : "<li><a href=\"".toList = "<li>".toList ++ '<' :: ("a href=".toList ++ ['"']) := by
      decide
    have hmiddle : "\" target=\"_blank\" rel=\"noopener\">".toList =
        '"' :: (" target=\"_blank\" rel=\"noopener\"".toList ++ ['>']) := by
      decide
    have hclose : "</a></li>".toList = '<' :: '/' :: (['a'] ++ '>' :: "</li>".toList) := by decide
    have helement := write_elementItems (linkBody url) (escapeQuoted src.shownTitle)
    rw [name_linkBody] at helement
    rw [helement]
    unfold linkBody
    dsimp only
    rw [hopen, hmiddle, hclose]
    simp only [List.cons_append, List.append_assoc, List.nil_append]

private theorem endsQuote_li : endsQuote false "li".toList = true ∧
    endsQuote false ('/' :: "li".toList.takeWhile (· ≠ ' ')) = true := by
  decide

/-- The entry of a source is read to its end, has the tags of the source and shows its title. -/
theorem sourceItem_read (src : SourceResponse) :
    Closed (sourceItem src) ∧ tagsOf (sourceItem src) = src.tags ∧
      Shows unescape (sourceItem src) src.titleBody src.shownTitle := by
  have hli := closed_of_endsOutside fixed_template.openItem.1
  have hend := closed_of_endsOutside fixed_template.closeItem.1
  have htitle := escapeQuoted_no_lt src.shownTitle
  rcases sourceItem_eq src with ⟨url, hurl, heq⟩ | ⟨hurl, heq⟩
  · have hname : endsQuote false ('/' :: (linkBody url).takeWhile (· ≠ ' ')) = true := by
      rw [name_linkBody]
      rfl
    obtain ⟨helement, -⟩ := closed_element (endsQuote_linkBody url) hname htitle
    have hbody : src.titleBody = linkBody url := by simp only [SourceResponse.titleBody, hurl]
    have hshows := shows_element unescape (endsQuote_linkBody url) hname htitle
    rw [unescape_escapeQuoted] at hshows
    rw [heq, hbody]
    refine ⟨hli.append (helement.append hend), ?_,
      (hshows.append_right helement _).append_left hli⟩
    rw [tagsOf_append hli, tagsOf_append helement,
      tagsOf_element (endsQuote_linkBody url) hname htitle, fixed_template.openItem.2,
      fixed_template.closeItem.2, name_linkBody]
    simp only [SourceResponse.tags, hurl]
    rfl
  · obtain ⟨helement, -⟩ := closed_element endsQuote_li.1 endsQuote_li.2 htitle
    have hbody : src.titleBody = "li".toList := by simp only [SourceResponse.titleBody, hurl]
    have hshows := shows_element unescape endsQuote_li.1 endsQuote_li.2 htitle
    rw [unescape_escapeQuoted] at hshows
    rw [heq, hbody]
    refine ⟨helement, ?_, hshows⟩
    have hname : '/' :: "li".toList.takeWhile (· ≠ ' ') = "/li".toList := by decide
    rw [tagsOf_element endsQuote_li.1 endsQuote_li.2 htitle, hname]
    simp only [SourceResponse.tags, hurl]

/-- The summary, if there is one, is read to its end and shown as it is. -/
theorem summaryBlock_read (page : PublicArticleResponse) :
    Closed (summaryBlock page) ∧ tagsOf (summaryBlock page) = summaryTags page ∧
      ∀ summary, page.summary = some summary → summary ≠ [] →
        Shows unescape (summaryBlock page) "p class=\"summary\"".toList summary := by
  unfold summaryBlock summaryTags
  cases hsummary : page.summary with
  | none => exact ⟨closed_nil, rfl, fun _ h ↦ nomatch h⟩
  | some summary =>
    by_cases hempty : summary = []
    · subst hempty
      exact ⟨closed_nil, rfl, fun s h hne ↦ absurd (Option.some.inj h).symm hne⟩
    · have hbody : endsQuote false "p class=\"summary\"".toList = true ∧
          endsQuote false ('/' :: "p class=\"summary\"".toList.takeWhile (· ≠ ' ')) = true := by
        decide
      have hname : '/' :: "p class=\"summary\"".toList.takeWhile (· ≠ ' ') = "/p".toList := by
        decide
      have htext := escapeQuoted_no_lt summary
      have hopen : "<p class=\"summary\">".toList =
          '<' :: ("p class=\"summary\"".toList ++ ['>']) := by decide
      have hclose : "</p>".toList =
          '<' :: '/' :: ("p class=\"summary\"".toList.takeWhile (· ≠ ' ') ++ ['>']) := by decide
      have hwritten : "<p class=\"summary\">".toList ++ (escapeQuoted summary ++ "</p>".toList) =
          (elementItems "p class=\"summary\"".toList (escapeQuoted summary)).flatMap
            Item.write := by
        rw [write_elementItems, hopen, hclose]
        simp only [List.cons_append, List.append_assoc, List.nil_append]
      have hfilter : (some summary).filter (fun s ↦ decide (s ≠ [])) = some summary := by
        simp [hempty]
      rw [hfilter]
      dsimp only
      rw [hwritten]
      refine ⟨(closed_element hbody.1 hbody.2 htext).1, ?_, fun s h _ ↦ ?_⟩
      · rw [tagsOf_element hbody.1 hbody.2 htext, hname, if_neg (by simpa using hempty)]
      · cases h
        have hshows := shows_element unescape hbody.1 hbody.2 htext
        rwa [unescape_escapeQuoted] at hshows

/-- The sources are read to their end, and each title is shown as it is. -/
theorem sourcesBlock_read (sources : List SourceResponse) :
    Closed (sourcesBlock sources) ∧ tagsOf (sourcesBlock sources) = sourcesTags sources ∧
      ∀ src ∈ sources, Shows unescape (sourcesBlock sources) src.titleBody src.shownTitle := by
  unfold sourcesBlock sourcesTags
  by_cases hempty : sources = []
  · subst hempty
    exact ⟨closed_nil, rfl, fun _ h ↦ nomatch h⟩
  · rw [if_neg hempty, if_neg hempty]
    have hopen := closed_of_endsOutside fixed_template.openSources.1
    have hclose := closed_of_endsOutside fixed_template.closeSources.1
    have hnewline : Closed ['\n'] := (closed_of_no_lt (by decide)).1
    have hitems : ∀ part ∈ sources.map sourceItem, Closed part := by
      intro part hpart
      obtain ⟨src, -, rfl⟩ := List.mem_map.mp hpart
      exact (sourceItem_read src).1
    have hjoined := closed_intercalate hnewline hitems
    have htags : (sources.map sourceItem).flatMap tagsOf = sources.flatMap SourceResponse.tags := by
      rw [List.flatMap_map]
      exact List.flatMap_congr fun src _ ↦ (sourceItem_read src).2.1
    refine ⟨hopen.append (hjoined.append hclose), ?_, fun src hsrc ↦ ?_⟩
    · rw [tagsOf_append hopen, tagsOf_append hjoined, tagsOf_intercalate (by decide) hitems, htags,
        fixed_template.openSources.2, fixed_template.closeSources.2]
    · exact ((Shows.intercalate hnewline hitems (List.mem_map_of_mem hsrc)
        (sourceItem_read src).2.2).append_right hjoined _).append_left hopen

/-! ### The page -/

section Page
variable (page : PublicArticleResponse)

private theorem tagsOf_publicPage (hcontent : Closed page.contentHtml) :
    tagsOf (publicPage page) = pageTags page := by
  have htitle := escapeQuoted_no_lt page.title
  obtain ⟨hsummary, hsummaryTags, -⟩ := summaryBlock_read page
  obtain ⟨hsources, hsourcesTags, -⟩ := sourcesBlock_read page.sources
  unfold publicPage pageTags
  rw [tagsOf_append (closed_of_endsOutside fixed_template.beforeTitle.1),
    fixed_template.beforeTitle.2, tagsOf_append (closed_of_no_lt htitle).1,
    tagsOf_of_no_lt htitle, List.nil_append,
    tagsOf_append (closed_of_endsOutside fixed_template.afterTitle.1),
    fixed_template.afterTitle.2, tagsOf_append (closed_of_no_lt styleSheet_no_lt).1,
    tagsOf_of_no_lt styleSheet_no_lt, List.nil_append,
    tagsOf_append (closed_of_endsOutside fixed_template.beforeHeading.1),
    fixed_template.beforeHeading.2, tagsOf_append (closed_of_no_lt htitle).1,
    tagsOf_of_no_lt htitle, List.nil_append,
    tagsOf_append (closed_of_endsOutside fixed_template.afterHeading.1),
    fixed_template.afterHeading.2, tagsOf_append hsummary, hsummaryTags,
    tagsOf_append (closed_of_endsOutside fixed_template.beforeBody.1),
    fixed_template.beforeBody.2, tagsOf_append hcontent,
    tagsOf_append (closed_of_endsOutside fixed_template.afterBody.1),
    fixed_template.afterBody.2, tagsOf_append hsources, hsourcesTags, fixed_template.footer.2]

/-- The template up to the first tag that is filled in. -/
def documentHead : List Char :=
  "<!DOCTYPE html>\n<html lang=\"en\">\n<head>\n<meta charset=\"utf-8\">\n".toList ++
    "<meta name=\"viewport\" content=\"width=device-width, initial-scale=1\">\n".toList

private theorem closed_documentHead : Closed documentHead := by
  unfold documentHead
  repeat rw [String.toList_ofList]
  exact closed_of_endsOutside (by decide +kernel)

/-- The title is shown in the title of the page. -/
theorem shows_title :
    Shows unescape (publicPage page) "title".toList (page.title ++ " — WikiMind".toList) := by
  have hbody : endsQuote false "title".toList = true ∧
      endsQuote false ('/' :: "title".toList.takeWhile (· ≠ ' ')) = true := by decide
  have hwritten : '<' ∉ escapeQuoted page.title ++ " — WikiMind".toList := by
    rw [List.mem_append, not_or]
    exact ⟨escapeQuoted_no_lt page.title, by decide⟩
  have hopen : "<title>".toList = '<' :: ("title".toList ++ ['>']) := by decide
  have hclose : afterTitle = " — WikiMind".toList ++
      '<' :: '/' :: ("title".toList.takeWhile (· ≠ ' ') ++ '>' :: "\n<style>\n".toList) := by
    decide
  have hshown : unescape (escapeQuoted page.title ++ " — WikiMind".toList) =
      page.title ++ " — WikiMind".toList := by
    rw [escapeQuoted_eq, unescape_append]
    congr 1
  have hshows := shows_between unescape closed_documentHead hbody.1 hbody.2 hwritten
    ("\n<style>\n".toList ++ (styleSheet ++ (beforeHeading ++ (escapeQuoted page.title ++
      (afterHeading ++ (summaryBlock page ++ (beforeBody ++ (page.contentHtml ++
        (afterBody ++ (sourcesBlock page.sources ++ footer))))))))))
  rw [hshown] at hshows
  unfold publicPage beforeTitle
  rw [hclose, hopen]
  unfold documentHead at hshows
  simpa only [List.append_assoc, List.cons_append, List.nil_append] using hshows

/-- The title is shown in the heading of the page. -/
theorem shows_heading : Shows unescape (publicPage page) "h1".toList page.title := by
  have hbody : endsQuote false "h1".toList = true ∧
      endsQuote false ('/' :: "h1".toList.takeWhile (· ≠ ' ')) = true := by decide
  have hopen : beforeHeading = "</style>\n</head>\n<body>\n<div class=\"header\">\n  ".toList ++
      '<' :: ("h1".toList ++ ['>']) := by
    unfold beforeHeading
    repeat rw [String.toList_ofList]
    decide +kernel
  have hclose : afterHeading =
      '<' :: '/' :: ("h1".toList.takeWhile (· ≠ ' ') ++ '>' :: "\n  ".toList) := by decide
  have hbefore : Closed "</style>\n</head>\n<body>\n<div class=\"header\">\n  ".toList := by
    repeat rw [String.toList_ofList]
    exact closed_of_endsOutside (by decide +kernel)
  have htitle := escapeQuoted_no_lt page.title
  have hpre := (closed_of_endsOutside fixed_template.beforeTitle.1).append
    ((closed_of_no_lt htitle).1.append
      ((closed_of_endsOutside fixed_template.afterTitle.1).append
        ((closed_of_no_lt styleSheet_no_lt).1.append hbefore)))
  have hshows := shows_between unescape hpre hbody.1 hbody.2 htitle
    ("\n  ".toList ++ (summaryBlock page ++ (beforeBody ++ (page.contentHtml ++
      (afterBody ++ (sourcesBlock page.sources ++ footer))))))
  rw [unescape_escapeQuoted] at hshows
  unfold publicPage
  rw [hclose, hopen]
  simpa only [List.append_assoc, List.cons_append, List.nil_append] using hshows

/-- What stands above the summary is read to its end. -/
theorem closed_upToSummary :
    Closed (beforeTitle ++ (escapeQuoted page.title ++ (afterTitle ++ (styleSheet ++
      (beforeHeading ++ (escapeQuoted page.title ++ afterHeading)))))) :=
  have htitle := (closed_of_no_lt (escapeQuoted_no_lt page.title)).1
  (closed_of_endsOutside fixed_template.beforeTitle.1).append (htitle.append
    ((closed_of_endsOutside fixed_template.afterTitle.1).append
      ((closed_of_no_lt styleSheet_no_lt).1.append
        ((closed_of_endsOutside fixed_template.beforeHeading.1).append
          (htitle.append (closed_of_endsOutside fixed_template.afterHeading.1))))))

/-- The summary is shown above the content. -/
theorem shows_summary {summary : List Char} (hsummary : page.summary = some summary)
    (hne : summary ≠ []) :
    Shows unescape (publicPage page) "p class=\"summary\"".toList summary := by
  obtain ⟨hclosed, -, hshown⟩ := summaryBlock_read page
  have hshows := ((hshown summary hsummary hne).append_right hclosed (beforeBody ++
    (page.contentHtml ++ (afterBody ++ (sourcesBlock page.sources ++ footer))))).append_left
    (closed_upToSummary page)
  unfold publicPage
  simpa only [List.append_assoc] using hshows

/-- The title of each source is shown below a content that is read to its end. -/
theorem shows_source (hcontent : Closed page.contentHtml) {src : SourceResponse}
    (hsrc : src ∈ page.sources) :
    Shows unescape (publicPage page) src.titleBody src.shownTitle := by
  obtain ⟨hsources, -, hshown⟩ := sourcesBlock_read page.sources
  have hpre := (closed_upToSummary page).append ((summaryBlock_read page).1.append
    ((closed_of_endsOutside fixed_template.beforeBody.1).append
      (hcontent.append (closed_of_endsOutside fixed_template.afterBody.1))))
  have hshows := ((hshown src hsrc).append_right hsources footer).append_left hpre
  unfold publicPage
  simpa only [List.append_assoc] using hshows

end Page

private theorem closed_response (isdigit : Char → Bool) (pages : Pages) (article : Article) :
    Closed (pages.response isdigit article).contentHtml :=
  closed_safe (contentHtml_safe isdigit
    (some (pages.readArticleContent article.filePath article.userId)))

/-- The page of a share link has the tags of the template, of the converter, and of its sources,
whatever texts the article and its sources carry: no title, summary or address adds a tag or
ends an attribute, and the address in the link of a source is read as the address. -/
theorem publicPage_tags (isdigit : Char → Bool) (pages : Pages) (article : Article) :
    tagsOf (publicPage (pages.response isdigit article)) =
        pageTags (pages.response isdigit article) ∧
      ∀ url, '"' ∉ escapeQuoted url ∧ unescape (escapeQuoted url) = url :=
  ⟨tagsOf_publicPage _ (closed_response isdigit pages article),
    fun url ↦ ⟨escapeQuoted_no_quote url, unescape_escapeQuoted url⟩⟩

/-- A reader of the page of a share link sees the title of the article in the page's title and in
its heading, its summary when it has one, and the title of each of its sources, each character as
it is stored. -/
theorem publicPage_shows (isdigit : Char → Bool) (pages : Pages) (article : Article) :
    let page := pages.response isdigit article
    Shows unescape (publicPage page) "title".toList (page.title ++ " — WikiMind".toList) ∧
      Shows unescape (publicPage page) "h1".toList page.title ∧
      (∀ summary, page.summary = some summary → summary ≠ [] →
        Shows unescape (publicPage page) "p class=\"summary\"".toList summary) ∧
      ∀ src ∈ page.sources, Shows unescape (publicPage page) src.titleBody src.shownTitle :=
  ⟨shows_title _, shows_heading _, fun _ hsummary hne ↦ shows_summary _ hsummary hne,
    fun _ hsrc ↦ shows_source _ (closed_response isdigit pages article) hsrc⟩

end WikiMind.Wiki.Sharing
