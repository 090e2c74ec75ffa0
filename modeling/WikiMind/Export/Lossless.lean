import WikiMind.Base.Rows
import WikiMind.Export.Zip

/-!
# What an export loses

An entry keeps the body of an article if stripping its file gives the body: no line of the
frontmatter looks like its end, and a file without frontmatter does not look as if it had
one. Two articles whose titles give the same name share an entry. In the frontmatter of an
export a concept stands as it is, so a line break in it breaks the line.
-/

namespace WikiMind.Export

open WikiMind.Base

/-- The line at both ends of a frontmatter. -/
def fence : List Char := "---".toList

/-- Stripping the file gives its body: no line of the frontmatter ends it early, and a file
without frontmatter has no text that looks like one. -/
def StoredFile.Clean (file : StoredFile) : Prop :=
  match file.frontmatter with
  | some lines => ∀ line ∈ lines, line.text ≠ fence
  | none => ¬ (startsWith file.body "---" ∧ occursIn "\n---\n".toList (file.body.drop 3))

section Strip

private theorem stripFrontmatter_of_fence {content : List Char} (h : startsWith content "---") :
    stripFrontmatter content =
      (afterFirst "\n---\n".toList (content.drop 3)).getD content := by
  unfold stripFrontmatter afterFirst
  rw [if_pos h]
  cases find "\n---\n".toList (content.drop 3) with
  | none => rfl
  | some i =>
    simp only [Option.map_some, Option.getD_some, List.drop_drop]
    congr 1
    have hlength : "\n---\n".toList.length = 5 := by decide
    omega

/-- What stripping leaves of lines and a rest: the text behind the first fence. -/
def behindFence (rest : List Char) : List Line → List Char
  | [] => rest
  | line :: lines =>
    if line.text = fence then lines.flatMap (·.text ++ ['\n']) ++ ("---\n".toList ++ rest)
    else behindFence rest lines

private theorem afterFirst_lines (lines : List Line) (rest : List Char) :
    afterFirst "\n---\n".toList
        ('\n' :: (lines.flatMap (·.text ++ ['\n']) ++ ("---\n".toList ++ rest))) =
      some (behindFence rest lines) := by
  have hpattern : "\n---\n".toList = '\n' :: (fence ++ ['\n']) := by decide
  have hend : "---\n".toList = fence ++ ['\n'] := by decide
  induction lines with
  | nil =>
    have happend : '\n' :: (fence ++ ['\n'] ++ rest) = '\n' :: (fence ++ ['\n']) ++ rest := rfl
    rw [List.flatMap_nil, List.nil_append, hpattern, hend, happend, afterFirst_prefix (by simp)]
    rfl
  | cons line lines ih =>
    rw [List.flatMap_cons, List.append_assoc, List.append_assoc, List.singleton_append, behindFence]
    generalize hmore : lines.flatMap (·.text ++ ['\n']) ++ ("---\n".toList ++ rest) = more at ih ⊢
    by_cases hline : line.text = fence
    · rw [if_pos hline, hline, hpattern]
      have happend : '\n' :: (fence ++ '\n' :: more) = '\n' :: (fence ++ ['\n']) ++ more := by simp
      rw [happend, afterFirst_prefix (by simp)]
    · rw [if_neg hline, hpattern, afterFirst_cons, afterFirst_append line.oneLine, ← hpattern, ih]
      rintro ⟨tail, htail⟩
      have hfence : '\n' ∉ fence := by decide
      rw [List.cons_append, List.append_assoc, List.singleton_append] at htail
      have heq := congrArg (List.splitOn '\n') (List.cons.inj htail).2
      rw [List.splitOn_append_cons_self_of_not_mem hfence,
        List.splitOn_append_cons_self_of_not_mem line.oneLine] at heq
      exact hline (List.cons.inj heq).1.symm

private theorem behindFence_eq_iff (rest : List Char) (lines : List Line) :
    behindFence rest lines = rest ↔ ∀ line ∈ lines, line.text ≠ fence := by
  induction lines with
  | nil => simp [behindFence]
  | cons line lines ih =>
    rw [behindFence, List.forall_mem_cons]
    split
    · next hline =>
      constructor
      · intro heq
        have hlength := congrArg List.length heq
        rw [List.length_append, List.length_append] at hlength
        have hend : "---\n".toList.length = 4 := by decide
        omega
      · intro h
        exact absurd hline h.1
    · next hline =>
      rw [ih]
      exact ⟨fun h ↦ ⟨hline, h⟩, fun h ↦ h.2⟩

/-- Stripping a file gives its body exactly for clean files. -/
theorem stripFrontmatter_content_iff (file : StoredFile) :
    stripFrontmatter file.content = file.body ↔ file.Clean := by
  obtain ⟨frontmatter, body⟩ := file
  cases frontmatter with
  | some lines =>
    have hsplit : StoredFile.content ⟨some lines, body⟩ = fence ++ '\n' ::
        (lines.flatMap (·.text ++ ['\n']) ++ ("---\n".toList ++ body)) := by
      have hend : "---\n".toList = fence ++ ['\n'] := by decide
      simp only [StoredFile.content, hend, List.append_assoc, List.singleton_append]
    have hstart : startsWith (StoredFile.content ⟨some lines, body⟩) "---" :=
      List.isPrefixOf_iff_prefix.mpr ⟨_, hsplit.symm⟩
    rw [stripFrontmatter_of_fence hstart, hsplit, List.drop_left' (by decide), afterFirst_lines,
      Option.getD_some]
    exact behindFence_eq_iff body lines
  | none =>
    change stripFrontmatter body = body ↔ ¬ (startsWith body "---" ∧ _)
    by_cases hstart : startsWith body "---"
    · rw [stripFrontmatter_of_fence hstart]
      cases hafter : afterFirst "\n---\n".toList (body.drop 3) with
      | none =>
        rw [afterFirst_eq_none] at hafter
        rw [hafter]
        simp
      | some rest =>
        have hoccurs : occursIn "\n---\n".toList (body.drop 3) = true := by
          rw [← Bool.not_eq_false, ← afterFirst_eq_none, hafter]
          simp
        have hlt : rest.length < body.length := by
          obtain ⟨tail, htail⟩ := List.isPrefixOf_iff_prefix.mp hstart
          have hlength := length_le_of_afterFirst hafter
          rw [List.length_drop] at hlength
          have hbody := congrArg List.length htail
          rw [List.length_append] at hbody
          have hfence : "---".toList.length = 3 := by decide
          omega
        constructor
        · intro heq
          rw [Option.getD_some] at heq
          rw [heq] at hlt
          exact absurd hlt (Nat.lt_irrefl _)
        · intro h
          exact absurd ⟨hstart, hoccurs⟩ h
    · simp [stripFrontmatter, hstart]

example : stripFrontmatter "---\nOne\n---\nTwo".toList = "Two".toList := by decide

end Strip

/-- The values of a frontmatter, read back. -/
structure ObsidianMetadata where
  title : Option (List Char)
  slug : Option (List Char)
  pageType : Option (List Char)
  confidence : Option (List Char)
  confidenceScore : Option (List Char)
  summary : Option (List Char)
  createdAt : Option (List Char)
  updatedAt : Option (List Char)
  concepts : List (List Char)
  deriving DecidableEq, Repr

/-- The value of the first line with a key. -/
def valueOf (key : String) (lines : List (List Char)) : Option (List Char) :=
  (lines.find? ((field key []).isPrefixOf ·)).map (·.drop (field key []).length)

/-- The item on a line of a list. -/
def itemOf (line : List Char) : Option (List Char) :=
  if startsWith line "  - " then some (line.drop 4) else none

def readMetadata (lines : List (List Char)) : ObsidianMetadata where
  title := (valueOf "title" lines).bind JsonString.loads
  slug := valueOf "slug" lines
  pageType := valueOf "page_type" lines
  confidence := valueOf "confidence" lines
  confidenceScore := valueOf "confidence_score" lines
  summary := (valueOf "summary" lines).bind JsonString.loads
  createdAt := valueOf "created_at" lines
  updatedAt := valueOf "updated_at" lines
  concepts := lines.filterMap itemOf

/-- Read an entry for Obsidian: the lines between two fences, an empty line and the body. -/
def readObsidian (content : List Char) : Option (ObsidianMetadata × List Char) :=
  match content.splitOn '\n' with
  | [] => none
  | first :: lines =>
    if first = fence then
      match lines.dropWhile (· ≠ fence) with
      | _ :: _ :: body =>
        some (readMetadata (lines.takeWhile (· ≠ fence)), ['\n'].intercalate body)
      | _ => none
    else none

/-- What the frontmatter of an article says. -/
def obsidianMetadata (article : Article) (concepts : List (List Char)) : ObsidianMetadata where
  title := some article.title
  slug := some article.slug.text
  pageType := some article.pageType.value.toList
  confidence := article.confidence.map fun confidence ↦ (confidenceValue confidence).toList
  confidenceScore := some article.confidenceScore.text
  summary := article.summary.filter (· ≠ [])
  createdAt := some article.createdAt.text
  updatedAt := some article.updatedAt.text
  concepts := concepts

section Obsidian

/-- The keys of the frontmatter. -/
def keys : List String :=
  ["title", "slug", "page_type", "confidence", "confidence_score", "summary", "created_at",
    "updated_at"]

/-- The fields of the frontmatter, in order. -/
def fields (article : Article) : List (String × List Char) :=
  [("title", JsonString.dumps article.title), ("slug", article.slug.text),
    ("page_type", article.pageType.value.toList)] ++
  ((article.confidence.map fun confidence ↦
    ("confidence", (confidenceValue confidence).toList)).toList ++
  (("confidence_score", article.confidenceScore.text) ::
  (((article.summary.filter (· ≠ [])).map fun summary ↦
    ("summary", JsonString.dumps summary)).toList ++
  [("created_at", article.createdAt.text), ("updated_at", article.updatedAt.text)])))

/-- The lines of the concepts. -/
def tagLines (concepts : List (List Char)) : List (List Char) :=
  if concepts = [] then [] else "tags:".toList :: concepts.map ("  - ".toList ++ ·)

/-- The lines between the fences. -/
def block (article : Article) (concepts : List (List Char)) : List (List Char) :=
  (fields article).map (fun f ↦ field f.1 f.2) ++ tagLines concepts

private theorem buildObsidianFrontmatter_eq (article : Article) (concepts : List (List Char)) :
    buildObsidianFrontmatter article concepts =
      ['\n'].intercalate (fence :: (block article concepts ++ [fence])) ++ ['\n', '\n'] := by
  unfold buildObsidianFrontmatter block fields tagLines
  cases article.confidence with
  | none =>
    cases article.summary.filter (· ≠ []) with
    | none => rfl
    | some summary => rfl
  | some confidence =>
    cases article.summary.filter (· ≠ []) with
    | none => rfl
    | some summary => rfl

private theorem not_prefix_append {a b : List Char} (h : ¬ a <+: b) (h' : ¬ b <+: a)
    (v : List Char) :
    ¬ a <+: b ++ v := by
  intro hstarts
  obtain hab | hba := List.prefix_or_prefix_of_prefix hstarts (List.prefix_append b v)
  · exact h hab
  · exact h' hba

private theorem field_eq (key : String) (value : List Char) :
    field key value = field key [] ++ value := by
  simp [field]

/-- No key starts another, the end of the frontmatter or a line of the concepts. -/
theorem keys_apart :
    ∀ key ∈ keys, (∀ key' ∈ keys, key ≠ key' → ¬ field key [] <+: field key' []) ∧
      (∀ line ∈ [fence, "tags:".toList, "  - ".toList], ¬ field key [] <+: line ∧
        ¬ line <+: field key []) ∧ '\n' ∉ field key [] := by
  decide +kernel

private theorem not_field_prefix_field {key key' : String} (hkey : key ∈ keys) (hkey' : key' ∈ keys)
    (hne : key ≠ key') (value : List Char) : ¬ field key [] <+: field key' value := by
  rw [field_eq key' value]
  exact not_prefix_append ((keys_apart key hkey).1 key' hkey' hne)
    ((keys_apart key' hkey').1 key hkey hne.symm) value

private theorem forall_mem_fields {P : String → List Char → Prop} {article : Article}
    (title : P "title" (JsonString.dumps article.title)) (slug : P "slug" article.slug.text)
    (pageType : P "page_type" article.pageType.value.toList)
    (confidence : ∀ confidence, P "confidence" (confidenceValue confidence).toList)
    (confidenceScore : P "confidence_score" article.confidenceScore.text)
    (summary : ∀ summary, P "summary" (JsonString.dumps summary))
    (createdAt : P "created_at" article.createdAt.text)
    (updatedAt : P "updated_at" article.updatedAt.text) :
    ∀ f ∈ fields article, P f.1 f.2 := by
  intro f hf
  simp only [fields, List.mem_append, List.mem_cons, List.not_mem_nil, or_false,
    Option.mem_toList, Option.map_eq_some_iff] at hf
  obtain (rfl | rfl | rfl) | ⟨value, -, rfl⟩ | rfl | ⟨value, -, rfl⟩ | rfl | rfl := hf
  · exact title
  · exact slug
  · exact pageType
  · exact confidence value
  · exact confidenceScore
  · exact summary value
  · exact createdAt
  · exact updatedAt

private theorem keys_of_mem_fields {article : Article} : ∀ f ∈ fields article, f.1 ∈ keys := by
  apply forall_mem_fields (P := fun key _ ↦ key ∈ keys)
  all_goals simp [keys]

private theorem newline_not_mem_fields {article : Article} : ∀ f ∈ fields article, '\n' ∉ f.2 := by
  have hdumps := JsonString.newline_not_mem_dumps
  apply forall_mem_fields (P := fun _ value ↦ '\n' ∉ value) (hdumps _) article.slug.oneLine _ _
    article.confidenceScore.oneLine hdumps article.createdAt.oneLine article.updatedAt.oneLine
  · cases article.pageType <;> decide
  · intro confidence
    cases confidence <;> decide

private theorem newline_not_mem_tagLines {concepts : List (List Char)}
    (h : ∀ c ∈ concepts, '\n' ∉ c) :
    ∀ line ∈ tagLines concepts, '\n' ∉ line := by
  have htags : '\n' ∉ "tags:".toList := by decide
  have hitem : '\n' ∉ "  - ".toList := by decide
  unfold tagLines
  split
  · simp
  · rw [List.forall_mem_cons]
    refine ⟨htags, fun line hline ↦ ?_⟩
    obtain ⟨c, hc, rfl⟩ := List.mem_map.mp hline
    rw [List.mem_append, not_or]
    exact ⟨hitem, h c hc⟩

/-- Neither an item nor the line before the items begins with a key. -/
theorem not_field_prefix_tagLines {key : String} (hkey : key ∈ keys)
    {concepts : List (List Char)} : ∀ line ∈ tagLines concepts, ¬ field key [] <+: line := by
  have hapart := (keys_apart key hkey).2.1
  unfold tagLines
  split
  · simp
  · rw [List.forall_mem_cons]
    refine ⟨(hapart _ (by simp)).1, fun line hline ↦ ?_⟩
    obtain ⟨c, -, rfl⟩ := List.mem_map.mp hline
    obtain ⟨hitem, hitem'⟩ := hapart "  - ".toList (by simp)
    exact not_prefix_append hitem hitem' c

/-- The lines of the block are no fence. -/
theorem ne_fence_of_mem_block {article : Article} {concepts : List (List Char)} :
    ∀ line ∈ block article concepts, line ≠ fence := by
  intro line hline
  obtain hfield | htag := List.mem_append.mp hline
  · obtain ⟨f, hf, rfl⟩ := List.mem_map.mp hfield
    have hnot := ((keys_apart f.1 (keys_of_mem_fields f hf)).2.1 fence (by simp)).1
    rw [field_eq]
    intro heq
    exact hnot ⟨f.2, heq⟩
  · have htags : "tags:".toList ≠ fence := by decide
    have hitem : ¬ "  - ".toList <+: fence := by decide
    unfold tagLines at htag
    split at htag
    · cases htag
    · obtain rfl | hmem := List.mem_cons.mp htag
      · exact htags
      · obtain ⟨c, -, rfl⟩ := List.mem_map.mp hmem
        intro heq
        exact hitem ⟨c, heq⟩

private theorem newline_not_mem_block {article : Article} {concepts : List (List Char)}
    (h : ∀ c ∈ concepts, '\n' ∉ c) : ∀ line ∈ block article concepts, '\n' ∉ line := by
  intro line hline
  obtain hfield | htag := List.mem_append.mp hline
  · obtain ⟨f, hf, rfl⟩ := List.mem_map.mp hfield
    rw [field_eq, List.mem_append, not_or]
    exact ⟨(keys_apart f.1 (keys_of_mem_fields f hf)).2.2, newline_not_mem_fields f hf⟩
  · exact newline_not_mem_tagLines h line htag

/-- The value of a key is the one of its first field. -/
theorem valueOf_fields {key : String} (hkey : key ∈ keys) {fs : List (String × List Char)}
    (hfs : ∀ f ∈ fs, f.1 ∈ keys) (concepts : List (List Char)) :
    valueOf key (fs.map (fun f ↦ field f.1 f.2) ++ tagLines concepts) = fs.lookup key := by
  induction fs with
  | nil =>
    have hnone : (tagLines concepts).find? ((field key []).isPrefixOf ·) = none := by
      rw [List.find?_eq_none]
      intro line hline
      rw [List.isPrefixOf_iff_prefix]
      exact not_field_prefix_tagLines hkey line hline
    simp [valueOf, hnone]
  | cons f fs ih =>
    rw [List.forall_mem_cons] at hfs
    obtain ⟨key', value⟩ := f
    rw [List.map_cons, List.cons_append, List.lookup_cons]
    by_cases heq : key = key'
    · subst heq
      have hstarts : (field key []).isPrefixOf (field key value) = true := by
        rw [List.isPrefixOf_iff_prefix, field_eq key value]
        exact List.prefix_append _ _
      simp only [valueOf, List.find?_cons_of_pos hstarts, Option.map_some, beq_self_eq_true]
      rw [field_eq key value, List.drop_left]
    · have hnot : ¬ (field key []).isPrefixOf (field key' value) = true := by
        rw [List.isPrefixOf_iff_prefix]
        exact not_field_prefix_field hkey hfs.1 heq value
      rw [valueOf, List.find?_cons_of_neg hnot, ← valueOf, ih hfs.2, beq_eq_false_iff_ne.mpr heq]

private theorem filterMap_itemOf_block (article : Article) (concepts : List (List Char)) :
    (block article concepts).filterMap itemOf = concepts := by
  have hfields : ((fields article).map fun f ↦ field f.1 f.2).filterMap itemOf = [] := by
    rw [List.filterMap_eq_nil_iff]
    intro line hline
    obtain ⟨f, hf, rfl⟩ := List.mem_map.mp hline
    have hapart := (keys_apart f.1 (keys_of_mem_fields f hf)).2.1 "  - ".toList (by simp)
    have hnot : startsWith (field f.1 f.2) "  - " = false := by
      rw [← Bool.not_eq_true, startsWith, List.isPrefixOf_iff_prefix, field_eq]
      exact not_prefix_append hapart.2 hapart.1 f.2
    simp [itemOf, hnot]
  have htags : itemOf "tags:".toList = none := by decide
  have hitem (c : List Char) : itemOf ("  - ".toList ++ c) = some c := by
    have hstart : startsWith ("  - ".toList ++ c) "  - " = true :=
      List.isPrefixOf_iff_prefix.mpr (List.prefix_append _ _)
    have hlength : "  - ".toList.length = 4 := by decide
    rw [itemOf, if_pos hstart, List.drop_left' hlength]
  rw [block, List.filterMap_append, hfields, List.nil_append, tagLines]
  split
  · next hempty => rw [hempty, List.filterMap_nil]
  · rw [List.filterMap_cons_none htags, List.filterMap_map]
    have hsome : itemOf ∘ ("  - ".toList ++ ·) = some := funext hitem
    rw [hsome, List.filterMap_some]

/-- The values of the block are those of the article. -/
theorem readMetadata_block (article : Article) (concepts : List (List Char)) :
    readMetadata (block article concepts) = obsidianMetadata article concepts := by
  have hvalue (key : String) (hkey : key ∈ keys) :
      valueOf key (block article concepts) = (fields article).lookup key :=
    valueOf_fields hkey keys_of_mem_fields concepts
  unfold readMetadata
  rw [hvalue "title" (by decide), hvalue "slug" (by decide), hvalue "page_type" (by decide),
    hvalue "confidence" (by decide), hvalue "confidence_score" (by decide),
    hvalue "summary" (by decide), hvalue "created_at" (by decide),
    hvalue "updated_at" (by decide), filterMap_itemOf_block]
  unfold obsidianMetadata fields
  cases article.confidence with
  | none =>
    cases article.summary.filter (· ≠ []) with
    | none => simp [List.lookup_cons, JsonString.loads_dumps]
    | some summary => simp [List.lookup_cons, JsonString.loads_dumps]
  | some confidence =>
    cases article.summary.filter (· ≠ []) with
    | none => simp [List.lookup_cons, JsonString.loads_dumps]
    | some summary => simp [List.lookup_cons, JsonString.loads_dumps]

/-- An entry is read back if every concept stands on one line. -/
theorem readObsidian_entry (article : Article) {concepts : List (List Char)}
    (h : ∀ c ∈ concepts, '\n' ∉ c) (body : List Char) :
    readObsidian (buildObsidianFrontmatter article concepts ++ body) =
      some (obsidianMetadata article concepts, body) := by
  have hfence : '\n' ∉ fence := by decide
  have hlines : (buildObsidianFrontmatter article concepts ++ body).splitOn '\n' =
      fence :: (block article concepts ++ fence :: [] :: body.splitOn '\n') := by
    have hclosed : ∀ line ∈ fence :: (block article concepts ++ [fence]), '\n' ∉ line := by
      rw [List.forall_mem_cons, List.forall_mem_append, List.forall_mem_singleton]
      exact ⟨hfence, newline_not_mem_block h, hfence⟩
    rw [buildObsidianFrontmatter_eq, List.append_assoc, List.cons_append,
      splitOn_intercalate_append (by simp) hclosed, List.cons_append, List.append_assoc,
      List.singleton_append]
    have hempty : ('\n' :: body).splitOn '\n' = [] :: body.splitOn '\n' := by
      simpa using List.splitOn_append_cons_self_of_not_mem (List.not_mem_nil (a := '\n')) body
    rw [← hempty]
    rfl
  have hblock : ∀ line ∈ block article concepts, (line ≠ fence : Bool) = true := by
    intro line hline
    simpa using ne_fence_of_mem_block line hline
  unfold readObsidian
  rw [hlines]
  simp only [if_true]
  rw [List.dropWhile_append_of_pos hblock, List.takeWhile_append_of_pos hblock,
    List.dropWhile_cons_of_neg (by simp), List.takeWhile_cons_of_neg (by simp), List.append_nil]
  simp only [readMetadata_block, List.intercalate_splitOn]

/-- A concept that is read has no line break. -/
theorem newline_not_mem_of_readObsidian {content body : List Char} {m : ObsidianMetadata}
    (h : readObsidian content = some (m, body)) : ∀ c ∈ m.concepts, '\n' ∉ c := by
  unfold readObsidian at h
  split at h
  · cases h
  · next first lines hsplit =>
    split_ifs at h
    split at h
    · cases h
      intro c hc
      obtain ⟨line, hline, hitem⟩ := List.mem_filterMap.mp hc
      have hmem : line ∈ content.splitOn '\n' := by
        rw [hsplit]
        exact List.mem_cons_of_mem _ (List.takeWhile_subset _ hline)
      unfold itemOf at hitem
      split_ifs at hitem
      cases hitem
      intro hnewline
      exact not_mem_of_mem_splitOn hmem (List.mem_of_mem_drop hnewline)
    · cases h

end Obsidian

/-- The concepts of an article. -/
def Wiki.conceptsOf (w : Wiki) (article : Article) : List (List Char) :=
  (w.articleConcepts.filter (·.articleId = article.id)).map (·.conceptName)

/-- The body of an article, as its file was written. -/
def Wiki.bodyOf (w : Wiki) (article : Article) : List Char :=
  ((w.files article.userId article.filePath).map (·.body)).getD []

/-- The metadata and the body under a name of an archive for Obsidian. -/
def recoverObsidian (archive : List Entry) (name : List Char) :
    Option (ObsidianMetadata × List Char) :=
  match read archive name with
  | some (.text content) => readObsidian content
  | _ => none

/-- The metadata and the body under a name of an archive with `metadata.json`. -/
def recoverMarkdownJson (archive : List Entry) (name : List Char) :
    Option (MetadataEntry × List Char) :=
  match read archive name, read archive "metadata.json".toList with
  | some (.text body), some (.json manifest) =>
    let named (e : MetadataEntry) : Bool := entryName ("articles/".toList ++ e.filename) = name
    (manifest.articles.find? named).map (·, body)
  | _, _ => none

/-- Every article has an entry of its own, which gives its metadata and its body back. -/
def LosslessObsidian (w : Wiki) (userId : String) (timestamp exportedAt : List Char) : Prop :=
  let archive := (exportWiki w userId .obsidian timestamp exportedAt).1
  (archive.map (·.name)).Nodup ∧ ∀ article ∈ w.articlesOf userId,
    recoverObsidian archive (entryName (filename article)) =
      some (obsidianMetadata article (w.conceptsOf article), w.bodyOf article)

/-- Every article has an entry of its own, which gives its metadata and its body back. -/
def LosslessMarkdownJson (w : Wiki) (userId : String) (timestamp exportedAt : List Char) : Prop :=
  let archive := (exportWiki w userId .markdownJson timestamp exportedAt).1
  (archive.map (·.name)).Nodup ∧ ∀ article ∈ w.articlesOf userId,
    recoverMarkdownJson archive (entryName ("articles/".toList ++ filename article)) =
      some (metadataEntry article (w.conceptsOf article), w.bodyOf article)

/-- No two titles of the user's articles give the same name. -/
def Wiki.DistinctNames (w : Wiki) (userId : String) : Prop :=
  (w.articlesOf userId).Pairwise fun a b ↦ entryName (filename a) ≠ entryName (filename b)

/-- Stripping the files of the user's articles gives their bodies. -/
def Wiki.CleanFiles (w : Wiki) (userId : String) : Prop :=
  ∀ article ∈ w.articlesOf userId, ∀ file ∈ w.files article.userId article.filePath, file.Clean

/-- No concept of the user's articles has a line break. -/
def Wiki.OneLineConcepts (w : Wiki) (userId : String) : Prop :=
  ∀ article ∈ w.articlesOf userId, ∀ concept ∈ w.conceptsOf article, '\n' ∉ concept

section Archive

variable {w : Wiki} {userId : String} {article : Article}

private theorem foldl_writestr {articles : List Article} {name : Article → List Char}
    {content : Article → Content} (archive : List Entry) :
    articles.foldl (fun zf article ↦ writestr zf (name article) (content article)) archive =
      archive ++ articles.map fun article ↦ ⟨entryName (name article), content article⟩ := by
  induction articles generalizing archive with
  | nil => simp
  | cons article articles ih =>
    rw [List.foldl_cons, ih, writestr, List.map_cons, List.append_assoc]
    rfl

/-- Where names are distinct, an entry is read under its name. -/
theorem read_of_nodup {archive : List Entry} (hnodup : (archive.map (·.name)).Nodup) {e : Entry}
    (he : e ∈ archive) : read archive e.name = some e.content := by
  have hreverse : (archive.reverse.map (·.name)).Nodup := by
    rwa [List.map_reverse, List.nodup_reverse]
  have hfind := Rows.find?_of_nodup hreverse (List.mem_reverse.mpr he)
  rw [read, hfind]
  rfl

private theorem userId_of_mem_articlesOf (h : article ∈ w.articlesOf userId) :
    article.userId = userId := by
  simpa using (List.mem_filter.mp h).2

private theorem nodup_articlesOf : ((w.articlesOf userId).map (·.id)).Nodup :=
  w.nodup.sublist (List.filter_sublist.map _)

private theorem conceptsMap_eq (h : article ∈ w.articlesOf userId) :
    conceptsMap w (w.articlesOf userId) article.id = w.conceptsOf article := by
  dsimp only [conceptsMap, Wiki.conceptsOf]
  rw [List.filter_filter]
  congr 2
  funext ac
  by_cases heq : ac.articleId = article.id
  · have hmem : article.id ∈ (w.articlesOf userId).map (·.id) := List.mem_map_of_mem h
    simp [heq, hmem]
  · simp [heq]

private theorem lookup_readAllContents (h : article ∈ w.articlesOf userId) :
    (readAllContents w (w.articlesOf userId) userId).lookup article.id =
      some (readArticleContent w article.filePath userId) := by
  have hnodup : ((w.articlesOf userId).map (·.id)).Nodup := nodup_articlesOf
  unfold readAllContents
  generalize w.articlesOf userId = articles at h hnodup
  induction articles with
  | nil => cases h
  | cons first articles ih =>
    rw [List.map_cons, List.nodup_cons] at hnodup
    rw [List.map_cons, List.lookup_cons]
    obtain rfl | hmem := List.mem_cons.mp h
    · rw [beq_self_eq_true]
    · have hne : article.id ≠ first.id := fun heq ↦
        hnodup.1 (heq ▸ List.mem_map_of_mem hmem)
      rw [beq_eq_false_iff_ne.mpr hne]
      exact ih hmem hnodup.2

/-- The exported body is the body of the file exactly for clean files. -/
theorem exportedBody_eq_iff (h : article ∈ w.articlesOf userId) :
    exportedBody (readAllContents w (w.articlesOf userId) userId) article = w.bodyOf article ↔
      ∀ file ∈ w.files article.userId article.filePath, file.Clean := by
  have hempty : stripFrontmatter [] = [] := by decide
  have hbody : exportedBody (readAllContents w (w.articlesOf userId) userId) article =
      stripFrontmatter (readArticleContent w article.filePath userId) := by
    unfold exportedBody
    rw [lookup_readAllContents h, Option.getD_some]
    dsimp only
    split
    · next hnil => rw [hnil, hempty]
    · rfl
  rw [hbody, readArticleContent, Wiki.bodyOf, userId_of_mem_articlesOf h]
  cases w.files userId article.filePath with
  | none => simp [hempty]
  | some file => simpa using stripFrontmatter_content_iff file

private theorem buildObsidianZip_eq (articles : List Article) (concepts : String → List (List Char))
    (contents : List (String × List Char)) :
    buildObsidianZip articles concepts contents = articles.map fun article ↦
      ⟨entryName (filename article),
        .text (buildObsidianFrontmatter article (concepts article.id) ++
          exportedBody contents article)⟩ :=
  foldl_writestr []

private theorem obsidian_names (w : Wiki) (userId : String) (timestamp exportedAt : List Char) :
    ((exportWiki w userId .obsidian timestamp exportedAt).1.map (·.name)).Nodup ↔
      w.DistinctNames userId := by
  simp only [exportWiki, buildObsidianZip_eq, List.map_map, Function.comp_def]
  rw [List.Nodup, List.pairwise_map, Wiki.DistinctNames]

/-- With distinct names the entry of an article is the one that was written for it. -/
theorem recoverObsidian_eq (hnames : w.DistinctNames userId) (h : article ∈ w.articlesOf userId)
    (timestamp exportedAt : List Char) :
    recoverObsidian (exportWiki w userId .obsidian timestamp exportedAt).1
        (entryName (filename article)) =
      readObsidian (buildObsidianFrontmatter article (w.conceptsOf article) ++
        exportedBody (readAllContents w (w.articlesOf userId) userId) article) := by
  have hnodup := (obsidian_names w userId timestamp exportedAt).mpr hnames
  have hmem : (⟨entryName (filename article),
      .text (buildObsidianFrontmatter article (w.conceptsOf article) ++
        exportedBody (readAllContents w (w.articlesOf userId) userId) article)⟩ : Entry) ∈
      (exportWiki w userId .obsidian timestamp exportedAt).1 := by
    simp only [exportWiki, buildObsidianZip_eq]
    exact List.mem_map.mpr ⟨article, h, by rw [conceptsMap_eq h]⟩
  have hread := read_of_nodup hnodup hmem
  dsimp only at hread
  rw [recoverObsidian, hread]

/-- An archive for Obsidian is lossless exactly if the names are distinct, the files are clean
and the concepts have no line break. -/
theorem losslessObsidian_iff (w : Wiki) (userId : String) (timestamp exportedAt : List Char) :
    LosslessObsidian w userId timestamp exportedAt ↔
      w.DistinctNames userId ∧ w.CleanFiles userId ∧ w.OneLineConcepts userId := by
  have hnames := obsidian_names w userId timestamp exportedAt
  constructor
  · rintro ⟨hnodup, hall⟩
    have hdistinct := hnames.mp hnodup
    have hconcepts : w.OneLineConcepts userId := by
      intro article h
      have hread := hall article h
      rw [recoverObsidian_eq hdistinct h] at hread
      exact newline_not_mem_of_readObsidian hread
    refine ⟨hdistinct, fun article h ↦ ?_, hconcepts⟩
    have hread := hall article h
    rw [recoverObsidian_eq hdistinct h, readObsidian_entry article (hconcepts article h)] at hread
    exact (exportedBody_eq_iff h).mp (Prod.mk.inj (Option.some.inj hread)).2
  · rintro ⟨hdistinct, hclean, hconcepts⟩
    refine ⟨hnames.mpr hdistinct, fun article h ↦ ?_⟩
    rw [recoverObsidian_eq hdistinct h, readObsidian_entry article (hconcepts article h),
      (exportedBody_eq_iff h).mpr (hclean article h)]

private theorem entryName_articles (name : List Char) :
    entryName ("articles/".toList ++ name) = "articles/".toList ++ entryName name :=
  List.takeWhile_append_of_pos (List.all_eq_true.mp (by decide))

private theorem buildMarkdownJsonZip_eq (articles : List Article)
    (concepts : String → List (List Char))
    (contents : List (String × List Char)) (exportedAt : List Char) :
    buildMarkdownJsonZip articles concepts contents exportedAt =
      (articles.map fun article ↦ ⟨"articles/".toList ++ entryName (filename article),
        .text (exportedBody contents article)⟩) ++
      [⟨"metadata.json".toList, .json
        { format := "wikimind-export-v1"
          exportedAt := exportedAt
          articleCount := articles.length
          articles := articles.map fun article ↦
            metadataEntry article (concepts article.id) }⟩] := by
  have hmetadata : entryName "metadata.json".toList = "metadata.json".toList := by decide
  unfold buildMarkdownJsonZip
  rw [foldl_writestr, List.nil_append, writestr, hmetadata]
  simp only [entryName_articles]

private theorem markdownJson_names (w : Wiki) (userId : String) (timestamp exportedAt : List Char) :
    ((exportWiki w userId .markdownJson timestamp exportedAt).1.map (·.name)).Nodup ↔
      w.DistinctNames userId := by
  have hother : ∀ name : List Char, "articles/".toList ++ name ≠ "metadata.json".toList := by
    intro name heq
    have hstarts : ¬ "articles/".toList <+: "metadata.json".toList := by decide
    exact hstarts ⟨name, heq⟩
  simp only [exportWiki, buildMarkdownJsonZip_eq, List.map_append, List.map_map, List.map_cons,
    List.map_nil, Function.comp_def]
  rw [List.nodup_append, List.Nodup, List.pairwise_map, Wiki.DistinctNames]
  simp only [ne_eq, List.append_cancel_left_eq]
  constructor
  · exact fun h ↦ h.1
  · intro h
    refine ⟨h, List.nodup_singleton _, ?_⟩
    intro name hname name' hname' heq
    obtain ⟨article, -, rfl⟩ := List.mem_map.mp hname
    rw [List.mem_singleton] at hname'
    exact hother _ (heq.trans hname')

/-- With distinct names the entry of an article and its metadata are those written for it. -/
theorem recoverMarkdownJson_eq (hnames : w.DistinctNames userId)
    (h : article ∈ w.articlesOf userId) (timestamp exportedAt : List Char) :
    recoverMarkdownJson (exportWiki w userId .markdownJson timestamp exportedAt).1
        (entryName ("articles/".toList ++ filename article)) =
      some (metadataEntry article (w.conceptsOf article),
        exportedBody (readAllContents w (w.articlesOf userId) userId) article) := by
  have hnodup := (markdownJson_names w userId timestamp exportedAt).mpr hnames
  have harchive : (exportWiki w userId .markdownJson timestamp exportedAt).1 =
      buildMarkdownJsonZip (w.articlesOf userId) (conceptsMap w (w.articlesOf userId))
        (readAllContents w (w.articlesOf userId) userId) exportedAt := rfl
  rw [harchive, buildMarkdownJsonZip_eq] at hnodup ⊢
  have hbody := read_of_nodup hnodup (List.mem_append_left _ (List.mem_map_of_mem h))
  have hmanifest := read_of_nodup hnodup (List.mem_append_right _ (List.mem_singleton_self _))
  dsimp only at hbody hmanifest
  rw [recoverMarkdownJson, entryName_articles, hbody, hmanifest]
  -- the metadata of the article is the first with its name, since no other has the name
  have hkeys : (((w.articlesOf userId).map fun article ↦ metadataEntry article
      (conceptsMap w (w.articlesOf userId) article.id)).map fun e ↦
        entryName ("articles/".toList ++ e.filename)).Nodup := by
    rw [List.map_map, List.Nodup, List.pairwise_map]
    refine hnames.imp fun hne heq ↦ hne ?_
    simpa only [Function.comp_apply, metadataEntry, entryName_articles,
      List.append_cancel_left_eq] using heq
  have hfind := Rows.find?_of_nodup hkeys (List.mem_map_of_mem h)
  simp only [metadataEntry, entryName_articles] at hfind
  simp only [metadataEntry, entryName_articles, hfind, Option.map_some, conceptsMap_eq h]

/-- An archive with `metadata.json` is lossless exactly if the names are distinct and the files
are clean. -/
theorem losslessMarkdownJson_iff (w : Wiki) (userId : String) (timestamp exportedAt : List Char) :
    LosslessMarkdownJson w userId timestamp exportedAt ↔
      w.DistinctNames userId ∧ w.CleanFiles userId := by
  have hnames := markdownJson_names w userId timestamp exportedAt
  constructor
  · rintro ⟨hnodup, hall⟩
    have hdistinct := hnames.mp hnodup
    refine ⟨hdistinct, fun article h ↦ ?_⟩
    have hread := hall article h
    rw [recoverMarkdownJson_eq hdistinct h] at hread
    exact (exportedBody_eq_iff h).mp (Prod.mk.inj (Option.some.inj hread)).2
  · rintro ⟨hdistinct, hclean⟩
    refine ⟨hnames.mpr hdistinct, fun article h ↦ ?_⟩
    rw [recoverMarkdownJson_eq hdistinct h, (exportedBody_eq_iff h).mpr (hclean article h)]

end Archive

/-- An export is lossless exactly if no two titles give one name and stripping each file gives
its body; for Obsidian, besides that, if no concept has a line break. -/
theorem exportWiki_lossless_iff (w : Wiki) (userId : String) (timestamp exportedAt : List Char) :
    (LosslessObsidian w userId timestamp exportedAt ↔
      w.DistinctNames userId ∧ w.CleanFiles userId ∧ w.OneLineConcepts userId) ∧
    (LosslessMarkdownJson w userId timestamp exportedAt ↔
      w.DistinctNames userId ∧ w.CleanFiles userId) :=
  ⟨losslessObsidian_iff w userId timestamp exportedAt,
    losslessMarkdownJson_iff w userId timestamp exportedAt⟩

/-- A page of a user without a file. -/
def titled (id slug title : String) (h : '\n' ∉ slug.toList) : Article where
  id := id
  userId := "u1"
  slug := ⟨slug.toList, h⟩
  title := title.toList
  filePath := slug
  confidence := none
  summary := none
  createdAt := ⟨"2026-05-01T10:00:00".toList, by decide⟩
  updatedAt := ⟨"2026-05-01T10:00:00".toList, by decide⟩
  confidenceScore := ⟨"0.5".toList, by decide⟩
  pageType := .source

/-- Two titles that differ in a character that names of files do not have. -/
def sameNames : Wiki where
  articles := [titled "a1" "a-b" "A/B" (by decide), titled "a2" "a-b-2" "A-B" (by decide)]
  articleConcepts := []
  files := fun _ _ ↦ none
  nodup := by decide

/-- Two articles may share the name of an entry. -/
theorem not_exportWiki_lossless :
    ¬ ∀ (w : Wiki) (userId : String) (timestamp exportedAt : List Char),
      LosslessObsidian w userId timestamp exportedAt ∧
        LosslessMarkdownJson w userId timestamp exportedAt := by
  intro h
  have hnames := (h sameNames "u1" [] []).1.1
  revert hnames
  decide +kernel

end WikiMind.Export
