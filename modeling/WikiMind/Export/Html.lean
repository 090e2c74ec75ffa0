import WikiMind.Base.Rewrite
import WikiMind.Base.Text

/-!
# Markdown to HTML

`services/export.py`. The converter goes line by line, escapes the text of a line once and
then rewrites code, bold, italic and link marks. A text is the list of its characters;
`isdigit` is Python's digit test of one character.
-/

namespace WikiMind.Export

open WikiMind.Base

/-- `_escape_html`: `services/export.py:221`. -/
def escapeHtml (text : List Char) : List Char :=
  replaceChar '>' "&gt;" (replaceChar '<' "&lt;" (replaceChar '&' "&amp;" text))

/-- A letter of a pattern under `re.IGNORECASE`, which knows further variants of `i`, `s`. -/
def ignoreCase (letter c : Char) : Bool :=
  c.toLower = letter || (letter = 'i' && (c = 'ı' || c = 'İ')) || (letter = 's' && c = 'ſ')

/-- A text starts with another, letter by letter. -/
def startsWithBy (same : Char → Char → Bool) : List Char → List Char → Bool
  | [], _ => true
  | _ :: _, [] => false
  | letter :: letters, c :: s => same letter c && startsWithBy same letters s

/-- The schemes of `_ALLOWED_URL_SCHEMES`: `services/export.py:226`. -/
def allowedSchemes : List (List Char) :=
  ["http://".toList, "https://".toList, "mailto:".toList]

/-- `_ALLOWED_URL_SCHEMES`, up to the comparison of letters. -/
def allowedUrlSchemes (same : Char → Char → Bool) (url : List Char) : Bool :=
  allowedSchemes.any fun scheme ↦ startsWithBy same scheme url

/-- `_sanitize_url`: `services/export.py:229`. -/
def sanitizeUrl (url : List Char) : Option (List Char) :=
  let cleaned := url.filter fun c ↦ 0x20 < c.toNat
  if allowedUrlSchemes ignoreCase cleaned then some cleaned else none

/-- The opening link tag. -/
def linkTag (href : List Char) : List Char := "<a href=\"".toList ++ href ++ "\">".toList

/-- An opening tag. -/
def openTag (tag : String) : List Char := '<' :: (tag.toList ++ ['>'])

/-- A closing tag. -/
def closeTag (tag : String) : List Char := '<' :: '/' :: (tag.toList ++ ['>'])

/-- A text between its tags. -/
def element (tag : String) (text : List Char) : List Char := openTag tag ++ text ++ closeTag tag

/-- `_replace_link`: `services/export.py:243`. -/
def replaceLink (text url : List Char) : List Char :=
  match sanitizeUrl url with
  | some _ => linkTag (replaceChar '"' "&quot;" url) ++ text ++ closeTag "a"
  | none => text

/-- The link pattern: a text in brackets, then an address in parentheses. -/
def link : Pattern Char
  | '[' :: s =>
    match runBefore ']' s with
    | some (text, ']' :: '(' :: rest) =>
      match runBefore ')' rest with
      | some (url, ')' :: _) => some (text.length + url.length + 3, replaceLink text url)
      | _ => none
    | _ => none
  | _ => none

/-- `_inline_format`: `services/export.py:255`. -/
def inlineFormat (text : List Char) : List Char :=
  let result := escapeHtml text
  let result := rewrite (enclosed '\x60' 1 (element "code")) 0 result
  let result := rewrite (enclosed '*' 2 (element "strong")) 0 result
  let result := rewrite (enclosed '*' 1 (element "em")) 0 result
  rewrite link 0 result

/-- The kind of the list last opened. -/
inductive ListType where
  | none | ul | ol
  deriving DecidableEq, Repr

/-- The list context of the converter. -/
structure ListState where
  inList : Bool
  listType : ListType
  deriving DecidableEq, Repr

/-- The tag that closes the list. -/
def ListState.close (state : ListState) : List Char :=
  if state.listType = .ol then closeTag "ol" else closeTag "ul"

/-- Open a list for an item unless one is open. -/
def ListState.open (state : ListState) (listType : ListType) (tag : String) :
    List Char × ListState :=
  if state.inList then ([], state) else (openTag tag ++ ['\n'], ⟨true, listType⟩)

variable (isdigit : Char → Bool)

/-- The text of an ordered item: a digit, then a point or a parenthesis, then more. -/
def orderedItem : List Char → Option (List Char)
  | digit :: mark :: c :: rest =>
    if isdigit digit && (mark = '.' || mark = ')') then some (c :: rest) else none
  | _ => none

/-- `_line_to_element`: `services/export.py:138`. -/
def lineToElement (stripped : List Char) (state : ListState) : List Char × ListState :=
  if startsWith stripped "# " then (element "h1" (inlineFormat (stripped.drop 2)), state)
  else if startsWith stripped "## " then (element "h2" (inlineFormat (stripped.drop 3)), state)
  else if startsWith stripped "### " then (element "h3" (inlineFormat (stripped.drop 4)), state)
  else if startsWith stripped "#### " then (element "h4" (inlineFormat (stripped.drop 5)), state)
  else if startsWith stripped "> " then
    (element "blockquote" (inlineFormat (stripped.drop 2)), state)
  else if startsWith stripped "- " || startsWith stripped "* " then
    let (opened, state) := state.open .ul "ul"
    (opened ++ element "li" (inlineFormat (stripped.drop 2)), state)
  else
    match orderedItem isdigit stripped with
    | some text =>
      let (opened, state) := state.open .ol "ol"
      (opened ++ element "li" (inlineFormat (lstrip text)), state)
    | none =>
      if stripped ∈ ["---".toList, "***".toList, "___".toList] then (openTag "hr", state)
      else (element "p" (inlineFormat stripped), state)

/-- `_convert_block_element`: `services/export.py:116`. -/
def convertBlockElement (stripped : List Char) (state : ListState) :
    Option (List Char) × ListState :=
  let goesOn := ["- ", "* ", "1.", "2.", "3.", "4.", "5."].any (startsWith stripped ·)
  let leaves := state.inList && !goesOn
  let closed := if leaves then state.close ++ ['\n'] else []
  let state := if leaves then { state with inList := false } else state
  if stripped = [] then (if closed = [] then none else some closed, state)
  else
    let (text, state) := lineToElement isdigit stripped state
    (some (closed ++ text), state)

/-- The converter between two lines. -/
structure Conversion where
  htmlParts : List (List Char)
  inCodeBlock : Bool
  state : ListState
  deriving DecidableEq, Repr

/-- One line: the body of the loop of `_markdown_to_html`. -/
def convertLine (c : Conversion) (line : List Char) : Conversion :=
  let stripped := strip line
  if startsWith stripped "\x60\x60\x60" then
    let part :=
      if c.inCodeBlock then closeTag "code" ++ closeTag "pre" else openTag "pre" ++ openTag "code"
    { c with htmlParts := c.htmlParts ++ [part], inCodeBlock := !c.inCodeBlock }
  else if c.inCodeBlock then { c with htmlParts := c.htmlParts ++ [escapeHtml line] }
  else
    let (result, state) := convertBlockElement isdigit stripped c.state
    { c with htmlParts := c.htmlParts ++ result.toList, state := state }

/-- `_markdown_to_html`: `services/export.py:179`. -/
def markdownToHtml (markdownText : List Char) : List Char :=
  let c := (markdownText.splitOn '\n').foldl (convertLine isdigit) ⟨[], false, ⟨false, .none⟩⟩
  let parts := c.htmlParts ++ (if c.state.inList then [c.state.close] else []) ++
    (if c.inCodeBlock then [closeTag "code" ++ closeTag "pre"] else [])
  ['\n'].intercalate parts

/-- The content of a shared page, empty without an article text: `services/sharing.py:209`. -/
def contentHtml (content : Option (List Char)) : List Char :=
  match content with
  | some text => if text = [] then [] else markdownToHtml isdigit text
  | none => []

end WikiMind.Export
