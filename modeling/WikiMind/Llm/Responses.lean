import WikiMind.Base.JsonValue
import WikiMind.Base.Rewrite
import WikiMind.Base.Text
import WikiMind.Llm.Request

/-!
# Responses read as JSON

`parse_json_response` (`engine/llm_router.py:635`) looks for a JSON value in the text of a
response. What reads the value catches some classes of exceptions and lets the others
through. The decoder of the language is a parameter; it refuses a text that is no JSON, a
number of too many digits and a value that is nested too deep.
-/

namespace WikiMind.Llm

open WikiMind.Base

/-- The exceptions of `json.loads`: `JSONDecodeError`, another `ValueError`, and
`RecursionError`. -/
inductive JsonError where
  | decodeError
  | valueError
  | recursionError
  deriving DecidableEq, Repr

/-- The classes handlers know them by: a `JSONDecodeError` is a `ValueError` and a
`RecursionError` a `RuntimeError`. -/
def JsonError.toExc : JsonError → Exc
  | .decodeError | .valueError => .valueError
  | .recursionError => .runtimeError "maximum recursion depth exceeded"

/-- `json.loads`. -/
abbrev Loads := List Char → Except JsonError JsonValue

/-- The text between code fences: `engine/llm_router.py:642–651`. -/
def stripFences (content : List Char) : List Char :=
  if startsWith content "```" then
    let bodyLines := (content.splitOn '\n').tail
    match bodyLines.findIdx? fun line ↦ strip line = "```".toList with
    | some i => ['\n'].intercalate (bodyLines.take i)
    | none => content
  else content

/-- The text from the first opening brace to the last closing one:
`engine/llm_router.py:660–663`. -/
def outermostObject (content : List Char) : Option (List Char) := do
  let firstBrace ← content.findIdx? (· = '{')
  let behindLast ← content.reverse.findIdx? (· = '}')
  let lastBrace := content.length - 1 - behindLast
  if firstBrace < lastBrace then some ((content.take (lastBrace + 1)).drop firstBrace) else none

/-- `_replace_control_chars_in_json_string`: `engine/llm_router.py:124`. -/
def replaceControlChars (literal : List Char) : List Char :=
  literal.flatMap fun c ↦
    if c = '\n' then ['\\', 'n'] else if c = '\r' then ['\\', 'r'] else if c = '\t' then ['\\', 't']
    else if c.toNat < 32 then [' '] else [c]

/-- The rest of a string literal behind its opening quote, if it is closed. A backslash
escapes any character but a line break. -/
def literalRest : List Char → Option (List Char)
  | [] => none
  | '"' :: _ => some ['"']
  | '\\' :: c :: s => if c = '\n' then none else (literalRest s).map fun rest ↦ '\\' :: c :: rest
  | c :: s => if c = '\\' then none else (literalRest s).map fun rest ↦ c :: rest

/-- The pattern of a string literal, with its control characters escaped. -/
def jsonLiteral : Pattern Char
  | '"' :: s => (literalRest s).map fun rest ↦ (rest.length, replaceControlChars ('"' :: rest))
  | _ => none

/-- `_sanitize_json_control_chars`: `engine/llm_router.py:132`. -/
def sanitizeJsonControlChars (text : List Char) : List Char := rewrite jsonLiteral 0 text

/-- The second and the third try, on the outermost object: `engine/llm_router.py:659–674`. -/
def parseOutermost (loads : Loads) (content : List Char) : Except JsonError JsonValue :=
  match outermostObject content with
  | none => loads content
  | some extracted =>
    match loads extracted with
    | .error .decodeError => loads (sanitizeJsonControlChars extracted)
    | outcome => outcome

/-- `parse_json_response`: `engine/llm_router.py:635`. -/
def parseJsonResponse (loads : Loads) (response : CompletionResponse) : Except Exc JsonValue :=
  let content := stripFences (strip response.content.toList)
  (match loads content with
    | .error .decodeError => parseOutermost loads content
    | outcome => outcome).mapError JsonError.toExc

/-- `except` clauses that return a value for the classes they name. -/
def handling {α : Type} (caught : Exc → Bool) (fallback : α) (x : Except Exc α) : Except Exc α :=
  match x with
  | .ok a => .ok a
  | .error e => if caught e then .ok fallback else .error e

/-- The classes that count as a failed parse: `JSONDecodeError`, `KeyError`, `ValueError` and
`TypeError` (`engine/compiler.py:303, 364, 459`). -/
def isParseFailure : Exc → Bool
  | .valueError | .keyError | .typeError => true
  | _ => false

/-- What is raised through the clauses is of a class they do not name. -/
theorem raises_handling {α : Type} {caught : Exc → Bool} {fallback : α} {x : Except Exc α} :
    Raises (handling caught fallback x) ↔ ∃ e, x = .error e ∧ caught e = false := by
  cases x with
  | ok a =>
    refine iff_of_false (raises_ok a) ?_
    rintro ⟨e, h, _⟩
    cases h
  | error e =>
    unfold handling
    cases hcaught : caught e with
    | true => simp [hcaught]
    | false =>
      simp only [Except.error.injEq, exists_eq_left', hcaught, Bool.false_eq_true, ↓reduceIte,
        iff_true]
      exact ⟨e, rfl⟩

/-- The decoder gives an object. -/
def IsObject (answer : Except Exc JsonValue) : Prop := ∃ data, answer = .ok data ∧ data.isObj = true

/-- The decoder raised an exception of a class that is caught. -/
def Caught (caught : Exc → Bool) (answer : Except Exc JsonValue) : Prop :=
  ∃ e, answer = .error e ∧ caught e = true

end WikiMind.Llm
