import Mathlib.Data.List.Basic

/-!
# Completion requests

The request every caller of a language model builds: `models/dto/llm.py:14`.
-/

namespace WikiMind.Llm

/-- Provider identifiers in the order of the enumeration: `models/enums.py:137`. -/
inductive Provider where
  | anthropic | openai | openaiCompatible | google | ollama | mock
  deriving DecidableEq, Repr

namespace Provider

/-- The members in definition order. -/
def all : List Provider := [anthropic, openai, openaiCompatible, google, ollama, mock]

/-- The value of a member. -/
def value : Provider → String
  | anthropic => "anthropic"
  | openai => "openai"
  | openaiCompatible => "openai_compatible"
  | google => "google"
  | ollama => "ollama"
  | mock => "mock"

/-- `Provider(text)`; `none` is its `ValueError`. -/
def ofValue (text : String) : Option Provider := all.find? (·.value = text)

end Provider

/-- Kinds of task: `models/enums.py:148`. -/
inductive TaskType where
  | compile | qa | lint | index | ingest | export
  deriving DecidableEq, Repr

/-- A request, with the defaults of its fields. Messages are pairs of role and content,
the temperature is in tenths. -/
structure CompletionRequest where
  system : String
  messages : List (String × String)
  maxTokens : Nat := 4096
  temperature : Nat := 3
  responseFormat : String := "json"
  taskType : TaskType := .compile
  preferredProvider : Option Provider := none
  modelOverride : Option String := none
  disableFallback : Bool := false
  deriving DecidableEq, Repr

/-- A completion, with its cost as an exact number: `models/dto/llm.py:29`. -/
structure CompletionResponse where
  content : String
  providerUsed : Provider
  modelUsed : String
  inputTokens : Nat
  outputTokens : Nat
  costUsd : Rat
  latencyMs : Nat
  deriving DecidableEq, Repr

end WikiMind.Llm
