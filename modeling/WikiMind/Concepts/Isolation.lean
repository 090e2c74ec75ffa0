import WikiMind.Concepts.Pages

/-!
# Failures in the loop over concept pages

`maybe_trigger_concept_pages` compiles the pages of a user one after the other in one
session, catches three classes of exceptions around each of them and never rolls back
(`services/taxonomy.py:245–258`). A failed flush leaves the session refusing every operation
until a rollback, and so does a failed statement on a database that aborts its transaction
then. An `OSError`, as of a write to the storage, is not caught. What a failed step leaves
pending in the session is left out.
-/

namespace WikiMind.Concepts

open WikiMind.Base
open WikiMind.Wiki.Recompile

/-- The exceptions of a round: a database error in a flush or in a statement, others that the
loop catches, and those that it does not. -/
inductive Fault where
  | flush | statement | other | uncaught
  deriving DecidableEq, Repr

/-- Whether a failed flush expires the objects of the session, and whether the database aborts
a transaction in which a statement fails. -/
structure Rules where
  expires : Bool
  aborts : Bool

/-- The session refuses what follows. -/
def Fault.blocks (rules : Rules) : Fault → Bool
  | .flush => true
  | .statement => rules.aborts
  | _ => false

/-- The loop raises; it logs the name of the concept, which the session has to load again where
its objects are expired. -/
def Fault.ends (rules : Rules) : Fault → Bool
  | .flush => rules.expires
  | .uncaught => true
  | _ => false

/-- The failures in the round of a concept: in the look-ups that compare its source set, in
those before the save, and what the stages of a save that fail raise; the refresh of the saved
row belongs to the stage of the file. A call of the model that fails and a response that cannot
be used leave the attempt without completion. -/
structure Failures where
  attempt : Attempt
  look : Option Fault
  load : Option Fault
  kind : Stage → Fault

/-- How the compile of a page ends. -/
inductive PageResult where
  | page | nothing | failed
  deriving DecidableEq, Repr

/-- What a compile that ends with an exception of the save raised: the slug of the page may be
taken, which the flush of its row finds out. -/
def Failures.saveFault (f : Failures) : Exc → Fault
  | .integrityError => if f.attempt.fails .row then f.kind .row else .flush
  | .runtimeError _ => ((laterStages.find? f.attempt.fails).map f.kind).getD .other
  | _ => .other

/-- A round of the loop: the result of the compile if one is attempted, what is raised, and
the state it leaves. -/
structure Round where
  result : Option PageResult
  fault : Option Fault
  state : State

/-- The loop body on a session that works: `services/taxonomy.py:247–256`. -/
def round (env : Env) (f : Failures) (s : State) (c : Concept) : Round :=
  match f.look with
  | some fault => ⟨none, some fault, s⟩
  | none =>
    match sourceSetChanged env c.userId s.wiki.db c with
    | .error _ => ⟨none, some .other, s⟩
    | .ok false => ⟨none, none, s⟩
    | .ok true =>
      match f.load with
      | some fault => ⟨some .failed, some fault, s⟩
      | none =>
        let t := s.compiled env f.attempt c
        match (compileConceptPage env c.userId s.wiki.db f.attempt c).1 with
        | .ok (some _) => ⟨some .page, none, t⟩
        | .ok none => ⟨some .nothing, none, t⟩
        | .error e => ⟨some .failed, some (f.saveFault e), t⟩

/-- The results for the concepts, whether the loop raises, and the state it leaves. -/
structure Outcome where
  results : List (Option PageResult)
  raised : Bool
  state : State

/-- One more result in front. -/
def Outcome.after (o : Outcome) (result : Option PageResult) : Outcome :=
  { o with results := result :: o.results }

/-- The loop, on a session that may be blocked: its first look-up is refused then, with an
exception that is caught. -/
def rounds (env : Env) (rules : Rules) (failures : Concept → Failures) :
    State → Bool → List Concept → Outcome
  | s, _, [] => ⟨[], false, s⟩
  | s, true, _ :: rest => (rounds env rules failures s true rest).after none
  | s, false, c :: rest =>
    let r := round env (failures c) s c
    match r.fault with
    | none => (rounds env rules failures r.state false rest).after r.result
    | some fault =>
      if fault.ends rules then ⟨r.result :: rest.map fun _ ↦ none, true, r.state⟩
      else (rounds env rules failures r.state (fault.blocks rules) rest).after r.result

/-- The concepts of a user with enough source pages. -/
def eligible (env : Env) (s : State) (userId : String) : List Concept :=
  s.wiki.db.concepts.filter fun c ↦ env.minSources ≤ s.wiki.articleCount c ∧ c.userId = userId

/-- `maybe_trigger_concept_pages` on a new session: `services/taxonomy.py:223`. -/
def triggerConceptPages (env : Env) (rules : Rules) (failures : Concept → Failures) (s : State)
    (userId : String) : Outcome :=
  rounds env rules failures s false (eligible env s userId)

/-- The trigger returns, and attempts each concept with the result it has alone. -/
def Isolated (env : Env) (rules : Rules) (failures : Concept → Failures) (s : State)
    (userId : String) : Prop :=
  (triggerConceptPages env rules failures s userId).raised = false ∧
    (triggerConceptPages env rules failures s userId).results =
      (eligible env s userId).map fun c ↦ (round env (failures c) s c).result

/-- The look-ups find the source set of the concept changed. -/
def Attempted (env : Env) (f : Failures) (s : State) (c : Concept) : Prop :=
  f.look = none ∧ sourceSetChanged env c.userId s.wiki.db c = .ok true

/-- The compile gets to save a page. -/
def Saves (env : Env) (f : Failures) (s : State) (c : Concept) : Prop :=
  Attempted env f s c ∧ f.load = none ∧ ∃ completed,
    prepare env c.userId s.wiki.db f.attempt c = .ok (some completed)

/-- No article of another type has the slug of the page. -/
def SlugFree (env : Env) (s : State) (c : Concept) : Prop :=
  ∀ x ∈ s.wiki.db.articles, (x.userId, x.slug) = pageOf env c → x.pageType = .concept

/-- The first failure that the save of the page meets. -/
def SaveMeets (env : Env) (f : Failures) (s : State) (c : Concept) (fault : Fault) : Prop :=
  if f.attempt.fails .row then f.kind .row = fault
  else (¬ SlugFree env s c ∧ fault = .flush) ∨
    (SlugFree env s c ∧ ∃ stage, laterStages.find? f.attempt.fails = some stage ∧
      f.kind stage = fault)

/-- The first failure that the round of the concept meets. -/
def FailsWith (env : Env) (f : Failures) (s : State) (c : Concept) (fault : Fault) : Prop :=
  f.look = some fault ∨ (Attempted env f s c ∧ f.load = some fault) ∨
    (Saves env f s c ∧ SaveMeets env f s c fault)

/-- Up to the first failure that blocks the session none ends the loop, and no concept behind
it would be attempted. -/
def Contained (env : Env) (rules : Rules) (failures : Concept → Failures) (s : State) :
    List Concept → Prop
  | [] => True
  | c :: rest =>
    (∀ fault, FailsWith env (failures c) s c fault → fault.ends rules = false) ∧
      ((∃ fault, FailsWith env (failures c) s c fault ∧ fault.blocks rules = true) →
        ∀ d ∈ rest, ¬ Attempted env (failures d) s d) ∧
      ((∀ fault, FailsWith env (failures c) s c fault → fault.blocks rules = false) →
        Contained env rules failures s rest)

section Saving

variable {env : Env} {f : Failures} {s t : State} {c d : Concept}

/-- The page of a concept is the only article of its slug, if its type is that of one. -/
theorem slugFree_iff (h : s.Valid) {existing : Option Article}
    (hexisting : findExisting env c.userId s.wiki.db c.name = .ok existing) :
    SlugFree env s c ↔
      s.wiki.db.taken c.userId ("concept-" ++ env.key c.name) (existing.map (·.id)) = false := by
  rw [taken_eq_false]
  constructor
  · intro hfree x hx hkey
    rw [h.findExisting_page hx (hfree x hx hkey) hkey] at hexisting
    cases hexisting
    rfl
  · intro htaken x hx hkey
    have hid := htaken x hx hkey
    cases existing with
    | none => cases hid
    | some old =>
      obtain ⟨-, htype⟩ := key_of_findExisting hexisting
      rw [Rows.eq_of_nodup h.ids (mem_of_findExisting hexisting).1 hx (Option.some.inj hid)]
      exact htype

/-- The row is committed unless it fails, or an article of another type has its slug. -/
theorem commitsRow_iff (h : s.Valid) {a : Attempt} :
    CommitsRow env c.userId s.wiki.db a c ↔ a.fails .row = false ∧ SlugFree env s c := by
  obtain ⟨existing, hexisting⟩ := findExisting_ok h.ids h.slugs env c.userId c.name
  rw [slugFree_iff h hexisting, CommitsRow, hexisting]
  simp only [Except.ok.injEq, exists_eq_left']

/-- How the compile of a page that is prepared ends. -/
theorem compile_of_prepared (h : s.Valid) {a : Attempt}
    {completed : ConceptCompilationResult × List Article}
    (hprepare : prepare env c.userId s.wiki.db a c = .ok (some completed)) :
    (∃ page, (compileConceptPage env c.userId s.wiki.db a c).1 = .ok (some page) ∧
        a.fails .row = false ∧ SlugFree env s c ∧ laterStages.find? a.fails = none) ∨
      ((compileConceptPage env c.userId s.wiki.db a c).1 = .error .integrityError ∧
        ¬ (a.fails .row = false ∧ SlugFree env s c)) ∨
      ((compileConceptPage env c.userId s.wiki.db a c).1 = .error (.runtimeError "save") ∧
        a.fails .row = false ∧ SlugFree env s c ∧ laterStages.find? a.fails ≠ none) := by
  obtain ⟨compilation, found⟩ := completed
  by_cases hcommits : CommitsRow env c.userId s.wiki.db a c
  · have hrow : ∃ page saved,
        saveRow env c.userId s.wiki.db a c compilation found = .ok (page, saved) := by
      rcases saveRow_eq_ok compilation found hcommits with ⟨old, -, hrow⟩ | ⟨-, hrow⟩
      · exact ⟨_, _, hrow⟩
      · exact ⟨_, _, hrow⟩
    obtain ⟨page, saved, hrow⟩ := hrow
    have hs : SavedPage env s.wiki.db saved c found page := savedPage_of_saveRow h hcommits hrow
    have hperform := perform_laterSteps env c.userId saved a c compilation found page
      (findExisting_ok hs.ids hs.slugs env c.userId)
    obtain ⟨hfails, hfree⟩ := (commitsRow_iff h).mp hcommits
    rw [compileConceptPage_of_saveRow hprepare hrow, hperform]
    by_cases hnone : laterStages.find? a.fails = none
    · exact .inl ⟨page, by rw [if_pos hnone]; rfl, hfails, hfree, hnone⟩
    · exact .inr (.inr ⟨by rw [if_neg hnone]; rfl, hfails, hfree, hnone⟩)
  · refine .inr (.inl ⟨?_, fun hrow ↦ hcommits ((commitsRow_iff h).mpr hrow)⟩)
    obtain ⟨existing, hexisting⟩ := findExisting_ok h.ids h.slugs env c.userId c.name
    have hstops : a.fails .row = true ∨ s.wiki.db.taken c.userId ("concept-" ++ env.key c.name)
        (existing.map (·.id)) = true := by
      by_contra hnot
      simp only [not_or, Bool.not_eq_true] at hnot
      exact hcommits ⟨hnot.1, existing, hexisting, hnot.2⟩
    have herror : saveRow env c.userId s.wiki.db a c compilation found =
        .error .integrityError := by
      unfold saveRow
      rw [hexisting]
      exact if_pos hstops
    unfold compileConceptPage
    rw [hprepare]
    dsimp only
    rw [herror]

/-- What a save raises is the first failure it meets. -/
theorem saveFault_iff (h : s.Valid) {completed : ConceptCompilationResult × List Article}
    (hprepare : prepare env c.userId s.wiki.db f.attempt c = .ok (some completed))
    (fault : Fault) :
    (∃ e, (compileConceptPage env c.userId s.wiki.db f.attempt c).1 = .error e ∧
      f.saveFault e = fault) ↔ SaveMeets env f s c fault := by
  unfold SaveMeets
  rcases compile_of_prepared h hprepare with ⟨page, hpage, hrow, hfree, hnone⟩ |
    ⟨herror, hstops⟩ | ⟨herror, hrow, hfree, hsome⟩
  · rw [hpage, if_neg (by simp [hrow])]
    simp [hfree, hnone]
  · rw [herror]
    simp only [Except.error.injEq, exists_eq_left', Failures.saveFault]
    split
    next => exact Iff.rfl
    next hrow =>
      have hfree : ¬ SlugFree env s c := fun hfree ↦ hstops ⟨by simpa using hrow, hfree⟩
      simp [hfree, eq_comm]
  · rw [herror, if_neg (by simp [hrow])]
    obtain ⟨stage, hstage⟩ := Option.ne_none_iff_exists'.mp hsome
    simp [Failures.saveFault, hstage, hfree]

/-- The look-ups of a kind raise what leaves the session alone. -/
theorem saveFault_of_prepare {e : Exc}
    (h : prepare env c.userId s.wiki.db f.attempt c = .error e) :
    (compileConceptPage env c.userId s.wiki.db f.attempt c).1 = .error e ∧
      f.saveFault e = .other := by
  have hkind (kind : String) :
      RaisesOnly (· = .multipleResultsFound) (loadKindDef s.wiki.db kind) := by
    intro e he
    unfold loadKindDef Rows.oneOrNone at he
    split at he
    · cases he
    · cases he
    · cases he
      rfl
  have htemplate : RaisesOnly (· = .multipleResultsFound)
      (hasTemplate env s.wiki.db c.conceptKind) := by
    refine raisesOnly_bind (hkind _) fun found ↦ ?_
    dsimp only
    split
    · exact raisesOnly_bind (raisesOnly_ok _) fun _ ↦ raisesOnly_ok _
    · exact raisesOnly_bind (hkind _) fun _ ↦ raisesOnly_ok _
  have hprepare : RaisesOnly (· = .multipleResultsFound)
      (prepare env c.userId s.wiki.db f.attempt c) := by
    refine raisesOnly_bind htemplate fun template ↦ ?_
    split
    · dsimp only
      split
      · exact raisesOnly_ok _
      · exact raisesOnly_ok _
    · exact raisesOnly_ok _
  constructor
  · unfold compileConceptPage
    rw [h]
  · rw [hprepare e h]
    rfl

private theorem isSome_result_iff :
    (round env f s c).result.isSome = true ↔ Attempted env f s c := by
  unfold round Attempted
  cases f.look with
  | some kind => simp
  | none =>
    dsimp only
    cases sourceSetChanged env c.userId s.wiki.db c with
    | error e => simp
    | ok changed =>
      cases changed with
      | false => simp
      | true =>
        refine iff_of_true ?_ ⟨rfl, rfl⟩
        dsimp only
        split
        · rfl
        · split <;> rfl

/-- What a round raises, unless it leaves the session alone. -/
theorem fault_iff (h : s.Valid) {fault : Fault} (hfault : fault ≠ .other) :
    (round env f s c).fault = some fault ↔ FailsWith env f s c fault := by
  unfold round FailsWith Saves Attempted
  cases f.look with
  | some kind => simp
  | none =>
    dsimp only
    cases sourceSetChanged env c.userId s.wiki.db c with
    | error e => simp [hfault.symm]
    | ok changed =>
      cases changed with
      | false => simp
      | true =>
        dsimp only
        cases f.load with
        | some kind => simp
        | none =>
          simp only [reduceCtorEq, and_false, true_and, false_or]
          cases hprepare : prepare env c.userId s.wiki.db f.attempt c with
          | error e =>
            obtain ⟨herror, hother⟩ := saveFault_of_prepare hprepare
            rw [herror]
            simp [hother, hfault.symm]
          | ok prepared =>
            cases prepared with
            | none =>
              have hnothing : (compileConceptPage env c.userId s.wiki.db f.attempt c).1 =
                  .ok none := by
                unfold compileConceptPage
                rw [hprepare]
              rw [hnothing]
              simp
            | some completed =>
              simp only [Except.ok.injEq, Option.some.injEq, exists_eq', true_and]
              rw [← saveFault_iff h hprepare]
              cases (compileConceptPage env c.userId s.wiki.db f.attempt c).1 with
              | error e => simp
              | ok page => cases page <;> simp

end Saving

/-- What the round of a concept reads is the same. -/
structure SameAt (env : Env) (c : Concept) (s t : State) : Prop where
  kinds : t.wiki.db.kinds = s.wiki.db.kinds
  sources : collectSourceArticles env c.userId t.wiki.db c.name =
    collectSourceArticles env c.userId s.wiki.db c.name
  articles : ∀ x, (x.userId, x.slug) = pageOf env c →
    (x ∈ t.wiki.db.articles ↔ x ∈ s.wiki.db.articles)
  rows : ∀ x ∈ s.wiki.db.articles, (x.userId, x.slug) = pageOf env c →
    fetchSourceIds t.wiki.db x = fetchSourceIds s.wiki.db x

section Rounds

variable {env : Env} {f : Failures} {a : Attempt} {s t u : State} {c d : Concept}

theorem SameAt.refl (env : Env) (c : Concept) (s : State) : SameAt env c s s :=
  ⟨rfl, rfl, fun _ _ ↦ Iff.rfl, fun _ _ _ ↦ rfl⟩

theorem SameAt.trans (h : SameAt env c s t) (h' : SameAt env c t u) : SameAt env c s u where
  kinds := h'.kinds.trans h.kinds
  sources := h'.sources.trans h.sources
  articles x hkey := (h'.articles x hkey).trans (h.articles x hkey)
  rows x hx hkey := (h'.rows x ((h.articles x hkey).mpr hx) hkey).trans (h.rows x hx hkey)

private theorem SameAt.changed_iff (h : SameAt env c s t) (hs : s.Valid) (ht : t.Valid) :
    sourceSetChanged env c.userId t.wiki.db c = .ok true ↔
      sourceSetChanged env c.userId s.wiki.db c = .ok true := by
  have hcurrent : currentIds env c.userId t.wiki.db c = currentIds env c.userId s.wiki.db c := by
    unfold currentIds
    rw [h.sources]
  rw [sourceSetChanged_iff ht, sourceSetChanged_iff hs, hcurrent]
  constructor
  · intro hall x hx htype hkey
    rw [← h.rows x hx hkey]
    exact hall x ((h.articles x hkey).mpr hx) htype hkey
  · intro hall x hx htype hkey
    have hx' : x ∈ s.wiki.db.articles := (h.articles x hkey).mp hx
    rw [h.rows x hx' hkey]
    exact hall x hx' htype hkey

/-- The look-ups of the loop do not raise where pages can be looked up. -/
theorem sourceSetChanged_ok (env : Env) (h : s.Valid) (c : Concept) :
    ∃ changed, sourceSetChanged env c.userId s.wiki.db c = .ok changed := by
  obtain ⟨existing, hexisting⟩ := findExisting_ok h.ids h.slugs env c.userId c.name
  unfold sourceSetChanged
  rw [hexisting]
  cases existing with
  | none => exact ⟨true, rfl⟩
  | some old => exact ⟨_, rfl⟩

private theorem SameAt.changed_eq (h : SameAt env c s t) (hs : s.Valid) (ht : t.Valid) :
    sourceSetChanged env c.userId t.wiki.db c = sourceSetChanged env c.userId s.wiki.db c := by
  obtain ⟨before, hbefore⟩ := sourceSetChanged_ok env hs c
  obtain ⟨after, hafter⟩ := sourceSetChanged_ok env ht c
  have hiff := h.changed_iff hs ht
  rw [hbefore, hafter, Except.ok.injEq, Except.ok.injEq] at hiff
  rw [hbefore, hafter, Bool.eq_iff_iff.mpr hiff]

private theorem SameAt.prepare_eq (h : SameAt env c s t) (a : Attempt) :
    prepare env c.userId t.wiki.db a c = prepare env c.userId s.wiki.db a c := by
  unfold prepare hasTemplate loadKindDef
  rw [h.kinds, h.sources]

private theorem SameAt.slugFree_iff (h : SameAt env c s t) :
    SlugFree env t c ↔ SlugFree env s c := by
  refine forall_congr' fun x ↦ ?_
  rw [forall_comm, @forall_comm (x ∈ s.wiki.db.articles)]
  exact forall_congr' fun hkey ↦ imp_congr_left (h.articles x hkey)

/-- A compile ends in the same way. -/
theorem SameAt.compile_eq (h : SameAt env c s t) (hs : s.Valid) (ht : t.Valid) (a : Attempt) :
    (compileConceptPage env c.userId t.wiki.db a c).1.map Option.isSome =
      (compileConceptPage env c.userId s.wiki.db a c).1.map Option.isSome := by
  have hprepare := h.prepare_eq a
  cases hprepared : prepare env c.userId s.wiki.db a c with
  | error e =>
    unfold compileConceptPage
    rw [hprepare, hprepared]
  | ok prepared =>
    cases prepared with
    | none =>
      unfold compileConceptPage
      rw [hprepare, hprepared]
    | some completed =>
      rw [hprepared] at hprepare
      have hfree := h.slugFree_iff
      rcases compile_of_prepared hs hprepared with ⟨page, hpage, hcan⟩ | ⟨herror, hcan⟩ |
        ⟨herror, hcan⟩
      · rcases compile_of_prepared ht hprepare with ⟨page', hpage', -⟩ | ⟨-, hcannot⟩ | ⟨-, hcannot⟩
        · rw [hpage, hpage']
          rfl
        · exact absurd ⟨hcan.1, hfree.mpr hcan.2.1⟩ hcannot
        · exact absurd hcan.2.2 hcannot.2.2
      · rcases compile_of_prepared ht hprepare with ⟨-, -, hcannot⟩ | ⟨herror', -⟩ | ⟨-, hcannot⟩
        · exact absurd ⟨hcannot.1, hfree.mp hcannot.2.1⟩ hcan
        · rw [herror, herror']
        · exact absurd ⟨hcannot.1, hfree.mp hcannot.2.1⟩ hcan
      · rcases compile_of_prepared ht hprepare with ⟨-, -, hcannot⟩ | ⟨-, hcannot⟩ | ⟨herror', -⟩
        · exact absurd hcannot.2.2 hcan.2.2
        · exact absurd ⟨hcan.1, hfree.mpr hcan.2.1⟩ hcannot
        · rw [herror, herror']

/-- The round of a concept ends in the same way. -/
theorem SameAt.round_eq (h : SameAt env c s t) (hs : s.Valid) (ht : t.Valid) (f : Failures) :
    (round env f t c).result = (round env f s c).result ∧
      (round env f t c).fault = (round env f s c).fault := by
  have hcompile := h.compile_eq hs ht f.attempt
  unfold round
  rw [h.changed_eq hs ht]
  cases f.look with
  | some fault => exact ⟨rfl, rfl⟩
  | none =>
    dsimp only
    cases sourceSetChanged env c.userId s.wiki.db c with
    | error e => exact ⟨rfl, rfl⟩
    | ok changed =>
      cases changed with
      | false => exact ⟨rfl, rfl⟩
      | true =>
        cases f.load with
        | some fault => exact ⟨rfl, rfl⟩
        | none =>
          dsimp only
          revert hcompile
          generalize (compileConceptPage env c.userId t.wiki.db f.attempt c).1 = after
          generalize (compileConceptPage env c.userId s.wiki.db f.attempt c).1 = before
          intro hcompile
          cases before with
          | error e =>
            cases after with
            | error e' =>
              cases hcompile
              exact ⟨rfl, rfl⟩
            | ok page => cases hcompile
          | ok page =>
            cases after with
            | error e' => cases hcompile
            | ok page' => cases page <;> cases page' <;> first | exact ⟨rfl, rfl⟩ | cases hcompile

private theorem kinds_link {db : Db} {source target : Nat} {owner context relationType : String} :
    (db.link source target owner context relationType).kinds = db.kinds := by
  unfold Db.link
  split <;> rfl

/-- A transaction behind the first keeps the kinds. -/
theorem kinds_laterSteps {userId : String} {compilation : ConceptCompilationResult}
    {found : List Article} {page : Article} {step : Stage × (Db → Except Exc Db)} {db db' : Db}
    (hstep : step ∈ laterSteps env userId a c compilation found page)
    (hwork : step.2 db = .ok db') : db'.kinds = db.kinds := by
  simp only [laterSteps, List.mem_cons, List.not_mem_nil, or_false] at hstep
  rcases hstep with rfl | rfl | rfl | rfl | rfl
  · cases hwork
    rfl
  · cases hwork
    rfl
  · cases hwork
    rfl
  · cases hwork
    exact addSynthesizes_induct (P := fun d ↦ d.kinds = db.kinds)
      (fun _ _ _ _ _ h ↦ kinds_link.trans h) rfl
  · exact related_induct (P := fun d ↦ d.kinds = db.kinds)
      (fun _ _ _ _ _ h ↦ kinds_link.trans h) rfl hwork

/-- A compile leaves the kinds. -/
theorem kinds_compileConceptPage (env : Env) (userId : String) (db : Db) (a : Attempt)
    (c : Concept) : (compileConceptPage env userId db a c).2.kinds = db.kinds := by
  unfold compileConceptPage
  split
  · rfl
  · rfl
  next compilation found _ =>
    split
    · rfl
    next page saved hrow =>
      have hsaved : saved.kinds = db.kinds := by
        unfold saveRow at hrow
        obtain ⟨existing, -, hrow⟩ := bind_eq_ok.mp hrow
        dsimp only at hrow
        split at hrow
        · cases hrow
        · split at hrow <;> cases hrow <;> rfl
      exact perform_induct (P := fun d ↦ d.kinds = db.kinds)
        (fun step hstep d d' hd hwork ↦ (kinds_laterSteps hstep hwork).trans hd) hsaved

/-- An article with another key than the page is one after the compile if it was before. -/
theorem mem_compiled_iff (h : s.Valid) (hne : pageOf env d ≠ pageOf env c) {x : Article}
    (hkey : (x.userId, x.slug) = pageOf env d) :
    x ∈ (s.compiled env a c).wiki.db.articles ↔ x ∈ s.wiki.db.articles := by
  rcases compileConceptPage_cases env c.userId s.wiki.db a c with hsame |
    ⟨compilation, found, page, saved, -, hcommits, hrow, htables⟩
  · show x ∈ (compileConceptPage env c.userId s.wiki.db a c).2.articles ↔ _
    rw [hsame]
  · have hs : SavedPage env s.wiki.db saved c found page := savedPage_of_saveRow h hcommits hrow
    have harticles : (s.compiled env a c).wiki.db.articles = saved.articles := by
      have hfst := congrArg Prod.fst htables
      split at hfst <;> exact hfst
    rw [harticles]
    constructor
    · intro hx
      refine hs.other x hx fun hid ↦ hne ?_
      rw [← hkey, Rows.eq_of_nodup hs.ids hs.mem hx hid, hs.key]
    · intro hx
      rcases saveRow_eq_ok compilation found hcommits with ⟨old, hold, hreplace⟩ | ⟨-, hinsert⟩
      · rw [hreplace] at hrow
        cases hrow
        refine Rows.mem_modify.mpr (.inr ⟨hx, ?_⟩)
        have hother : x.id ≠ old.id := by
          intro hid
          have hsame := Rows.eq_of_nodup h.ids (mem_of_findExisting hold).1 hx hid
          exact hne (by rw [← hkey, hsame, (key_of_findExisting hold).1])
        simpa using hother
      · rw [hinsert] at hrow
        cases hrow
        exact List.mem_append_left _ hx

/-- A compile leaves what the round of another page reads. -/
theorem sameAt_compiled (h : s.Valid) (hne : pageOf env d ≠ pageOf env c) :
    SameAt env d s (s.compiled env a c) := by
  have hkinds := kinds_compileConceptPage env c.userId s.wiki.db a c
  have hmem : ∀ x, (x.userId, x.slug) = pageOf env d →
      (x ∈ (s.compiled env a c).wiki.db.articles ↔ x ∈ s.wiki.db.articles) :=
    fun x hkey ↦ mem_compiled_iff h hne hkey
  rcases compiled_cases h env a c with ⟨hsame, -⟩ |
    ⟨compilation, found, page, saved, -, -, hs, htables, -⟩
  · rw [hsame]
    exact .refl env d s
  · simp only [Db.tables, Prod.mk.injEq] at htables
    obtain ⟨harticles, -, -, hnames, hrows⟩ := htables
    refine ⟨hkinds, collect_page h hs harticles hnames d.name, hmem, fun x hx hkey ↦ ?_⟩
    refine fetchSourceIds_other hs hrows fun hid ↦ hne ?_
    have hx' : x ∈ saved.articles := by
      rw [← harticles]
      exact (hmem x hkey).mpr hx
    rw [← hkey, Rows.eq_of_nodup hs.ids hs.mem hx' hid, hs.key]

/-- A round leaves everything, or it compiles its page. -/
theorem state_round (env : Env) (f : Failures) (s : State) (c : Concept) :
    (round env f s c).state = s ∨ (round env f s c).state = s.compiled env f.attempt c := by
  unfold round
  split
  · exact .inl rfl
  · split
    · exact .inl rfl
    · exact .inl rfl
    · split
      · exact .inl rfl
      · dsimp only
        split <;> exact .inr rfl

private theorem valid_round (env : Env) (f : Failures) (h : s.Valid) (c : Concept) :
    (round env f s c).state.Valid := by
  rcases state_round env f s c with hstate | hstate
  · rw [hstate]
    exact h
  · rw [hstate]
    exact valid_compiled h

private theorem sameAt_round (h : s.Valid) (hne : pageOf env d ≠ pageOf env c) :
    SameAt env d s (round env f s c).state := by
  rcases state_round env f s c with hstate | hstate
  · rw [hstate]
    exact .refl env d s
  · rw [hstate]
    exact sameAt_compiled h hne

/-- A session that is blocked attempts nothing and does not raise. -/
theorem rounds_blocked (env : Env) (rules : Rules) (failures : Concept → Failures) (s : State)
    (cs : List Concept) :
    (rounds env rules failures s true cs).raised = false ∧
      (rounds env rules failures s true cs).results = cs.map fun _ ↦ none := by
  induction cs with
  | nil => exact ⟨rfl, rfl⟩
  | cons c rest ih => exact ⟨ih.1, congrArg (none :: ·) ih.2⟩

/-- Faults that matter to the loop are the first failures of rounds. -/
theorem exists_fault_iff (env : Env) (f : Failures) (h : s.Valid) (c : Concept)
    {p : Fault → Bool} (hp : p .other = false) :
    (∃ fault, FailsWith env f s c fault ∧ p fault = true) ↔
      ∃ fault, (round env f s c).fault = some fault ∧ p fault = true := by
  refine exists_congr fun fault ↦ and_congr_left fun hfault ↦ (fault_iff h ?_).symm
  rintro rfl
  rw [hp] at hfault
  cases hfault

/-- What the first round contributes to a loop that is contained. -/
theorem contained_cons_iff (h : s.Valid) (rules : Rules) (failures : Concept → Failures)
    (c : Concept) (rest : List Concept) :
    Contained env rules failures s (c :: rest) ↔
      match (round env (failures c) s c).fault with
      | none => Contained env rules failures s rest
      | some fault => fault.ends rules = false ∧
          if fault.blocks rules then ∀ d ∈ rest, ¬ Attempted env (failures d) s d
          else Contained env rules failures s rest := by
  have hends := exists_fault_iff env (failures c) h c (p := Fault.ends rules) rfl
  have hblocks := exists_fault_iff env (failures c) h c (p := Fault.blocks rules) rfl
  have hends' : (∀ fault, FailsWith env (failures c) s c fault → fault.ends rules = false) ↔
      ∀ fault, (round env (failures c) s c).fault = some fault → fault.ends rules = false := by
    simpa using not_congr hends
  have hblocks' : (∀ fault, FailsWith env (failures c) s c fault → fault.blocks rules = false) ↔
      ∀ fault, (round env (failures c) s c).fault = some fault → fault.blocks rules = false := by
    simpa using not_congr hblocks
  rw [Contained, hends', hblocks, hblocks']
  cases (round env (failures c) s c).fault with
  | none => simp
  | some fault => cases hfault : fault.blocks rules <;> simp [hfault]

/-- Pages that differ are compiled on their own exactly when the loop is contained. -/
theorem rounds_isolated_iff (hs : s.Valid) (rules : Rules) (failures : Concept → Failures)
    {cs : List Concept} (ht : t.Valid) (hsame : ∀ d ∈ cs, SameAt env d s t)
    (hpages : cs.Pairwise fun c d ↦ pageOf env c ≠ pageOf env d) :
    ((rounds env rules failures t false cs).raised = false ∧
      (rounds env rules failures t false cs).results =
        cs.map fun c ↦ (round env (failures c) s c).result) ↔
      Contained env rules failures s cs := by
  induction cs generalizing t with
  | nil => simp [rounds, Contained]
  | cons c rest ih =>
    obtain ⟨hdistinct, hrest⟩ := List.pairwise_cons.mp hpages
    obtain ⟨hresult, hfault⟩ :=
      (hsame c (List.mem_cons_self ..)).round_eq hs ht (failures c)
    -- The round leaves what the others read.
    have hnext : ∀ d ∈ rest, SameAt env d s (round env (failures c) t c).state := fun d hd ↦
      (hsame d (List.mem_cons_of_mem c hd)).trans (sameAt_round ht (hdistinct d hd).symm)
    have hloop := ih (valid_round env (failures c) ht c) hnext hrest
    have hafter (o : Outcome) : (o.after (round env (failures c) t c).result).results =
        (c :: rest).map (fun c ↦ (round env (failures c) s c).result) ↔
          o.results = rest.map fun c ↦ (round env (failures c) s c).result := by
      rw [hresult]
      simp [Outcome.after]
    rw [contained_cons_iff hs, rounds, hfault]
    cases (round env (failures c) s c).fault with
    | none =>
      dsimp only
      rw [hafter]
      exact hloop
    | some fault =>
      dsimp only
      cases hends : fault.ends rules with
      | true => simp
      | false =>
        cases hblocks : fault.blocks rules with
        | true =>
          obtain ⟨hraised, hresults⟩ :=
            rounds_blocked env rules failures (round env (failures c) t c).state rest
          have hnone : (∀ d ∈ rest, none = (round env (failures d) s d).result) ↔
              ∀ d ∈ rest, ¬ Attempted env (failures d) s d := by
            refine forall₂_congr fun d _ ↦ ?_
            rw [← isSome_result_iff, Option.not_isSome_iff_eq_none, eq_comm]
          simp only [Bool.false_eq_true, if_false, if_true, true_and]
          rw [hafter, hresults, List.map_inj_left, hnone]
          exact and_iff_right hraised
        | false =>
          simp only [Bool.false_eq_true, if_false, true_and]
          rw [hafter]
          exact hloop

end Rounds

/-- Concepts are named by slugs, and a user has one row for a name. -/
structure Named (env : Env) (db : Db) : Prop where
  slugs : ∀ c ∈ db.concepts, env.key c.name = c.name
  nodup : (db.concepts.map fun c ↦ (c.userId, c.name)).Nodup

section Names

variable {env : Env} {db db' : Db} {userId : String} {w t : Wiki} {r : Result} {s : State}

theorem Named.congr (h : Named env db) (hconcepts : db'.concepts = db.concepts) :
    Named env db' := by
  constructor
  · rw [hconcepts]
    exact h.slugs
  · rw [hconcepts]
    exact h.nodup

private theorem named_addConcept (hslug : ∀ s, env.key (env.key s) = env.key s)
    {conceptId : String → String} {name : String} (h : Named env db) :
    Named env (addConcept env userId conceptId db name) := by
  unfold addConcept
  split
  · exact h
  next hnew =>
    simp only [not_or, List.any_eq_true, decide_eq_true_eq, not_exists, not_and] at hnew
    constructor
    · intro c hc
      rcases List.mem_append.mp hc with hc | hc
      · exact h.slugs c hc
      · rw [List.mem_singleton.mp hc]
        exact hslug name
    · rw [Rows.nodup_map_concat]
      refine ⟨h.nodup, fun c hc heq ↦ ?_⟩
      exact hnew.2 c hc (congrArg Prod.fst heq) (congrArg Prod.snd heq)

private theorem named_postSaveSideEffects (hslug : ∀ s, env.key (env.key s) = env.key s)
    (h : Named env w.db) : Named env (postSaveSideEffects env userId w r).db := by
  have hupserted : Named env (upsertConcepts env userId r.conceptId w.db r.concepts) :=
    List.foldlRecOn r.concepts _ h fun _ hd _ _ ↦ named_addConcept hslug hd
  unfold postSaveSideEffects
  split
  · exact h
  · dsimp only
    split
    · exact hupserted
    · exact hupserted

private theorem concepts_saveSourceRow {source : Source} {existing : Option Article}
    {article : Article}
    {saved : Db} (hrow : saveSourceRow env userId db source existing r = some (article, saved)) :
    saved.concepts = db.concepts := by
  unfold saveSourceRow at hrow
  cases existing with
  | some old =>
    dsimp only at hrow
    split at hrow
    · cases hrow
    · cases hrow
      rfl
  | none =>
    dsimp only at hrow
    split at hrow
    · cases hrow
    · split at hrow
      · cases hrow
      · cases hrow
        rfl

private theorem named_upsertArticle (hslug : ∀ s, env.key (env.key s) = env.key s) {source : Source}
    {existing : Option Article} (h : Named env w.db) :
    Named env (upsertArticle env userId w source existing r).db := by
  unfold upsertArticle
  split
  · exact h
  next article saved hrow =>
    have hsaved : Named env saved := h.congr (concepts_saveSourceRow hrow)
    have hadded : Named env (addSourceJoins source r article saved) := hsaved.congr rfl
    split
    · exact hsaved
    · dsimp only
      split
      · exact hadded
      · exact named_postSaveSideEffects hslug hadded

private theorem named_step (hslug : ∀ s, env.key (env.key s) = env.key s) {e : Event}
    (h : Named env w.db) (hstep : step env w e = some t) : Named env t.db := by
  cases e with
  | ingest userId =>
    simp only [step, Option.ite_none_left_eq_some, Option.some.injEq] at hstep
    obtain ⟨-, rfl⟩ := hstep
    exact h.congr rfl
  | compile userId sourceId r =>
    simp only [step, Option.ite_none_left_eq_some, Option.map_eq_some_iff] at hstep
    obtain ⟨-, source, -, rfl⟩ := hstep
    exact named_upsertArticle hslug h
  | recompile userId articleId r =>
    simp only [step, Option.ite_none_left_eq_some, Option.bind_eq_some_iff,
      Option.map_eq_some_iff] at hstep
    obtain ⟨-, x, -, sourceId, -, source, -, rfl⟩ := hstep
    exact named_upsertArticle hslug h
  | page userId concept a =>
    simp only [step, Option.ite_none_right_eq_some, Option.some.injEq] at hstep
    obtain ⟨-, rfl⟩ := hstep
    exact h.congr (concepts_compileConceptPage env userId w.db a concept)

private theorem named_pageStep (hslug : ∀ s, env.key (env.key s) = env.key s) {t : State}
    {e : PageEvent}
    (h : Named env s.wiki.db) (hstep : pageStep env s e = some t) : Named env t.wiki.db := by
  rcases pageStep_cases hstep with ⟨e', w, -, hw, rfl, -⟩ | ⟨c, a, -, rfl, -⟩ | ⟨rfl, -⟩
  · exact named_step hslug h hw
  · exact h.congr (concepts_compileConceptPage env c.userId s.wiki.db a c)
  · exact h

/-- Concepts that are eligible together have pages that differ. -/
theorem pairwise_eligible (h : Named env s.wiki.db) (userId : String) :
    (eligible env s userId).Pairwise fun c d ↦ pageOf env c ≠ pageOf env d := by
  have hkeys : s.wiki.db.concepts.Pairwise fun c d ↦ (c.userId, c.name) ≠ (d.userId, d.name) :=
    List.pairwise_map.mp h.nodup
  have hpages : s.wiki.db.concepts.Pairwise fun c d ↦ pageOf env c ≠ pageOf env d := by
    refine hkeys.imp_of_mem fun {c d} hc hd hne heq ↦ hne ?_
    simp only [pageOf, Prod.mk.injEq, h.slugs c hc, h.slugs d hd] at heq
    rw [heq.1, (String.append_right_inj _).mp heq.2]
  exact hpages.filter _

private theorem named_startState (env : Env) (kinds : List ConceptKindDef) :
    Named env (startState kinds).wiki.db := by
  constructor <;> simp [startState, start]

end Names

/-- In every state that compiles reach, each concept page is compiled as if it were alone
exactly when no failure up to the first that blocks the session ends the loop, and no page
behind it has to be compiled. -/
theorem trigger_isolated_iff (env : Env) (hslug : ∀ s, env.key (env.key s) = env.key s)
    (kinds : List ConceptKindDef) (es : List PageEvent) (s : State)
    (hrun : (pageMachine env).run (startState kinds) es = some s) (rules : Rules)
    (failures : Concept → Failures) (userId : String) :
    Isolated env rules failures s userId ↔
      Contained env rules failures s (eligible env s userId) := by
  have hvalid : s.Valid := (pageMachine env).invariant_of_reachable (I := State.Valid)
    (fun _ _ _ h hstep ↦ valid_pageStep h hstep) (valid_startState kinds) ⟨es, hrun⟩
  have hnamed : Named env s.wiki.db :=
    (pageMachine env).invariant_of_reachable (I := fun s ↦ Named env s.wiki.db)
      (fun _ _ _ h hstep ↦ named_pageStep hslug h hstep)
      (named_startState env kinds) ⟨es, hrun⟩
  exact rounds_isolated_iff hvalid rules failures hvalid (fun d _ ↦ .refl env d s)
    (pairwise_eligible hnamed userId)

/-- A source is compiled to a page with two concepts. -/
def twoConcepts : List PageEvent :=
  [.tables (.ingest "u"),
   .tables (.compile "u" 0 ⟨1, none, "Notes", "", ["logic", "sets"], id, fun _ ↦ false⟩)]

/-- The compile of the page for logic fails at a stage with a fault. -/
def logicFails (stage : Stage) (fault : Fault) (c : Concept) : Failures where
  attempt := ⟨2, none, some ⟨c.name, "", []⟩, "text", fun x ↦ c.name = "logic" ∧ x = stage⟩
  look := none
  load := none
  kind _ := fault

theorem trigger_isolated_iff_other : ∃ s,
    (pageMachine Wiki.Recompile.sampleEnv).run (startState [⟨"topic", "topic"⟩]) twoConcepts =
        some s ∧
      (Isolated Wiki.Recompile.sampleEnv ⟨true, true⟩ (logicFails .joins .other) s "u" ↔
        Contained Wiki.Recompile.sampleEnv ⟨true, true⟩ (logicFails .joins .other) s
          (eligible Wiki.Recompile.sampleEnv s "u")) :=
  ⟨_, rfl, trigger_isolated_iff Wiki.Recompile.sampleEnv (fun _ ↦ rfl) [⟨"topic", "topic"⟩]
    twoConcepts _ rfl ⟨true, true⟩ (logicFails .joins .other) "u"⟩

instance (env : Env) (rules : Rules) (failures : Concept → Failures) (s : State)
    (userId : String) : Decidable (Isolated env rules failures s userId) :=
  inferInstanceAs (Decidable (_ ∧ _))

/-- Where the page for logic fails in a flush or at its file, the page for sets is never
attempted. -/
theorem trigger_not_isolated : ∃ s,
    (pageMachine Wiki.Recompile.sampleEnv).run (startState [⟨"topic", "topic"⟩]) twoConcepts =
        some s ∧
      ∀ expires aborts,
        ¬ Isolated Wiki.Recompile.sampleEnv ⟨expires, aborts⟩ (logicFails .joins .flush) s "u" ∧
          ¬ Isolated Wiki.Recompile.sampleEnv ⟨expires, aborts⟩ (logicFails .file .uncaught) s
            "u" :=
  ⟨_, rfl, by decide +kernel⟩

end WikiMind.Concepts
