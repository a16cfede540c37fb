import LetShell.Proofs.Engine.Options
import LetShell.Proofs.Engine.Regularity
import LetShell.Proofs.Engine.Startup
import LetShell.Proofs.Registry.Withdrawal
import LetShell.Proofs.Statement.Removal

/-!
# What a removal does, token by token

A removal accounts for every token it meets. The first token to name a visible
variable removes it, and any later one of its name, however it is spelled, names
a variable that is no longer there. Whatever the order, the records that are
left are those that no token names, each as it was and in its place. The error
that ends the walk takes nothing back.
-/

set_option autoImplicit false

namespace LetShell

def Removal.asked (tokens : List (Except ParseError Text)) : List Text :=
  tokens.filterMap Except.toOption

def Removed.ofVerdicts (vs : List (Except VariableError Record)) (fatal : Option ParseError) :
    Removed where
  names := vs.filterMap fun
    | .ok r => some r.name
    | .error _ => none
  errors := vs.filterMap fun
    | .ok _ => none
    | .error x => some x
  fatal := fatal

theorem Removed.length_ofVerdicts (vs : List (Except VariableError Record))
    (fatal : Option ParseError) :
    (ofVerdicts vs fatal).names.length + (ofVerdicts vs fatal).errors.length = vs.length := by
  induction vs with
  | nil => rfl
  | cons v vs ih =>
    simp only [ofVerdicts] at ih
    cases v <;> simp only [ofVerdicts, List.filterMap_cons, List.length_cons] <;> omega

namespace Registry
open Removal

/-- What a token comes to after others that asked for the names `earlier`: the
visible record it names, or its error. -/
def verdict (g : Registry) (earlier : List Text) :
    Except ParseError Text → Except VariableError Record
  | .error p => .error (.parse p)
  | .ok name =>
    match g.visible.find? fun r => g.key r.name = g.key name with
    | some r => if g.mentions earlier name then .error (.notFound name) else .ok r
    | none => .error (.notFound name)

def verdicts (g : Registry) (earlier : List Text) :
    List (Except ParseError Text) → List (Except VariableError Record)
  | [] => []
  | token :: tokens => g.verdict earlier token :: g.verdicts (earlier ++ asked [token]) tokens

section
variable {g g' : Registry} {names : List Text}

theorem verdict_withdrawn (h : Withdrawn g names g') (earlier : List Text)
    (token : Except ParseError Text) :
    g'.verdict earlier token = g.verdict (names ++ earlier) token := by
  cases token with
  | error p => rfl
  | ok name =>
    simp only [verdict, find?_visible_withdrawn h, mentions_withdrawn h, mentions_append]
    cases g.mentions names name with
    | true => cases g.visible.find? fun r => g.key r.name = g.key name <;> rfl
    | false => rfl

theorem verdicts_withdrawn (h : Withdrawn g names g') (earlier : List Text)
    (tokens : List (Except ParseError Text)) :
    g'.verdicts earlier tokens = g.verdicts (names ++ earlier) tokens := by
  induction tokens generalizing earlier with
  | nil => rfl
  | cons token tokens ih =>
    rw [verdicts, verdicts, verdict_withdrawn h, ih, List.append_assoc]

end

section
variable {g : Registry} {earlier : List Text} {tokens : List (Except ParseError Text)} {name : Text}

theorem verdicts_error (p : ParseError) : g.verdicts earlier (.error p :: tokens) =
    .error (.parse p) :: g.verdicts earlier tokens := by
  rw [verdicts, asked, List.filterMap_cons_none rfl, List.filterMap_nil, List.append_nil]
  rfl

theorem verdicts_ok : g.verdicts earlier (.ok name :: tokens) =
    g.verdict earlier (.ok name) :: g.verdicts (earlier ++ [name]) tokens := rfl

theorem length_verdicts : (g.verdicts earlier tokens).length = tokens.length := by
  induction tokens generalizing earlier with
  | nil => rfl
  | cons token tokens ih => rw [verdicts, List.length_cons, ih, List.length_cons]

theorem getElem?_verdicts (i : Nat) : (g.verdicts earlier tokens)[i]? =
    tokens[i]?.map (g.verdict (earlier ++ asked (tokens.take i))) := by
  induction tokens generalizing earlier i with
  | nil => rfl
  | cons token tokens ih =>
    cases i with
    | zero => simp [verdicts, asked]
    | succ i =>
      rw [verdicts, List.getElem?_cons_succ, ih, List.getElem?_cons_succ, List.take_succ_cons,
        List.append_assoc]
      simp only [asked, ← List.filterMap_append, List.singleton_append]

theorem verdict_repeated (h : g.mentions earlier name = true) :
    g.verdict earlier (.ok name) = .error (.notFound name) := by
  rw [verdict, h]
  cases g.visible.find? fun r => g.key r.name = g.key name <;> rfl

/-- The record that a token removes is the visible one of its name, which no
token before it asked for. -/
theorem verdict_eq_ok_iff (h : g.Sound) {r : Record} :
    g.verdict earlier (.ok name) = .ok r ↔
      r ∈ g.visible ∧ g.key r.name = g.key name ∧ g.mentions earlier name = false := by
  have hfound : (g.visible.find? fun r => g.key r.name = g.key name) = some r ↔
      r ∈ g.visible ∧ g.key r.name = g.key name := by
    rw [find?_visible h, Option.filter_eq_some_iff, Bool.not_eq_true', visible, List.mem_filter,
      Bool.not_eq_true']
    constructor
    · rintro ⟨hf, hrem⟩
      obtain ⟨hr, hk⟩ := find?_mem hf
      exact ⟨⟨hr, hrem⟩, hk⟩
    · rintro ⟨⟨hr, hrem⟩, hk⟩
      exact ⟨find?_of_mem h hr hk, hrem⟩
  rw [← and_assoc, ← hfound, verdict]
  cases g.visible.find? fun r => g.key r.name = g.key name with
  | none => simp
  | some x => cases g.mentions earlier name <;> simp

theorem mem_names_verdicts (h : g.Sound) {n : Text} :
    n ∈ (Removed.ofVerdicts (g.verdicts earlier tokens) none).names ↔
      ∃ r ∈ g.visible, r.name = n ∧ g.mentions earlier n = false ∧
        g.mentions (asked tokens) n = true := by
  induction tokens generalizing earlier with
  | nil => simp [verdicts, Removed.ofVerdicts, asked, mentions]
  | cons token tokens ih =>
    cases token with
    | error p =>
      rw [verdicts_error]
      exact ih
    | ok name =>
      have hcons : n ∈ (Removed.ofVerdicts (g.verdicts earlier (.ok name :: tokens)) none).names ↔
          (∃ r, g.verdict earlier (.ok name) = .ok r ∧ r.name = n) ∨
            n ∈ (Removed.ofVerdicts (g.verdicts (earlier ++ [name]) tokens) none).names := by
        rw [verdicts_ok]
        cases hv : g.verdict earlier (.ok name) <;> simp [Removed.ofVerdicts, eq_comm]
      have hasked : g.mentions (asked (.ok name :: tokens)) n =
          (g.mentions [name] n || g.mentions (asked tokens) n) := by
        change g.mentions ([name] ++ asked tokens) n = _
        exact mentions_append
      rw [hcons, ih, hasked]
      simp only [verdict_eq_ok_iff h, mentions_append, Bool.or_eq_false_iff]
      constructor
      · rintro (⟨r, ⟨hr, hk, hm⟩, rfl⟩ | ⟨r, hr, rfl, ⟨hm, -⟩, hlater⟩)
        · exact ⟨r, hr, rfl, mentions_congr hk ▸ hm, by simp [mentions_single, hk]⟩
        · exact ⟨r, hr, rfl, hm, by simp [hlater]⟩
      · rintro ⟨r, hr, rfl, hm, hlater⟩
        cases hone : g.mentions [name] r.name with
        | true =>
          have hk := mentions_single.mp hone
          exact .inl ⟨r, ⟨hr, hk.symm, mentions_congr hk ▸ hm⟩, rfl⟩
        | false =>
          rw [hone, Bool.false_or] at hlater
          exact .inr ⟨r, hr, rfl, ⟨hm, rfl⟩, hlater⟩

theorem names_verdicts_nodup (h : g.Sound) :
    (Removed.ofVerdicts (g.verdicts earlier tokens) none).names.Nodup := by
  induction tokens generalizing earlier with
  | nil => exact List.nodup_nil
  | cons token tokens ih =>
    cases token with
    | error p =>
      rw [verdicts_error]
      exact ih
    | ok name =>
      rw [verdicts_ok]
      cases hv : g.verdict earlier (.ok name) with
      | error x => exact ih
      | ok r =>
        obtain ⟨-, hk, -⟩ := (verdict_eq_ok_iff h).mp hv
        refine List.nodup_cons.mpr ⟨?_, ih⟩
        intro hm
        obtain ⟨-, -, -, hno, -⟩ := (mem_names_verdicts h).mp hm
        rw [mentions_append, mentions_single.mpr hk.symm, Bool.or_true] at hno
        cases hno

end

end Registry

namespace Engine
open Registry Removal

/-- The engine `e` after a removal with these tokens, which came to `r`. -/
structure Relieved (e : Engine) (tokens : List (Except ParseError Text)) (e' : Engine)
    (r : Removed) : Prop where
  names : r.names = (Removed.ofVerdicts (e.registry.verdicts [] tokens) none).names
  errors : r.errors = (Removed.ofVerdicts (e.registry.verdicts [] tokens) none).errors
  registry : Withdrawn e.registry (asked tokens) e'.registry
  table : e'.table = { e.table with pairs := e.table.pairs.filter (·.1 ∉ r.names) }
  options : e'.options = e.options

section
variable {e : Engine} {name : Text}

theorem removeName_cases (h : e.registry.Sound) (name : Text) :
    (∃ x, e.registry.verdict [] (.ok name) = .error x ∧ e.removeName name = (e, .error x)) ∨
      ∃ r e', e.registry.verdict [] (.ok name) = .ok r ∧ e.removeName name = (e', .ok r.name) ∧
        e'.registry = (e.discard r.serial).registry ∧ e'.table = e.table.unset r.name := by
  have hfind := find?_visible h name
  unfold removeName
  cases hf : e.registry.find? name with
  | none =>
    rw [hf, Option.filter_none] at hfind
    exact .inl ⟨_, by rw [verdict, hfind], rfl⟩
  | some r =>
    rw [hf, Option.filter_some] at hfind
    cases hrem : r.removed with
    | true =>
      rw [hrem] at hfind
      exact .inl ⟨_, by rw [verdict, hfind]; rfl, by simp only [hrem, if_true]⟩
    | false =>
      rw [hrem] at hfind
      let e' := { e.discard r.serial with table := (e.discard r.serial).table.unset r.name }
      refine .inr ⟨r, e', by rw [verdict, hfind]; rfl, ?_, rfl, ?_⟩
      · simp only [hrem, Bool.false_eq_true, if_false]
        rfl
      · exact congrArg (Table.unset · r.name) (table_discard e r.serial)

theorem withdrawn_discard (h : e.registry.Sound) {r : Record} (hr : r ∈ e.registry.visible)
    (hk : e.registry.key r.name = e.registry.key name) :
    Withdrawn e.registry [name] (e.discard r.serial).registry := by
  obtain ⟨hr, hv⟩ := List.mem_filter.mp hr
  rw [Bool.not_eq_true'] at hv
  simp only [discard, record?_of_mem h hr, isLive_of_mem hr, if_true]
  cases hi : r.inherited with
  | true => exact withdrawn_tombstone h hr hv hi hk
  | false => exact withdrawn_erase h hr hv hi hk

theorem withdrawn_removeName (h : e.registry.Sound) (name : Text) :
    Withdrawn e.registry [name] (e.removeName name).1.registry := by
  rcases removeName_cases h name with ⟨x, hv, hrun⟩ | ⟨r, e', hv, hrun, hg, -⟩
  · rw [hrun]
    apply withdrawn_unknown h
    intro r hr hk
    rw [(verdict_eq_ok_iff h).mpr ⟨hr, hk, rfl⟩] at hv
    cases hv
  · rw [hrun, hg]
    obtain ⟨hr, hk, -⟩ := (verdict_eq_ok_iff h).mp hv
    exact withdrawn_discard h hr hk

theorem relieved_removeTokens (h : e.registry.Sound) (tokens : List (Except ParseError Text)) :
    Relieved e tokens (e.removeTokens tokens).1 (e.removeTokens tokens).2 := by
  induction tokens generalizing e with
  | nil => exact ⟨rfl, rfl, withdrawn_nil h, by simp [removeTokens], rfl⟩
  | cons token tokens ih =>
    have hoptions := options_removeTokens e (token :: tokens)
    cases token with
    | error p =>
      have hrest := ih h
      refine ⟨?_, ?_, hrest.registry, hrest.table, hoptions⟩
      · rw [verdicts_error]
        exact hrest.names
      · rw [verdicts_error]
        exact congrArg (.parse p :: ·) hrest.errors
    | ok name =>
      have hone := withdrawn_removeName h name
      have hrest := ih hone.sound
      have hnames := hrest.names
      have herrors := hrest.errors
      rw [verdicts_withdrawn hone, List.append_nil] at hnames herrors
      have hboth := withdrawn_trans hone hrest.registry
      rcases removeName_cases h name with ⟨x, hv, hrun⟩ | ⟨r, e', hv, hrun, -, ht⟩
      · simp only [hrun] at hrest hnames herrors hboth
        simp only [removeTokens, hrun] at hoptions ⊢
        refine ⟨?_, ?_, hboth, hrest.table, hoptions⟩
        · rw [verdicts_ok, hv]
          exact hnames
        · rw [verdicts_ok, hv]
          exact congrArg (x :: ·) herrors
      · simp only [hrun] at hrest hnames herrors hboth
        simp only [removeTokens, hrun] at hoptions ⊢
        refine ⟨?_, ?_, hboth, ?_, hoptions⟩
        · rw [verdicts_ok, hv]
          exact congrArg (r.name :: ·) hnames
        · rw [verdicts_ok, hv]
          exact herrors
        · rw [hrest.table, ht, Table.unset, List.filter_filter]
          simp only [List.mem_cons, not_or, Bool.decide_and, Bool.and_comm]

theorem relieved_remove (h : e.registry.Sound) (t : Text) :
    Relieved e (Removal.read e.nameMax t).tokens (e.remove t).1 (e.remove t).2 := by
  have htokens := relieved_removeTokens h (Removal.read e.nameMax t).tokens
  simp only [remove]
  split
  · exact ⟨htokens.names, htokens.errors, htokens.registry, htokens.table, htokens.options⟩
  · exact ⟨htokens.names, htokens.errors, htokens.registry, htokens.table, htokens.options⟩

theorem fatal_remove (e : Engine) (t : Text) :
    (e.remove t).2.fatal = (Removal.read e.nameMax t).fatal := by
  simp only [remove]
  split <;> rfl

end

/-- A new engine over any table and options, after anything that can be done to
it: a removal comes to one name or one error for every word before the first
that ends the walk, and reports that one apart. A name that is asked for again,
however it is spelled, is not found. The names that were removed are those the
records had, each once, and whatever was visible and not asked for is visible
after, unchanged and in its order. -/
theorem remove_accounts (table : Table) (options : OptionStore) (caseSensitive : Bool)
    (nameMax : Int) (refused : List Text) (as : List Action) (t : Text) :
    let e := (ofParts table options caseSensitive nameMax refused).acts as
    let walked := (Text.words t).takeWhile fun w => !isFatal e.nameMax w
    let tokens := walked.map token
    let e' := (e.remove t).1
    let r := (e.remove t).2
    r.names.length + r.errors.length = walked.length ∧
    (r.fatal ≠ none ↔ ∃ w ∈ Text.words t, isFatal e.nameMax w = true) ∧
    Relieved e tokens e' r ∧
    (∀ (i j : Nat) (n m : Text), i < j → tokens[i]? = some (.ok n) → tokens[j]? = some (.ok m) →
      e.registry.key n = e.registry.key m →
      (e.registry.verdicts [] tokens)[j]? = some (.error (.notFound m))) ∧
    r.names.Nodup ∧
    (∀ n, n ∈ r.names ↔ ∃ x ∈ e.registry.visible, x.name = n ∧
      e.registry.mentions (asked tokens) n = true) ∧
    e'.registry.visible =
      e.registry.visible.filter (fun x => !e.registry.mentions (asked tokens) x.name) ∧
    (∀ n, (∃ x ∈ e'.registry.visible, x.name = n) ↔
      (∃ x ∈ e.registry.visible, x.name = n) ∧ e.registry.mentions (asked tokens) n = false) ∧
    (∀ n, e'.read n = if e.registry.mentions (asked tokens) n then [] else e.read n) := by
  intro e walked tokens e' r
  have hsound : e.registry.Sound := (accounts_acts _ as (sound_empty caseSensitive refused)).1
  have hdone : Relieved e tokens e' r := by
    have hremove := relieved_remove hsound t
    rw [read_eq_ofWords] at hremove
    exact hremove
  have hvisible := visible_withdrawn hdone.registry
  have hfatal : r.fatal = (ofWords e.nameMax (Text.words t)).fatal := by
    rw [← read_eq_ofWords]
    exact fatal_remove e t
  refine ⟨?_, ?_, hdone, ?_, ?_, ?_, hvisible, ?_, ?_⟩
  · rw [hdone.names, hdone.errors, Removed.length_ofVerdicts, length_verdicts, List.length_map]
  · rw [hfatal, ofWords, ← List.any_eq_true]
    split <;> simp [*]
  · intro i j n m hij hi hj hk
    have hearlier : n ∈ asked (tokens.take j) := by
      refine List.mem_filterMap.mpr ⟨.ok n, ?_, rfl⟩
      exact List.mem_of_getElem? (by rw [List.getElem?_take_of_lt hij, hi])
    rw [getElem?_verdicts, hj, Option.map_some, List.nil_append, verdict_repeated]
    exact List.any_eq_true.mpr ⟨n, hearlier, by simp [hk]⟩
  · rw [hdone.names]
    exact names_verdicts_nodup hsound
  · intro n
    rw [hdone.names, mem_names_verdicts hsound]
    simp [mentions]
  · intro n
    rw [hvisible]
    constructor
    · rintro ⟨x, hx, rfl⟩
      obtain ⟨hx, hm⟩ := List.mem_filter.mp hx
      exact ⟨⟨x, hx, rfl⟩, by simpa using hm⟩
    · rintro ⟨⟨x, hx, rfl⟩, hm⟩
      exact ⟨x, List.mem_filter.mpr ⟨hx, by simp [hm]⟩, rfl⟩
  · intro n
    exact read_withdrawn hsound hdone.registry n

example :
    let r := ((sample []).start.remove "$path $PATH home $HOME $b-d $LANG".toList)
    r.2 = ⟨["PATH".toList, "Home".toList], [.notFound "PATH".toList,
      .parse (.unsupportedToken "home".toList)], some .trailingName⟩ ∧
      r.1.table.pairs = [("LANG".toList, ['C'])] := by
  decide +kernel

end Engine

end LetShell
