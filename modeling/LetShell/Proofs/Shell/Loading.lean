import LetShell.Proofs.Json.Overlong
import LetShell.Proofs.Options.Fitness
import LetShell.Proofs.Text.Utf
import LetShell.Terminal

/-!
# Loading a configuration

What is wrong with a configuration is reported as an error, with two exceptions
that end the program: the file is not in UTF-8, or its JSON comes to an integer
that is too long. Everything else that a file can hold is loaded or reported,
and an engine is built from what was loaded or the value at fault is reported.
-/

set_option autoImplicit false

namespace LetShell

namespace Config

/-- Why the content of a file ends the program before it is judged. -/
inductive Unloadable (bytes : Text.Bytes) : Fault → Prop
  | encoding (h : ∀ t, Text.utf8 t ≠ bytes) : Unloadable bytes .invalidEncoding
  | integer {t : Text} {n : Nat} (ht : Text.utf8 t = bytes)
      (hm : Json.Meets n .value (Json.skip t)) : Unloadable bytes (.numeralTooLong n)

def Settable (p : Text × Text) : Prop :=
  ∃ d, OptionStore.standard.lookup .global p.1 = some d ∧ d.fits .set p.2 = true

inductive Unsettable (p : Text × Text) : ConfigError → Prop
  | unknown (h : OptionStore.standard.lookup .global p.1 = none) :
      Unsettable p (.unknownOption p.1)
  | unfit {d : Definition} {x : OptionError} (h : OptionStore.standard.lookup .global p.1 = some d)
      (hx : d.set p.2 = .error x) : Unsettable p (.option x)

section
variable {bytes : Text.Bytes} {c : Config} {f : Fault}

theorem ofText_fault_iff {t : Text} : ofText t = .error (.fault f) ↔
    ∃ n, Json.read t = .error (.tooLong n) ∧ f = .numeralTooLong n := by
  unfold ofText
  cases Json.read t with
  | error e =>
    cases e with
    | malformed => exact ⟨nofun, nofun⟩
    | tooLong n =>
      simp only
      constructor
      · rintro ⟨⟩
        exact ⟨n, rfl, rfl⟩
      · rintro ⟨m, ⟨⟩, rfl⟩
        rfl
  | ok v =>
    simp only
    constructor
    · intro h
      split at h <;> cases h
    · exact nofun

theorem load_fault_iff : load (some bytes) = .error (.fault f) ↔ Unloadable bytes f := by
  rw [load]
  cases hb : Text.ofUtf8? bytes with
  | none =>
    have hno : ∀ t, Text.utf8 t ≠ bytes := by
      intro t ht
      rw [Text.ofUtf8?_eq_some_iff.mpr ht] at hb
      cases hb
    simp only
    constructor
    · rintro ⟨⟩
      exact .encoding hno
    · intro h
      cases h with
      | encoding => rfl
      | integer ht => exact absurd ht (hno _)
  | some t =>
    have ht := Text.ofUtf8?_eq_some_iff.mp hb
    simp only [ofText_fault_iff, Json.read_tooLong_iff]
    constructor
    · rintro ⟨n, hm, rfl⟩
      exact .integer ht hm
    · intro h
      cases h with
      | encoding hno => exact absurd ht (hno t)
      | integer ht' hm =>
        cases Option.some.inj (hb.symm.trans (Text.ofUtf8?_eq_some_iff.mpr ht'))
        exact ⟨_, hm, rfl⟩

theorem one_le_nameLimit {ms : Members} {n : Int} (h : nameLimit ms = .ok n) : 1 ≤ n := by
  unfold nameLimit at h
  split at h
  · cases h
    decide
  · split at h
    · cases h
    · cases h
      omega
  · cases h

theorem one_le_of_ofJson {v : Json} (h : ofJson v = .ok c) : 1 ≤ c.nameMax := by
  unfold ofJson at h
  split at h
  · rename_i ms
    simp only [bind, Except.bind] at h
    split at h
    · cases h
    · split at h
      · cases h
      · rename_i n hn
        split at h
        · cases h
        · split at h
          · cases h
          · cases h
            exact one_le_nameLimit hn
  · cases h

theorem one_le_of_load (h : load (some bytes) = .ok c) : 1 ≤ c.nameMax := by
  rw [load] at h
  split at h
  · cases h
  · unfold ofText at h
    split at h
    · cases h
    · cases h
    · split at h
      · rename_i hc
        cases h
        exact one_le_of_ofJson hc
      · cases h

/-- Setting the pairs ends well if each can be set, and else at one that cannot.
What was set before does not matter. -/
theorem setOptions_cases {s : OptionStore} (pairs : List (Text × Text))
    (hs : ∀ name, (s.lookup .global name).map (fun d => (d.type, d.values)) =
      (OptionStore.standard.lookup .global name).map fun d => (d.type, d.values)) :
    (∃ s', setOptions s pairs = .ok s' ∧ ∀ p ∈ pairs, Settable p) ∨
      ∃ x, setOptions s pairs = .error x ∧ ∃ p ∈ pairs, Unsettable p x := by
  induction pairs generalizing s with
  | nil => exact .inl ⟨s, rfl, nofun⟩
  | cons p pairs ih =>
    obtain ⟨name, t⟩ := p
    have hname := hs name
    unfold setOptions
    cases hd : s.lookup .global name with
    | none =>
      rw [hd, Option.map_none] at hname
      refine .inr ⟨_, rfl, (name, t), List.mem_cons_self .., .unknown ?_⟩
      exact Option.map_eq_none_iff.mp hname.symm
    | some d =>
      rw [hd, Option.map_some] at hname
      obtain ⟨g, hg, hsame⟩ := Option.map_eq_some_iff.mp hname.symm
      obtain ⟨htype, hvalues⟩ := Prod.mk.inj hsame
      have hset : g.set t = d.set t := Definition.set_congr
        ((OptionStore.lookup_name hg).trans (OptionStore.lookup_name hd).symm) htype hvalues t
      cases hv : d.set t with
      | error x =>
        simp only [hv]
        exact .inr ⟨_, rfl, (name, t), List.mem_cons_self .., .unfit hg (hset.trans hv)⟩
      | ok v =>
        simp only [hv]
        have hfits : g.fits .set t = true := by
          apply Definition.fits_of_changed (v := v)
          simp only [Definition.changed, hset, hv, Definition.lift]
        have hkept : ∀ n, ((s.assign .global name v).lookup .global n).map
            (fun d => (d.type, d.values)) =
              (OptionStore.standard.lookup .global n).map fun d => (d.type, d.values) := by
          intro n
          rw [← hs n, OptionStore.lookup_assign, Option.map_map]
          congr 1
          funext x
          simp only [Function.comp_apply]
          split <;> rfl
        rcases ih hkept with ⟨s', hs', hall⟩ | ⟨x, hx, p, hp, hbad⟩
        · exact .inl ⟨s', hs', List.forall_mem_cons.mpr ⟨⟨g, hg, hfits⟩, hall⟩⟩
        · exact .inr ⟨x, hx, p, List.mem_cons_of_mem _ hp, hbad⟩

theorem engine_cases (h : 1 ≤ c.nameMax) (table : Table) (refused : List Text) :
    (∃ e, c.engine table refused = .ok e ∧ ∀ p ∈ c.options, Settable p) ∨
      ∃ x, c.engine table refused = .error x ∧ ∃ p ∈ c.options, Unsettable p x := by
  unfold engine
  rw [if_neg (by omega)]
  rcases setOptions_cases c.options fun _ => rfl with ⟨s, hs, hall⟩ | ⟨x, hx, hbad⟩
  · rw [hs]
    exact .inl ⟨_, rfl, hall⟩
  · rw [hx]
    exact .inr ⟨x, rfl, hbad⟩

end

open Terminal in
/-- For every content of the file. Loading it ends the program just if it is not
in UTF-8 or comes to an integer that is too long. What is loaded limits names to
at least one character, and an engine is built from it if each of its options
can be set; else one that cannot is reported. So a terminal session ends at once
for one of the two reasons, reports an error and exits, or is run. -/
theorem loading_ends (bytes : Text.Bytes) :
    (∀ f, load (some bytes) = .error (.fault f) ↔ Unloadable bytes f) ∧
      (∀ c, load (some bytes) = .ok c → 1 ≤ c.nameMax ∧ ∀ table refused,
        (∃ e, c.engine table refused = .ok e ∧ ∀ p ∈ c.options, Settable p) ∨
          ∃ x, c.engine table refused = .error x ∧ ∃ p ∈ c.options, Unsettable p x) ∧
      ∀ w process inputs,
        (∃ f, Unloadable bytes f ∧ transcript w (load (some bytes)) process inputs =
          { Transcript.unstarted process inputs with fault := some f }) ∨
        (∃ x : ConfigError, transcript w (load (some bytes)) process inputs =
          { Transcript.unstarted process inputs with
            errors := "Error: ".toList ++ x.message w ++ ['\n'], exit := some 1 }) ∨
        ∃ c e, load (some bytes) = .ok c ∧ c.engine (tableOf c process) [] = .ok e ∧
          (transcript w (load (some bytes)) process inputs).fault = (session e inputs).2.2 := by
  refine ⟨fun _ => load_fault_iff, ?_, ?_⟩
  · intro c hc
    have hlimit := one_le_of_load hc
    exact ⟨hlimit, engine_cases hlimit⟩
  · intro w process inputs
    cases hload : load (some bytes) with
    | error e =>
      cases e with
      | fault f => exact .inl ⟨f, load_fault_iff.mp hload, rfl⟩
      | error x => exact .inr (.inl ⟨x, rfl⟩)
    | ok c =>
      cases he : c.engine (tableOf c process) [] with
      | error x => exact .inr (.inl ⟨x, by simp only [transcript, he]⟩)
      | ok e => exact .inr (.inr ⟨c, e, rfl, he, by simp only [transcript, he]⟩)

def nines : Text := List.replicate 4301 '9'

/-- A byte that UTF-8 does not have, and an integer with a digit too many, are
not reported as errors. -/
theorem loading_faults :
    load (some [0xff]) = .error (.fault .invalidEncoding) ∧
      load (some (Text.utf8 nines)) = .error (.fault (.numeralTooLong 4301)) := by
  have hlong : Json.LongInteger nines [] nines := by
    refine ⟨.inl (List.append_nil nines).symm, ?_, ?_, by decide, Expression.free_nil _, rfl, rfl⟩
    · rw [nines, List.length_replicate]
      decide
    · intro c hc
      rw [List.eq_of_mem_replicate hc]
      decide
  have hskip : Json.skip nines = nines := rfl
  refine ⟨rfl, load_fault_iff.mpr (.integer rfl ?_)⟩
  rw [hskip]
  exact .integer hlong List.length_replicate

end Config

end LetShell
