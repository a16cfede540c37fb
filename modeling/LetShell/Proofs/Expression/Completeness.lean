import LetShell.Proofs.Expression.Soundness

/-!
# What the evaluator does not miss

In front of a text that does not continue it, every spelling is read to its
end, both at the start of an expression and after a dot. The result is the
value of the tree, unless a number on the way cannot be written out, which is a
fault. Together with soundness this is the language of the evaluator.
-/

set_option autoImplicit false

namespace LetShell.Expression

/-- Equal, unless the first is a fault. -/
def Agrees (x y : Outcome (Value × Text)) : Prop := x = y ∨ ∃ f, x = .error (.fault f)

/-- No blank in front, and nothing that would turn a dot into an operator. -/
def Lead (t : Text) : Prop := ∃ c s, t = c :: s ∧ Text.isBlank c = false ∧ c ≠ '='

/-- The text `c` is read before `t`, alone or joined to a value before a dot. -/
structure Reads (ctx : Context) (c : Text) (v : Value) (t : Text) : Prop where
  alone : Agrees (evaluate ctx (c ++ t)) (resume ctx v t)
  joined : ∀ u : Value,
    Agrees (resume ctx u ('.' :: (c ++ t))) (resume ctx (.text (u.form ++ v.form)) t)

section
variable {ctx : Context} {c t rest : Text} {u v : Value}

theorem agrees_trans {x y z : Outcome (Value × Text)} (h : Agrees x y) (h' : Agrees y z) :
    Agrees x z := by
  rcases h with rfl | hf
  · exact h'
  · exact .inr hf

theorem lead_append (h : Lead c) (t : Text) : Lead (c ++ t) := by
  obtain ⟨x, s, rfl, hb, he⟩ := h
  exact ⟨x, s ++ t, rfl, hb, he⟩

theorem trimStart_lead (h : Lead t) : t.trimStart = t := by
  obtain ⟨x, s, rfl, hb, -⟩ := h
  exact Text.trimStart_of_not_blank hb

theorem lead_signed {negative : Bool} {digits : Text} (hne : digits ≠ [])
    (hd : ∀ c ∈ digits, Text.isDigit c = true) : Lead (signed negative digits) := by
  cases negative with
  | true => exact ⟨'-', digits, rfl, by decide, by decide⟩
  | false =>
    cases digits with
    | nil => exact absurd rfl hne
    | cons c s =>
      have hc := hd c (List.mem_cons_self ..)
      refine ⟨c, s, rfl, not_blank_of_digit hc, ?_⟩
      rintro rfl
      revert hc
      decide +kernel

theorem spelling_lead {e : Tree} (h : Spelling e c) : Lead c := by
  induction h with
  | single content => exact ⟨'\'', _, rfl, by decide, by decide⟩
  | double hw => exact ⟨'"', _, rfl, by decide, by decide⟩
  | number negative hne hd hl =>
    exact lead_signed hne fun c hc => Text.isDigit_of_isDecimal (hd c hc)
  | env ha => exact ⟨'$', _, rfl, by decide, by decide⟩
  | option ha => exact ⟨'&', _, rfl, by decide, by decide⟩
  | group hb ha h ih => exact ⟨'(', _, rfl, by decide, by decide⟩
  | concat hb ha hl hr ihl ihr =>
    rw [List.append_assoc]
    exact lead_append ihl _

theorem resume_dot_blank {w : Text} (hw : Blank w) (h : Lead t) :
    resume ctx v ('.' :: (w ++ t)) = resume ctx v ('.' :: t) := by
  obtain ⟨x, s, rfl, hx, he⟩ := h
  have hright : ∀ r, x :: s ≠ '=' :: r := by
    intro r hr
    exact he (List.cons.inj hr).1
  have hleft : ∀ r, w ++ x :: s ≠ '=' :: r := by
    intro r hr
    cases w with
    | nil => exact hright r hr
    | cons b w =>
      have hb := hw b (List.mem_cons_self ..)
      rw [(List.cons.inj hr).1] at hb
      revert hb
      decide
  rw [resume_dot v hleft, resume_dot v hright, trimStart_blank hw]

theorem evaluate_blank {w : Text} (hw : Blank w) : evaluate ctx (w ++ t) = evaluate ctx t := by
  rw [← evaluate_trimStart, trimStart_blank hw, evaluate_trimStart]

theorem resume_blank {w : Text} (hw : Blank w) : resume ctx v (w ++ t) = resume ctx v t := by
  rw [← resume_trimStart, trimStart_blank hw, resume_trimStart]

theorem reads_term (hc : Lead c) (h : Agrees (term ctx (evaluate ctx) (c ++ t)) (.ok (v, t))) :
    Reads ctx c v t := by
  have htrim := trimStart_lead (lead_append hc t)
  constructor
  · rw [evaluate_eq, htrim]
    rcases h with h | ⟨f, h⟩
    · rw [h]
      exact .inl rfl
    · rw [h]
      exact .inr ⟨f, rfl⟩
  · intro u
    have hne : ∀ r, c ++ t ≠ '=' :: r := by
      obtain ⟨x, s, rfl, -, he⟩ := hc
      intro r hr
      exact he (List.cons.inj hr).1
    rw [resume_dot u hne, htrim]
    cases hu : u.toText with
    | error f => exact .inr ⟨f, rfl⟩
    | ok left =>
      rcases h with h | ⟨f, h⟩
      · rw [h]
        cases hv : v.toText with
        | error f => exact .inr ⟨f, by simp only [hv]⟩
        | ok right =>
          left
          simp only [hv]
          rw [Value.form_of_toText hu, Value.form_of_toText hv]
      · rw [h]
        exact .inr ⟨f, rfl⟩

theorem numeral?_other {x : Char} (hd : Text.isDigit x = false) (hm : x ≠ '-') (s : Text) :
    numeral? (x :: s) = none := by
  rw [numeral?]
  · rw [hd]
    rfl
  · intro d r hx
    exact absurd hx hm

theorem term_of_numeral {inner : Text → Outcome (Value × Text)} {token : Text}
    (h : numeral? t = some (token, rest)) :
    term ctx inner t = match Numeral.readOrFault token with
      | .ok n => .ok (.int n, rest)
      | .error f => .error (.fault f) := by
  have hother : ∀ (x : Char) (s : Text), Text.isDigit x = false → x ≠ '-' → t ≠ x :: s := by
    rintro x s hd hm rfl
    rw [numeral?_other hd hm] at h
    cases h
  unfold term
  split
  · exact absurd rfl (hother '\'' _ (by decide +kernel) (by decide))
  · exact absurd rfl (hother '"' _ (by decide +kernel) (by decide))
  · exact absurd rfl (hother '$' _ (by decide +kernel) (by decide))
  · exact absurd rfl (hother '&' _ (by decide +kernel) (by decide))
  · exact absurd rfl (hother '(' _ (by decide +kernel) (by decide))
  · cases hn : Numeral.readOrFault token with
    | ok n => simp only [h, hn]
    | error f => simp only [h, hn]

theorem term_numeral {inner : Text → Outcome (Value × Text)} {token : Text} {n : Int}
    (h : numeral? t = some (token, rest)) (hn : Numeral.readOrFault token = .ok n) :
    term ctx inner t = .ok (.int n, rest) := by
  rw [term_of_numeral h, hn]

theorem term_group {before after : Text} (hb : Blank before) (ha : Blank after)
    (h : Agrees (evaluate ctx (c ++ (after ++ ')' :: t))) (resume ctx v (after ++ ')' :: t))) :
    Agrees (term ctx (evaluate ctx) ('(' :: (before ++ (c ++ (after ++ ')' :: t))))) (.ok (v, t)) := by
  have hclose : Text.trimStart (')' :: t) = ')' :: t := Text.trimStart_of_not_blank (by decide)
  have hend : resume ctx v (after ++ ')' :: t) = .ok (v, ')' :: t) := by
    have hu : Undotted (Text.trimStart (')' :: t)) := by
      rw [hclose]
      intro s hs
      cases hs
    rw [resume_blank ha, resume_undotted v hu, hclose]
  simp only [term, evaluate_blank hb]
  rw [hend] at h
  rcases h with h | ⟨f, h⟩
  · rw [h]
    left
    simp only [hclose]
  · rw [h]
    exact .inr ⟨f, rfl⟩

theorem reads_spelling {e : Tree} (h : Spelling e c) (hv : e.value ctx = some v)
    (he : e.Ends t) : Reads ctx c v t := by
  have hlead := spelling_lead h
  induction h generalizing v t with
  | single content =>
    cases hv
    apply reads_term hlead
    left
    simp [term, singleQuoted_complete content he]
  | @double content written hw =>
    cases hv
    apply reads_term hlead
    left
    simp [term, doubleQuoted_complete hw t]
  | number negative hne hd hl =>
    cases hv
    apply reads_term hlead
    left
    have hdigit := fun x hx => Text.isDigit_of_isDecimal (hd x hx)
    exact term_numeral (numeral?_complete hne hdigit he) (readOrFault_signed hne hd hl)
  | env ha =>
    cases hv
    apply reads_term hlead
    left
    simp [term, name?_complete ha he]
  | @option name ha =>
    have hopt : ctx.option name = some v := hv
    apply reads_term hlead
    left
    simp [term, name?_complete ha he, hopt]
  | @group inner before c after hb ha h ih =>
    have hends : inner.Ends (after ++ ')' :: t) := ends_blank ha rfl inner t
    have hin := (ih hv hends (spelling_lead h)).alone
    apply reads_term hlead
    simpa using term_group hb ha hin
  | @concat left right before after c d hb ha hl hr ihl ihr =>
    simp only [Tree.value, Option.bind_eq_bind, Option.bind_eq_some_iff, Option.pure_def] at hv
    obtain ⟨l, hvl, r, hvr, he'⟩ := hv
    cases he'
    have hdot : separates '.' = true := by decide
    have hends : left.Ends (before ++ '.' :: (after ++ (d ++ t))) :=
      ends_blank hb hdot left _
    have hleft := ihl hvl hends (spelling_lead hl)
    have hright := ihr hvr he (spelling_lead hr)
    have hgo : ∀ u, resume ctx u (before ++ '.' :: (after ++ (d ++ t))) =
        resume ctx u ('.' :: (d ++ t)) := by
      intro u
      rw [resume_blank hb, resume_dot_blank ha (lead_append (spelling_lead hr) t)]
    have hsplit : c ++ before ++ '.' :: (after ++ d) ++ t =
        c ++ (before ++ '.' :: (after ++ (d ++ t))) := by simp
    constructor
    · rw [hsplit]
      have hone := hleft.alone
      rw [hgo] at hone
      exact agrees_trans hone (hright.joined l)
    · intro u
      rw [hsplit]
      have hone := hleft.joined u
      rw [hgo] at hone
      have htwo := hright.joined (.text (u.form ++ l.form))
      have hassoc : (Value.text (u.form ++ l.form)).form ++ r.form =
          u.form ++ (Value.text (l.form ++ r.form)).form := List.append_assoc ..
      rw [hassoc] at htwo
      exact agrees_trans hone htwo

theorem evaluate_complete (h : Begins ctx t v rest) : Agrees (evaluate ctx t) (.ok (v, rest)) := by
  obtain ⟨before, c, after, e, hb, ha, rfl, hc, hv, hfree, hu, he⟩ := h
  have hends : e.Ends (after ++ rest) := by
    cases after with
    | nil => exact he rfl
    | cons b after =>
      have hblank : separates b = true := by simp [separates, ha b (List.mem_cons_self ..)]
      exact ends_cons hblank e _
  have hread := (reads_spelling hc hv hends).alone
  have hrest := trimStart_eq_self_iff.mpr hfree
  have hstop : resume ctx v (after ++ rest) = .ok (v, rest) := by
    rw [resume_blank ha, resume_undotted v (hrest.symm ▸ hu), hrest]
  rw [hstop] at hread
  rw [List.append_assoc, List.append_assoc, evaluate_blank hb]
  exact hread

end

/-- The language of the evaluator and its meaning. An option's truth value is
read as 0 or 1. Where no number fails to be read or written, a text gives a
value and a rest exactly if it is a spelling of a tree with that value, among
blanks, and a rest that goes on with neither a blank, a dot that could join
another term, nor more of the last token. -/
theorem evaluate_eq_ok_iff (env : Text → Text) (option : Text → Option OptionValue) {t : Text}
    (h : ∀ f, evaluate (.ofReaders env option) t ≠ .error (.fault f)) (v : Value) (rest : Text) :
    evaluate (.ofReaders env option) t = .ok (v, rest) ↔
      ∃ (before c after : Text) (e : Tree), Blank before ∧ Blank after ∧
        t = before ++ c ++ after ++ rest ∧ Spelling e c ∧
        e.value (.ofReaders env option) = some v ∧
        Free Text.isBlank rest ∧ (∀ s, rest = '.' :: s → ∃ r, s = '=' :: r) ∧
        (after = [] → e.Ends rest) := by
  constructor
  · exact evaluate_sound _ t v rest
  · intro hb
    rcases evaluate_complete hb with heq | ⟨f, hf⟩
    · exact heq
    · exact absurd hf (h f)

theorem evaluate_eq_ok_iff_sample :
    (∀ f, evaluate (.ofReaders (fun _ => "/root".toList) fun _ => some (.bool true))
      " ('a''b' . $HOME).&list .= 5".toList ≠ .error (.fault f)) ∧
    Begins (.ofReaders (fun _ => "/root".toList) fun _ => some (.bool true))
      " ('a''b' . $HOME).&list .= 5".toList (.text "a'b/root1".toList) ".= 5".toList := by
  have hok : evaluate (.ofReaders (fun _ => "/root".toList) fun _ => some (.bool true))
      " ('a''b' . $HOME).&list .= 5".toList = .ok (.text "a'b/root1".toList, ".= 5".toList) :=
    rfl
  have h : ∀ f, evaluate (.ofReaders (fun _ => "/root".toList) fun _ => some (.bool true))
      " ('a''b' . $HOME).&list .= 5".toList ≠ .error (.fault f) := by
    intro f hf
    rw [hok] at hf
    cases hf
  exact ⟨h, (evaluate_eq_ok_iff _ _ h _ _).mp hok⟩

end LetShell.Expression
