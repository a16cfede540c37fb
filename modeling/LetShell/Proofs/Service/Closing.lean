import LetShell.Proofs.Shell.Farewell
import LetShell.Service

/-!
# What closes the service

To the engine a request is the actions of the line it posts, and a teardown
after them if the line asks for the end. Requests of every other form leave the
engine and the session as they are. So the session closes, and the engine is
torn down, by a posted line only, and only by one that asks for the end. All of
this holds behind every gateway; its laws add that the line came by a post.
-/

set_option autoImplicit false

namespace LetShell.Service

def Demand.line? : Demand → Option Text
  | .command line => some line
  | .missing | .unusable | .refused => none

def Call.line? : Call → Option Text
  | .execute payload => (Demand.ofJson payload).line?
  | .page | .status => none

/-- What follows in the engine from the answer to a line. -/
def sequel : Except Fault Text → List Action
  | .ok out => if out = Shell.farewell then [.teardown] else []
  | .error _ => []

section
variable {ρ : Type} (g : Gateway ρ)

def Gateway.posted? (r : ρ) : Option Text := (g.call? r).bind Call.line?

/-- The request posts a line to an open session, and the line asks for the end. -/
def Closing (v : Service) (r : ρ) : Prop :=
  v.isOpen = true ∧ ∃ line, g.posted? r = some line ∧ v.shell.Ends line

/-- The request closes the session: the teardown it leads to goes through. -/
def Closes (v : Service) (r : ρ) : Prop :=
  v.isOpen = true ∧ ∃ line, g.posted? r = some line ∧ v.shell.Ends line ∧
    ((v.shell.execute line).1.engine.teardown).2 = .ok ()

def asks (v : Service) (r : ρ) : List Action :=
  match g.posted? r with
  | some line =>
    if v.isOpen then Shell.actions line ++ sequel (v.shell.execute line).2 else []
  | none => []

def asksAll (v : Service) : List ρ → List Action
  | [] => []
  | r :: rs => v.asks g r ++ asksAll (v.handle g r).1 rs

/-- Some request of a sequence has a property when its turn comes. -/
def Meets (P : Service → ρ → Prop) (v : Service) (rs : List ρ) : Prop :=
  ∃ front r back, rs = front ++ r :: back ∧ P (v.handleAll g front).1 r

end

section
variable {v : Service}

theorem teardown_mem_sequel (x : Except Fault Text) :
    .teardown ∈ sequel x ↔ x = .ok Shell.farewell := by
  cases x with
  | error f => simp [sequel]
  | ok out =>
    by_cases h : out = Shell.farewell <;> simp [sequel, h]

theorem sequel_other {x : Except Fault Text} (h : x ≠ .ok Shell.farewell) : sequel x = [] := by
  cases x with
  | error f => rfl
  | ok out => exact if_neg fun he => h (congrArg _ he)

theorem teardown_not_mem_actions (line : Text) : .teardown ∉ Shell.actions line := by
  intro h
  rcases Shell.mem_actions h with ⟨s, hs⟩ | ⟨ws, hws⟩
  · cases hs
  · cases hws

/-- The session as it is, but for the history of its shell. -/
structure Keeps (v w : Service) : Prop where
  isOpen : w.isOpen = v.isOpen
  engine : w.shell.engine = v.shell.engine

theorem keeps_refl (v : Service) : Keeps v v := ⟨rfl, rfl⟩

theorem keeps_view (v : Service) (shown : Text → Response) : Keeps v (v.view shown).1 :=
  ⟨rfl, Shell.execute_engine v.shell Command.version.word⟩

theorem keeps_status (v : Service) : Keeps v v.status.1 := by
  unfold status
  split
  · exact keeps_view v _
  · exact keeps_refl v

theorem serve_line {c : Call} {line : Text} (h : c.line? = some line) (v : Service) :
    v.serve c = v.post line := by
  cases c with
  | page => cases h
  | status => cases h
  | execute payload =>
    rw [serve, execute]
    cases hd : Demand.ofJson payload with
    | command t =>
      rw [Call.line?, hd] at h
      cases h
      rfl
    | missing | unusable | refused =>
      rw [Call.line?, hd] at h
      cases h

theorem execute_other {payload : Option Json} (h : (Call.execute payload).line? = none) :
    (∀ v, execute v payload = (v, .ok missingField)) ∨
      (∀ v, execute v payload = (v, .error (.error .noMembers))) ∨
      ∀ v, execute v payload = (v, if v.isOpen then .error (.error .noCommandText)
        else .ok (result closedText true)) := by
  rw [Call.line?] at h
  unfold execute
  cases hd : Demand.ofJson payload with
  | missing => exact .inl fun _ => rfl
  | refused => exact .inr (.inl fun _ => rfl)
  | unusable => exact .inr (.inr fun _ => rfl)
  | command line =>
    rw [hd] at h
    cases h

theorem serve_other {c : Call} (h : c.line? = none) (v : Service) : Keeps v (v.serve c).1 := by
  cases c with
  | page => exact keeps_view v _
  | status => exact keeps_status v
  | execute payload =>
    rw [serve]
    rcases execute_other h with he | he | he <;> rw [he] <;> exact keeps_refl v

theorem command_engine (v : Service) (line : Text) :
    (v.command line).1.shell.engine =
      v.shell.engine.acts (Shell.actions line ++ sequel (v.shell.execute line).2) := by
  rw [Engine.acts_append, ← Shell.execute_engine, command]
  split
  · rename_i shell f hx
    rw [hx]
    rfl
  · rename_i shell out hx
    rw [hx, sequel]
    by_cases hout : out = Shell.farewell
    · rw [if_pos hout, if_pos hout, Engine.acts, Engine.acts, Engine.act]
      split <;> rename_i ht <;> rw [ht]
    · rw [if_neg hout, if_neg hout]
      rfl

theorem command_isOpen (hv : v.isOpen = true) (line : Text) :
    (v.command line).1.isOpen = false ↔
      v.shell.Ends line ∧ ((v.shell.execute line).1.engine.teardown).2 = .ok () := by
  rw [← Shell.execute_farewell_iff, command]
  split
  · rename_i shell f hx
    rw [hx]
    simp [hv]
  · rename_i shell out hx
    rw [hx]
    by_cases hout : out = Shell.farewell
    · rw [if_pos hout]
      split <;> rename_i ht <;> simp [ht, hout, hv]
    · simp [hout, hv]

end

section
variable {ρ : Type} {g : Gateway ρ} {v : Service} {r : ρ} {rs : List ρ}

theorem not_meets_nil (P : Service → ρ → Prop) : ¬ Meets g P v [] := by
  rintro ⟨front, r, back, h, -⟩
  cases front <;> cases h

theorem meets_cons (P : Service → ρ → Prop) :
    Meets g P v (r :: rs) ↔ P v r ∨ Meets g P (v.handle g r).1 rs := by
  constructor
  · rintro ⟨front, x, back, h, hP⟩
    cases front with
    | nil =>
      cases h
      exact .inl hP
    | cons y front =>
      cases h
      exact .inr ⟨front, x, back, rfl, hP⟩
  · rintro (hP | ⟨front, x, back, rfl, hP⟩)
    · exact ⟨[], r, rs, rfl, hP⟩
    · exact ⟨r :: front, x, back, rfl, hP⟩

theorem handle_uncalled (h : g.call? r = none) (v : Service) : v.handle g r = (v, none) := by
  rw [handle, h]

theorem handle_called {c : Call} (h : g.call? r = some c) (v : Service) :
    v.handle g r = ((v.serve c).1, some (v.serve c).2) := by
  rw [handle, h]

theorem posted?_called {c : Call} (h : g.call? r = some c) : g.posted? r = c.line? := by
  rw [Gateway.posted?, h, Option.bind_some]

theorem posted?_eq_some_iff {line : Text} :
    g.posted? r = some line ↔ ∃ c, g.call? r = some c ∧ c.line? = some line :=
  Option.bind_eq_some_iff

theorem handle_posted {line : Text} (h : g.posted? r = some line) (v : Service) :
    v.handle g r = ((v.post line).1, some (v.post line).2) := by
  obtain ⟨c, hc, hline⟩ := posted?_eq_some_iff.mp h
  rw [handle_called hc, serve_line hline]

theorem handle_other (h : g.posted? r = none) (v : Service) : Keeps v (v.handle g r).1 := by
  cases hc : g.call? r with
  | none =>
    rw [handle_uncalled hc]
    exact keeps_refl v
  | some c =>
    rw [handle_called hc]
    exact serve_other ((posted?_called hc).symm.trans h) v

theorem method_posted (hg : g.Lawful) {line : Text} (h : g.posted? r = some line) :
    g.method r = "POST".toList ∧ g.path r = Endpoint.execute.path := by
  obtain ⟨c, hc, hline⟩ := posted?_eq_some_iff.mp h
  have hmethod := hg.method_mem hc
  have hpath := hg.path_eq hc
  cases c with
  | page => cases hline
  | status => cases hline
  | execute payload => exact ⟨List.mem_singleton.mp hmethod, hpath⟩

theorem handle_engine (v : Service) (r : ρ) :
    (v.handle g r).1.shell.engine = v.shell.engine.acts (v.asks g r) := by
  unfold asks
  cases hr : g.posted? r with
  | none => exact (handle_other hr v).engine
  | some line =>
    rw [handle_posted hr, post]
    cases v.isOpen with
    | false => rfl
    | true => exact command_engine v line

theorem teardown_mem_asks (v : Service) (r : ρ) : .teardown ∈ v.asks g r ↔ v.Closing g r := by
  unfold asks Closing
  cases hr : g.posted? r with
  | none => simp
  | some line =>
    cases hv : v.isOpen with
    | false => simp
    | true =>
      simp only [if_true, List.mem_append, teardown_not_mem_actions, false_or,
        teardown_mem_sequel, Shell.execute_farewell_iff, true_and, Option.some.injEq, exists_eq_left']

theorem handle_isOpen (v : Service) (r : ρ) :
    (v.handle g r).1.isOpen = false ↔ v.isOpen = false ∨ v.Closes g r := by
  unfold Closes
  cases hr : g.posted? r with
  | none =>
    rw [(handle_other hr v).isOpen]
    simp
  | some line =>
    rw [handle_posted hr, post]
    cases hv : v.isOpen with
    | false => simp [hv]
    | true =>
      simp only [if_true, command_isOpen hv, Option.some.injEq, exists_eq_left', true_and,
        reduceCtorEq, false_or]

theorem handleAll_engine (v : Service) (rs : List ρ) :
    (v.handleAll g rs).1.shell.engine = v.shell.engine.acts (v.asksAll g rs) := by
  induction rs generalizing v with
  | nil => rfl
  | cons r rs ih => rw [asksAll, Engine.acts_append, ← handle_engine, ← ih, handleAll]

theorem teardown_mem_asksAll (v : Service) (rs : List ρ) :
    .teardown ∈ v.asksAll g rs ↔ v.Meets g (Closing g) rs := by
  induction rs generalizing v with
  | nil => exact iff_of_false (by simp [asksAll]) (not_meets_nil _)
  | cons r rs ih => rw [asksAll, List.mem_append, teardown_mem_asks, ih, meets_cons]

theorem handleAll_isOpen (v : Service) (rs : List ρ) :
    (v.handleAll g rs).1.isOpen = false ↔ v.isOpen = false ∨ v.Meets g (Closes g) rs := by
  induction rs generalizing v with
  | nil => simp [handleAll, not_meets_nil]
  | cons r rs ih => rw [handleAll, ih, handle_isOpen, meets_cons, or_assoc]

/-- A line has the output that ends a session if and only if its first word is
the last command, or it echoes that text. Over any requests the engine is torn
down if and only if one of them posts such a line to the open session, and the
session closes if and only if a teardown that one leads to goes through. Behind
a lawful gateway such a request is a post to the endpoint for execution. -/
theorem closes_iff_farewell (hg : g.Lawful) (s : Shell) (line : Text) (v : Service)
    (rs : List ρ) :
    ((s.execute line).2 = .ok Shell.farewell ↔
      (Text.words line).head? = some Command.exit.word ∨ s.Echoes Shell.farewell line) ∧
    (v.handleAll g rs).1.shell.engine = v.shell.engine.acts (v.asksAll g rs) ∧
    (.teardown ∈ v.asksAll g rs ↔ v.Meets g (Closing g) rs) ∧
    ((v.handleAll g rs).1.isOpen = false ↔ v.isOpen = false ∨ v.Meets g (Closes g) rs) ∧
    ∀ w r, Closing g w r → g.method r = "POST".toList ∧ g.path r = Endpoint.execute.path := by
  refine ⟨Shell.execute_farewell_iff line, handleAll_engine v rs, teardown_mem_asksAll v rs,
    handleAll_isOpen v rs, ?_⟩
  rintro w r ⟨-, posted, hposted, -⟩
  exact method_posted hg hposted

end

structure Message where
  method : Text
  path : Text
  payload : Option Json

def Endpoint.find? (method path : Text) : Option Endpoint :=
  [Endpoint.page, .execute, .status].find? fun e => e.path = path && e.methods.contains method

def Endpoint.call (payload : Option Json) : Endpoint → Call
  | .page => .page
  | .execute => .execute payload
  | .status => .status

/-- The gateway that only tells the endpoints apart. -/
def Gateway.direct : Gateway Message where
  method := Message.method
  path := Message.path
  call? m := (Endpoint.find? m.method m.path).map (Endpoint.call m.payload)

theorem Gateway.lawful_direct : Gateway.direct.Lawful := by
  have hcall : ∀ {m c}, Gateway.direct.call? m = some c →
      m.path = c.endpoint.path ∧ m.method ∈ c.endpoint.methods := by
    intro m c h
    obtain ⟨e, he, rfl⟩ := Option.map_eq_some_iff.mp h
    have hendpoint : (Endpoint.call m.payload e).endpoint = e := by cases e <;> rfl
    have hfound := List.find?_some he
    rw [hendpoint]
    simp only [Bool.and_eq_true, decide_eq_true_eq, List.contains_iff_mem] at hfound
    exact ⟨hfound.1.symm, hfound.2⟩
  exact ⟨fun h => (hcall h).1, fun h => (hcall h).2⟩

def Message.post (line : Text) : Message :=
  ⟨"POST".toList, Endpoint.execute.path,
    some (.object [(Json.keyOf commandField, .ofText line)])⟩

def fresh : Service := ⟨.ofEngine (Engine.ofParts .empty .standard true 64 []).start, true⟩

theorem closes_iff_farewell_sample :
    let rs := [Message.post "let $A = 1".toList, Message.post " exit now".toList]
    create .standard .empty = .ok fresh ∧ Gateway.direct.Lawful ∧
      (fresh.handleAll .direct rs).1.isOpen = false ∧
      fresh.Meets .direct (Closes .direct) rs ∧ .teardown ∈ fresh.asksAll .direct rs := by
  intro rs
  have hclosed : (fresh.handleAll .direct rs).1.isOpen = false := by decide +kernel
  obtain ⟨-, -, hdown, hcloses, -⟩ :=
    closes_iff_farewell Gateway.lawful_direct fresh.shell "exit".toList fresh rs
  have hmeets : fresh.Meets .direct (Closes .direct) rs :=
    (hcloses.mp hclosed).resolve_left Bool.noConfusion
  refine ⟨rfl, Gateway.lawful_direct, hclosed, hmeets, hdown.mpr ?_⟩
  obtain ⟨front, r, back, hrs, hopen, line, hposted, hends, -⟩ := hmeets
  exact ⟨front, r, back, hrs, hopen, line, hposted, hends⟩

/-- A session that is told to echo the text is closed instead. -/
theorem echo_closes_session :
    create .standard .empty = .ok fresh ∧
      (fresh.shell.execute "echo '__EXIT__'".toList).2 = .ok Shell.farewell ∧
      (Text.words "echo '__EXIT__'".toList).head? ≠ some Command.exit.word ∧
      (fresh.handle .direct (Message.post "echo '__EXIT__'".toList)).1.isOpen = false :=
  ⟨rfl, rfl, by decide, by decide +kernel⟩

end LetShell.Service
