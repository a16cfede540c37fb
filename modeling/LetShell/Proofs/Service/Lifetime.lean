import LetShell.Proofs.Engine.Regularity
import LetShell.Proofs.Service.Closing

/-!
# The lifetime of a session

Over a private table a teardown always goes through, so the line that asks for
the end gets it. The responses tell how far a session has come: it is open
until one of them says that it is closed. Until then a posted line is answered
with the output of the shell, and afterwards nothing happens any more, so no
session is torn down twice.
-/

set_option autoImplicit false

namespace LetShell.Service

def Response.saysClosed (a : Response) : Bool :=
  match a.content with
  | .json (.object ms) =>
    match Json.member? ms "closed".toList with
    | some (.bool b) => b
    | _ => false
  | _ => false

/-- Only a response can say that the session is closed: no failure does, and no
gateway that answers by itself. -/
def saysClosed : Option Result → Bool
  | some (.ok a) => a.saysClosed
  | some (.error _) | none => false

/-- An open session can be torn down, and a closed one has been. -/
structure Sane (v : Service) : Prop where
  regular : v.shell.engine.Regular
  closed : v.isOpen = false → v.shell.engine.registry.slots = []

section
variable {ρ : Type} {g : Gateway ρ} {v : Service} {r : ρ} {rs : List ρ}

theorem saysClosed_view {shown : Text → Response} (h : ∀ t, (shown t).saysClosed = false)
    (v : Service) : saysClosed (some (v.view shown).2) = false := by
  have hmap : ∀ x : Except Fault Text,
      saysClosed (some ((Failure.ofFault x).map shown)) = false := by
    intro x
    cases x with
    | error f => rfl
    | ok t => exact h t
  exact hmap _

theorem saysClosed_status (v : Service) : saysClosed (some v.status.2) = false := by
  unfold status
  split
  · exact saysClosed_view (fun _ => rfl) v
  · rfl

theorem saysClosed_serve (hv : v.isOpen = true) {c : Call} (h : c.line? = none) :
    saysClosed (some (v.serve c).2) = false := by
  cases c with
  | page => exact saysClosed_view (fun _ => rfl) v
  | status => exact saysClosed_status v
  | execute payload =>
    rw [serve]
    rcases execute_other h with he | he | he <;> rw [he]
    · rfl
    · rfl
    · rw [hv]
      rfl

theorem saysClosed_other (hv : v.isOpen = true) (h : g.posted? r = none) :
    saysClosed (v.handle g r).2 = false := by
  cases hc : g.call? r with
  | none =>
    rw [handle_uncalled hc]
    rfl
  | some c =>
    rw [handle_called hc]
    exact saysClosed_serve hv ((posted?_called hc).symm.trans h)

theorem memory_execute (h : v.shell.engine.Regular) (line : Text) :
    (v.shell.execute line).1.engine.table.kind = .ofMemory := by
  rw [Shell.execute_engine]
  exact (Engine.regular_acts h _).memory

theorem post_cases (h : v.shell.engine.Regular) (hv : v.isOpen = true) (line : Text) :
    (∀ f, (v.shell.execute line).2 = .error f →
      v.post line = (⟨(v.shell.execute line).1, true⟩, .error (.fault f))) ∧
    (∀ out, (v.shell.execute line).2 = .ok out → out ≠ Shell.farewell →
      v.post line = (⟨(v.shell.execute line).1, true⟩, .ok (result out false))) ∧
    ((v.shell.execute line).2 = .ok Shell.farewell →
      v.post line = (⟨{ (v.shell.execute line).1 with
        engine := ((v.shell.execute line).1.engine.teardown).1 }, false⟩,
          .ok (result closedText true))) := by
  have hdown := Engine.teardown_ofMemory (memory_execute h line)
  obtain ⟨shell, isOpen⟩ := v
  cases hv
  unfold post command
  cases hx : shell.execute line with
  | mk s answer =>
    rw [hx] at hdown
    refine ⟨?_, ?_, ?_⟩
    · rintro f rfl
      rfl
    · rintro out rfl hout
      simp only [hout, if_false, if_true]
    · rintro rfl
      cases ht : s.engine.teardown with
      | mk e outcome =>
        rw [ht] at hdown
        cases hdown
        simp [ht]

theorem count_teardown_asks {line : Text} (hv : v.isOpen = true) (hr : g.posted? r = some line) :
    (v.asks g r).count .teardown = (sequel (v.shell.execute line).2).count .teardown := by
  have hline := List.count_eq_zero.mpr (teardown_not_mem_actions line)
  rw [asks, hr]
  simp only [hv, if_true, List.count_append, hline, Nat.zero_add]

/-- In an open session a request either leaves it open, says nothing else and
tears nothing down, or it closes the session, says so and tears the engine down. -/
theorem handle_open (h : Sane v) (hv : v.isOpen = true) (r : ρ) :
    ((v.handle g r).1.isOpen = true ∧ saysClosed (v.handle g r).2 = false ∧
      (v.asks g r).count .teardown = 0) ∨
    ((v.handle g r).1.isOpen = false ∧ saysClosed (v.handle g r).2 = true ∧
      (v.asks g r).count .teardown = 1 ∧
      (v.handle g r).1.shell.engine.registry.slots = []) := by
  cases hr : g.posted? r with
  | none =>
    have hasks : v.asks g r = [] := by rw [asks, hr]
    have hopen := (handle_other hr v).isOpen.trans hv
    exact .inl ⟨hopen, saysClosed_other hv hr, by rw [hasks]; rfl⟩
  | some line =>
    obtain ⟨hfault, hout, hend⟩ := post_cases h.regular hv line
    rw [count_teardown_asks hv hr, handle_posted hr]
    cases hx : (v.shell.execute line).2 with
    | error f =>
      rw [hfault f hx]
      exact .inl ⟨rfl, rfl, rfl⟩
    | ok out =>
      by_cases ho : out = Shell.farewell
      · rw [ho] at hx
        rw [hend hx, ho]
        exact .inr ⟨rfl, rfl, by decide, Engine.slots_teardown (memory_execute h.regular line)⟩
      · rw [hout out hx ho]
        exact .inl ⟨rfl, rfl, by simp [sequel, ho]⟩

theorem handle_closed (hv : v.isOpen = false) (r : ρ) :
    (v.handle g r).1.isOpen = false ∧ (v.handle g r).1.shell.engine = v.shell.engine ∧
      v.asks g r = [] := by
  have hasks : v.asks g r = [] := by
    rw [asks, hv]
    cases g.posted? r <;> rfl
  refine ⟨(handle_isOpen v r).mpr (.inl hv), ?_, hasks⟩
  rw [handle_engine, hasks]
  rfl

theorem sane_handle (h : Sane v) (r : ρ) : Sane (v.handle g r).1 := by
  constructor
  · rw [handle_engine]
    exact Engine.regular_acts h.regular _
  · intro hclosed
    cases hv : v.isOpen with
    | true =>
      rcases handle_open h hv r with ⟨hopen, -⟩ | ⟨-, -, -, hslots⟩
      · rw [hopen] at hclosed
        cases hclosed
      · exact hslots
    | false =>
      rw [(handle_closed hv r).2.1]
      exact h.closed hv

theorem sane_handleAll (h : Sane v) (rs : List ρ) : Sane (v.handleAll g rs).1 := by
  induction rs generalizing v with
  | nil => exact h
  | cons r rs ih => exact ih (sane_handle h r)

theorem count_asks (h : Sane v) (r : ρ) :
    (v.asks g r).count .teardown + (v.handle g r).1.isOpen.toNat = v.isOpen.toNat := by
  cases hv : v.isOpen with
  | true =>
    rcases handle_open h hv r with ⟨hopen, -, hcount⟩ | ⟨hclosed, -, hcount, -⟩
    · rw [hopen, hcount]
      rfl
    · rw [hclosed, hcount]
      rfl
  | false =>
    obtain ⟨hclosed, -, hasks⟩ := handle_closed (g := g) hv r
    rw [hclosed, hasks]
    rfl

theorem count_asksAll (h : Sane v) (rs : List ρ) :
    (v.asksAll g rs).count .teardown + (v.handleAll g rs).1.isOpen.toNat = v.isOpen.toNat := by
  induction rs generalizing v with
  | nil => simp [asksAll, handleAll]
  | cons r rs ih =>
    rw [asksAll, List.count_append, Nat.add_assoc, handleAll, ih (sane_handle h r), count_asks h]

theorem handleAll_closed (hv : v.isOpen = false) (rs : List ρ) :
    (v.handleAll g rs).1.isOpen = false :=
  (handleAll_isOpen v rs).mpr (.inl hv)

theorem any_saysClosed (h : Sane v) (hv : v.isOpen = true) (rs : List ρ) :
    (v.handleAll g rs).2.any saysClosed = !(v.handleAll g rs).1.isOpen := by
  induction rs generalizing v with
  | nil => simp [handleAll, hv]
  | cons r rs ih =>
    rw [handleAll, List.any_cons]
    rcases handle_open (g := g) h hv r with ⟨hopen, htold, -⟩ | ⟨hclosed, htold, -⟩
    · rw [htold, ih (sane_handle h r) hopen]
      rfl
    · rw [htold, handleAll_closed hclosed rs]
      rfl

end

theorem sane_create {c : Config} {table : Table} {v : Service} (hc : create c table = .ok v)
    (hm : table.kind = .ofMemory) : Sane v ∧ v.isOpen = true := by
  unfold create at hc
  cases he : c.engine table [] with
  | error x =>
    rw [he] at hc
    cases hc
  | ok e =>
    rw [he] at hc
    cases hc
    have hnew : e.Regular := by
      unfold Config.engine at he
      split at he
      · cases he
      · split at he
        · cases he
        · cases he
          exact ⟨Registry.sound_empty _ _, hm⟩
    exact ⟨⟨Engine.regular_acts hnew [.start], nofun⟩, rfl⟩

/-- A session of a configuration over a private table, behind any gateway and
after any requests. If no response has said that it is closed, it is open, and a
line posted to it is answered with what the shell makes of it: its output, the
failure of the request if the shell fails, or, if the output is the last one,
the end of the session, which no other request brings. If a response has said
so, the session is closed and has no records, every line is answered alike, the
status is that of a closed session, and no request changes the engine. Over all
the requests the engine was torn down at most once. -/
theorem session_closes_once {ρ : Type} (g : Gateway ρ) {c : Config} {table : Table} {v : Service}
    (hc : create c table = .ok v) (hm : table.kind = .ofMemory) (rs : List ρ) (r : ρ) :
    let w := (v.handleAll g rs).1
    ((∀ a ∈ (v.handleAll g rs).2, saysClosed a = false) →
      w.isOpen = true ∧
      (∀ line, g.posted? r = some line →
        (∀ f, (w.shell.execute line).2 = .error f →
          w.handle g r = (⟨(w.shell.execute line).1, true⟩, some (.error (.fault f)))) ∧
        (∀ out, (w.shell.execute line).2 = .ok out → out ≠ Shell.farewell →
          w.handle g r = (⟨(w.shell.execute line).1, true⟩, some (.ok (result out false)))) ∧
        ((w.shell.execute line).2 = .ok Shell.farewell →
          (w.handle g r).1.isOpen = false ∧
            (w.handle g r).2 = some (.ok (result closedText true)))) ∧
      (g.posted? r = none → saysClosed (w.handle g r).2 = false)) ∧
    ((∃ a ∈ (v.handleAll g rs).2, saysClosed a = true) →
      w.isOpen = false ∧ w.shell.engine.registry.slots = [] ∧
      (∀ line, g.posted? r = some line →
        (w.handle g r).2 = some (.ok (result closedText true))) ∧
      (g.call? r = some .status → (w.handle g r).2 = some (.ok (statusOf false closedText))) ∧
      (w.handle g r).1.isOpen = false ∧ (w.handle g r).1.shell.engine = w.shell.engine) ∧
    w.shell.engine = v.shell.engine.acts (v.asksAll g rs) ∧
    (v.asksAll g rs).count .teardown ≤ 1 := by
  intro w
  obtain ⟨hsane, hopen⟩ := sane_create hc hm
  have hw : Sane w := sane_handleAll hsane rs
  have htold : (v.handleAll g rs).2.any saysClosed = !w.isOpen := any_saysClosed hsane hopen rs
  refine ⟨?_, ?_, handleAll_engine v rs, ?_⟩
  · intro hnone
    have hv : w.isOpen = true := by
      rw [List.any_eq_false.mpr fun a ha => by simp [hnone a ha]] at htold
      simpa using htold.symm
    refine ⟨hv, ?_, saysClosed_other hv⟩
    intro line hr
    obtain ⟨hfault, hout, hend⟩ := post_cases hw.regular hv line
    rw [handle_posted hr]
    refine ⟨?_, ?_, ?_⟩
    · intro f hx
      rw [hfault f hx]
    · intro out hx ho
      rw [hout out hx ho]
    · intro hx
      rw [hend hx]
      exact ⟨rfl, rfl⟩
  · rintro ⟨a, ha, hsaid⟩
    have hv : w.isOpen = false := by
      rw [List.any_eq_true.mpr ⟨a, ha, hsaid⟩] at htold
      simpa using htold.symm
    obtain ⟨hclosed, hengine, -⟩ := handle_closed (g := g) hv r
    refine ⟨hv, hw.closed hv, ?_, ?_, hclosed, hengine⟩
    · intro line hr
      rw [handle_posted hr, post, hv]
      rfl
    · intro hr
      rw [handle_called hr, serve, status, hv]
      rfl
  · have hcount := count_asksAll (g := g) hsane rs
    have hle : v.isOpen.toNat ≤ 1 := Bool.toNat_le v.isOpen
    omega

theorem session_closes_once_sample :
    let poll : Message := ⟨"GET".toList, Endpoint.status.path, none⟩
    let rs := [poll, Message.post "let $HOME = 1".toList, Message.post "exit".toList]
    create .standard .empty = .ok fresh ∧ Table.empty.kind = .ofMemory ∧
      (∃ a ∈ (fresh.handleAll .direct rs).2, saysClosed a = true) ∧
      (fresh.handleAll .direct rs).1.shell.engine.registry.slots = [] ∧
      ((fresh.handleAll .direct rs).1.handle .direct poll).2 =
        some (.ok (statusOf false closedText)) := by
  intro poll rs
  have hsaid : ∃ a ∈ (fresh.handleAll .direct rs).2, saysClosed a = true :=
    List.any_eq_true.mp (by decide +kernel)
  have hc : create .standard .empty = .ok fresh := rfl
  obtain ⟨-, hafter, -, -⟩ := session_closes_once .direct hc rfl rs poll
  obtain ⟨-, hslots, -, hstatus, -, -⟩ := hafter hsaid
  exact ⟨hc, rfl, hsaid, hslots, hstatus rfl⟩

end LetShell.Service
