import LetShell.Proofs.Service.Closing
import LetShell.Proofs.Shell.History

/-!
# Views of a session

A view of the page or of the status changes neither the engine nor the session,
but it leaves a line in the history. So a session with views differs from the
one without them by lines of its history, and the requests that can tell are
those that post a line which asks for it.
-/

set_option autoImplicit false

namespace LetShell.Service

section
variable {ρ : Type} (g : Gateway ρ)

def Gateway.views (r : ρ) : Bool :=
  g.method r = "GET".toList && (g.path r = Endpoint.page.path || g.path r = Endpoint.status.path)

/-- A view that gets to its endpoint. -/
def Gateway.shows (r : ρ) : Bool := g.views r && (g.call? r).isSome

def Gateway.AsksHistory (r : ρ) : Prop := ∃ line, g.posted? r = some line ∧ Shell.AsksHistory line

end

def trace (isOpen : Bool) (c : Call) : List Text :=
  match c.line? with
  | some line => if isOpen then Shell.noted line else []
  | none =>
    match c.endpoint with
    | .page => [Command.version.word]
    | .status => if isOpen then [Command.version.word] else []
    | .execute => []

def traceOf {ρ : Type} (g : Gateway ρ) (isOpen : Bool) (r : ρ) : List Text :=
  ((g.call? r).map (trace isOpen)).getD []

/-- The session `w` is the session `v` but for lines of the history of `v` that
ask for the version. -/
structure Trails (w v : Service) : Prop where
  keeps : Keeps v w
  history : w.shell.history.Sublist v.shell.history
  lines : w.shell.history.filter (· ≠ Command.version.word) =
    v.shell.history.filter (· ≠ Command.version.word)

section
variable {v w : Service}

theorem trails_refl (v : Service) : Trails v v := ⟨keeps_refl v, .refl _, rfl⟩

theorem eq_of_keeps (h : Keeps v w) (hh : w.shell.history = v.shell.history) : w = v := by
  obtain ⟨⟨engine, history⟩, isOpen⟩ := v
  obtain ⟨⟨engine', history'⟩, isOpen'⟩ := w
  obtain ⟨ho, he⟩ := h
  cases ho
  cases he
  cases hh
  rfl

theorem view_eq (v : Service) (shown : Text → Response) : v.view shown =
    ({ v with shell := { v.shell with history := v.shell.history ++ [Command.version.word] } },
      (Failure.ofFault (Shell.version v.shell.engine)).map shown) := rfl

theorem command_history (v : Service) (line : Text) :
    (v.command line).1.shell.history = v.shell.history ++ Shell.noted line := by
  rw [← Shell.execute_history, command]
  split
  · rename_i hx
    rw [hx]
  · rename_i hx
    rw [hx]
    split
    · split <;> rfl
    · rfl

theorem status_history (v : Service) : v.status.1.shell.history =
    v.shell.history ++ if v.isOpen then [Command.version.word] else [] := by
  rw [status]
  cases v.isOpen with
  | true => rfl
  | false => exact (List.append_nil _).symm

theorem serve_history (v : Service) (c : Call) :
    (v.serve c).1.shell.history = v.shell.history ++ trace v.isOpen c := by
  unfold trace
  cases hline : c.line? with
  | some line =>
    rw [serve_line hline, post]
    cases v.isOpen with
    | true => exact command_history v line
    | false => exact (List.append_nil _).symm
  | none =>
    cases c with
    | page => rfl
    | status => exact status_history v
    | execute payload =>
      rw [serve]
      rcases execute_other hline with he | he | he <;> rw [he] <;>
        exact (List.append_nil _).symm

theorem result_inj {out out' : Text} {b b' : Bool} (h : result out b = result out' b') :
    out = out' := by
  simp only [result, answer, Response.mk.injEq, Content.json.injEq, Json.object.injEq,
    List.map_cons, List.cons.injEq, Prod.mk.injEq, Json.ofText, Json.string.injEq] at h
  exact (List.map_inj_right fun _ _ => Char.toNat_inj.mp).mp h.2.1.2

theorem command_asksHistory (v : Service) {line : Text} (h : Shell.AsksHistory line) :
    (v.command line).2 = .ok (result
      (Text.unlines (Shell.numbered 1 (v.shell.history ++ Shell.noted line))) false) := by
  have hx := Shell.execute_asksHistory v.shell h
  have hends : ¬v.shell.Ends line := by
    rintro (he | ⟨he, -⟩)
    · exact absurd (Option.some.inj (h.symm.trans he)) (by decide)
    · exact absurd (Option.some.inj (h.symm.trans he)) (by decide)
  rw [← Shell.execute_farewell_iff, hx, Except.ok.injEq] at hends
  unfold command
  cases hv : v.shell.execute line with
  | mk s x =>
    rw [hv] at hx
    cases hx
    simp only [hends, if_false]

theorem command_answer (h : Keeps v w) {line : Text}
    (hx : (v.shell.execute line).2 = (w.shell.execute line).2) :
    (v.command line).2 = (w.command line).2 := by
  have he : (w.shell.execute line).1.engine = (v.shell.execute line).1.engine := by
    rw [Shell.execute_engine, Shell.execute_engine, h.engine]
  unfold command
  cases hv : v.shell.execute line with
  | mk s x =>
    cases hw : w.shell.execute line with
    | mk s' x' =>
      rw [hv, hw] at hx he
      cases hx
      cases x with
      | error f => rfl
      | ok out =>
        simp only at he ⊢
        rw [he]
        split
        · split <;> rfl
        · rfl

theorem serve_answer (h : Keeps v w) {c : Call} (hline : c.line? = none) :
    (v.serve c).2 = (w.serve c).2 := by
  cases c with
  | page => rw [serve, serve, page, page, view_eq, view_eq, h.engine]
  | status =>
    rw [serve, serve, status, status, h.isOpen]
    cases v.isOpen with
    | true =>
      rw [view_eq, view_eq, h.engine]
      rfl
    | false => rfl
  | execute payload =>
    rw [serve, serve]
    rcases execute_other hline with he | he | he <;> rw [he, he]
    rw [h.isOpen]

end

section
variable {ρ : Type} {g : Gateway ρ} {v w : Service} {r : ρ}

theorem handle_history (v : Service) (r : ρ) :
    (v.handle g r).1.shell.history = v.shell.history ++ traceOf g v.isOpen r := by
  unfold traceOf
  cases hc : g.call? r with
  | none =>
    rw [handle_uncalled hc]
    exact (List.append_nil _).symm
  | some c =>
    rw [handle_called hc]
    exact serve_history v c

theorem call_view (hg : g.Lawful) (h : g.views r = true) {c : Call} (hc : g.call? r = some c) :
    c = .page ∨ c = .status := by
  have hpath : g.path r = Endpoint.page.path ∨ g.path r = Endpoint.status.path := by
    simpa using (Bool.and_eq_true_iff.mp h).2
  rw [hg.path_eq hc] at hpath
  cases c with
  | page => exact .inl rfl
  | status => exact .inr rfl
  | execute payload =>
    change Endpoint.execute.path = _ ∨ Endpoint.execute.path = _ at hpath
    exact absurd hpath (by decide)

theorem posted?_view (hg : g.Lawful) (h : g.views r = true) : g.posted? r = none := by
  cases hc : g.call? r with
  | none => rw [Gateway.posted?, hc, Option.bind_none]
  | some c =>
    rw [posted?_called hc]
    rcases call_view hg h hc with rfl | rfl <;> rfl

/-- A view of an open session leaves a line if it gets to its endpoint, and any
view leaves at most that line. -/
theorem trace_view (hg : g.Lawful) (h : g.views r = true) (isOpen : Bool) :
    traceOf g isOpen r = [Command.version.word] ∧ g.shows r = true ∨
      traceOf g isOpen r = [] ∧ (isOpen = true → g.shows r = false) := by
  unfold traceOf Gateway.shows
  cases hc : g.call? r with
  | none => exact .inr ⟨rfl, fun _ => Bool.and_false _⟩
  | some c =>
    rw [h]
    rcases call_view hg h hc with rfl | rfl
    · exact .inl ⟨rfl, rfl⟩
    · cases isOpen with
      | true => exact .inl ⟨rfl, rfl⟩
      | false => exact .inr ⟨rfl, nofun⟩

theorem asks_keeps (h : Keeps v w) (r : ρ) : w.asks g r = v.asks g r := by
  have hsequel : ∀ line, sequel (w.shell.execute line).2 = sequel (v.shell.execute line).2 := by
    intro line
    have hends : w.shell.Ends line ↔ v.shell.Ends line := by
      simp only [Shell.Ends, Shell.Echoes, h.engine]
    rw [← Shell.execute_farewell_iff, ← Shell.execute_farewell_iff] at hends
    by_cases hv : (v.shell.execute line).2 = .ok Shell.farewell
    · rw [hv, hends.mpr hv]
    · rw [sequel_other hv, sequel_other fun hw => hv (hends.mp hw)]
  unfold asks
  rw [h.isOpen]
  cases g.posted? r with
  | none => rfl
  | some line => simp only [hsequel]

/-- What a request does to the engine and the session does not depend on the
history. -/
theorem keeps_handle (h : Keeps v w) (r : ρ) : Keeps (v.handle g r).1 (w.handle g r).1 := by
  constructor
  · have hcloses : w.Closes g r ↔ v.Closes g r := by
      simp only [Closes, Shell.Ends, Shell.Echoes, Shell.execute_engine, h.isOpen, h.engine]
    have hclosed : (w.handle g r).1.isOpen = false ↔ (v.handle g r).1.isOpen = false := by
      rw [handle_isOpen, handle_isOpen, hcloses, h.isOpen]
    exact Bool.eq_iff_iff.mpr (by simpa using not_congr hclosed)
  · rw [handle_engine, handle_engine, asks_keeps h, h.engine]

theorem trails_handle (h : Trails w v) (r : ρ) : Trails (w.handle g r).1 (v.handle g r).1 := by
  refine ⟨keeps_handle h.keeps r, ?_, ?_⟩
  · rw [handle_history, handle_history, h.keeps.isOpen]
    exact h.history.append_right _
  · rw [handle_history, handle_history, h.keeps.isOpen, List.filter_append, List.filter_append,
      h.lines]

theorem trails_view (hg : g.Lawful) (h : Trails w v) (hr : g.views r = true) :
    Trails w (v.handle g r).1 := by
  have hview := handle_other (posted?_view hg hr) v
  have hlines : (traceOf g v.isOpen r).filter (· ≠ Command.version.word) = [] := by
    rcases trace_view hg hr v.isOpen with ⟨ht, -⟩ | ⟨ht, -⟩ <;> rw [ht]
    · decide
    · rfl
  refine ⟨⟨h.keeps.isOpen.trans hview.isOpen.symm, h.keeps.engine.trans hview.engine.symm⟩, ?_, ?_⟩
  · rw [handle_history]
    exact h.history.trans (List.sublist_append_left ..)
  · rw [handle_history, List.filter_append, hlines, List.append_nil, h.lines]

theorem trails_handleAll (hg : g.Lawful) (h : Trails w v) (rs : List ρ) :
    Trails (w.handleAll g (rs.filter fun x => !g.views x)).1 (v.handleAll g rs).1 := by
  induction rs generalizing v w with
  | nil => exact h
  | cons r rs ih =>
    cases hr : g.views r with
    | true =>
      rw [List.filter_cons_of_neg (by simp [hr])]
      exact ih (trails_view hg h hr)
    | false =>
      rw [List.filter_cons_of_pos (by simp [hr])]
      exact ih (trails_handle h r)

theorem length_history_handleAll (hg : g.Lawful) (h : Trails w v) (rs : List ρ)
    (hopen : (v.handleAll g rs).1.isOpen = true) :
    v.shell.history.length +
        (w.handleAll g (rs.filter fun x => !g.views x)).1.shell.history.length +
        rs.countP g.shows =
      w.shell.history.length + (v.handleAll g rs).1.shell.history.length := by
  induction rs generalizing v w with
  | nil => simp [handleAll, Nat.add_comm]
  | cons r rs ih =>
    have hv : v.isOpen = true := by
      cases hv : v.isOpen with
      | true => rfl
      | false =>
        rw [(handleAll_isOpen v (r :: rs)).mpr (.inl hv)] at hopen
        cases hopen
    have hlength := congrArg List.length (handle_history (g := g) v r)
    rw [List.length_append] at hlength
    cases hr : g.views r with
    | true =>
      have hrest := ih (trails_view hg h hr) hopen
      have hline : (traceOf g v.isOpen r).length = (g.shows r).toNat := by
        rcases trace_view hg hr v.isOpen with ⟨ht, hs⟩ | ⟨ht, hs⟩
        · rw [ht, hs]
          rfl
        · rw [ht, hs hv]
          rfl
      rw [hline] at hlength
      have hcount : (r :: rs).countP g.shows = rs.countP g.shows + (g.shows r).toNat := by
        rw [List.countP_cons]
        cases g.shows r <;> rfl
      rw [List.filter_cons_of_neg (by simp [hr]), hcount, handleAll]
      simp only
      omega
    | false =>
      have hrest := ih (trails_handle h r) hopen
      have hlength' := congrArg List.length (handle_history (g := g) w r)
      rw [List.length_append, h.keeps.isOpen] at hlength'
      have hs : g.shows r = false := by rw [Gateway.shows, hr, Bool.false_and]
      rw [List.filter_cons_of_pos (by simp [hr]), List.countP_cons_of_neg (by simp [hs]),
        handleAll, handleAll]
      simp only
      omega

theorem answer_same (h : Keeps v w) (hn : ¬(v.isOpen = true ∧ g.AsksHistory r)) :
    (v.handle g r).2 = (w.handle g r).2 := by
  cases hc : g.call? r with
  | none => rw [handle_uncalled hc, handle_uncalled hc]
  | some c =>
    rw [handle_called hc, handle_called hc]
    cases hline : c.line? with
    | none => exact congrArg some (serve_answer h hline)
    | some line =>
      rw [serve_line hline, serve_line hline, post, post, h.isOpen]
      cases hv : v.isOpen with
      | false => rfl
      | true =>
        have hposted := (posted?_called hc).trans hline
        have hother : ¬Shell.AsksHistory line := fun hasks => hn ⟨hv, line, hposted, hasks⟩
        exact congrArg some (command_answer h (Shell.execute_answer h.engine.symm hother))

theorem answer_differs (h : Trails w v) (hl : w.shell.history.length < v.shell.history.length)
    (hv : v.isOpen = true) (hr : g.AsksHistory r) : (v.handle g r).2 ≠ (w.handle g r).2 := by
  obtain ⟨line, hp, hasks⟩ := hr
  intro ha
  rw [handle_posted hp, handle_posted hp, post, post, h.keeps.isOpen, hv] at ha
  simp only [if_true, command_asksHistory _ hasks, Option.some.injEq, Except.ok.injEq] at ha
  have hsame : (v.shell.execute line).2 = (w.shell.execute line).2 := by
    rw [Shell.execute_asksHistory _ hasks, Shell.execute_asksHistory _ hasks, result_inj ha]
  exact (Shell.execute_answer_iff h.keeps.engine.symm h.history hl line).mp hsame hasks

/-- Two runs, with the views of a session and without them: they leave the same
engine, and histories that differ by lines that ask for the version. So any next
request is answered alike, but for one: while the session is open and a view has
got to its endpoint, a posted line that asks for the history. -/
theorem views_show_in_history (hg : g.Lawful) (v : Service) (rs : List ρ) (r : ρ) :
    let full := (v.handleAll g rs).1
    let bare := (v.handleAll g (rs.filter fun x => !g.views x)).1
    Trails bare full ∧
    ((full.handle g r).2 = (bare.handle g r).2 ↔
      ¬(full.isOpen = true ∧ g.AsksHistory r ∧ ∃ x ∈ rs, g.shows x = true)) := by
  intro full bare
  have ht : Trails bare full := trails_handleAll hg (trails_refl v) rs
  have hlength : full.isOpen = true → v.shell.history.length + bare.shell.history.length +
      rs.countP g.shows = v.shell.history.length + full.shell.history.length :=
    length_history_handleAll hg (trails_refl v) rs
  refine ⟨ht, ?_, ?_⟩
  · rintro ha ⟨hopen, hr, hviews⟩
    have hpos : 0 < rs.countP g.shows := List.countP_pos_iff.mpr hviews
    have hmore := hlength hopen
    exact answer_differs ht (by omega) hopen hr ha
  · intro hn
    by_cases hasks : full.isOpen = true ∧ g.AsksHistory r
    · -- No view got through, so there is nothing between the two histories.
      have hnone : rs.countP g.shows = 0 :=
        List.countP_eq_zero.mpr fun x hx hs => hn ⟨hasks.1, hasks.2, x, hx, hs⟩
      have hmore := hlength hasks.1
      have hhistory : bare.shell.history = full.shell.history :=
        ht.history.eq_of_length (by omega)
      rw [eq_of_keeps ht.keeps hhistory]
    · exact answer_same ht.keeps hasks

theorem views_show_in_history_sample :
    let page : Message := ⟨"GET".toList, Endpoint.page.path, none⟩
    let rs := [page, Message.post "let $A = 1".toList]
    let full := (fresh.handleAll .direct rs).1
    let bare := (fresh.handleAll .direct (rs.filter fun x => !Gateway.direct.views x)).1
    Gateway.direct.Lawful ∧ Trails bare full ∧
      (full.handle .direct (Message.post "echo $A".toList)).2 =
        (bare.handle .direct (Message.post "echo $A".toList)).2 ∧
      (full.handle .direct (Message.post "history".toList)).2 ≠
        (bare.handle .direct (Message.post "history".toList)).2 := by
  intro page rs full bare
  obtain ⟨htrails, hecho⟩ := views_show_in_history Gateway.lawful_direct fresh rs
    (Message.post "echo $A".toList)
  obtain ⟨-, hhistory⟩ := views_show_in_history Gateway.lawful_direct fresh rs
    (Message.post "history".toList)
  refine ⟨Gateway.lawful_direct, htrails, hecho.mpr ?_, fun hsame => hhistory.mp hsame ?_⟩
  · rintro ⟨-, ⟨line, hposted, hasks⟩, -⟩
    have hline : Gateway.direct.posted? (Message.post "echo $A".toList) =
      some "echo $A".toList := rfl
    cases hline.symm.trans hposted
    change some "echo".toList = some Command.history.word at hasks
    exact absurd hasks (by decide)
  · have hopen : full.isOpen = true := by decide +kernel
    have hposted : Gateway.direct.posted? (Message.post "history".toList) =
      some "history".toList := rfl
    exact ⟨hopen, ⟨_, hposted, rfl⟩, page, List.mem_cons_self, by decide +kernel⟩

/-- A status poll shows in the list that a later command puts out. -/
theorem status_poll_shows_in_history :
    let poll : Message := ⟨"GET".toList, Endpoint.status.path, none⟩
    let ask := Message.post "history".toList
    let bare := [poll].filter fun x => !Gateway.direct.views x
    create .standard .empty = .ok fresh ∧ bare = [] ∧
      ((fresh.handleAll .direct [poll]).1.handle .direct ask).2 =
        some (.ok (result "  1  version\n  2  history".toList false)) ∧
      ((fresh.handleAll .direct bare).1.handle .direct ask).2 =
        some (.ok (result "  1  history".toList false)) ∧
      ((fresh.handleAll .direct [poll]).1.handle .direct ask).2 ≠
        ((fresh.handleAll .direct bare).1.handle .direct ask).2 := by
  intro poll ask bare
  have hfull : ((fresh.handleAll .direct [poll]).1.handle .direct ask).2 =
      some (.ok (result "  1  version\n  2  history".toList false)) := rfl
  have hbare : ((fresh.handleAll .direct bare).1.handle .direct ask).2 =
      some (.ok (result "  1  history".toList false)) := rfl
  refine ⟨rfl, rfl, hfull, hbare, ?_⟩
  rw [hfull, hbare]
  intro hsame
  have htexts := result_inj (Except.ok.inj (Option.some.inj hsame))
  exact absurd htexts (by decide)

end

end LetShell.Service
